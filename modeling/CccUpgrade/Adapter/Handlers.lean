import CccUpgrade.FileManager.FileManager
import CccUpgrade.Protocol.Core

/-! The request handlers of protocol_adapter.c, up to the calls they make into the
network modules. Their return values are not used by any caller. -/
namespace CccUpgrade

variable {φ : Type} (libc : Libc φ)

def checkLogin (loginInfo : List UInt8) : Bool := loginInfo = literal "jikongupgrade"

/-- `count` bytes at `start` of the payload buffer, which the handlers copy or pass on. -/
def PDU.bytes (pdu : PDU) (start count : Nat) : Except Fault (List UInt8) :=
  if start + count ≤ pdu.data.length then .ok ((pdu.data.drop start).take count)
  else .error (.read pdu.data.length)

theorem PDU.bytes_length_le {pdu : PDU} {start count : Nat} {bytes : List UInt8}
    (h : pdu.bytes start count = .ok bytes) : bytes.length ≤ count := by
  unfold PDU.bytes at h
  split at h <;> cases h
  rw [List.length_take]
  omega

/-- The string made of `count` payload bytes and a NUL in memory of its own. The
result of `malloc` is not checked before the copy. -/
def payloadString (pdu : PDU) (start count : Nat) : Run φ (List UInt8) := do
  if !(← Run.call (libc.malloc · (count + 1))) then Run.fault .null
  else return cString (← Run.checked (pdu.bytes start count))

def replyStatus (bSucceeded : Bool) : UInt8 := if bSucceeded then pcsExOk else pcsExErr

def sendReplyToClient (cmd cmdEx : UInt8) (data : List UInt8) : Run φ Unit :=
  Run.emit (.replyToClient cmd cmdEx data)

def processProtocolUpgradeCmdEx01 (pdu : PDU) : Run φ Unit := do
  let mut bSucceeded := false
  let mut errorCode : Int := 0
  if 1 < pdu.dataLen then
    let filetitle ← payloadString libc pdu 0 pdu.dataLen.toNat
    errorCode ← fileExecuteScript libc (← Run.upgradeTempDir) (some filetitle)
    if errorCode = 0 then bSucceeded := true
  sendReplyToClient pcsUpgrade pcsEx01 [replyStatus bSucceeded, UInt8.ofNat errorCode.toNat]

def processProtocolUpgradeCmdEx02 : Run φ Unit := rebootDevice libc

def processProtocolUpgrade (pdu : PDU) : Run φ Unit :=
  if pdu.cmdEx = pcsEx01 then processProtocolUpgradeCmdEx01 libc pdu
  else if pdu.cmdEx = pcsEx02 then processProtocolUpgradeCmdEx02 libc
  else return ()

def processProtocolUploadFileCmdEx01 : Run φ Unit :=
  sendReplyToClient pcsUploadFile pcsEx01 [replyStatus true]

def processProtocolUploadFileCmdEx02 (pdu : PDU) : Run φ Unit := do
  let mut bSucceeded := false
  if 1 < pdu.dataLen then
    let filetitle ← payloadString libc pdu 0 pdu.dataLen.toNat
    if ← fileUploadOpen libc (← Run.upgradeTempDir) (some filetitle) then bSucceeded := true
  sendReplyToClient pcsUploadFile pcsEx02 [replyStatus bSucceeded]

def asLong (n : Nat) : Int := (n : Int).bmod (2 ^ libc.longBits)

/-- The reply echoes the first four bytes of the payload buffer, also when the
payload is shorter. -/
def processProtocolUploadFileCmdEx03 (pdu : PDU) : Run φ Unit := do
  let mut bSucceeded := false
  if 4 < pdu.dataLen then
    let offset := fourBytesToUint (← Run.checked (pdu.bytes 0 4))
    let dataBuf ← Run.checked (pdu.bytes 4 (pdu.dataLen.toNat - 4))
    if ← fileUploadWrite libc (asLong libc offset) dataBuf then bSucceeded := true
  let echo ← Run.checked (pdu.bytes 0 4)
  sendReplyToClient pcsUploadFile pcsEx03 (replyStatus bSucceeded :: echo)

def processProtocolUploadFileCmdEx04 (pdu : PDU) : Run φ Unit := do
  let mut bSucceeded := false
  if 1 < pdu.dataLen then
    if (← Run.checked (readByte pdu.data 0)) = pcsExOk then
      let md5sum ← payloadString libc pdu 1 (pdu.dataLen.toNat - 1)
      if ← fileUploadSingleFinish libc md5sum then bSucceeded := true
  sendReplyToClient pcsUploadFile pcsEx04 [replyStatus bSucceeded]

def processProtocolUploadFileCmdEx05 (pdu : PDU) : Run φ Unit := do
  let mut bSucceeded := false
  if 1 ≤ pdu.dataLen then
    if (← Run.checked (readByte pdu.data 0)) = pcsExOk then bSucceeded := true
  sendReplyToClient pcsUploadFile pcsEx05 [replyStatus bSucceeded]

def processProtocolUploadFile (pdu : PDU) : Run φ Unit :=
  if pdu.cmdEx = pcsEx01 then processProtocolUploadFileCmdEx01
  else if pdu.cmdEx = pcsEx02 then processProtocolUploadFileCmdEx02 libc pdu
  else if pdu.cmdEx = pcsEx03 then processProtocolUploadFileCmdEx03 libc pdu
  else if pdu.cmdEx = pcsEx04 then processProtocolUploadFileCmdEx04 libc pdu
  else if pdu.cmdEx = pcsEx05 then processProtocolUploadFileCmdEx05 pdu
  else return ()

def processProtocolPduAfterLogin (pdu : PDU) : Run φ Unit :=
  if pdu.cmd = pcsUploadFile then processProtocolUploadFile libc pdu
  else if pdu.cmd = pcsUpgrade then processProtocolUpgrade libc pdu
  else return ()

def processProtocolClientLogin (pdu : PDU) : Run φ Unit := do
  let mut bSucceeded := false
  if 1 < pdu.dataLen then
    let password ← payloadString libc pdu 0 pdu.dataLen.toNat
    if checkLogin password then
      Run.emit .setLogin
      bSucceeded := true
  sendReplyToClient pcsClientLogin pcsEx01 [replyStatus bSucceeded]

def appendData (data : List UInt8) : List UInt8 :=
  if 1024 < data.length then []
  else UInt8.ofNat (data.length / 2 ^ 8) :: UInt8.ofNat data.length :: data

theorem appendData_length_le (data : List UInt8) : (appendData data).length ≤ 1026 := by
  unfold appendData
  split
  · simp
  · simp only [List.length_cons]
    omega

def sendIpLoop (hostname : List UInt8) : List IfAddr → Run φ Unit
  | [] => return ()
  | ifa :: ifList => do
      match ifa.addr with
      | none => Run.fault .null
      | some none => pure ()
      | some (some ipaddr) =>
          if ifa.name ≠ literal "lo" ∧ ifa.running then
            Run.emit (.replyToUdp pcsDiscoverDevice pcsEx01
              (appendData ipaddr ++ appendData hostname))
      sendIpLoop hostname ifList

def sendIp : Run φ Bool := do
  let some ifList ← Run.call libc.getifaddrs | return false
  let some hostname ← Run.call libc.gethostname | return false
  sendIpLoop hostname ifList
  return true

def processProtocolDiscoverDevice : Run φ Unit := do
  let _ ← sendIp libc

inductive Branch
  | discoverDevice
  | clientLogin
  | notLogin
  | afterLogin
deriving DecidableEq, Repr

def PDU.branch (pdu : PDU) (bLogin : Bool) : Branch :=
  if pdu.cmd = pcsDiscoverDevice then .discoverDevice
  else if pdu.cmd = pcsClientLogin then .clientLogin
  else if bLogin = false then .notLogin
  else .afterLogin

def processProtocolPdu (pdu : PDU) (bLogin : Bool) : Run φ Unit :=
  match pdu.branch bLogin with
  | .discoverDevice => processProtocolDiscoverDevice libc
  | .clientLogin => processProtocolClientLogin libc pdu
  | .notLogin => return ()
  | .afterLogin => processProtocolPduAfterLogin libc pdu

section Keeps

open Lib

variable {libc} {γ : Type} {view : Machine φ → γ} {E : Fault → Prop} (hE : ∀ f, f.NotOfHeap → E f)
include hE

theorem keeps_checked_bytes (pdu : PDU) (start count : Nat) :
    Keeps view E (Run.checked (pdu.bytes start count) : Run φ (List UInt8)) := by
  apply Run.keeps_checked
  intro f hf
  unfold PDU.bytes at hf
  split at hf
  · cases hf
  · cases hf
    exact hE _ rfl

omit hE in
theorem notOfHeap_readByte {data : List UInt8} {index : Nat} (f : Fault)
    (h : readByte data index = .error f) : f.NotOfHeap := by
  unfold readByte at h
  split at h
  · cases h
  · cases h
    rfl

theorem keeps_payloadString (hview : libc.Silent view) (pdu : PDU) (start count : Nat) :
    Keeps view E (payloadString libc pdu start count) := by
  unfold payloadString
  apply Keeps.bind (Run.keeps_call (hview.malloc _))
  intro allocated
  split
  · exact Run.keeps_fault (hE _ rfl)
  · exact Keeps.bind (keeps_checked_bytes hE _ _ _) fun _ => Keeps.pure

variable (heffects : EffectFree view)
include heffects

omit hE in
theorem keeps_sendReplyToClient (cmd cmdEx : UInt8) (data : List UInt8) :
    Keeps view E (sendReplyToClient cmd cmdEx data : Run φ Unit) :=
  Run.keeps_emit heffects _

theorem keeps_cmdEx03 (hfseek : ∀ n offset, Blind view (libc.fseek · n offset))
    (hfwrite : ∀ n dataBuf, Blind view (libc.fwrite · n dataBuf)) (pdu : PDU) :
    Keeps view E (processProtocolUploadFileCmdEx03 libc pdu) := by
  unfold processProtocolUploadFileCmdEx03
  dsimp only
  have hreply : ∀ bSucceeded, Keeps view E (do
      let echo ← Run.checked (pdu.bytes 0 4)
      sendReplyToClient pcsUploadFile pcsEx03 (replyStatus bSucceeded :: echo) : Run φ Unit) := by
    intro bSucceeded
    apply Keeps.bind (keeps_checked_bytes hE _ _ _)
    exact fun _ => keeps_sendReplyToClient heffects _ _ _
  split
  · apply Keeps.bind (keeps_checked_bytes hE _ _ _)
    intro offset
    apply Keeps.bind (keeps_checked_bytes hE _ _ _)
    intro dataBuf
    apply Keeps.bind (keeps_fileUploadWrite hfseek hfwrite _ _)
    intro written
    split <;> exact hreply _
  · exact hreply _

theorem keeps_cmdEx05 (pdu : PDU) :
    Keeps view E (processProtocolUploadFileCmdEx05 pdu : Run φ Unit) := by
  unfold processProtocolUploadFileCmdEx05
  dsimp only
  split
  · apply Keeps.bind (Run.keeps_checked fun f hf => hE f (notOfHeap_readByte f hf))
    intro status
    split <;> exact keeps_sendReplyToClient heffects _ _ _
  · exact keeps_sendReplyToClient heffects _ _ _

variable (hview : libc.Silent view)
include hview

theorem keeps_processProtocolClientLogin (pdu : PDU) :
    Keeps view E (processProtocolClientLogin libc pdu) := by
  unfold processProtocolClientLogin
  dsimp only
  split
  · apply Keeps.bind (keeps_payloadString hE hview _ _ _)
    intro password
    split
    · apply Keeps.bind (Run.keeps_emit heffects _)
      exact fun _ => keeps_sendReplyToClient heffects _ _ _
    · exact keeps_sendReplyToClient heffects _ _ _
  · exact keeps_sendReplyToClient heffects _ _ _

omit hview in
theorem keeps_sendIpLoop (hostname : List UInt8) (ifList : List IfAddr) :
    Keeps view E (sendIpLoop hostname ifList : Run φ Unit) := by
  induction ifList with
  | nil => exact Keeps.pure
  | cons ifa ifList ih =>
      rw [sendIpLoop]
      dsimp only
      split
      · exact Keeps.bind (Run.keeps_fault (hE _ rfl)) fun _ => ih
      · exact ih
      · split
        · exact Keeps.bind (Run.keeps_emit heffects _) fun _ => ih
        · exact ih

theorem keeps_processProtocolDiscoverDevice :
    Keeps view E (processProtocolDiscoverDevice libc) := by
  have hsendIp : Keeps view E (sendIp libc) := by
    unfold sendIp
    apply Keeps.bind (Run.keeps_call hview.getifaddrs)
    intro ifList
    split
    · apply Keeps.bind (Run.keeps_call hview.gethostname)
      intro hostname
      split
      · exact Keeps.bind (keeps_sendIpLoop hE heffects _ _) fun _ => Keeps.pure
      · exact Keeps.pure
    · exact Keeps.pure
  exact Keeps.bind hsendIp fun _ => Keeps.pure

end Keeps

section Whole

open Lib

variable {libc} {γ : Type} {view : Machine φ → γ} (henv : EnvFree view) (houter : Outer view)
  (heffects : EffectFree view)
include henv houter heffects

theorem keeps_processProtocolUploadFile (pdu : PDU) :
    Keeps view anyFault (processProtocolUploadFile libc pdu) := by
  have hreply : ∀ cmdEx b, Keeps view anyFault
      (sendReplyToClient pcsUploadFile cmdEx [replyStatus b] : Run φ Unit) :=
    fun _ _ => keeps_sendReplyToClient heffects _ _ _
  unfold processProtocolUploadFile
  split
  · exact hreply _ true
  split
  · unfold processProtocolUploadFileCmdEx02
    dsimp only
    split
    · apply Keeps.bind (keeps_payloadString (fun _ _ => trivial) (henv.silent libc) _ _ _)
      intro filetitle
      apply Keeps.bind Run.keeps_upgradeTempDir
      intro dir
      apply Keeps.bind (keeps_fileUploadOpen henv houter _ _)
      intro opened
      split <;> exact hreply _ _
    · exact hreply _ _
  split
  · exact keeps_cmdEx03 (fun _ _ => trivial) heffects (fun _ _ => henv.blind _)
      (fun _ _ => henv.blind _) pdu
  split
  · unfold processProtocolUploadFileCmdEx04
    dsimp only
    split
    · apply Keeps.bind (Run.keeps_checked fun _ _ => trivial)
      intro status
      split
      · apply Keeps.bind (keeps_payloadString (fun _ _ => trivial) (henv.silent libc) _ _ _)
        intro md5sum
        apply Keeps.bind (keeps_fileUploadSingleFinish henv houter _)
        intro finished
        split <;> exact hreply _ _
      · exact hreply _ _
    · exact hreply _ _
  split
  · exact keeps_cmdEx05 (fun _ _ => trivial) heffects pdu
  · exact Keeps.pure

omit houter in
theorem keeps_processProtocolUpgrade (pdu : PDU) :
    Keeps view anyFault (processProtocolUpgrade libc pdu) := by
  unfold processProtocolUpgrade processProtocolUpgradeCmdEx01 processProtocolUpgradeCmdEx02
  split
  · dsimp only
    split
    · apply Keeps.bind (keeps_payloadString (fun _ _ => trivial) (henv.silent libc) _ _ _)
      intro filetitle
      apply Keeps.bind Run.keeps_upgradeTempDir
      intro dir
      apply Keeps.bind (keeps_fileExecuteScript henv _ _)
      intro errorCode
      split <;> exact keeps_sendReplyToClient heffects _ _ _
    · exact keeps_sendReplyToClient heffects _ _ _
  split
  · exact Run.keeps_call (henv.blind _)
  · exact Keeps.pure

theorem keeps_processProtocolPdu (pdu : PDU) (bLogin : Bool) :
    Keeps view anyFault (processProtocolPdu libc pdu bLogin) := by
  unfold processProtocolPdu
  split
  · exact keeps_processProtocolDiscoverDevice (fun _ _ => trivial) heffects (henv.silent libc)
  · exact keeps_processProtocolClientLogin (fun _ _ => trivial) heffects (henv.silent libc) pdu
  · exact Keeps.pure
  · unfold processProtocolPduAfterLogin
    split
    · exact keeps_processProtocolUploadFile henv houter heffects pdu
    split
    · exact keeps_processProtocolUpgrade henv heffects pdu
    · exact Keeps.pure

end Whole

theorem keeps_upgradeTempDir_process (pdu : PDU) (bLogin : Bool) :
    Lib.Keeps Machine.upgradeTempDir anyFault (processProtocolPdu libc pdu bLogin) :=
  keeps_processProtocolPdu (fun _ _ => rfl) ⟨fun _ _ => rfl, fun _ _ => rfl⟩ (fun _ _ => rfl) pdu bLogin

def obligingLibc : Libc Unit where
  malloc env _ := (true, env)
  access env _ := (true, env)
  mkdir env _ := (true, env)
  fopenWrite env _ := (some 3, env)
  fopenRead env _ := (some 4, env)
  fseek env _ _ := (true, env)
  fwrite env _ dataBuf := (dataBuf.length, env)
  freads env _ := ([], env)
  fclose env _ := ((), env)
  chmod env _ := (true, env)
  system env _ := ((), env)
  getifaddrs env := (some [], env)
  gethostname env := (some (literal "ccc"), env)
  longBits := 32

def idleMachine : Machine Unit :=
  ⟨(), .empty, ⟨none, none, none⟩, some (literal "up"), []⟩

end CccUpgrade
