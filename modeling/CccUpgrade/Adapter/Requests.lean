import CccUpgrade.Adapter.Handlers

/-! What the handlers ask of the network. Only a login request with the right
password marks a connection as logged in; whatever else a request does, it replies. -/
namespace CccUpgrade

open Lib

variable {φ : Type} {libc : Libc φ}

section Keeps

theorem keeps_effects_call {α : Type} (op : φ → α × φ) :
    Keeps Machine.effects anyFault (Run.call op) :=
  Run.keeps_call (envFree_effects.blind op)

theorem keeps_effects_checked {α : Type} (result : Except Fault α) :
    Keeps Machine.effects anyFault (Run.checked result : Run φ α) :=
  Run.keeps_checked fun _ _ => trivial

theorem keeps_effects_fileUploadSingleFinish (md5sum : List UInt8) :
    Keeps Machine.effects anyFault (fileUploadSingleFinish libc md5sum) :=
  keeps_fileUploadSingleFinish envFree_effects outer_effects md5sum

theorem keeps_effects_fileUploadOpen (dir filetitle : Option (List UInt8)) :
    Keeps Machine.effects anyFault (fileUploadOpen libc dir filetitle) :=
  keeps_fileUploadOpen envFree_effects outer_effects dir filetitle

theorem keeps_effects_fileExecuteScript (dir filetitle : Option (List UInt8)) :
    Keeps Machine.effects anyFault (fileExecuteScript libc dir filetitle) :=
  keeps_fileExecuteScript envFree_effects dir filetitle

end Keeps

structure PDU.LogsIn (pdu : PDU) : Prop where
  cmd : pdu.cmd = pcsClientLogin
  dataLen : 1 < pdu.dataLen
  password : ∃ bytes, pdu.bytes 0 pdu.dataLen.toNat = .ok bytes ∧ checkLogin (cString bytes) = true

/-- The calls into the network that a PDU can lead to. -/
inductive PDU.Says (pdu : PDU) : Effect → Prop
  | setLogin (h : pdu.LogsIn) : pdu.Says .setLogin
  | replyToClient {cmdEx : UInt8} {data : List UInt8} (h : data.length ≤ 5) :
      pdu.Says (.replyToClient pdu.cmd cmdEx data)
  | replyToUdp {data : List UInt8} (h : data.length ≤ 2052) :
      pdu.Says (.replyToUdp pcsDiscoverDevice pcsEx01 data)

section Says

variable {P : Effect → Prop}

def Emits {α : Type} (P : Effect → Prop) (m : Run φ α) : Prop :=
  Triple (fun st => ∀ effect ∈ st.effects, P effect) m (fun _ st => ∀ effect ∈ st.effects, P effect)
    anyFault

theorem emits_emit {effect : Effect} (h : P effect) : Emits P (Run.emit effect : Run φ Unit) := by
  intro st hs e he
  rcases List.mem_append.mp he with hbefore | hhere
  · exact hs e hbefore
  · rw [List.mem_singleton.mp hhere]
    exact h

theorem Emits.of_keeps {α : Type} {m : Run φ α} (h : Keeps Machine.effects anyFault m) : Emits P m :=
  h.triple fun effects => ∀ effect ∈ effects, P effect

theorem Emits.bind {α β : Type} {m : Run φ α} {f : α → Run φ β} (hm : Emits P m)
    (hf : ∀ a, Emits P (f a)) : Emits P (m >>= f) :=
  Triple.bind hm hf

theorem Emits.after {α β : Type} {m : Run φ α} {f : α → Run φ β}
    (hm : Keeps Machine.effects anyFault m) (hf : ∀ a, Emits P (f a)) : Emits P (m >>= f) :=
  .bind (.of_keeps hm) hf

theorem keeps_effects_payloadString (pdu : PDU) (start count : Nat) :
    Keeps Machine.effects anyFault (payloadString libc pdu start count) :=
  keeps_payloadString (fun _ _ => trivial) (envFree_effects.silent libc) _ _ _

theorem triple_payloadString (pdu : PDU) (start count : Nat) :
    Triple (fun st => ∀ effect ∈ st.effects, P effect) (payloadString libc pdu start count)
      (fun content st => (∃ bytes, pdu.bytes start count = .ok bytes ∧ content = cString bytes) ∧
        ∀ effect ∈ st.effects, P effect) anyFault := by
  unfold payloadString
  apply Triple.bind ((keeps_effects_call _).triple fun effects => ∀ effect ∈ effects, P effect)
  intro allocated
  split
  · exact Triple.throw trivial
  · apply Triple.bind (Run.triple_checked fun _ _ => trivial)
    intro bytes
    exact Triple.pure fun st hs => ⟨⟨bytes, hs.1, rfl⟩, hs.2⟩

def RepliesMeet (P : Effect → Prop) (cmd : UInt8) : Prop :=
  ∀ cmdEx data, data.length ≤ 5 → P (.replyToClient cmd cmdEx data)

theorem emits_sendReplyToClient {cmd cmdEx : UInt8} (hP : RepliesMeet P cmd) {data : List UInt8}
    (h : data.length ≤ 5) : Emits P (sendReplyToClient cmd cmdEx data : Run φ Unit) :=
  emits_emit (hP _ _ h)

theorem emits_status {cmd : UInt8} (hP : RepliesMeet P cmd) (cmdEx : UInt8) (b : Bool) :
    Emits P (sendReplyToClient cmd cmdEx [replyStatus b] : Run φ Unit) :=
  emits_sendReplyToClient hP (by simp)

section Client

theorem emits_processProtocolUpgrade (hP : RepliesMeet P pcsUpgrade) (pdu : PDU) :
    Emits P (processProtocolUpgrade libc pdu) := by
  have hreply : ∀ b errorCode, Emits P
      (sendReplyToClient pcsUpgrade pcsEx01 [replyStatus b, errorCode] : Run φ Unit) :=
    fun b errorCode => emits_sendReplyToClient hP (by simp)
  unfold processProtocolUpgrade processProtocolUpgradeCmdEx01 processProtocolUpgradeCmdEx02
  split
  · dsimp only
    split
    · apply Emits.after (keeps_effects_payloadString _ _ _)
      intro filetitle
      apply Emits.after Run.keeps_upgradeTempDir
      intro dir
      apply Emits.after (keeps_effects_fileExecuteScript _ _)
      intro errorCode
      split <;> exact hreply _ _
    · exact hreply _ _
  split
  · exact .of_keeps (keeps_effects_call _)
  · exact .of_keeps Keeps.pure

section Upload

variable (hP : RepliesMeet P pcsUploadFile)
include hP

theorem emits_cmdEx02 (pdu : PDU) : Emits P (processProtocolUploadFileCmdEx02 libc pdu) := by
  unfold processProtocolUploadFileCmdEx02
  dsimp only
  split
  · apply Emits.after (keeps_effects_payloadString _ _ _)
    intro filetitle
    apply Emits.after Run.keeps_upgradeTempDir
    intro dir
    apply Emits.after (keeps_effects_fileUploadOpen _ _)
    intro opened
    split <;> exact emits_status hP _ _
  · exact emits_status hP _ _

theorem emits_cmdEx03 (pdu : PDU) : Emits P (processProtocolUploadFileCmdEx03 libc pdu) := by
  have hecho : ∀ b, Emits P (do
      let echo ← Run.checked (pdu.bytes 0 4)
      sendReplyToClient pcsUploadFile pcsEx03 (replyStatus b :: echo) : Run φ Unit) := by
    intro b
    apply Triple.bind (Run.triple_checked fun _ _ => trivial)
    intro echo
    apply Triple.assume
    intro hbytes
    exact emits_sendReplyToClient hP (Nat.succ_le_succ (PDU.bytes_length_le hbytes))
  unfold processProtocolUploadFileCmdEx03
  dsimp only
  split
  · apply Emits.after (keeps_effects_checked _)
    intro offset
    apply Emits.after (keeps_effects_checked _)
    intro dataBuf
    apply Emits.after (keeps_fileUploadWrite (fun _ _ => envFree_effects.blind _)
      (fun _ _ => envFree_effects.blind _) _ _)
    intro written
    split <;> exact hecho _
  · exact hecho _

theorem emits_cmdEx04 (pdu : PDU) : Emits P (processProtocolUploadFileCmdEx04 libc pdu) := by
  unfold processProtocolUploadFileCmdEx04
  dsimp only
  split
  · apply Emits.after (keeps_effects_checked _)
    intro status
    split
    · apply Emits.after (keeps_effects_payloadString _ _ _)
      intro md5sum
      apply Emits.after (keeps_effects_fileUploadSingleFinish _)
      intro finished
      split <;> exact emits_status hP _ _
    · exact emits_status hP _ _
  · exact emits_status hP _ _

theorem emits_cmdEx05 (pdu : PDU) : Emits P (processProtocolUploadFileCmdEx05 pdu : Run φ Unit) := by
  unfold processProtocolUploadFileCmdEx05
  dsimp only
  split
  · apply Emits.after (keeps_effects_checked _)
    intro status
    split <;> exact emits_status hP _ _
  · exact emits_status hP _ _

theorem emits_processProtocolUploadFile (pdu : PDU) :
    Emits P (processProtocolUploadFile libc pdu) := by
  unfold processProtocolUploadFile
  split
  · exact emits_status hP _ _
  split
  · exact emits_cmdEx02 hP pdu
  split
  · exact emits_cmdEx03 hP pdu
  split
  · exact emits_cmdEx04 hP pdu
  split
  · exact emits_cmdEx05 hP pdu
  · exact .of_keeps Keeps.pure

end Upload

theorem emits_processProtocolClientLogin (hP : RepliesMeet P pcsClientLogin) {pdu : PDU}
    (hcmd : pdu.cmd = pcsClientLogin) (hlogin : pdu.LogsIn → P .setLogin) :
    Emits P (processProtocolClientLogin libc pdu) := by
  unfold processProtocolClientLogin
  dsimp only
  split
  · rename_i hlen
    apply Triple.bind (triple_payloadString pdu 0 _)
    intro password
    apply Triple.assume
    rintro ⟨bytes, hbytes, rfl⟩
    change Emits P _
    split
    · rename_i hright
      apply Emits.bind
      · exact emits_emit (hlogin ⟨hcmd, hlen, bytes, hbytes, hright⟩)
      · exact fun _ => emits_status hP _ _
    · exact emits_status hP _ _
  · exact emits_status hP _ _

end Client

section Udp

variable (hP : ∀ data, data.length ≤ 2052 → P (.replyToUdp pcsDiscoverDevice pcsEx01 data))
include hP

theorem emits_sendIpLoop (hostname : List UInt8) (ifList : List IfAddr) :
    Emits P (sendIpLoop hostname ifList : Run φ Unit) := by
  induction ifList with
  | nil => exact .of_keeps Keeps.pure
  | cons ifa ifList ih =>
      rw [sendIpLoop]
      dsimp only
      split
      · exact .after (Run.keeps_fault trivial) fun _ => ih
      · exact ih
      · rename_i ipaddr _
        have hdata : (appendData ipaddr ++ appendData hostname).length ≤ 2052 := by
          have hipaddr := appendData_length_le ipaddr
          have hhostname := appendData_length_le hostname
          rw [List.length_append]
          omega
        split
        · exact .bind (emits_emit (hP _ hdata)) fun _ => ih
        · exact ih

theorem emits_processProtocolDiscoverDevice : Emits P (processProtocolDiscoverDevice libc) := by
  have hsendIp : Emits P (sendIp libc) := by
    unfold sendIp
    apply Emits.after (keeps_effects_call _)
    intro ifList
    split
    · apply Emits.after (keeps_effects_call _)
      intro hostname
      split
      · exact .bind (emits_sendIpLoop hP _ _) fun _ => .of_keeps Keeps.pure
      · exact .of_keeps Keeps.pure
    · exact .of_keeps Keeps.pure
  exact .bind hsendIp fun _ => .of_keeps Keeps.pure

end Udp

theorem emits_processProtocolPdu {pdu : PDU} (hP : ∀ effect, pdu.Says effect → P effect)
    (bLogin : Bool) : Emits P (processProtocolPdu libc pdu bLogin) := by
  have hclient : ∀ cmd, pdu.cmd = cmd → RepliesMeet P cmd := by
    rintro _ rfl _ _ h
    exact hP _ (.replyToClient h)
  unfold processProtocolPdu
  cases hbranch : pdu.branch bLogin with
  | discoverDevice =>
      exact emits_processProtocolDiscoverDevice fun _ h => hP _ (.replyToUdp h)
  | clientLogin =>
      have hcmd : pdu.cmd = pcsClientLogin := by
        by_contra hne
        unfold PDU.branch at hbranch
        rw [if_neg hne] at hbranch
        split at hbranch
        · cases hbranch
        · split at hbranch <;> cases hbranch
      exact emits_processProtocolClientLogin (hclient _ hcmd) hcmd fun h => hP _ (.setLogin h)
  | notLogin => exact .of_keeps Keeps.pure
  | afterLogin =>
      change Emits _ (processProtocolPduAfterLogin libc pdu)
      unfold processProtocolPduAfterLogin
      split
      · exact emits_processProtocolUploadFile (hclient _ ‹_›) pdu
      split
      · exact emits_processProtocolUpgrade (hclient _ ‹_›) pdu
      · exact .of_keeps Keeps.pure

theorem says_of_run {pdu : PDU} {bLogin : Bool} {machine machine' : Machine φ}
    (hrun : processProtocolPdu libc pdu bLogin { machine with effects := [] } = .ok ((), machine')) :
    ∀ effect ∈ machine'.effects, pdu.Says effect :=
  (emits_processProtocolPdu (fun _ h => h) bLogin).ok (s := { machine with effects := [] })
    (fun _ h => absurd h List.not_mem_nil) hrun

end Says

def LoginOnlyIf (A : Prop) (effects : List Effect) : Prop := .setLogin ∈ effects → A

section Login

variable {A : Prop}

def Quiet {α : Type} (A : Prop) (m : Run φ α) : Prop :=
  Triple (fun st => LoginOnlyIf A st.effects) m (fun _ st => LoginOnlyIf A st.effects) anyFault

theorem quiet_processProtocolPdu (pdu : PDU) (bLogin : Bool) :
    Quiet pdu.LogsIn (processProtocolPdu libc pdu bLogin) := by
  have hsaid : ∀ effect, pdu.Says effect → effect = .setLogin → pdu.LogsIn := by
    intro effect h
    cases h with
    | setLogin h => exact fun _ => h
    | replyToClient | replyToUdp => exact nofun
  apply (emits_processProtocolPdu hsaid bLogin).mono
  · exact fun _ hs effect heffect hlogin => hs (hlogin ▸ heffect)
  · exact fun _ _ hs hmem => hs _ hmem rfl

theorem logsIn_of_setLogin {pdu : PDU} {bLogin : Bool} {machine machine' : Machine φ}
    (hrun : processProtocolPdu libc pdu bLogin { machine with effects := [] } = .ok ((), machine'))
    (hmem : .setLogin ∈ machine'.effects) : pdu.LogsIn :=
  (quiet_processProtocolPdu pdu bLogin).ok (s := { machine with effects := [] })
    (fun h => absurd h List.not_mem_nil) hrun hmem

end Login

end CccUpgrade
