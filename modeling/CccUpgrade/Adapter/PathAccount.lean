import CccUpgrade.Adapter.PathConfinement
import CccUpgrade.Adapter.UploadSession

/-! Where the paths of file and script calls come from. What a request opens, makes
executable or runs is named by that request; what a checksum reads is the file that an open
request before it has named. -/
namespace CccUpgrade

open Lib

variable {φ : Type}

structure Allowance where
  opens : List UInt8 → Prop
  runs : List UInt8 → Prop

def SysCall.Allowed (a : Allowance) : SysCall → Prop
  | .fopenWrite path _ | .fopenRead path _ => a.opens path
  | .chmod path | .system path => a.runs path
  | .fseek .. | .fwrite .. | .fclose _ => True

theorem SysCall.Allowed.mono {a b : Allowance} (hopens : ∀ path, a.opens path → b.opens path)
    (hruns : ∀ path, a.runs path → b.runs path) {call : SysCall} (h : call.Allowed a) :
    call.Allowed b := by
  cases call with
  | fopenWrite path | fopenRead path => exact hopens path h
  | chmod path | system path => exact hruns path h
  | fseek | fwrite | fclose => trivial

structure Footprint where
  upgradeTempDir : Option (List UInt8)
  calls : List SysCall
  files : Files

def Machine.footprint (st : Machine (Traced φ)) : Footprint :=
  ⟨st.upgradeTempDir, st.calls, st.files⟩

structure Accounted (a : Allowance) (dir : Option (List UInt8)) (v : Footprint) : Prop where
  upgradeTempDir : v.upgradeTempDir = dir
  calls : ∀ call ∈ v.calls, call.Allowed a
  kept : ∀ token, v.files.2.filenameTx = some token → token < v.files.1.blocks.length ∧
    ∀ path, v.files.1.read token = some path → a.opens path

namespace Accounted

variable {a : Allowance} {dir : Option (List UInt8)} {v : Footprint}

theorem mono {b : Allowance} (h : Accounted a dir v) (hopens : ∀ path, a.opens path → b.opens path)
    (hruns : ∀ path, a.runs path → b.runs path) : Accounted b dir v where
  upgradeTempDir := h.upgradeTempDir
  calls call hcall := (h.calls call hcall).mono hopens hruns
  kept token htoken := by
    obtain ⟨hlt, hpath⟩ := h.kept token htoken
    exact ⟨hlt, fun path hread => hopens path (hpath path hread)⟩

theorem call (h : Accounted a dir v) {call : SysCall} (hcall : call.Allowed a) :
    Accounted a dir { v with calls := v.calls ++ [call] } where
  upgradeTempDir := h.upgradeTempDir
  calls c hc := by
    rcases List.mem_append.mp hc with hbefore | hhere
    · exact h.calls c hbefore
    · rw [List.mem_singleton.mp hhere]
      exact hcall
  kept := h.kept

theorem heap (h : Accounted a dir v) {heap : Heap (List UInt8)}
    (hlength : v.files.1.blocks.length ≤ heap.blocks.length)
    (hread : ∀ token path, v.files.2.filenameTx = some token → heap.read token = some path →
      v.files.1.read token = some path) :
    Accounted a dir { v with files := (heap, v.files.2) } where
  upgradeTempDir := h.upgradeTempDir
  calls := h.calls
  kept token htoken := by
    obtain ⟨hlt, hpath⟩ := h.kept token htoken
    exact ⟨hlt.trans_le hlength, fun path hhere => hpath path (hread token path htoken hhere)⟩

theorem alloc (h : Accounted a dir v) (content : List UInt8) :
    Accounted a dir { v with files := ((v.files.1.alloc content).2, v.files.2) } := by
  refine h.heap (by simp [Heap.alloc]) fun token path htoken hread => ?_
  rwa [Heap.read_alloc_of_lt _ _ (h.kept token htoken).1] at hread

theorem free (h : Accounted a dir v) {token : Nat} {heap : Heap (List UInt8)}
    (hfree : v.files.1.free token = some heap) :
    Accounted a dir { v with files := (heap, v.files.2) } := by
  refine h.heap (Heap.length_free hfree).ge fun other path _ hread => ?_
  by_cases heq : other = token
  · subst heq
    obtain ⟨content, hlive⟩ : v.files.1.Live other := by
      unfold Heap.free at hfree
      split at hfree
      · rename_i content hread
        exact ⟨content, hread⟩
      · cases hfree
    obtain ⟨heap', hfree', hdead⟩ := Heap.Live.free ⟨content, hlive⟩
    rw [hfree] at hfree'
    cases hfree'
    exact absurd ⟨path, hread⟩ hdead
  · rwa [Heap.read_free_of_ne hfree heq] at hread

end Accounted

theorem silent_footprint {libc : Libc φ} : libc.traced.Silent Machine.footprint :=
  libc.traced_silent fun _ _ => rfl

def Within {α : Type} (a : Allowance) (dir : Option (List UInt8)) (m : Run (Traced φ) α) : Prop :=
  Triple (fun st => Accounted a dir st.footprint) m (fun _ st => Accounted a dir st.footprint) anyFault

namespace Within

variable {α β : Type} {a : Allowance} {dir : Option (List UInt8)}

theorem pure {x : α} : Within a dir (Pure.pure x : Run (Traced φ) α) := Triple.pure fun _ hs => hs

theorem bind {m : Run (Traced φ) α} {f : α → Run (Traced φ) β} (hm : Within a dir m)
    (hf : ∀ x, Within a dir (f x)) : Within a dir (m >>= f) := Triple.bind hm hf

theorem of_keeps {m : Run (Traced φ) α} (h : Keeps Machine.footprint anyFault m) : Within a dir m :=
  h.triple (Accounted a dir)

theorem note {op : Traced φ → α × Traced φ} (call : SysCall) (hcall : call.Allowed a)
    (hop : ∀ t, (op t).2.calls = t.calls ++ [call]) : Within a dir (Run.call op) := by
  intro st hs
  change Accounted a dir ⟨st.upgradeTempDir, (op st.env).2.calls, st.files⟩
  rw [hop]
  exact hs.call hcall

theorem opened {libc : Traced φ → Option Nat × φ} {call : Option Nat → SysCall}
    (hcall : ∀ handle, (call handle).Allowed a) :
    Within a dir (Run.call fun t => t.opened call (libc t)) := by
  intro st hs
  have hcalled := fun handle => hs.call (hcall handle)
  change Accounted a dir ⟨st.upgradeTempDir, (st.env.opened call (libc st.env)).2.calls, st.files⟩
  unfold Traced.opened
  split
  · exact hcalled none
  · exact hcalled (some _)

theorem store (content : List UInt8) : Within a dir (Run.store content : Run (Traced φ) Nat) :=
  fun _ hs => hs.alloc content

theorem free (token : Option Nat) : Within a dir (Run.free token : Run (Traced φ) Unit) := by
  intro st hs
  cases token with
  | none => exact hs
  | some token =>
      simp only [Run.free]
      cases hfree : st.heap.free token with
      | none => trivial
      | some heap => exact hs.free hfree

end Within

section Requests

variable {a : Allowance} {dir : Option (List UInt8)} {libc : Libc φ}

theorem within_reply (cmd cmdEx : UInt8) (data : List UInt8) :
    Within a dir (sendReplyToClient cmd cmdEx data : Run (Traced φ) Unit) :=
  .of_keeps (keeps_sendReplyToClient (fun _ _ => rfl) _ _ _)

theorem within_checked {α : Type} (result : Except Fault α) :
    Within a dir (Run.checked result : Run (Traced φ) α) :=
  .of_keeps (Run.keeps_checked fun _ _ => trivial)

theorem within_title {pdu : PDU} {f : List UInt8 → Run (Traced φ) Unit}
    (hf : Within a dir (f (cString pdu.message.data))) :
    Within a dir (payloadString libc.traced pdu 0 pdu.dataLen.toNat >>= f) := by
  apply Triple.bind (Q := fun title st =>
    title = cString pdu.message.data ∧ Accounted a dir st.footprint)
  · unfold payloadString
    apply Triple.bind ((Run.keeps_call (silent_footprint.malloc _)).triple (Accounted a dir))
    intro allocated
    split
    · exact fun _ _ => trivial
    · unfold PDU.bytes
      split
      · exact fun st hs => ⟨rfl, hs⟩
      · exact fun _ _ => trivial
  · intro title
    apply Triple.assume
    rintro rfl
    exact hf

theorem within_strdup (content : List UInt8) : Within a dir (strdup libc.traced content) := by
  unfold strdup
  apply Within.bind (.of_keeps (Run.keeps_call (silent_footprint.malloc _)))
  intro allocated
  split
  · exact .pure
  · exact .bind (.store content) fun _ => .pure

theorem within_uploadFileSave {token : Nat} {path : List UInt8} (hpath : a.opens path)
    (filetitle : List UInt8) (handle : Nat) :
    Triple (fun st => Accounted a dir st.footprint ∧ st.heap.read token = some path)
      (uploadFileSave libc.traced (some filetitle) (some token) (some handle))
      (fun _ st => Accounted a dir st.footprint) anyFault := by
  have hread : Triple (fun st : Machine (Traced φ) => st.heap.read token = some path)
      (strdup libc.traced filetitle)
      (fun name st => st.heap.read token = some path ∧
        ∀ other, name = some other → st.heap.Live other ∧ other ≠ token) anyFault :=
    triple_strdup filetitle
  apply Triple.bind ((within_strdup filetitle).and hread)
  intro filename
  apply Triple.bind (Q := fun _ st => Accounted a dir st.footprint)
  · rintro st ⟨hs, hhere, -⟩
    refine ⟨hs.upgradeTempDir, hs.calls, ?_⟩
    rintro _ ⟨⟩
    refine ⟨Heap.Live.lt ⟨path, hhere⟩, fun path' hread' => ?_⟩
    have heq : some path' = some path := hread'.symm.trans hhere
    rw [Option.some.inj heq]
    exact hpath
  · exact fun _ => Triple.pure fun _ hs => hs

theorem within_fileUploadOpen {title : List UInt8}
    (hopens : a.opens (withSlash (dir.getD []) ++ title)) :
    Within a dir (fileUploadOpen libc.traced dir (some title)) := by
  apply fileUploadOpen_rule silent_footprint fun _ hs => hs
  rintro d title rfl ⟨⟩ _ _
  let path := withSlash d ++ title
  apply Triple.bind (Q := fun token st => Accounted a (some d) st.footprint ∧
    st.heap.read token = some path)
  · exact fun st hs => ⟨hs.alloc path, Heap.read_alloc _ _⟩
  intro token
  apply Triple.bind (Q := fun _ st => Accounted a (some d) st.footprint ∧
    st.heap.read token = some path)
  · have hopen : Within a (some d) (openTxFilename libc.traced path) := Within.opened fun _ => hopens
    have hfiles : Keeps Machine.files anyFault (openTxFilename libc.traced path) :=
      Run.keeps_call (envFree_files.blind _)
    exact hopen.and (hfiles.triple fun v => v.1.read token = some path)
  intro handle
  cases handle with
  | none =>
      apply Triple.bind (Triple.weaken (Within.free (some token)) fun _ hs => hs.1)
      exact fun _ => Triple.pure fun _ hs => hs
  | some handle => exact within_uploadFileSave hopens title handle

theorem within_fileUploadWrite (offset : Int) (dataBuf : List UInt8) :
    Within a dir (fileUploadWrite libc.traced offset dataBuf) := by
  unfold fileUploadWrite uploadFileGetHandle
  apply Within.bind (.of_keeps (Keeps.bind Run.keeps_getUpload fun _ => Keeps.pure))
  intro handle
  split
  · apply Within.bind (.note (.fseek _ offset) trivial fun _ => rfl)
    intro sought
    split
    · exact .pure
    · exact .bind (.note (.fwrite _ dataBuf) trivial fun _ => rfl) fun _ => .pure
  · exact .pure

theorem within_sum (fd : Nat) : Within a dir (sum libc.traced fd) :=
  .of_keeps (keeps_sum silent_footprint (fun _ _ => trivial) fd)

theorem within_checkFileByMd5 (md5sum : List UInt8) (filename : Option Nat) :
    Triple (fun st => Accounted a dir st.footprint ∧ st.upload.filenameTx = filename)
      (checkFileByMd5 libc.traced filename md5sum) (fun _ st => Accounted a dir st.footprint)
      anyFault := by
  have hsum : Triple (fun st => Accounted a dir st.footprint ∧ st.upload.filenameTx = filename)
      (calcuMd5Checksum libc.traced filename) (fun _ st => Accounted a dir st.footprint) anyFault := by
    unfold calcuMd5Checksum
    split
    · rename_i token
      apply Triple.bind (Q := fun path st => a.opens path ∧ Accounted a dir st.footprint)
      · rintro st ⟨hs, htoken⟩
        cases hload : st.heap.read token with
        | none =>
            simp only [Run.load, hload]
            trivial
        | some path =>
            simp only [Run.load, hload]
            exact ⟨(hs.kept token htoken).2 path hload, hs⟩
      · intro path
        apply Triple.assume
        intro hpath
        split
        · exact Within.pure
        have hopen : Within a dir (Run.call (libc.traced.fopenRead · path)) :=
          Within.opened fun _ => hpath
        apply Within.bind hopen
        intro fd
        split
        · apply Within.bind (within_sum _)
          exact fun _ => .bind (.note (.fclose _) trivial fun _ => rfl) fun _ => .pure
        · exact .pure
    · exact Triple.pure fun _ hs => hs.1
  unfold checkFileByMd5
  apply Triple.bind hsum
  intro sumBuffer
  split <;> exact Triple.pure fun _ hs => hs

theorem within_uploadFileClear : Within a dir (uploadFileClear : Run (Traced φ) Bool) := by
  have hfree : ∀ (upload : UploadFile) (token : Option Nat),
      Triple (fun st : Machine (Traced φ) => Accounted a dir st.footprint ∧ st.upload = upload)
        (Run.free token) (fun _ st => Accounted a dir st.footprint ∧ st.upload = upload) anyFault := by
    intro upload token
    have hupload : Keeps Machine.upload anyFault (Run.free token : Run (Traced φ) Unit) :=
      Run.keeps_free (fun _ _ => rfl) _ fun _ _ => trivial
    exact (Within.free token).and (hupload upload)
  unfold uploadFileClear
  apply Triple.bind (Q := fun upload st => Accounted a dir st.footprint ∧ st.upload = upload)
  · exact fun _ hs => ⟨hs, rfl⟩
  intro upload
  apply Triple.bind (hfree upload _)
  intro _
  apply Triple.bind (hfree upload _)
  intro _
  apply Triple.bind (Q := fun _ st => Accounted a dir st.footprint)
  · rintro st ⟨hs, rfl⟩
    exact ⟨hs.upgradeTempDir, hs.calls, hs.kept⟩
  · exact fun _ => Triple.pure fun _ hs => hs

theorem within_fileUploadSingleFinish (md5sum : List UInt8) :
    Within a dir (fileUploadSingleFinish libc.traced md5sum) := by
  have hrest : Within a dir (do
      let filePath ← uploadFileGetPath
      let result ← checkFileByMd5 libc.traced filePath md5sum
      let _ ← uploadFileClear
      return result) := by
    apply Triple.bind (Q := fun path st =>
      Accounted a dir st.footprint ∧ st.upload.filenameTx = path)
    · exact fun _ hs => ⟨hs, rfl⟩
    intro path
    apply Triple.bind (within_checkFileByMd5 md5sum path)
    exact fun _ => Within.bind within_uploadFileClear fun _ => .pure
  unfold fileUploadSingleFinish uploadFileGetHandle
  apply Within.bind (.of_keeps (Keeps.bind Run.keeps_getUpload fun _ => Keeps.pure))
  intro handle
  cases handle with
  | none => exact hrest
  | some handle => exact .bind (.note (.fclose handle) trivial fun _ => rfl) fun _ => hrest

theorem within_fileExecuteScript {title : List UInt8}
    (hruns : a.runs (withSlash (dir.getD []) ++ title)) :
    Within a dir (fileExecuteScript libc.traced dir (some title)) := by
  apply fileExecuteScript_rule silent_footprint.malloc (fun _ _ hs => hs) (fun _ hs => hs)
  rintro d title rfl ⟨⟩ _ _
  apply Within.bind (.of_keeps (Run.keeps_call (silent_footprint.access _)))
  intro exist
  split
  · exact .pure
  apply Within.bind (.note (.chmod _) hruns fun _ => rfl)
  intro changed
  split
  · exact .pure
  · exact .bind (.note (.system _) hruns fun _ => rfl) fun _ => .pure

theorem within_cmdEx02 {pdu : PDU}
    (hopens : a.opens (withSlash (dir.getD []) ++ cString pdu.message.data)) :
    Within a dir (processProtocolUploadFileCmdEx02 libc.traced pdu) := by
  unfold processProtocolUploadFileCmdEx02
  dsimp only
  split
  · apply within_title
    apply Triple.bind (Q := fun d st => d = dir ∧ Accounted a dir st.footprint)
    · exact fun _ hs => ⟨hs.upgradeTempDir, hs⟩
    intro d
    apply Triple.assume
    rintro rfl
    apply Within.bind (within_fileUploadOpen hopens)
    intro opened
    split <;> exact within_reply _ _ _
  · exact within_reply _ _ _

theorem within_cmdEx03 (pdu : PDU) : Within a dir (processProtocolUploadFileCmdEx03 libc.traced pdu) := by
  have hreply : ∀ b, Within a dir (do
      let echo ← Run.checked (pdu.bytes 0 4)
      sendReplyToClient pcsUploadFile pcsEx03 (replyStatus b :: echo) : Run (Traced φ) Unit) :=
    fun _ => .bind (within_checked _) fun _ => within_reply _ _ _
  unfold processProtocolUploadFileCmdEx03
  dsimp only
  split
  · apply Within.bind (within_checked _)
    intro offset
    apply Within.bind (within_checked _)
    intro dataBuf
    apply Within.bind (within_fileUploadWrite _ _)
    intro written
    split <;> exact hreply _
  · exact hreply _

theorem within_cmdEx04 (pdu : PDU) : Within a dir (processProtocolUploadFileCmdEx04 libc.traced pdu) := by
  have hmd5sum : ∀ start count, Within a dir (payloadString libc.traced pdu start count) :=
    fun _ _ => .of_keeps (keeps_payloadString (fun _ _ => trivial) silent_footprint _ _ _)
  unfold processProtocolUploadFileCmdEx04
  dsimp only
  split
  · apply Within.bind (within_checked _)
    intro status
    split
    · apply Within.bind (hmd5sum _ _)
      intro md5sum
      apply Within.bind (within_fileUploadSingleFinish _)
      intro finished
      split <;> exact within_reply _ _ _
    · exact within_reply _ _ _
  · exact within_reply _ _ _

theorem within_upgradeCmdEx01 {pdu : PDU}
    (hruns : a.runs (withSlash (dir.getD []) ++ cString pdu.message.data)) :
    Within a dir (processProtocolUpgradeCmdEx01 libc.traced pdu) := by
  unfold processProtocolUpgradeCmdEx01
  dsimp only
  split
  · apply within_title
    apply Triple.bind (Q := fun d st => d = dir ∧ Accounted a dir st.footprint)
    · exact fun _ hs => ⟨hs.upgradeTempDir, hs⟩
    intro d
    apply Triple.assume
    rintro rfl
    apply Within.bind (within_fileExecuteScript hruns)
    intro errorCode
    split <;> exact within_reply _ _ _
  · exact within_reply _ _ _

end Requests

def PDU.Commands (pdu : PDU) (dir : Option (List UInt8)) (command : List UInt8) : Prop :=
  pdu.message.RunsScript ∧ command = withSlash (dir.getD []) ++ cString pdu.message.data ∨
    pdu.cmd = pcsUpgrade ∧ pdu.cmdEx = pcsEx02 ∧ command = literal "/sbin/reboot"

def PDU.Names (pdu : PDU) (dir : Option (List UInt8)) (path : List UInt8) : Prop :=
  pdu.message.OpensFile ∧ path = withSlash (dir.getD []) ++ cString pdu.message.data

/-- Processing a PDU makes no call but those that it names, if the login check lets it
through, and those on the file that is kept. -/
theorem within_processProtocolPdu {a : Allowance} {dir : Option (List UInt8)} {libc : Libc φ}
    {pdu : PDU} {bLogin : Bool}
    (hopens : pdu.branch bLogin = .afterLogin → ∀ path, pdu.Names dir path → a.opens path)
    (hruns : pdu.branch bLogin = .afterLogin → ∀ path, pdu.Commands dir path → a.runs path) :
    Within a dir (processProtocolPdu libc.traced pdu bLogin) := by
  unfold processProtocolPdu
  cases hbranch : pdu.branch bLogin with
  | discoverDevice =>
      exact .of_keeps (keeps_processProtocolDiscoverDevice (fun _ _ => trivial) (fun _ _ => rfl)
        silent_footprint)
  | clientLogin =>
      exact .of_keeps (keeps_processProtocolClientLogin (fun _ _ => trivial) (fun _ _ => rfl)
        silent_footprint _)
  | notLogin => exact .pure
  | afterLogin =>
      have hopens := hopens hbranch
      have hruns := hruns hbranch
      dsimp only
      unfold processProtocolPduAfterLogin
      split
      · rename_i hcmd
        unfold processProtocolUploadFile
        split
        · exact within_reply _ _ _
        split
        · rename_i hcmdEx
          exact within_cmdEx02 (hopens _ ⟨⟨hcmd, hcmdEx⟩, rfl⟩)
        split
        · exact within_cmdEx03 _
        split
        · exact within_cmdEx04 _
        split
        · exact .of_keeps (keeps_cmdEx05 (fun _ _ => trivial) (fun _ _ => rfl) _)
        · exact .pure
      split
      · rename_i hcmd
        unfold processProtocolUpgrade
        split
        · rename_i hcmdEx
          exact within_upgradeCmdEx01 (hruns _ (.inl ⟨⟨hcmd, hcmdEx⟩, rfl⟩))
        split
        · rename_i hcmdEx
          have hreboot : Within a dir (rebootDevice libc.traced) :=
            .note (.system _) (hruns _ (.inr ⟨hcmd, hcmdEx, rfl⟩)) fun _ => rfl
          exact hreboot
        · exact .pure
      · exact .pure

end CccUpgrade
