import CccUpgrade.Adapter.Payload
import CccUpgrade.Adapter.UploadSession
import CccUpgrade.FileManager.Digest
import Mathlib.Data.List.Forall2

/-! An upload from the open request to the finish. The pieces of a file may come in any
order, and more than once; when all of it has been written the checksum is the right one. -/
namespace CccUpgrade

open Lib

variable {φ : Type} {libc : Libc φ} {disk : φ → Disk}

structure Seen.Held (s : Seen) (token : Nat) (path : List UInt8) (effects : List Effect) : Prop where
  filenameTx : s.upload.filenameTx = some token
  read : s.heap.read token = some path
  filename : ∀ t, s.upload.filename = some t → s.heap.Live t ∧ t ≠ token
  emitted : s.effects = effects

structure Seen.Uploading (s : Seen) (handle token : Nat) (path content : List UInt8)
    (effects : List Effect) : Prop where
  fileHandle : s.upload.fileHandle = some handle
  stream : ∃ pos, s.disk.stream handle = some ⟨path, content, pos⟩
  held : s.Held token path effects

structure Seen.Uploaded (s : Seen) (path content : List UInt8) (effects : List Effect) : Prop where
  fileHandle : s.upload.fileHandle = none
  file : s.disk.file path = some content
  emitted : s.effects = effects

theorem Seen.Held.on_disk {s : Seen} {token : Nat} {path : List UInt8} {effects : List Effect}
    (h : s.Held token path effects) {disk : Disk} :
    ({ s with disk := disk } : Seen).Held token path effects :=
  ⟨h.filenameTx, h.read, h.filename, h.emitted⟩

section Write

variable {handle token offset : Nat} {path content dataBuf : List UInt8} {effects : List Effect}

theorem asLong_eq (hposix : libc.Posix disk) (hoffset : offset < 2 ^ 31) :
    asLong libc offset = offset := by
  have hbits : 2 ^ 32 ≤ 2 ^ libc.longBits := Nat.pow_le_pow_right (by decide) hposix.longBits
  unfold asLong
  apply Int.bmod_eq_of_le <;> omega

theorem triple_fileUploadWrite_posix (hposix : libc.Posix disk) (hne : dataBuf ≠ []) :
    Triple (fun st => (st.seen disk).Uploading handle token path content effects)
      (fileUploadWrite libc offset dataBuf)
      (fun written st => written = true ∧
        (st.seen disk).Uploading handle token path (patch 0 content offset dataBuf) effects) noFault := by
  unfold fileUploadWrite
  apply Triple.bind (Q := fun h st => h = some handle ∧
    (st.seen disk).Uploading handle token path content effects)
  · exact fun st hs => ⟨hs.fileHandle, hs⟩
  intro h
  apply Triple.assume
  rintro rfl
  apply Triple.bind (Q := fun sought st => sought = true ∧
    (st.seen disk).Uploading handle token path content effects ∧
      (disk st.env).stream handle = some ⟨path, content, offset⟩)
  · rintro st ⟨hhandle, ⟨pos, hstream⟩, hheld⟩
    obtain ⟨hsought, hat⟩ := hposix.fseek st.env handle _ offset hstream
    exact ⟨hsought, ⟨hhandle, ⟨offset, hat⟩, hheld.on_disk⟩, hat⟩
  intro sought
  apply Triple.assume
  rintro rfl
  apply Triple.bind (Q := fun written st => written = dataBuf.length ∧
    (st.seen disk).Uploading handle token path (patch 0 content offset dataBuf) effects)
  · rintro st ⟨⟨hhandle, -, hheld⟩, hat⟩
    obtain ⟨hwritten, hafter⟩ := hposix.fwrite st.env handle _ dataBuf hat hne
    exact ⟨hwritten, hhandle, ⟨offset + dataBuf.length, hafter⟩, hheld.on_disk⟩
  intro written
  apply Triple.assume
  rintro rfl
  exact Triple.pure fun _ hs => ⟨decide_eq_true rfl, hs⟩

theorem triple_reply_posix (cmd cmdEx : UInt8) (data : List UInt8) :
    Triple (fun st => (st.seen disk).Uploading handle token path content effects)
      (sendReplyToClient cmd cmdEx data : Run φ Unit)
      (fun _ st => (st.seen disk).Uploading handle token path content
        (effects ++ [.replyToClient cmd cmdEx data])) noFault := by
  rintro st ⟨hhandle, hstream, htx, hread, hfilename, hemitted⟩
  exact ⟨hhandle, hstream, htx, hread, hfilename, congrArg (· ++ _) hemitted⟩

def writeMessage (offset : Nat) (dataBuf : List UInt8) : Message :=
  ⟨pcsUploadFile, pcsEx03, toBigEndian32 offset ++ dataBuf⟩

theorem triple_cmdEx03_posix (hposix : libc.Posix disk) {pdu : PDU}
    (hpdu : pdu.Carries (writeMessage offset dataBuf)) (hne : dataBuf ≠ [])
    (hoffset : offset < 2 ^ 31) :
    Triple (fun st => (st.seen disk).Uploading handle token path content effects)
      (processProtocolUploadFileCmdEx03 libc pdu)
      (fun _ st => (st.seen disk).Uploading handle token path (patch 0 content offset dataBuf)
        (effects ++ [.replyToClient pcsUploadFile pcsEx03 (pcsExOk :: toBigEndian32 offset)]))
      noFault := by
  have hdata : (writeMessage offset dataBuf).data = toBigEndian32 offset ++ dataBuf := rfl
  have hlength : (writeMessage offset dataBuf).data.length = 4 + dataBuf.length := by
    rw [hdata, List.length_append, toBigEndian32_length]
  have hpos : 0 < dataBuf.length := List.length_pos_iff.mpr hne
  have hoffsetBytes : pdu.bytes 0 4 = .ok (toBigEndian32 offset) := by
    rw [hpdu.bytes (by omega), hdata]
    rfl
  have hdataBuf : pdu.bytes 4 (pdu.dataLen.toNat - 4) = .ok dataBuf := by
    rw [hpdu.dataLen_toNat, hpdu.bytes (by omega), hlength, Nat.add_sub_cancel_left, hdata,
      List.drop_append_of_le_length (by rw [toBigEndian32_length])]
    exact congrArg Except.ok List.take_length
  have hlong : 4 < pdu.dataLen := by
    rw [hpdu.dataLen]
    omega
  have hdecoded : fourBytesToUint (toBigEndian32 offset) = offset := by
    have happend := fourBytesToUint_toBigEndian32 (n := offset) (by omega) []
    rwa [List.append_nil] at happend
  unfold processProtocolUploadFileCmdEx03
  dsimp only
  rw [if_pos hlong, hoffsetBytes, hdataBuf]
  apply Run.triple_checked_ok
  apply Run.triple_checked_ok
  rw [hdecoded, asLong_eq hposix hoffset]
  apply Triple.bind (triple_fileUploadWrite_posix hposix hne)
  intro written
  apply Triple.assume
  rintro rfl
  apply Run.triple_checked_ok
  exact triple_reply_posix _ _ _

end Write

section Open

variable {title path : List UInt8} {token handle : Nat} {effects : List Effect}

theorem triple_uploadFileSave_posix (hposix : libc.Posix disk) :
    Triple (fun st => st.heap.read token = some path ∧ st.effects = effects ∧
        (disk st.env).stream handle = some (.create path))
      (uploadFileSave libc (some title) (some token) (some handle))
      (fun saved st => saved = true ∧ (st.seen disk).Uploading handle token path [] effects)
      noFault := by
  have hmalloc : ∀ n, Blind (fun st => (st.effects, disk st.env)) (libc.malloc · n) := fun n st =>
    congrArg (Prod.mk st.effects) (hposix.malloc st.env n).2
  have hbeside : Keeps (fun st => (st.effects, disk st.env)) noFault
      (uploadFileSave libc (some title) (some token) (some handle)) :=
    keeps_uploadFileSave hmalloc ⟨fun _ _ => rfl, fun _ _ => rfl⟩ _ _ _
  apply ((triple_uploadFileSave title handle).and (hbeside.triple fun v =>
    v.1 = effects ∧ v.2.stream handle = some (.create path))).mono fun _ hs => hs
  rintro saved st ⟨⟨hsaved, hkept⟩, heffects, hstream⟩
  exact ⟨hsaved, hkept.fileHandle, ⟨0, hstream⟩, hkept.filenameTx, hkept.read, hkept.filename, heffects⟩

theorem triple_fileUploadOpen_posix (hposix : libc.Posix disk) (dir : Option (List UInt8)) :
    Triple (fun st => st.effects = effects) (fileUploadOpen libc dir (some title))
      (fun opened st => opened = true ∧ (∃ handle token, (st.seen disk).Uploading handle token
          (withSlash (dir.getD []) ++ title) [] effects) ∨ opened = false ∧ st.effects = effects)
      noFault := by
  apply fileUploadOpen_rule (p := (· = effects)) (envFree_effects.silent libc) fun _ hs => .inr ⟨rfl, hs⟩
  rintro dir title rfl ⟨⟩ - -
  apply Triple.bind (Q := fun token st =>
    st.heap.read token = some (withSlash dir ++ title) ∧ st.effects = effects)
  · exact fun st hs => ⟨Heap.read_alloc _ _, hs⟩
  intro token
  apply Triple.bind (Q := fun fileHandle st => st.heap.read token = some (withSlash dir ++ title) ∧
    st.effects = effects ∧ ∀ handle, fileHandle = some handle →
      (disk st.env).stream handle = some (.create (withSlash dir ++ title)))
  · rintro st ⟨hread, heffects⟩
    exact ⟨hread, heffects, hposix.fopenWrite st.env _⟩
  intro fileHandle
  cases fileHandle with
  | none =>
      apply Triple.bind (Q := fun _ st => st.effects = effects)
      · exact (Run.triple_free token).weaken fun st hs => ⟨⟨_, hs.1⟩, fun _ _ => hs.2.1⟩
      · exact fun _ => Triple.pure fun _ hs => .inr ⟨rfl, hs⟩
  | some handle =>
      apply (triple_uploadFileSave_posix hposix).mono
      · exact fun st hs => ⟨hs.1, hs.2.1, hs.2.2 handle rfl⟩
      · exact fun saved st hs => .inl ⟨hs.1, handle, token, hs.2⟩

end Open

section Finish

variable {handle token : Nat} {path content digits : List UInt8} {effects : List Effect}

theorem triple_uploadFileClear_posix :
    Triple (fun st : Machine φ => (st.seen disk).Held token path effects ∧
        (disk st.env).file path = some content) uploadFileClear
      (fun _ st => (st.seen disk).Uploaded path content effects) noFault := by
  rintro st ⟨⟨htx, hread, hfilename, hemitted⟩, hfile⟩
  obtain ⟨heap, hclear, -, -⟩ := uploadFileClear_live htx hread hfilename
  rw [hclear]
  exact ⟨rfl, hfile, hemitted⟩

theorem triple_fileUploadSingleFinish_posix (hposix : libc.Posix disk) (hpath : path ≠ [])
    (md5sum : List UInt8) :
    Triple (fun st => (st.seen disk).Uploading handle token path content effects)
      (fileUploadSingleFinish libc md5sum)
      (fun finished st => (finished = true ↔
          (md5sum.take 32).map toLowerByte = MessageDigest.hex (Md5.fileDigest content)) ∧
        (st.seen disk).Uploaded path content effects) noFault := by
  unfold fileUploadSingleFinish
  apply Triple.bind (Q := fun h st => h = some handle ∧
    (st.seen disk).Uploading handle token path content effects)
  · exact fun st hs => ⟨hs.fileHandle, hs⟩
  intro h
  apply Triple.assume
  rintro rfl
  apply Triple.bind (Q := fun _ st => (st.seen disk).Held token path effects ∧
    (disk st.env).file path = some content)
  · rintro st ⟨-, ⟨pos, hstream⟩, hheld⟩
    exact ⟨hheld.on_disk, hposix.fclose st.env handle _ hstream⟩
  intro _
  apply Triple.bind (Q := fun filePath st => filePath = some token ∧
    (st.seen disk).Held token path effects ∧ (disk st.env).file path = some content)
  · exact fun st hs => ⟨hs.1.filenameTx, hs⟩
  intro filePath
  apply Triple.assume
  rintro rfl
  apply Triple.bind (Q := fun result st => (result = true ↔
      (md5sum.take 32).map toLowerByte = MessageDigest.hex (Md5.fileDigest content)) ∧
    (st.seen disk).Held token path effects ∧ (disk st.env).file path = some content)
  · unfold checkFileByMd5
    apply Triple.bind (triple_calcuMd5Checksum_posix hposix hpath
      (fun s => s.Held token path effects) (fun _ _ h => h.on_disk) fun _ h => h.read)
    intro sumBuffer
    apply Triple.assume
    rintro rfl
    exact Triple.pure fun _ hs => ⟨strncaseEq_hex (Md5.fileDigest content) md5sum, hs⟩
  intro result
  apply Triple.assume
  intro hresult
  apply Triple.bind triple_uploadFileClear_posix
  exact fun _ => Triple.pure fun _ hs => ⟨hresult, hs⟩

end Finish

section Requests

variable {handle token : Nat} {path content title digits : List UInt8} {effects : List Effect}
  {pdu : PDU}

def openMessage (title : List UInt8) : Message := ⟨pcsUploadFile, pcsEx02, title⟩

theorem triple_cmdEx02_posix (hposix : libc.Posix disk) (hpdu : pdu.Carries (openMessage title))
    (hnul : 0 ∉ title) (dir : Option (List UInt8)) :
    Triple (fun st => st.effects = effects ∧ st.upgradeTempDir = dir)
      (processProtocolUploadFileCmdEx02 libc pdu)
      (fun _ st => (∃ handle token, (st.seen disk).Uploading handle token
          (withSlash (dir.getD []) ++ title) []
            (effects ++ [.replyToClient pcsUploadFile pcsEx02 [pcsExOk]])) ∨
        st.effects = effects ++ [.replyToClient pcsUploadFile pcsEx02 [pcsExErr]]) noFault := by
  have hrefused : Triple (fun st : Machine φ => st.effects = effects)
      (sendReplyToClient pcsUploadFile pcsEx02 [replyStatus false])
      (fun _ st => st.effects = effects ++ [.replyToClient pcsUploadFile pcsEx02 [pcsExErr]])
      noFault := fun st hs => congrArg (· ++ _) hs
  unfold processProtocolUploadFileCmdEx02
  dsimp only
  split
  · have htitle : (openMessage title).data = title := rfl
    apply Triple.bind (triple_payload hpdu (by rw [hpdu.dataLen_toNat]; omega)
      (fun st => (st.effects, st.upgradeTempDir)) (fun _ _ => rfl)
      (fun v => v.1 = effects ∧ v.2 = dir) (hposix.not_malloc _))
    intro filetitle
    apply Triple.assume
    intro hfiletitle
    rw [List.drop_zero, hpdu.dataLen_toNat, List.take_length, htitle, cString_eq hnul] at hfiletitle
    rw [hfiletitle]
    apply Triple.bind (Q := fun d st => d = dir ∧ st.effects = effects)
    · exact fun st hs => ⟨hs.2, hs.1⟩
    intro d
    apply Triple.assume
    rintro rfl
    apply Triple.bind (triple_fileUploadOpen_posix hposix d)
    intro opened
    cases opened with
    | true =>
        rintro st (⟨-, handle, token, hs⟩ | ⟨⟨⟩, -⟩)
        exact .inl ⟨handle, token, triple_reply_posix _ _ _ st hs⟩
    | false =>
        rintro st (⟨⟨⟩, -⟩ | ⟨-, hs⟩)
        exact .inr (hrefused st hs)
  · exact (hrefused.mono (fun _ hs => hs.1) fun _ _ hs => .inr hs)

def finishMessage (digits : List UInt8) : Message := ⟨pcsUploadFile, pcsEx04, pcsExOk :: digits⟩

theorem triple_cmdEx04_posix (hposix : libc.Posix disk) (hpdu : pdu.Carries (finishMessage digits))
    (hpath : path ≠ []) (hlength : content.length < 2 ^ 32)
    (hdigits : digits.map toLowerByte = MessageDigest.hex (MessageDigest.digest content)) :
    Triple (fun st => (st.seen disk).Uploading handle token path content effects)
      (processProtocolUploadFileCmdEx04 libc pdu)
      (fun _ st => (st.seen disk).Uploaded path content
        (effects ++ [.replyToClient pcsUploadFile pcsEx04 [pcsExOk]])) noFault := by
  have hdata : (finishMessage digits).data = pcsExOk :: digits := rfl
  have hdigitsLength : digits.length = 32 := by
    have h := congrArg List.length hdigits
    rwa [List.length_map, MessageDigest.hex_length, MessageDigest.digest_length] at h
  have hlong : 1 < pdu.dataLen := by
    rw [hpdu.dataLen, hdata, List.length_cons]
    omega
  have hnul : 0 ∉ digits := by
    intro hmem
    have hlower : toLowerByte 0 ∈ digits.map toLowerByte := List.mem_map_of_mem hmem
    rw [hdigits] at hlower
    exact MessageDigest.zero_notMem_hex _ hlower
  have hcount : 1 + (pdu.dataLen.toNat - 1) ≤ (finishMessage digits).data.length := by
    rw [hpdu.dataLen_toNat, hdata, List.length_cons]
    omega
  unfold processProtocolUploadFileCmdEx04
  dsimp only
  rw [if_pos hlong, hpdu.readByte (by rw [hdata, List.length_cons]; omega)]
  apply Run.triple_checked_ok (a := pcsExOk)
  rw [if_pos rfl]
  apply Triple.bind (triple_payload hpdu hcount (Machine.seen disk) hposix.blind_malloc
    (fun s => s.Uploading handle token path content effects) (hposix.not_malloc _))
  intro md5sum
  apply Triple.assume
  intro hmd5sum
  have hrest : ((finishMessage digits).data.drop 1).take (pdu.dataLen.toNat - 1) = digits := by
    rw [hpdu.dataLen_toNat, hdata]
    exact List.take_length
  rw [hrest, cString_eq hnul] at hmd5sum
  rw [hmd5sum]
  apply Triple.bind (triple_fileUploadSingleFinish_posix hposix hpath digits)
  intro finished
  apply Triple.assume
  intro hfinished
  obtain rfl : finished = true := by
    rw [hfinished, List.take_of_length_le hdigitsLength.le, Md5.fileDigest_eq hlength]
    exact hdigits
  rintro st ⟨hhandle, hfile, hemitted⟩
  exact ⟨hhandle, hfile, congrArg (· ++ _) hemitted⟩

end Requests

/-- A piece of a file, as a write request brings it. -/
structure Piece where
  offset : Nat
  dataBuf : List UInt8
deriving DecidableEq, Repr

namespace Piece

def message (w : Piece) : Message := writeMessage w.offset w.dataBuf

def reply (w : Piece) : Effect :=
  .replyToClient pcsUploadFile pcsEx03 (pcsExOk :: toBigEndian32 w.offset)

def Covers (w : Piece) (i : Nat) : Prop := w.offset ≤ i ∧ i < w.offset + w.dataBuf.length

structure Of (w : Piece) (content : List UInt8) : Prop where
  nonempty : w.dataBuf ≠ []
  part : PieceOf content w.offset w.dataBuf

end Piece

def processPdus (libc : Libc φ) : List PDU → Run φ Unit
  | [] => return ()
  | pdu :: pdus => do
      processProtocolPdu libc pdu true
      processPdus libc pdus

section Session

variable {handle token : Nat} {path content title digits : List UInt8} {effects : List Effect}
  {pdu : PDU}

theorem processProtocolPdu_open (h : pdu.Carries (openMessage title)) :
    processProtocolPdu libc pdu true = processProtocolUploadFileCmdEx02 libc pdu := by
  rw [processProtocolPdu_upload h.cmd, processProtocolUploadFile, h.cmdEx]
  rfl

theorem processProtocolPdu_write {w : Piece} (h : pdu.Carries w.message) :
    processProtocolPdu libc pdu true = processProtocolUploadFileCmdEx03 libc pdu := by
  rw [processProtocolPdu_upload h.cmd, processProtocolUploadFile, h.cmdEx]
  rfl

theorem processProtocolPdu_finish (h : pdu.Carries (finishMessage digits)) :
    processProtocolPdu libc pdu true = processProtocolUploadFileCmdEx04 libc pdu := by
  rw [processProtocolPdu_upload h.cmd, processProtocolUploadFile, h.cmdEx]
  rfl

theorem triple_processPdus_writes (hposix : libc.Posix disk) (hcontent : content.length < 2 ^ 31)
    {pdus : List PDU} {writes : List Piece}
    (hcarries : List.Forall₂ (fun pdu (w : Piece) => pdu.Carries w.message) pdus writes)
    (hpieces : ∀ w ∈ writes, w.Of content) (written : Nat → Prop) :
    Triple (fun st => ∃ sofar, (st.seen disk).Uploading handle token path sofar effects ∧
        Agrees content sofar written) (processPdus libc pdus)
      (fun _ st => ∃ sofar, (st.seen disk).Uploading handle token path sofar
          (effects ++ writes.map Piece.reply) ∧
        Agrees content sofar fun i => written i ∨ ∃ w ∈ writes, w.Covers i) noFault := by
  induction hcarries generalizing effects written with
  | nil =>
      refine Triple.pure ?_
      rintro st ⟨sofar, hs, hagrees⟩
      refine ⟨sofar, ?_, hagrees.mono ?_⟩
      · rwa [List.map_nil, List.append_nil]
      · exact fun i hi => hi.resolve_right (by simp)
  | @cons pdu w pdus writes hpdu hrest ih =>
      obtain ⟨hne, hpart⟩ := hpieces w List.mem_cons_self
      have hpos : 0 < w.dataBuf.length := List.length_pos_iff.mpr hne
      have hle := hpart.length_le
      rw [processPdus, processProtocolPdu_write hpdu]
      apply Triple.bind (Q := fun _ st => ∃ sofar, (st.seen disk).Uploading handle token path sofar
          (effects ++ [w.reply]) ∧ Agrees content sofar fun i => written i ∨ w.Covers i)
      · rintro st ⟨sofar, hs, hagrees⟩
        apply (triple_cmdEx03_posix hposix hpdu hne (by omega)).mono (fun _ h => h) _ st hs
        exact fun _ st hs => ⟨_, hs, hagrees.patch 0 hpart⟩
      · intro _
        apply (ih (fun w hw => hpieces w (List.mem_cons_of_mem _ hw)) _).mono (fun _ h => h)
        rintro _ st ⟨sofar, hs, hagrees⟩
        refine ⟨sofar, ?_, hagrees.mono ?_⟩
        · rwa [List.append_assoc] at hs
        · rintro i (hi | ⟨w', hw', hcovers⟩)
          · exact .inl (.inl hi)
          · cases hw' with
            | head => exact .inl (.inr hcovers)
            | tail _ hw' => exact .inr ⟨w', hw', hcovers⟩

theorem withSlash_ne_nil (dir : List UInt8) : withSlash dir ++ title ≠ [] := by
  intro h
  obtain ⟨hdir, -⟩ := List.append_eq_nil_iff.mp h
  unfold withSlash at hdir
  split at hdir
  · rename_i hslash
    rw [hdir] at hslash
    cases hslash
  · simp at hdir

/-- An upload from the first request to the last. After an open request that was answered
with success, write requests with pieces of a file that cover all of it, in any order and
with repetitions and overlaps, are all answered with success and the offset they came
with. The file then holds the content, and a finish with its checksum is answered with
success. -/
theorem upload_whole (hposix : libc.Posix disk) {st st₀ : Machine φ}
    (hcontent : content.length < 2 ^ 31) (hnul : 0 ∉ title) {openPdu : PDU}
    (hopen : openPdu.Carries (openMessage title))
    (hopened : processProtocolPdu libc openPdu true st = .ok ((), st₀))
    (haccepted : st₀.effects = st.effects ++ [.replyToClient pcsUploadFile pcsEx02 [pcsExOk]])
    {writePdus : List PDU} {writes : List Piece}
    (hwrites : List.Forall₂ (fun pdu (w : Piece) => pdu.Carries w.message) writePdus writes)
    (hpieces : ∀ w ∈ writes, w.Of content)
    (hcover : ∀ i < content.length, ∃ w ∈ writes, w.Covers i) {finishPdu : PDU}
    (hfinish : finishPdu.Carries (finishMessage digits))
    (hdigits : digits.map toLowerByte = MessageDigest.hex (MessageDigest.digest content)) :
    ∃ st₁ st₂ handle pos, processPdus libc writePdus st₀ = .ok ((), st₁) ∧
      st₁.effects = st₀.effects ++ writes.map Piece.reply ∧
      st₁.upload.fileHandle = some handle ∧ (disk st₁.env).stream handle =
        some ⟨withSlash (st.upgradeTempDir.getD []) ++ title, content, pos⟩ ∧
      processProtocolPdu libc finishPdu true st₁ = .ok ((), st₂) ∧
      st₂.effects = st₁.effects ++ [.replyToClient pcsUploadFile pcsEx04 [pcsExOk]] ∧
      (disk st₂.env).file (withSlash (st.upgradeTempDir.getD []) ++ title) = some content := by
  have hempty : ∃ handle token, (st₀.seen disk).Uploading handle token
      (withSlash (st.upgradeTempDir.getD []) ++ title) [] st₀.effects := by
    rw [processProtocolPdu_open hopen] at hopened
    rcases (triple_cmdEx02_posix hposix hopen hnul st.upgradeTempDir).ok ⟨rfl, rfl⟩ hopened with
      hopening | hrefused
    · rwa [← haccepted] at hopening
    · rw [haccepted] at hrefused
      have hreplies := List.append_cancel_left hrefused
      simp [pcsExOk, pcsExErr] at hreplies
  obtain ⟨handle, token, hstart⟩ := hempty
  obtain ⟨_, st₁, hrun, sofar, hwritten, hagrees⟩ :=
    (triple_processPdus_writes hposix hcontent hwrites hpieces fun _ => False).returns (fun _ h => h)
      ⟨[], hstart, .nothing content⟩
  obtain rfl := hagrees.whole fun i hi => .inr (hcover i hi)
  obtain ⟨pos, hstream⟩ := hwritten.stream
  obtain ⟨_, st₂, hlast, hdone⟩ := (triple_cmdEx04_posix hposix hfinish (withSlash_ne_nil _)
    (by omega) hdigits).returns (fun _ h => h) hwritten
  have hemitted : st₁.effects = _ := hwritten.held.emitted
  refine ⟨st₁, st₂, handle, pos, hrun, hemitted, hwritten.fileHandle, hstream, ?_, ?_, hdone.file⟩
  · rw [processProtocolPdu_finish hfinish]
    exact hlast
  · rw [hemitted]
    exact hdone.emitted

end Session

def storeMachine : Machine Store :=
  ⟨⟨⟨fun _ => none, fun _ => none⟩, 0⟩, .empty, ⟨none, none, none⟩, some (literal "up"), []⟩

/-- The last piece first, and once more in the middle. -/
def helloPieces : List Piece :=
  [⟨3, literal "lo"⟩, ⟨0, literal "hell"⟩, ⟨3, literal "lo"⟩, ⟨1, literal "e"⟩]

def helloDigits : List UInt8 := literal "5D41402abc4b2a76B9719d911017C592"

theorem upload_whole_hello : ∃ st₀ st₁ st₂ handle pos,
    processProtocolPdu storeLibc (openMessage (literal "fw")).pdu true storeMachine = .ok ((), st₀) ∧
      processPdus storeLibc (helloPieces.map fun w => w.message.pdu) st₀ = .ok ((), st₁) ∧
      st₁.effects = st₀.effects ++ helloPieces.map Piece.reply ∧
      st₁.upload.fileHandle = some handle ∧
      st₁.env.disk.stream handle = some ⟨literal "up/fw", literal "hello", pos⟩ ∧
      processProtocolPdu storeLibc (finishMessage helloDigits).pdu true st₁ = .ok ((), st₂) ∧
      st₂.effects = st₁.effects ++ [.replyToClient pcsUploadFile pcsEx04 [pcsExOk]] ∧
      st₂.env.disk.file (literal "up/fw") = some (literal "hello") := by
  have haccepts : (processProtocolPdu storeLibc (openMessage (literal "fw")).pdu true
      storeMachine).toOption.map (fun r => r.2.effects) =
        some [.replyToClient pcsUploadFile pcsEx02 [pcsExOk]] := by decide +kernel
  cases hopened : processProtocolPdu storeLibc (openMessage (literal "fw")).pdu true storeMachine with
  | error f =>
      rw [hopened] at haccepts
      cases haccepts
  | ok r =>
      rw [hopened] at haccepts
      have hwrites : List.Forall₂ (fun pdu (w : Piece) => pdu.Carries w.message)
          (helloPieces.map fun w => w.message.pdu) helloPieces := by
        rw [List.forall₂_map_left_iff, List.forall₂_same]
        exact fun w _ => w.message.carries_pdu
      have hfit : ∀ w ∈ helloPieces, w.dataBuf ≠ [] ∧
          w.offset + w.dataBuf.length ≤ (literal "hello").length ∧
          ((literal "hello").drop w.offset).take w.dataBuf.length = w.dataBuf := by decide
      have hpieces : ∀ w ∈ helloPieces, w.Of (literal "hello") := by
        intro w hw
        obtain ⟨hne, hle, hpart⟩ := hfit w hw
        exact ⟨hne, hle, hpart⟩
      have hcover : ∀ i < (literal "hello").length, ∃ w ∈ helloPieces,
          w.offset ≤ i ∧ i < w.offset + w.dataBuf.length := by decide
      have hdigits : helloDigits.map toLowerByte =
          MessageDigest.hex (MessageDigest.digest (literal "hello")) := by decide +kernel
      obtain ⟨st₁, st₂, handle, pos, hwhole⟩ := upload_whole storeLibc_posix (by decide) (by decide)
        (Message.carries_pdu _) hopened (Option.some.inj haccepts) hwrites hpieces hcover
        (Message.carries_pdu _) hdigits
      exact ⟨r.2, st₁, st₂, handle, pos, rfl, hwhole⟩

end CccUpgrade
