import CccUpgrade.Adapter.UploadSession
import CccUpgrade.Adapter.WholeUpload

/-! The verdict on a finished upload, after any upload requests. The checksum that the
client sends is compared with as many characters of it as the server's checksum has, and
a finish leaves the path of its file behind, freed, for the next one. -/
namespace CccUpgrade

open Lib

/-- What the upload requests so far have left: no file was ever opened, one is open, or the
last one was finished. -/
inductive Files.Stage (v : Files) : Prop
  | never (hempty : v.2 = ⟨none, none, none⟩)
  | uploading {handle token : Nat} {path : List UInt8} (hkept : v.Kept handle token path)
      (hne : path ≠ [])
  | finished {token : Nat} (hhandle : v.2.fileHandle = none) (htx : v.2.filenameTx = some token)
      (hdead : ¬ v.1.Live token) (hlt : token < v.1.blocks.length)

namespace Files.Stage

variable {v : Files}

theorem of_heap (h : v.Stage) {heap : Heap (List UInt8)}
    (hread : ∀ t < v.1.blocks.length, heap.read t = v.1.read t)
    (hlength : v.1.blocks.length ≤ heap.blocks.length) : Files.Stage (heap, v.2) := by
  have hlive : ∀ t < v.1.blocks.length, heap.Live t ↔ v.1.Live t := by
    intro t ht
    unfold Heap.Live
    rw [hread t ht]
  cases h with
  | never hempty => exact .never hempty
  | @uploading handle token path hkept hne =>
      have htoken : token < v.1.blocks.length := Heap.Live.lt ⟨path, hkept.read⟩
      refine .uploading ⟨hkept.fileHandle, hkept.filenameTx, ?_, ?_⟩ hne
      · exact (hread token htoken).trans hkept.read
      · intro other hname
        obtain ⟨hother, hdiffers⟩ := hkept.filename other hname
        exact ⟨(hlive other hother.lt).mpr hother, hdiffers⟩
  | finished hhandle htx hdead hlt =>
      exact .finished hhandle htx (fun h => hdead ((hlive _ hlt).mp h)) (hlt.trans_le hlength)

theorem of_free_alloc (h : v.Stage) {content : List UInt8} {heap : Heap (List UInt8)}
    (hfree : (v.1.alloc content).2.free (v.1.alloc content).1 = some heap) :
    Files.Stage (heap, v.2) := by
  apply h.of_heap
  · intro t ht
    rw [Heap.read_free_of_ne hfree (Nat.ne_of_lt ht), Heap.read_alloc_of_lt _ _ ht]
  · rw [Heap.length_free hfree]
    simp [Heap.alloc]

end Files.Stage

variable {φ : Type} {libc : Libc φ}

section History

theorem triple_fileUploadOpen_stage (dir : Option (List UInt8)) (title : List UInt8) :
    Triple (fun st : Machine φ => st.files.Stage) (fileUploadOpen libc dir (some title))
      (fun _ st => st.files.Stage) anyFault := by
  apply fileUploadOpen_rule (p := Files.Stage) (envFree_files.silent libc) fun _ hs => hs
  intro d title _ _ _ _
  -- the state before the path got its string
  apply Triple.bind (Q := fun token st => ∃ heap, Files.Stage (heap, st.upload) ∧
    token = (heap.alloc (withSlash d ++ title)).1 ∧ st.heap = (heap.alloc (withSlash d ++ title)).2)
  · exact fun st hs => ⟨st.heap, hs, rfl, rfl⟩
  intro token
  apply Triple.bind ((Run.keeps_call (envFree_files.blind _)).triple fun v =>
    ∃ heap, Files.Stage (heap, v.2) ∧ token = (heap.alloc (withSlash d ++ title)).1 ∧
      v.1 = (heap.alloc (withSlash d ++ title)).2)
  intro handle
  cases handle with
  | none =>
      apply Triple.bind (Q := fun _ st => st.files.Stage)
      · apply (Run.triple_free token).weaken
        rintro st ⟨heap, hstage, rfl, hheap⟩
        change st.heap = _ at hheap
        rw [hheap]
        exact ⟨Heap.live_alloc _ _, fun heap' hfree => hstage.of_free_alloc hfree⟩
      · exact fun _ => Triple.pure fun _ hs => hs
  | some handle =>
      rintro st ⟨heap, -, rfl, hheap⟩
      have hread : st.heap.read (heap.alloc (withSlash d ++ title)).1 = some (withSlash d ++ title) := by
        change st.heap = _ at hheap
        rw [hheap, Heap.read_alloc]
      apply (triple_uploadFileSave title handle).mono (fun _ h => h) _ st hread
      exact fun _ _ hkept => .uploading hkept.2 (withSlash_ne_nil d)

section Finish

variable {st : Machine φ} (md5sum : List UInt8)

theorem finish_never (hempty : st.upload = ⟨none, none, none⟩) :
    fileUploadSingleFinish libc md5sum st = .ok (false, st) := by
  cases st
  cases hempty
  rfl

theorem finish_finished {token : Nat} (hhandle : st.upload.fileHandle = none)
    (htx : st.upload.filenameTx = some token) (hdead : ¬ st.heap.Live token) :
    fileUploadSingleFinish libc md5sum st = .error (.useAfterFree token) := by
  have hread : st.heap.read token = none := by
    cases hread : st.heap.read token with
    | none => rfl
    | some path => exact absurd ⟨path, hread⟩ hdead
  have hload : (Run.load token : Run φ _) st = .error (.useAfterFree token) := by
    simp only [Run.load, hread]
  have hcalcu : calcuMd5Checksum libc (some token) st = .error (.useAfterFree token) :=
    Run.bind_error hload
  have hcheck : checkFileByMd5 libc (some token) md5sum st = .error (.useAfterFree token) :=
    Run.bind_error hcalcu
  have hgetHandle : (uploadFileGetHandle : Run φ _) st = .ok (none, st) :=
    congrArg (fun handle => Except.ok (handle, st)) hhandle
  have hgetPath : (uploadFileGetPath : Run φ _) st = .ok (some token, st) :=
    congrArg (fun path => Except.ok (path, st)) htx
  unfold fileUploadSingleFinish
  rw [Run.bind_ok hgetHandle]
  exact (Run.bind_ok hgetPath).trans (Run.bind_error hcheck)

theorem triple_finish_uploading {v : Files} {handle token : Nat} {path : List UInt8}
    (hkept : v.Kept handle token path) :
    Triple (fun st : Machine φ => st.files = v) (fileUploadSingleFinish libc md5sum)
      (fun _ st => st.files.Stage) anyFault := by
  unfold fileUploadSingleFinish
  apply Triple.bind (Q := fun h st => h = some handle ∧ st.files = v)
  · rintro st rfl
    exact ⟨hkept.fileHandle, rfl⟩
  intro h
  apply Triple.assume
  rintro rfl
  apply Triple.bind (Run.keeps_call (envFree_files.blind _) v)
  intro _
  apply Triple.bind (Q := fun _ st => st.files = v)
  · exact fun st hs => hs
  intro filePath
  apply Triple.bind (keeps_checkFileByMd5 envFree_files filePath md5sum v)
  intro result
  apply Triple.bind (Q := fun _ st => st.files.Stage)
  · rintro st rfl
    obtain ⟨heap, hclear, hdead, hlength⟩ :=
      uploadFileClear_live hkept.filenameTx hkept.read hkept.filename
    rw [hclear]
    refine .finished rfl hkept.filenameTx hdead ?_
    change token < heap.blocks.length
    rw [hlength]
    exact Heap.Live.lt ⟨path, hkept.read⟩
  · exact fun _ => Triple.pure fun _ hs => hs

theorem triple_fileUploadSingleFinish_stage :
    Triple (fun st : Machine φ => st.files.Stage) (fileUploadSingleFinish libc md5sum)
      (fun _ st => st.files.Stage) anyFault := by
  intro st hs
  cases hs with
  | never hempty =>
      rw [finish_never md5sum hempty]
      exact .never hempty
  | uploading hkept hne => exact triple_finish_uploading md5sum hkept st rfl
  | finished hhandle htx hdead hlt =>
      rw [finish_finished md5sum hhandle htx hdead]
      trivial

end Finish

theorem triple_processProtocolUploadFile_stage (pdu : PDU) :
    Triple (fun st : Machine φ => st.files.Stage) (processProtocolUploadFile libc pdu)
      (fun _ st => st.files.Stage) anyFault := by
  have hkeeps : ∀ {m : Run φ Unit}, Keeps Machine.files anyFault m →
      Triple (fun st => st.files.Stage) m (fun _ st => st.files.Stage) anyFault :=
    fun hm => hm.triple Files.Stage
  have hreply : ∀ cmdEx data, Triple (fun st : Machine φ => st.files.Stage)
      (sendReplyToClient pcsUploadFile cmdEx data) (fun _ st => st.files.Stage) anyFault :=
    fun _ _ => hkeeps (keeps_sendReplyToClient effectFree_files _ _ _)
  have hpayload : ∀ start count, Triple (fun st : Machine φ => st.files.Stage)
      (payloadString libc pdu start count) (fun _ st => st.files.Stage) anyFault := fun _ _ =>
    (keeps_payloadString (fun _ _ => trivial) (envFree_files.silent libc) pdu _ _).triple Files.Stage
  unfold processProtocolUploadFile
  split
  · exact hreply _ _
  split
  · exact triple_cmdEx02 (fun _ _ => trivial) triple_fileUploadOpen_stage pdu
  split
  · exact hkeeps (keeps_cmdEx03 (fun _ _ => trivial) effectFree_files
      (fun _ _ => envFree_files.blind _) (fun _ _ => envFree_files.blind _) pdu)
  split
  · unfold processProtocolUploadFileCmdEx04
    dsimp only
    split
    · apply Triple.bind ((Run.keeps_checked fun _ _ => trivial).triple Files.Stage)
      intro status
      split
      · apply Triple.bind (hpayload _ _)
        intro md5sum
        apply Triple.bind (triple_fileUploadSingleFinish_stage md5sum)
        intro finished
        split <;> exact hreply _ _
      · exact hreply _ _
    · exact hreply _ _
  split
  · exact hkeeps (keeps_cmdEx05 (fun _ _ => trivial) effectFree_files pdu)
  · exact hkeeps Keeps.pure

theorem uploadRun_stage {st st' : Machine φ} (hinit : st.upload = ⟨none, none, none⟩)
    {pdus : List PDU} (hrun : uploadRun libc st pdus = .ok st') : st'.files.Stage := by
  induction pdus using List.reverseRecOn generalizing st' with
  | nil =>
      cases hrun
      exact .never hinit
  | append_singleton pdus pdu ih =>
      rw [uploadRun_concat] at hrun
      cases hbefore : uploadRun libc st pdus with
      | error f =>
          rw [hbefore] at hrun
          cases hrun
      | ok st₁ =>
          rw [hbefore] at hrun
          change (processProtocolUploadFile libc pdu st₁).map Prod.snd = .ok st' at hrun
          cases hstep : processProtocolUploadFile libc pdu st₁ with
          | error f =>
              rw [hstep] at hrun
              cases hrun
          | ok r =>
              rw [hstep] at hrun
              cases hrun
              exact (triple_processProtocolUploadFile_stage pdu).ok (ih hbefore) hstep

end History

/-- The checksum in hex digits, with letters of either case. -/
def Matches (digest digits : List UInt8) : Prop :=
  digits.map toLowerByte = MessageDigest.hex digest

def Extends (digest digits : List UInt8) : Prop :=
  ∃ front rest, digits = front ++ rest ∧ rest ≠ [] ∧ Matches digest front

theorem Matches.length {digest digits : List UInt8} (h : Matches digest digits) :
    digits.length = 2 * digest.length := by
  have hlength := congrArg List.length h
  rwa [List.length_map, MessageDigest.hex_length] at hlength

theorem Matches.nul {digest digits : List UInt8} (h : Matches digest digits) : 0 ∉ digits := by
  intro hmem
  have hlower : toLowerByte 0 ∈ digits.map toLowerByte := List.mem_map_of_mem hmem
  rw [h] at hlower
  exact MessageDigest.zero_notMem_hex _ hlower

theorem Extends.not_matches {digest digest' digits : List UInt8} (h : Extends digest digits)
    (hsame : digest'.length = digest.length) : ¬ Matches digest' digits := by
  obtain ⟨front, rest, rfl, hne, hfront⟩ := h
  intro hwhole
  have hlength := hwhole.length
  rw [List.length_append, hfront.length] at hlength
  exact hne (List.eq_nil_of_length_eq_zero (by omega))

/-- The comparison accepts the right checksum, with or without more behind it. -/
theorem compared_iff (digest digits : List UInt8) :
    ((cString digits).take (2 * digest.length)).map toLowerByte = MessageDigest.hex digest ↔
      Matches digest digits ∨ Extends digest digits := by
  constructor
  · intro hcompared
    obtain ⟨rest, hrest⟩ : (cString digits).take (2 * digest.length) <+: digits :=
      (List.take_prefix _ _).trans (List.takeWhile_prefix _)
    by_cases hne : rest = []
    · left
      rw [hne, List.append_nil] at hrest
      rwa [← hrest]
    · exact .inr ⟨_, rest, hrest.symm, hne, hcompared⟩
  · intro hdigits
    obtain ⟨front, rest, rfl, hfront⟩ : ∃ front rest, digits = front ++ rest ∧ Matches digest front := by
      rcases hdigits with hwhole | ⟨front, rest, heq, -, hfront⟩
      · exact ⟨digits, [], (List.append_nil _).symm, hwhole⟩
      · exact ⟨front, rest, heq, hfront⟩
    rw [cString_append hfront.nul, ← hfront.length, List.take_left]
    exact hfront

/-- The comparison with the checksum of md5sum.c goes wrong: more follows behind it, or it is
not the MD5 and the digits are one of the two. -/
def Misjudged (content digits : List UInt8) : Prop :=
  Extends (Md5.fileDigest content) digits ∨
    MessageDigest.hex (Md5.fileDigest content) ≠ MessageDigest.hex (MessageDigest.digest content) ∧
      (Matches (Md5.fileDigest content) digits ∨ Matches (MessageDigest.digest content) digits)

theorem misjudged_iff (content digits : List UInt8) :
    (Matches (Md5.fileDigest content) digits ∨ Extends (Md5.fileDigest content) digits ↔
      Matches (MessageDigest.digest content) digits) ↔ ¬ Misjudged content digits := by
  have hextends : Extends (Md5.fileDigest content) digits →
      ¬ Matches (MessageDigest.digest content) digits := fun h => h.not_matches rfl
  unfold Misjudged
  by_cases hsame : MessageDigest.hex (Md5.fileDigest content) =
      MessageDigest.hex (MessageDigest.digest content)
  · have hmatches : Matches (Md5.fileDigest content) digits ↔
        Matches (MessageDigest.digest content) digits := by
      unfold Matches
      rw [hsame]
    tauto
  · have hmatches : Matches (Md5.fileDigest content) digits →
        ¬ Matches (MessageDigest.digest content) digits := fun h h' => hsame (h.symm.trans h')
    tauto

theorem misjudged_small {content : List UInt8} (hlength : content.length < 2 ^ 32)
    (digits : List UInt8) : Misjudged content digits ↔ Extends (MessageDigest.digest content) digits := by
  unfold Misjudged
  rw [Md5.fileDigest_eq hlength]
  simp

def Message.FinishesFile (m : Message) : Prop := m.cmd = pcsUploadFile ∧ m.cmdEx = pcsEx04

def Machine.UploadHolds (disk : φ → Disk) (st : Machine φ) (content : List UInt8) : Prop :=
  ∀ handle token path, st.files.Kept handle token path →
    ∃ pos, (disk st.env).stream handle = some ⟨path, content, pos⟩

structure Verified (upload : UploadFile) (content data : List UInt8) : Prop where
  opened : upload.fileHandle ≠ none
  status : data.head? = some pcsExOk
  digits : Matches (MessageDigest.digest content) (data.drop 1)

def RepliesVerdict (verdict : Prop) (before after : List Effect) : Prop :=
  ∃ status, after = before ++ [.replyToClient pcsUploadFile pcsEx04 [status]] ∧
    (status = pcsExOk ↔ verdict) ∧ (¬ verdict → status = pcsExErr)

theorem repliesVerdict_iff {verdict : Prop} (before : List Effect) {finished : Bool} :
    RepliesVerdict verdict before
        (before ++ [.replyToClient pcsUploadFile pcsEx04 [replyStatus finished]]) ↔
      (finished = true ↔ verdict) := by
  have hok : replyStatus finished = pcsExOk ↔ finished = true := by cases finished <;> decide
  constructor
  · rintro ⟨status, heffects, hstatus, -⟩
    cases List.append_cancel_left heffects
    rw [← hok, hstatus]
  · intro hverdict
    refine ⟨_, rfl, hok.trans hverdict, fun hnot => ?_⟩
    have hfalse : finished = false := by
      rw [← hverdict] at hnot
      simpa using hnot
    rw [hfalse]
    rfl

def Message.SaysComplete (m : Message) : Prop := 1 < m.data.length ∧ m.data.head? = some pcsExOk

section Finish

variable {disk : φ → Disk} (hposix : libc.Posix disk) {m : Message} {pdu : PDU}
  (hcarries : pdu.Carries m)
include hcarries

theorem cmdEx04_incomplete (h : ¬ m.SaysComplete) (st : Machine φ) :
    processProtocolUploadFileCmdEx04 libc pdu st =
      sendReplyToClient pcsUploadFile pcsEx04 [replyStatus false] st := by
  have hdataLen := hcarries.dataLen
  unfold processProtocolUploadFileCmdEx04
  dsimp only
  by_cases hlong : 1 < m.data.length
  swap
  · rw [if_neg (by omega)]
  obtain ⟨status, rest, hdata⟩ : ∃ status rest, m.data = status :: rest := by
    cases hdata : m.data with
    | nil =>
        rw [hdata] at hlong
        cases hlong
    | cons status rest => exact ⟨status, rest, rfl⟩
  have hstatus : status ≠ pcsExOk := by
    rintro rfl
    exact h ⟨hlong, by rw [hdata]; rfl⟩
  have hread : readByte pdu.data 0 = .ok status := by
    rw [hcarries.readByte (by omega), hdata]
    rfl
  have hchecked : (Run.checked (.ok status) : Run φ UInt8) st = .ok (status, st) := rfl
  rw [if_pos (by omega), hread, Run.bind_ok hchecked, if_neg hstatus]

include hposix

theorem cmdEx04_complete (h : m.SaysComplete) (st : Machine φ) :
    ∃ env, disk env = disk st.env ∧ processProtocolUploadFileCmdEx04 libc pdu st =
      (fileUploadSingleFinish libc (cString (m.data.drop 1)) >>= fun finished =>
        sendReplyToClient pcsUploadFile pcsEx04 [replyStatus finished]) { st with env := env } := by
  obtain ⟨hlong, hhead⟩ := h
  have hdataLen := hcarries.dataLen
  have hread : readByte pdu.data 0 = .ok pcsExOk := by
    rw [hcarries.readByte (by omega)]
    cases hdata : m.data with
    | nil =>
        rw [hdata] at hlong
        cases hlong
    | cons status rest =>
        rw [hdata] at hhead
        cases hhead
        rfl
  have hmalloc := hposix.malloc st.env (m.data.length - 1 + 1)
  have hpayload : payloadString libc pdu 1 (pdu.dataLen.toNat - 1) st =
      .ok (cString (m.data.drop 1),
        { st with env := (libc.malloc st.env (m.data.length - 1 + 1)).2 }) := by
    rw [hcarries.dataLen_toNat, payloadString_eq hcarries (by omega), if_pos hmalloc.1,
      List.take_of_length_le (by rw [List.length_drop])]
  refine ⟨_, hmalloc.2, ?_⟩
  unfold processProtocolUploadFileCmdEx04
  dsimp only
  have hchecked : (Run.checked (.ok pcsExOk) : Run φ UInt8) st = .ok (pcsExOk, st) := rfl
  rw [if_pos (by omega), hread, Run.bind_ok hchecked, if_pos rfl, Run.bind_ok hpayload]
  have hreply : (fun finished => if finished = true then
        (sendReplyToClient pcsUploadFile pcsEx04 [replyStatus true] : Run φ Unit)
      else sendReplyToClient pcsUploadFile pcsEx04 [replyStatus false]) =
      fun finished => sendReplyToClient pcsUploadFile pcsEx04 [replyStatus finished] := by
    funext finished
    cases finished <;> rfl
  rw [hreply]

end Finish

/-- The request lets the verdict be right: it says too little to be looked at, its digits are
not misjudged while a file is open, or no upload came before. -/
def FinishJudged (upload : UploadFile) (content : List UInt8) (m : Message) : Prop :=
  ¬ m.SaysComplete ∨ upload.fileHandle ≠ none ∧ ¬ Misjudged content (m.data.drop 1) ∨
    upload.filenameTx = none

theorem repliesVerdict_sent {verdict : Prop} {before : List Effect} {finished : Bool}
    {st : Machine φ} (hbefore : st.effects = before) :
    (∃ st', (sendReplyToClient pcsUploadFile pcsEx04 [replyStatus finished] st).map Prod.snd = .ok st' ∧
      RepliesVerdict verdict before st'.effects) ↔ (finished = true ↔ verdict) := by
  rw [← repliesVerdict_iff before, ← hbefore]
  constructor
  · rintro ⟨_, hsent, hverdict⟩
    cases hsent
    exact hverdict
  · exact fun hverdict => ⟨_, rfl, hverdict⟩

section Verdict

variable {disk : φ → Disk} {st : Machine φ} {content : List UInt8} {m : Message}

theorem verdict_incomplete {pdu : PDU} (hcarries : pdu.Carries m) (h : ¬ m.SaysComplete) :
    ∃ st', (processProtocolUploadFileCmdEx04 libc pdu st).map Prod.snd = .ok st' ∧
      RepliesVerdict (Verified st.upload content m.data) st.effects st'.effects := by
  have hunverified : ¬ Verified st.upload content m.data := by
    intro hverified
    refine h ⟨?_, hverified.status⟩
    have hlength := hverified.digits.length
    rw [List.length_drop, MessageDigest.digest_length] at hlength
    omega
  rw [cmdEx04_incomplete hcarries h, repliesVerdict_sent rfl]
  simpa using hunverified

theorem verdict_never {env : φ} (hempty : st.upload = ⟨none, none, none⟩) :
    ∃ st', ((fileUploadSingleFinish libc (cString (m.data.drop 1)) >>= fun finished =>
        sendReplyToClient pcsUploadFile pcsEx04 [replyStatus finished])
          { st with env := env }).map Prod.snd = .ok st' ∧
      RepliesVerdict (Verified st.upload content m.data) st.effects st'.effects := by
  have hunverified : ¬ Verified st.upload content m.data := by
    intro hverified
    apply hverified.opened
    rw [hempty]
  have hfinish : fileUploadSingleFinish libc (cString (m.data.drop 1)) { st with env := env } =
      .ok (false, { st with env := env }) := finish_never _ hempty
  rw [Run.bind_ok hfinish, repliesVerdict_sent rfl]
  simpa using hunverified

theorem verdict_uploading (hposix : libc.Posix disk) {handle token : Nat} {path : List UInt8}
    (hkept : st.files.Kept handle token path) (hne : path ≠ []) {pos : Nat} {env : φ}
    (hstream : (disk env).stream handle = some ⟨path, content, pos⟩)
    (hstatus : m.data.head? = some pcsExOk) :
    (∃ st', ((fileUploadSingleFinish libc (cString (m.data.drop 1)) >>= fun finished =>
        sendReplyToClient pcsUploadFile pcsEx04 [replyStatus finished])
          { st with env := env }).map Prod.snd = .ok st' ∧
      RepliesVerdict (Verified st.upload content m.data) st.effects st'.effects) ↔
    ¬ Misjudged content (m.data.drop 1) := by
  have huploading : (Machine.seen disk { st with env := env }).Uploading handle token path
      content st.effects :=
    ⟨hkept.fileHandle, ⟨pos, hstream⟩, hkept.filenameTx, hkept.read, hkept.filename, rfl⟩
  obtain ⟨finished, st', hfinish, hcompared, huploaded⟩ :=
    (triple_fileUploadSingleFinish_posix hposix hne (cString (m.data.drop 1))).returns
      (fun _ h => h) huploading
  have hverified : Verified st.upload content m.data ↔
      Matches (MessageDigest.digest content) (m.data.drop 1) :=
    ⟨fun h => h.digits, fun h => ⟨hkept.opened, hstatus, h⟩⟩
  have hfinished : finished = true ↔ Matches (Md5.fileDigest content) (m.data.drop 1) ∨
      Extends (Md5.fileDigest content) (m.data.drop 1) :=
    hcompared.trans (compared_iff (Md5.fileDigest content) _)
  rw [Run.bind_ok hfinish, repliesVerdict_sent huploaded.emitted, ← misjudged_iff, ← hfinished, hverified]

end Verdict

/-- After any upload requests, a finish is answered with success exactly for a file that is
open and the MD5 of its content, if and only if it lets the verdict be right. -/
theorem finish_exact {disk : φ → Disk} (hposix : libc.Posix disk) {st st₁ : Machine φ}
    (hinit : st.upload = ⟨none, none, none⟩) {pdus : List PDU}
    (hrun : uploadRun libc st pdus = .ok st₁) {content : List UInt8}
    (hcontent : st₁.UploadHolds disk content) {m : Message} (hm : m.FinishesFile) {pdu : PDU}
    (hcarries : pdu.Carries m) :
    (∃ st₂, uploadRun libc st (pdus ++ [pdu]) = .ok st₂ ∧
      RepliesVerdict (Verified st₁.upload content m.data) st₁.effects st₂.effects) ↔
    FinishJudged st₁.upload content m := by
  have hlast : uploadRun libc st (pdus ++ [pdu]) =
      (processProtocolUploadFileCmdEx04 libc pdu st₁).map Prod.snd := by
    rw [uploadRun_concat, hrun]
    change (processProtocolUploadFile libc pdu st₁).map Prod.snd = _
    rw [processProtocolUploadFile, hcarries.cmdEx.trans hm.2]
    rfl
  rw [hlast]
  by_cases hcomplete : m.SaysComplete
  swap
  · exact ⟨fun _ => .inl hcomplete, fun _ => verdict_incomplete hcarries hcomplete⟩
  obtain ⟨env, hdisk, heq⟩ := cmdEx04_complete hposix hcarries hcomplete st₁
  rw [heq]
  cases uploadRun_stage hinit hrun with
  | never hempty =>
      have htx : st₁.upload.filenameTx = none := congrArg UploadFile.filenameTx hempty
      exact ⟨fun _ => .inr (.inr htx), fun _ => verdict_never hempty⟩
  | @finished token hhandle htx hdead =>
      have hfinish : fileUploadSingleFinish libc (cString (m.data.drop 1)) { st₁ with env := env } =
          .error (.useAfterFree token) := finish_finished _ hhandle htx hdead
      rw [Run.bind_error hfinish]
      constructor
      · rintro ⟨_, hfault, -⟩
        cases hfault
      · rintro (hincomplete | ⟨hopen, -⟩ | hnone)
        · exact absurd hcomplete hincomplete
        · exact absurd hhandle hopen
        · cases htx.symm.trans hnone
  | @uploading handle token path hkept hne =>
      obtain ⟨pos, hstream⟩ := hcontent handle token path hkept
      have hjudged : FinishJudged st₁.upload content m ↔ ¬ Misjudged content (m.data.drop 1) := by
        have hopened : st₁.upload.fileHandle ≠ none := hkept.opened
        have htx : st₁.upload.filenameTx ≠ none := by
          intro hnone
          cases hkept.filenameTx.symm.trans hnone
        simp only [FinishJudged, hcomplete, hopened, htx, not_true, not_false_eq_true, ne_eq,
          false_or, or_false, true_and]
      rw [← hdisk] at hstream
      rw [hjudged]
      exact verdict_uploading hposix hkept hne hstream hcomplete.2

theorem holds_of_run (pdus : List PDU) (content : List UInt8) (pos : Nat)
    (hstate : ((uploadRun storeLibc storeMachine pdus).toOption.map fun st =>
      (st.upload, st.heap.read 0, st.env.disk.stream 0)) =
        some (⟨some 1, some 0, some 0⟩, some (literal "up/fw"),
          some ⟨literal "up/fw", content, pos⟩)) :
    ∃ st₁, uploadRun storeLibc storeMachine pdus = .ok st₁ ∧ st₁.upload.fileHandle ≠ none ∧
      st₁.UploadHolds Store.disk content := by
  cases hrun : uploadRun storeLibc storeMachine pdus with
  | error f =>
      rw [hrun] at hstate
      cases hstate
  | ok st₁ =>
      rw [hrun] at hstate
      obtain ⟨hupload, hrest⟩ := Prod.mk.inj (Option.some.inj hstate)
      obtain ⟨hread, hstream⟩ := Prod.mk.inj hrest
      refine ⟨st₁, rfl, by simp [hupload], ?_⟩
      intro handle token path hkept
      have hhandle : st₁.upload.fileHandle = some handle := hkept.fileHandle
      have htx : st₁.upload.filenameTx = some token := hkept.filenameTx
      have hpath : st₁.heap.read token = some path := hkept.read
      rw [hupload] at hhandle htx
      cases hhandle
      cases htx
      rw [hread] at hpath
      cases hpath
      exact ⟨pos, hstream⟩

def helloRun : List PDU := openPdu :: helloPieces.map fun w => w.message.pdu

theorem helloDigits_matches : Matches (MessageDigest.digest (literal "hello")) helloDigits := by
  unfold Matches
  decide +kernel

/-- The file is finished with its MD5, and the finish is answered so. -/
theorem finish_exact_hello : ∃ st₁ st₂, uploadRun storeLibc storeMachine helloRun = .ok st₁ ∧
    uploadRun storeLibc storeMachine (helloRun ++ [(finishMessage helloDigits).pdu]) = .ok st₂ ∧
    st₂.effects = st₁.effects ++ [.replyToClient pcsUploadFile pcsEx04 [pcsExOk]] := by
  obtain ⟨st₁, hrun, hopened, hholds⟩ := holds_of_run helloRun (literal "hello") 2
    (by decide +kernel)
  have hjudged : FinishJudged st₁.upload (literal "hello") (finishMessage helloDigits) := by
    refine .inr (.inl ⟨hopened, ?_⟩)
    rw [misjudged_small (by decide)]
    exact fun h => h.not_matches rfl helloDigits_matches
  obtain ⟨st₂, hlast, status, heffects, hstatus, -⟩ := (finish_exact storeLibc_posix rfl hrun hholds
    ⟨rfl, rfl⟩ (Message.carries_pdu _)).mpr hjudged
  rw [hstatus.mpr ⟨hopened, rfl, helloDigits_matches⟩] at heffects
  exact ⟨st₁, st₂, hrun, hlast, heffects⟩

def emptyDigits : List UInt8 := literal "d41D8CD98f00b204e9800998ecf8427e"

/-- An empty file is finished with one byte behind its MD5. -/
theorem finish_exact_extended : ¬ ∀ (φ : Type) (libc : Libc φ) (disk : φ → Disk),
    libc.Posix disk → ∀ (st st₁ : Machine φ) (pdus : List PDU) (content : List UInt8) (m : Message),
      st.upload = ⟨none, none, none⟩ → uploadRun libc st pdus = .ok st₁ →
      st₁.UploadHolds disk content → m.FinishesFile →
      ∃ st₂, uploadRun libc st (pdus ++ [m.pdu]) = .ok st₂ ∧
        RepliesVerdict (Verified st₁.upload content m.data) st₁.effects st₂.effects := by
  intro hall
  have hlong : emptyDigits.length = 32 := by decide
  obtain ⟨st₁, hrun, -, hholds⟩ := holds_of_run [openPdu] [] 0 (by decide +kernel)
  obtain ⟨st₂, hlast, status, heffects, hstatus, -⟩ := hall Store storeLibc Store.disk
    storeLibc_posix storeMachine st₁ [openPdu] [] (finishMessage (emptyDigits ++ [0x21])) rfl hrun
    hholds ⟨rfl, rfl⟩
  have haccepted : ((uploadRun storeLibc storeMachine
      ([openPdu] ++ [(finishMessage (emptyDigits ++ [0x21])).pdu])).toOption.map fun st =>
        st.effects.getLast?) = some (some (.replyToClient pcsUploadFile pcsEx04 [pcsExOk])) := by
    decide +kernel
  rw [hlast] at haccepted
  have hreply : st₂.effects.getLast? = some (.replyToClient pcsUploadFile pcsEx04 [pcsExOk]) :=
    Option.some.inj haccepted
  rw [heffects, List.getLast?_concat] at hreply
  cases hreply
  have hlength := (hstatus.mp rfl).digits.length
  change (emptyDigits ++ [0x21]).length = 32 at hlength
  rw [List.length_append, hlong] at hlength
  cases hlength

end CccUpgrade
