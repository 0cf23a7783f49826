import CccUpgrade.Adapter.Handlers
import Mathlib.Data.List.Induction

/-! The upload globals over any sequence of upload requests. They are consistent as
long as no finished upload leaves its freed strings behind. -/
namespace CccUpgrade

open Lib

variable {φ : Type} {libc : Libc φ}

def Files.TxLive (v : Files) : Prop := ∃ token, v.2.filenameTx = some token ∧ v.1.Live token

/-- The upload globals agree: `filename_tx` is live exactly while a file is open, and
both are NULL otherwise. -/
structure Files.Consistent (v : Files) : Prop where
  live_iff : v.TxLive ↔ v.2.fileHandle ≠ none
  closed : v.2.fileHandle = none → v.2.filenameTx = none

/-- What keeps the globals consistent: without an open file nothing is held, with one
the two strings are live blocks of their own. -/
structure Files.Session (v : Files) : Prop where
  idle : v.2.fileHandle = none → v.2.filename = none ∧ v.2.filenameTx = none
  tx : v.2.fileHandle ≠ none → v.TxLive
  filename : ∀ token, v.2.filename = some token → v.1.Live token ∧ v.2.filenameTx ≠ some token

namespace Files.Session

variable {v : Files}

theorem consistent (h : v.Session) : v.Consistent := by
  refine ⟨⟨?_, h.tx⟩, fun hnone => (h.idle hnone).2⟩
  rintro ⟨token, htx, -⟩ hnone
  rw [(h.idle hnone).2] at htx
  cases htx

theorem empty (heap : Heap (List UInt8)) : Files.Session (heap, ⟨none, none, none⟩) where
  idle _ := ⟨rfl, rfl⟩
  tx h := absurd rfl h
  filename _ h := by cases h

theorem tx_live (h : v.Session) (token : Nat) (htx : v.2.filenameTx = some token) :
    v.1.Live token := by
  by_cases hhandle : v.2.fileHandle = none
  · rw [(h.idle hhandle).2] at htx
    cases htx
  · obtain ⟨token', htx', hlive⟩ := h.tx hhandle
    rw [htx] at htx'
    rwa [Option.some.inj htx']

theorem of_live (h : v.Session) {heap : Heap (List UInt8)}
    (hlive : ∀ token, v.1.Live token → v.2.filename = some token ∨ v.2.filenameTx = some token →
      heap.Live token) : Files.Session (heap, v.2) where
  idle := h.idle
  tx hhandle := by
    obtain ⟨token, htx, hold⟩ := h.tx hhandle
    exact ⟨token, htx, hlive token hold (.inr htx)⟩
  filename token hname := by
    obtain ⟨hold, hne⟩ := h.filename token hname
    exact ⟨hlive token hold (.inl hname), hne⟩

theorem alloc (h : v.Session) (content : List UInt8) :
    Files.Session ((v.1.alloc content).2, v.2) :=
  h.of_live fun _ hlive _ => hlive.alloc content

end Files.Session

structure Files.Opening (token : Nat) (v : Files) : Prop where
  session : v.Session
  live : v.1.Live token
  fresh : v.2.filename ≠ some token ∧ v.2.filenameTx ≠ some token

theorem Files.Session.opening {v : Files} (h : v.Session) (content : List UInt8) :
    Files.Opening (v.1.alloc content).1 ((v.1.alloc content).2, v.2) where
  session := h.alloc content
  live := Heap.live_alloc v.1 content
  fresh := by
    constructor
    · intro hname
      exact (h.filename _ hname).1.ne_alloc content rfl
    · intro htx
      exact (h.tx_live _ htx).ne_alloc content rfl

theorem triple_free_opening (token : Nat) :
    Triple (fun st : Machine φ => st.files.Opening token) (Run.free (some token))
      (fun _ st => st.files.Session) Fault.NotOfHeap := by
  apply (Run.triple_free token).weaken
  intro st h
  refine ⟨h.live, fun heap hfree => ?_⟩
  apply h.session.of_live
  intro other hlive hheld
  apply hlive.free_of_ne hfree
  rintro rfl
  exact hheld.elim h.fresh.1 h.fresh.2

structure Files.Kept (v : Files) (handle token : Nat) (path : List UInt8) : Prop where
  fileHandle : v.2.fileHandle = some handle
  filenameTx : v.2.filenameTx = some token
  read : v.1.read token = some path
  filename : ∀ other, v.2.filename = some other → v.1.Live other ∧ other ≠ token

theorem Files.Kept.opened {v : Files} {handle token : Nat} {path : List UInt8}
    (h : v.Kept handle token path) : v.2.fileHandle ≠ none := by
  rw [h.fileHandle]
  exact Option.some_ne_none handle

theorem Files.Kept.session {v : Files} {handle token : Nat} {path : List UInt8}
    (h : v.Kept handle token path) : v.Session where
  idle hnone := absurd hnone h.opened
  tx _ := ⟨token, h.filenameTx, path, h.read⟩
  filename other hname := by
    obtain ⟨hlive, hne⟩ := h.filename other hname
    refine ⟨hlive, fun htx => hne ?_⟩
    rw [h.filenameTx] at htx
    exact (Option.some.inj htx).symm

section Save

variable {token : Nat} {path : List UInt8} {E : Fault → Prop}

theorem triple_strdup (content : List UInt8) :
    Triple (fun st : Machine φ => st.heap.read token = some path) (strdup libc content)
      (fun name st => st.heap.read token = some path ∧
        ∀ other, name = some other → st.heap.Live other ∧ other ≠ token) E := by
  unfold strdup
  apply Triple.bind ((Run.keeps_call (envFree_files.blind _)).triple fun v => v.1.read token = some path)
  intro allocated
  split
  · exact Triple.pure fun _ hread => ⟨hread, fun _ h => by cases h⟩
  · apply Triple.bind (Q := fun other st =>
      st.heap.read token = some path ∧ st.heap.Live other ∧ other ≠ token)
    · apply (Run.triple_store content).weaken
      intro st hread
      have hlive : st.heap.Live token := ⟨path, hread⟩
      refine ⟨?_, Heap.live_alloc .., (hlive.ne_alloc _).symm⟩
      exact (Heap.read_alloc_of_lt _ _ hlive.lt).trans hread
    · intro other
      refine Triple.pure fun st h => ⟨h.1, fun _ hother => ?_⟩
      cases hother
      exact h.2

theorem triple_uploadFileSave (filetitle : List UInt8) (handle : Nat) :
    Triple (fun st : Machine φ => st.heap.read token = some path)
      (uploadFileSave libc (some filetitle) (some token) (some handle))
      (fun saved st => saved = true ∧ st.files.Kept handle token path) E := by
  apply Triple.bind (triple_strdup filetitle)
  intro filename
  apply Triple.bind (Q := fun _ st => st.files.Kept handle token path)
  · apply (Run.triple_setUpload _).weaken
    rintro st ⟨hread, hname⟩
    exact ⟨rfl, rfl, hread, hname⟩
  · exact fun _ => Triple.pure fun _ hs => ⟨rfl, hs⟩

end Save

theorem triple_fileUploadOpen (dir filetitle : Option (List UInt8)) :
    Triple (fun st : Machine φ => st.files.Session) (fileUploadOpen libc dir filetitle)
      (fun _ st => st.files.Session) Fault.NotOfHeap := by
  apply fileUploadOpen_rule (p := Files.Session) (envFree_files.silent libc) fun _ hs => hs
  intro d title _ _ _ _
  apply Triple.bind (Q := fun token st => st.files.Opening token)
  · exact (Run.triple_store _).weaken fun st hs => hs.opening _
  intro token
  apply Triple.bind ((Run.keeps_call (envFree_files.blind _)).triple (Files.Opening token))
  intro handle
  cases handle with
  | none =>
      apply Triple.bind (triple_free_opening token)
      exact fun _ => Triple.pure fun _ hs => hs
  | some handle =>
      rintro st ⟨-, ⟨path, hread⟩, -⟩
      apply (triple_uploadFileSave title handle).mono (fun _ h => h) _ st hread
      exact fun _ _ hkept => hkept.2.session

theorem triple_uploadFileClear {v : Files} (hv : v.Session) :
    Triple (fun st : Machine φ => st.files = v) uploadFileClear
      (fun _ st => st.upload = { v.2 with fileHandle := none }) Fault.NotOfHeap := by
  unfold uploadFileClear
  apply Triple.bind (Q := fun upload st => upload = v.2 ∧ st.files = v)
  · apply Run.triple_getUpload.mono (fun _ hs => hs)
    rintro upload st ⟨rfl, hupload⟩
    exact ⟨hupload, rfl⟩
  intro upload
  apply Triple.assume
  rintro rfl
  apply Triple.bind (Q := fun _ st => st.upload = v.2 ∧
    ∀ token, v.2.filenameTx = some token → st.heap.Live token)
  · cases hname : v.2.filename with
    | none =>
        apply Run.triple_free_none.weaken
        rintro st rfl
        exact ⟨rfl, hv.tx_live⟩
    | some name =>
        apply (Run.triple_free name).weaken
        rintro st rfl
        obtain ⟨hlive, hne⟩ := hv.filename name hname
        refine ⟨hlive, fun heap hfree => ⟨rfl, fun token htx => ?_⟩⟩
        apply (hv.tx_live token htx).free_of_ne hfree
        rintro rfl
        exact hne htx
  intro _
  apply Triple.bind (Q := fun _ st => st.upload = v.2)
  · cases htx : v.2.filenameTx with
    | none => exact Run.triple_free_none.weaken fun st hs => hs.1
    | some token =>
        apply (Run.triple_free token).weaken
        exact fun st hs => ⟨hs.2 token rfl, fun heap _ => hs.1⟩
  intro _
  apply Triple.bind (Q := fun _ st => st.upload = { v.2 with fileHandle := none })
  · exact (Run.triple_setUpload _).weaken fun st _ => rfl
  · exact fun _ => Triple.pure fun _ hs => hs

theorem triple_checkFileByMd5 {checkFilename : Option Nat} (md5sum : List UInt8) {v : Files}
    (hlive : ∀ token, checkFilename = some token → v.1.Live token) :
    Triple (fun st : Machine φ => st.files = v) (checkFileByMd5 libc checkFilename md5sum)
      (fun _ st => st.files = v) Fault.NotOfHeap := by
  unfold checkFileByMd5
  apply Triple.bind (triple_calcuMd5Checksum hlive)
  intro sumBuffer
  split <;> exact Triple.pure fun _ hs => hs

theorem triple_fileUploadSingleFinish (md5sum : List UInt8) {v : Files} (hv : v.Session) :
    Triple (fun st : Machine φ => st.files = v) (fileUploadSingleFinish libc md5sum)
      (fun _ st => st.upload = { v.2 with fileHandle := none }) Fault.NotOfHeap := by
  have hhandle : Triple (fun st : Machine φ => st.files = v) uploadFileGetHandle
      (fun _ st => st.files = v) Fault.NotOfHeap :=
    Triple.bind Run.triple_getUpload fun _ => Triple.pure fun _ hs => hs.1
  have hpath : Triple (fun st : Machine φ => st.files = v) uploadFileGetPath
      (fun path st => path = v.2.filenameTx ∧ st.files = v) Fault.NotOfHeap := by
    apply Triple.bind Run.triple_getUpload
    intro upload
    apply Triple.pure
    rintro st ⟨rfl, rfl⟩
    exact ⟨rfl, rfl⟩
  have hrest : Triple (fun st : Machine φ => st.files = v) (do
      let filePath ← uploadFileGetPath
      let result ← checkFileByMd5 libc filePath md5sum
      let _ ← uploadFileClear
      return result)
      (fun _ st => st.upload = { v.2 with fileHandle := none }) Fault.NotOfHeap := by
    apply Triple.bind hpath
    intro path
    apply Triple.assume
    rintro rfl
    apply Triple.bind (triple_checkFileByMd5 md5sum hv.tx_live)
    intro result
    exact Triple.bind (triple_uploadFileClear hv) fun _ => Triple.pure fun _ hs => hs
  unfold fileUploadSingleFinish
  apply Triple.bind hhandle
  intro handle
  cases handle with
  | none => exact hrest
  | some handle => exact Triple.bind (Run.keeps_call (envFree_files.blind _) v) fun _ => hrest

structure PDU.Finishes (pdu : PDU) : Prop where
  cmdEx : pdu.cmdEx = pcsEx04
  dataLen : 1 < pdu.dataLen
  status : readByte pdu.data 0 = .ok pcsExOk

theorem triple_cmdEx02 {p : Files → Prop} {E : Fault → Prop} (hE : ∀ f, f.NotOfHeap → E f)
    (hopen : ∀ dir title, Triple (fun st : Machine φ => p st.files)
      (fileUploadOpen libc dir (some title)) (fun _ st => p st.files) E) (pdu : PDU) :
    Triple (fun st : Machine φ => p st.files) (processProtocolUploadFileCmdEx02 libc pdu)
      (fun _ st => p st.files) E := by
  have hreply : ∀ b, Triple (fun st : Machine φ => p st.files)
      (sendReplyToClient pcsUploadFile pcsEx02 [replyStatus b]) (fun _ st => p st.files) E :=
    fun b => (keeps_sendReplyToClient effectFree_files _ _ _).triple p
  unfold processProtocolUploadFileCmdEx02
  dsimp only
  split
  · apply Triple.bind ((keeps_payloadString hE (envFree_files.silent libc) pdu _ _).triple p)
    intro filetitle
    apply Triple.bind (Run.keeps_upgradeTempDir.triple p)
    intro dir
    apply Triple.bind (hopen dir filetitle)
    intro opened
    split <;> exact hreply _
  · exact hreply _

theorem triple_cmdEx04 {pdu : PDU} (hcmdEx : pdu.cmdEx = pcsEx04) {v : Files} (hv : v.Session) :
    Triple (fun st : Machine φ => st.files = v) (processProtocolUploadFileCmdEx04 libc pdu)
      (fun _ st => (pdu.Finishes → st.upload = { v.2 with fileHandle := none }) ∧
        (¬ pdu.Finishes → st.files = v)) Fault.NotOfHeap := by
  have hreply : ∀ b, Keeps Machine.files Fault.NotOfHeap
      (sendReplyToClient pcsUploadFile pcsEx04 [replyStatus b] : Run φ Unit) := fun b =>
    keeps_sendReplyToClient effectFree_files _ _ _
  have hkept : ∀ b, ¬ pdu.Finishes → Triple (fun st : Machine φ => st.files = v)
      (sendReplyToClient pcsUploadFile pcsEx04 [replyStatus b])
      (fun _ st => (pdu.Finishes → st.upload = { v.2 with fileHandle := none }) ∧
        (¬ pdu.Finishes → st.files = v)) Fault.NotOfHeap := fun b hnot =>
    (hreply b v).mono (fun _ hs => hs) fun _ _ hs => ⟨fun h => absurd h hnot, fun _ => hs⟩
  unfold processProtocolUploadFileCmdEx04
  dsimp only
  split
  · rename_i hlen
    apply Triple.bind (Run.triple_checked notOfHeap_readByte)
    intro status
    apply Triple.assume
    intro hstatus
    split
    · rename_i hok
      have hfinishes : pdu.Finishes := ⟨hcmdEx, hlen, by rw [hstatus, hok]⟩
      apply Triple.bind (keeps_payloadString (fun _ h => h) (envFree_files.silent libc) pdu _ _ v)
      intro md5sum
      apply Triple.bind (triple_fileUploadSingleFinish md5sum hv)
      intro finished
      have hdone : ∀ b, Triple (fun st : Machine φ => st.upload = { v.2 with fileHandle := none })
          (sendReplyToClient pcsUploadFile pcsEx04 [replyStatus b])
          (fun _ st => (pdu.Finishes → st.upload = { v.2 with fileHandle := none }) ∧
            (¬ pdu.Finishes → st.files = v)) Fault.NotOfHeap := fun b =>
        ((hreply b).triple fun w => w.2 = { v.2 with fileHandle := none }).mono (fun _ hs => hs)
          fun _ _ hs => ⟨fun _ => hs, fun hnot => absurd hfinishes hnot⟩
      split <;> exact hdone _
    · rename_i hbad
      refine hkept _ fun h => hbad ?_
      have hread := h.status
      rw [hstatus] at hread
      exact Except.ok.inj hread
  · rename_i hlen
    exact hkept _ fun h => hlen h.dataLen

/-- One upload request. A finish forgets the open file and nothing else; every other
request keeps the session in order. -/
theorem triple_processProtocolUploadFile (pdu : PDU) {v : Files} (hv : v.Session) :
    Triple (fun st : Machine φ => st.files = v) (processProtocolUploadFile libc pdu)
      (fun _ st => (pdu.Finishes → st.upload = { v.2 with fileHandle := none }) ∧
        (¬ pdu.Finishes → st.files.Session)) Fault.NotOfHeap := by
  have hother : ∀ {m : Run φ Unit}, pdu.cmdEx ≠ pcsEx04 →
      Triple (fun st => st.files.Session) m (fun _ st => st.files.Session) Fault.NotOfHeap →
      Triple (fun st => st.files = v) m
        (fun _ st => (pdu.Finishes → st.upload = { v.2 with fileHandle := none }) ∧
          (¬ pdu.Finishes → st.files.Session)) Fault.NotOfHeap := by
    intro m hne hm
    apply hm.mono
    · rintro st rfl
      exact hv
    · exact fun _ st hs => ⟨fun h => absurd h.cmdEx hne, fun _ => hs⟩
  have hkeeps : ∀ {m : Run φ Unit}, pdu.cmdEx ≠ pcsEx04 → Keeps Machine.files Fault.NotOfHeap m →
      Triple (fun st => st.files = v) m
        (fun _ st => (pdu.Finishes → st.upload = { v.2 with fileHandle := none }) ∧
          (¬ pdu.Finishes → st.files.Session)) Fault.NotOfHeap := fun hne hm =>
    hother hne (hm.triple Files.Session)
  unfold processProtocolUploadFile
  split
  · rename_i h
    exact hkeeps (by rw [h]; decide) (keeps_sendReplyToClient effectFree_files _ _ _)
  split
  · rename_i h
    exact hother (by rw [h]; decide)
      (triple_cmdEx02 (fun _ h => h) (fun dir title => triple_fileUploadOpen dir (some title)) pdu)
  split
  · rename_i h
    exact hkeeps (by rw [h]; decide) (keeps_cmdEx03 (fun _ h => h) effectFree_files
      (fun _ _ => envFree_files.blind _) (fun _ _ => envFree_files.blind _) pdu)
  split
  · rename_i h
    apply (triple_cmdEx04 h hv).mono (fun _ hs => hs)
    exact fun _ st hs => ⟨hs.1, fun hnot => by rw [hs.2 hnot]; exact hv⟩
  rename_i h
  split
  · exact hkeeps h (keeps_cmdEx05 (fun _ h => h) effectFree_files pdu)
  · exact hkeeps h Keeps.pure

/-- A sequence of upload requests. A fault ends it. -/
def uploadRun (libc : Libc φ) (st : Machine φ) (pdus : List PDU) : Except Fault (Machine φ) :=
  pdus.foldl (fun r pdu => match r with
    | .ok st => (processProtocolUploadFile libc pdu st).map Prod.snd
    | .error f => .error f) (.ok st)

theorem uploadRun_concat (st : Machine φ) (pdus : List PDU) (pdu : PDU) :
    uploadRun libc st (pdus ++ [pdu]) = match uploadRun libc st pdus with
      | .ok st => (processProtocolUploadFile libc pdu st).map Prod.snd
      | .error f => .error f := by
  simp only [uploadRun, List.foldl_append, List.foldl_cons, List.foldl_nil]

def UploadOk : Except Fault (Machine φ) → Prop
  | .ok st => st.files.Consistent
  | .error f => f.NotOfHeap

/-- A request that is carried out and finishes an upload finds no open file. -/
def FinishesIdle (libc : Libc φ) (st : Machine φ) (pdus : List PDU) : Prop :=
  ∀ before pdu st₁ st₂, before ++ [pdu] <+: pdus → uploadRun libc st before = .ok st₁ →
    uploadRun libc st (before ++ [pdu]) = .ok st₂ → pdu.Finishes → st₁.upload.fileHandle = none

theorem uploadRun_step {st st₁ : Machine φ} {pdus : List PDU} (pdu : PDU)
    (hrun : uploadRun libc st pdus = .ok st₁) (hsession : st₁.files.Session) :
    (∃ f, uploadRun libc st (pdus ++ [pdu]) = .error f ∧ f.NotOfHeap) ∨
      ∃ st₂, uploadRun libc st (pdus ++ [pdu]) = .ok st₂ ∧
        (pdu.Finishes → st₂.upload = { st₁.upload with fileHandle := none }) ∧
        (¬ pdu.Finishes → st₂.files.Session) := by
  have htriple : Triple (fun st : Machine φ => st.files = st₁.files)
      (processProtocolUploadFile libc pdu) _ _ := triple_processProtocolUploadFile pdu hsession
  have hconcat : uploadRun libc st (pdus ++ [pdu]) =
      (processProtocolUploadFile libc pdu st₁).map Prod.snd := by
    rw [uploadRun_concat, hrun]
  rw [hconcat]
  cases hstep : processProtocolUploadFile libc pdu st₁ with
  | error f => exact .inl ⟨f, rfl, htriple.error rfl hstep⟩
  | ok r => exact .inr ⟨r.2, rfl, htriple.ok rfl hstep⟩

theorem uploadRun_of_error {st : Machine φ} {pdus : List PDU} {f : Fault} (pdu : PDU)
    (hrun : uploadRun libc st pdus = .error f) :
    uploadRun libc st (pdus ++ [pdu]) = .error f := by
  rw [uploadRun_concat, hrun]

theorem idle_of_consistent {st₁ st₂ : Machine φ} (hsession : st₁.files.Session)
    (hupload : st₂.upload = { st₁.upload with fileHandle := none })
    (hconsistent : st₂.files.Consistent) : st₁.upload.fileHandle = none := by
  by_contra hopen
  obtain ⟨token, htx, -⟩ := hsession.tx hopen
  have hclosed : st₂.upload.filenameTx = none := by
    apply hconsistent.closed
    change st₂.upload.fileHandle = none
    rw [hupload]
  rw [hupload] at hclosed
  exact Option.some_ne_none token (htx.symm.trans hclosed)

section Run

variable {st : Machine φ} {pdus : List PDU}

theorem uploadRun_session (hinit : st.upload = ⟨none, none, none⟩)
    (hsteps : ∀ before pdu st₁ st₂, before ++ [pdu] <+: pdus → st₁.files.Session →
      uploadRun libc st before = .ok st₁ → uploadRun libc st (before ++ [pdu]) = .ok st₂ →
      pdu.Finishes → st₂.upload = { st₁.upload with fileHandle := none } →
      st₁.upload.fileHandle = none)
    {before : List PDU} (hbefore : before <+: pdus) :
    match uploadRun libc st before with
    | .ok st₁ => st₁.files.Session
    | .error f => f.NotOfHeap := by
  induction before using List.reverseRecOn with
  | nil =>
      change st.files.Session
      rw [Machine.files, hinit]
      exact .empty _
  | append_singleton before pdu ih =>
      have hsession := ih ((List.prefix_append before [pdu]).trans hbefore)
      cases hrun : uploadRun libc st before with
      | error f =>
          rw [hrun] at hsession
          rw [uploadRun_of_error pdu hrun]
          exact hsession
      | ok st₁ =>
          rw [hrun] at hsession
          rcases uploadRun_step pdu hrun hsession with
            ⟨f, hstep, hfault⟩ | ⟨st₂, hstep, hfinish, hother⟩
          · rw [hstep]
            exact hfault
          · rw [hstep]
            by_cases hfinishes : pdu.Finishes
            · have hupload := hfinish hfinishes
              have hidle := hsteps before pdu st₁ st₂ hbefore hsession hrun hstep hfinishes
                hupload
              obtain ⟨hname, htx⟩ := hsession.idle hidle
              change Files.Session (st₂.heap, st₂.upload)
              rw [hupload]
              have hempty : ({ st₁.upload with fileHandle := none } : UploadFile) =
                  ⟨none, none, none⟩ := by
                rw [UploadFile.mk.injEq]
                exact ⟨hname, htx, rfl⟩
              rw [hempty]
              exact .empty _
            · exact hother hfinishes

end Run

/-- Along a run of upload requests the globals are consistent at every point and no
freed string is read or freed again exactly when no request of the run finishes an
upload whose file is open. -/
theorem upload_state (libc : Libc φ) {st : Machine φ} (hinit : st.upload = ⟨none, none, none⟩)
    (pdus : List PDU) :
    (∀ before, before <+: pdus → UploadOk (uploadRun libc st before)) ↔
      FinishesIdle libc st pdus := by
  constructor
  · intro hok
    have hsteps : ∀ before pdu st₁ st₂, before ++ [pdu] <+: pdus → st₁.files.Session →
        uploadRun libc st before = .ok st₁ → uploadRun libc st (before ++ [pdu]) = .ok st₂ →
        pdu.Finishes → st₂.upload = { st₁.upload with fileHandle := none } →
        st₁.upload.fileHandle = none := by
      intro before pdu st₁ st₂ hbefore hsession hrun hstep _ hupload
      have hconsistent := hok _ hbefore
      rw [hstep] at hconsistent
      exact idle_of_consistent hsession hupload hconsistent
    intro before pdu st₁ st₂ hbefore hrun hstep hfinishes
    have hsession := uploadRun_session hinit hsteps
      ((List.prefix_append before [pdu]).trans hbefore)
    rw [hrun] at hsession
    refine hsteps before pdu st₁ st₂ hbefore hsession hrun hstep hfinishes ?_
    rcases uploadRun_step pdu hrun hsession with ⟨f, herror, -⟩ | ⟨st₂', hstep', hfinish, -⟩
    · rw [hstep] at herror
      cases herror
    · rw [hstep] at hstep'
      cases hstep'
      exact hfinish hfinishes
  · intro hidle before hbefore
    have hsession := uploadRun_session hinit
      (fun before pdu st₁ st₂ hle _ hrun hstep hfinishes _ =>
        hidle before pdu st₁ st₂ hle hrun hstep hfinishes) hbefore
    cases hrun : uploadRun libc st before with
    | error f =>
        rw [hrun] at hsession
        exact hsession
    | ok st₁ =>
        rw [hrun] at hsession
        exact hsession.consistent

def uploadPdu (cmdEx : UInt8) (payload : List UInt8) : PDU :=
  ⟨pcsUploadFile, cmdEx, payload, payload.length, 0, 0, true⟩

def openPdu : PDU := uploadPdu pcsEx02 (literal "fw")

def writePdu : PDU := uploadPdu pcsEx03 [0, 0, 0, 0, 0x41]

def finishPdu : PDU := uploadPdu pcsEx04 (pcsExOk :: literal "D41D8CD98F00B204E9800998ECF8427E")

theorem concat_prefix_cons {α : Type} {before xs : List α} {x a : α} (h : before ++ [x] <+: a :: xs) :
    before = [] ∧ x = a ∨ ∃ rest, before = a :: rest ∧ rest ++ [x] <+: xs := by
  cases before with
  | nil => exact .inl ⟨rfl, (List.cons_prefix_cons.mp h).1⟩
  | cons b rest =>
      obtain ⟨rfl, hrest⟩ := List.cons_prefix_cons.mp h
      exact .inr ⟨rest, rfl, hrest⟩

/-- The only finish of the run comes while no file is open. -/
theorem upload_state_write :
    UploadOk (uploadRun obligingLibc idleMachine [finishPdu, openPdu, writePdu]) := by
  refine (upload_state obligingLibc rfl [finishPdu, openPdu, writePdu]).mpr ?_ _ List.prefix_rfl
  intro before pdu st₁ st₂ hbefore hrun _ hfinishes
  rcases concat_prefix_cons hbefore with ⟨rfl, rfl⟩ | ⟨rest, rfl, hrest⟩
  · cases hrun
    rfl
  rcases concat_prefix_cons hrest with ⟨rfl, rfl⟩ | ⟨rest', rfl, hrest'⟩
  · exact absurd hfinishes.cmdEx (by decide)
  rcases concat_prefix_cons hrest' with ⟨rfl, rfl⟩ | ⟨rest'', rfl, hnone⟩
  · exact absurd hfinishes.cmdEx (by decide)
  · simp at hnone

/-- One upload from open to finish leaves a freed path behind; the next finish, with
no file open, takes the digest of the file it names. -/
theorem upload_state_finish :
    (∃ st, uploadRun obligingLibc idleMachine [openPdu, finishPdu] = .ok st ∧
        ¬ UploadOk (.ok st)) ∧
      uploadRun obligingLibc idleMachine [openPdu, finishPdu, finishPdu] =
        .error (.useAfterFree 0) := by
  have hupload : ((uploadRun obligingLibc idleMachine [openPdu, finishPdu]).toOption.map
      Machine.upload) = some ⟨some 1, some 0, none⟩ := by decide +kernel
  have hfault : (match uploadRun obligingLibc idleMachine [openPdu, finishPdu, finishPdu] with
      | .ok _ => none
      | .error f => some f) = some (.useAfterFree 0) := by decide +kernel
  constructor
  · cases hrun : uploadRun obligingLibc idleMachine [openPdu, finishPdu] with
    | error f =>
        rw [hrun] at hupload
        cases hupload
    | ok st =>
        rw [hrun] at hupload
        have hst : st.upload = ⟨some 1, some 0, none⟩ := Option.some.inj hupload
        refine ⟨st, rfl, fun hconsistent => ?_⟩
        have hclosed : st.upload.filenameTx = none := by
          apply hconsistent.closed
          change st.upload.fileHandle = none
          rw [hst]
        rw [hst] at hclosed
        cases hclosed
  · cases hrun : uploadRun obligingLibc idleMachine [openPdu, finishPdu, finishPdu] with
    | error f =>
        rw [hrun] at hfault
        rw [Option.some.inj hfault]
    | ok st =>
        rw [hrun] at hfault
        cases hfault

end CccUpgrade
