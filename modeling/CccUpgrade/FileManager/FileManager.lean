import CccUpgrade.FileManager.Md5Sum

/-! upload_file.c, which keeps the file being uploaded, and file_manager.c on top of
it. -/
namespace CccUpgrade

variable {φ : Type} (libc : Libc φ)

def uploadFileClear : Run φ Bool := do
  let upload ← Run.getUpload
  Run.free upload.filename
  Run.free upload.filenameTx
  Run.setUpload { upload with fileHandle := none }
  return true

def uploadFileGetHandle : Run φ (Option Nat) := return (← Run.getUpload).fileHandle

def uploadFileGetPath : Run φ (Option Nat) := return (← Run.getUpload).filenameTx

def strdup (content : List UInt8) : Run φ (Option Nat) := do
  if !(← Run.call (libc.malloc · (content.length + 1))) then return none
  return some (← Run.store content)

/-- `upload_file_save`. What was kept before is overwritten. -/
def uploadFileSave (filetitle : Option (List UInt8)) (filenameTx handle : Option Nat) :
    Run φ Bool := do
  let some filetitle := filetitle | return false
  let some filenameTx := filenameTx | return false
  let some handle := handle | return false
  let filename ← strdup libc filetitle
  Run.setUpload ⟨filename, some filenameTx, some handle⟩
  return true

def openTxFilename (filename : List UInt8) : Run φ (Option Nat) :=
  Run.call (libc.fopenWrite · filename)

def checkFileByMd5 (checkFilename : Option Nat) (md5sum : List UInt8) : Run φ Bool := do
  let some sumBuffer ← calcuMd5Checksum libc checkFilename | return false
  return strncaseEq md5sum sumBuffer sumBuffer.length

def fileUploadSingleFinish (md5sum : List UInt8) : Run φ Bool := do
  match ← uploadFileGetHandle with
  | some handle => Run.call (libc.fclose · handle)
  | none => pure ()
  let filePath ← uploadFileGetPath
  let result ← checkFileByMd5 libc filePath md5sum
  let _ ← uploadFileClear
  return result

def fileUploadWrite (offset : Int) (dataBuf : List UInt8) : Run φ Bool := do
  let some handle ← uploadFileGetHandle | return false
  if !(← Run.call (libc.fseek · handle offset)) then return false
  let written ← Run.call (libc.fwrite · handle dataBuf)
  return written = dataBuf.length

def checkUpgradeDirectory (tempDir : Option (List UInt8)) : Run φ Bool := do
  let some dir := tempDir | return false
  if ← utilFileIsExist libc dir then return true
  utilCreateDir libc tempDir

def fileUploadOpen (dir filetitle : Option (List UInt8)) : Run φ Bool := do
  if (dir.getD []).length ≤ 0 then return false
  if (filetitle.getD []).length ≤ 0 then return false
  if !(← checkUpgradeDirectory libc dir) then return false
  let some path ← utilDirAppend libc dir filetitle | return false
  let filenameTx ← Run.store path
  let fileHandle ← openTxFilename libc path
  if fileHandle.isNone then
    Run.free (some filenameTx)
    return false
  uploadFileSave libc filetitle (some filenameTx) fileHandle

/-- `file_execute_script`: 0 for success, but also for an empty name, 1 when the file
does not exist, 2 when its path cannot be built and 3 when its mode cannot be set. -/
def fileExecuteScript (dir filetitle : Option (List UInt8)) : Run φ Int := do
  if (dir.getD []).length ≤ 0 then return 0
  if (filetitle.getD []).length ≤ 0 then return 0
  let some filename ← utilDirAppend libc dir filetitle | return 2
  if !(← utilFileIsExist libc filename) then return 1
  if !(← Run.call (libc.chmod · filename)) then return 3
  executeScript libc filename
  return 0

theorem exists_of_ne_nil {dir : Option (List UInt8)} (h : dir.getD [] ≠ []) :
    ∃ d, dir = some d ∧ d ≠ [] := by
  cases dir with
  | none => exact absurd rfl h
  | some d => exact ⟨d, rfl, h⟩

theorem exists_of_length {dir : Option (List UInt8)} (h : ¬ (dir.getD []).length ≤ 0) :
    ∃ d, dir = some d ∧ d ≠ [] := by
  apply exists_of_ne_nil
  simpa using h

theorem uploadFileClear_live {st : Machine φ} {token : Nat} {path : List UInt8}
    (htx : st.upload.filenameTx = some token) (hread : st.heap.read token = some path)
    (hfilename : ∀ t, st.upload.filename = some t → st.heap.Live t ∧ t ≠ token) :
    ∃ heap, uploadFileClear st =
        .ok (true, { st with heap := heap, upload := { st.upload with fileHandle := none } }) ∧
      ¬ heap.Live token ∧ heap.blocks.length = st.heap.blocks.length := by
  have hfirst : ∃ heap, Run.free st.upload.filename st = .ok ((), { st with heap := heap }) ∧
      heap.read token = some path ∧ heap.blocks.length = st.heap.blocks.length := by
    cases hname : st.upload.filename with
    | none => exact ⟨st.heap, rfl, hread, rfl⟩
    | some t =>
        obtain ⟨hlive, hne⟩ := hfilename t hname
        obtain ⟨heap, hfree, -⟩ := hlive.free
        refine ⟨heap, ?_, ?_, Lib.Heap.length_free hfree⟩
        · simp only [Run.free, hfree]
        · rwa [Lib.Heap.read_free_of_ne hfree hne.symm]
  obtain ⟨heap, hfree, hkept, hlength⟩ := hfirst
  obtain ⟨heap', hfree', hdead⟩ := Lib.Heap.Live.free ⟨path, hkept⟩
  have hsecond : Run.free st.upload.filenameTx { st with heap := heap } =
      .ok ((), { st with heap := heap' }) := by
    simp only [htx, Run.free, hfree']
  have hget : (Run.getUpload : Run φ UploadFile) st = .ok (st.upload, st) := rfl
  refine ⟨heap', ?_, hdead, (Lib.Heap.length_free hfree').trans hlength⟩
  unfold uploadFileClear
  rw [Run.bind_ok hget, Run.bind_ok hfree, Run.bind_ok hsecond]
  rfl

section Keeps

open Lib

variable {libc} {γ : Type} {view : Machine φ → γ} {E : Fault → Prop}

theorem keeps_strdup (hmalloc : ∀ n, Blind view (libc.malloc · n)) (hheap : HeapFree view)
    (content : List UInt8) : Keeps view E (strdup libc content) := by
  unfold strdup
  apply Keeps.bind (Run.keeps_call (hmalloc _))
  intro allocated
  split
  · exact Keeps.pure
  · exact Keeps.bind (Run.keeps_store hheap _) fun _ => Keeps.pure

theorem keeps_uploadFileSave (hmalloc : ∀ n, Blind view (libc.malloc · n)) (houter : Outer view)
    (filetitle : Option (List UInt8)) (filenameTx handle : Option Nat) :
    Keeps view E (uploadFileSave libc filetitle filenameTx handle) := by
  unfold uploadFileSave
  split
  · split
    · split
      · apply Keeps.bind (keeps_strdup hmalloc houter.heap _)
        exact fun _ => Keeps.bind (Run.keeps_setUpload houter _) fun _ => Keeps.pure
      · exact Keeps.pure
    · exact Keeps.pure
  · exact Keeps.pure

theorem keeps_fileUploadWrite (hfseek : ∀ n offset, Blind view (libc.fseek · n offset))
    (hfwrite : ∀ n dataBuf, Blind view (libc.fwrite · n dataBuf)) (offset : Int)
    (dataBuf : List UInt8) : Keeps view E (fileUploadWrite libc offset dataBuf) := by
  unfold fileUploadWrite
  apply Keeps.bind (Keeps.bind Run.keeps_getUpload fun _ => Keeps.pure)
  intro handle
  split
  · apply Keeps.bind (Run.keeps_call (hfseek _ _))
    intro sought
    split
    · exact Keeps.pure
    · exact Keeps.bind (Run.keeps_call (hfwrite _ _)) fun _ => Keeps.pure
  · exact Keeps.pure

theorem keeps_checkFileByMd5 (hview : EnvFree view) (checkFilename : Option Nat)
    (md5sum : List UInt8) : Keeps view anyFault (checkFileByMd5 libc checkFilename md5sum) := by
  unfold checkFileByMd5
  apply Keeps.bind (keeps_calcuMd5Checksum hview _)
  intro sumBuffer
  split <;> exact Keeps.pure

theorem keeps_checkUpgradeDirectory (hview : libc.Silent view) (tempDir : Option (List UInt8)) :
    Keeps view E (checkUpgradeDirectory libc tempDir) := by
  unfold checkUpgradeDirectory
  split
  · apply Keeps.bind (Run.keeps_call (hview.access _))
    intro exist
    split
    · exact Keeps.pure
    · exact keeps_utilCreateDir hview _
  · exact Keeps.pure

theorem keeps_uploadFileClear (houter : Outer view) (hE : ∀ t, E (.doubleFree t)) :
    Keeps view E (uploadFileClear : Run φ Bool) := by
  unfold uploadFileClear
  apply Keeps.bind Run.keeps_getUpload
  intro upload
  apply Keeps.bind (Run.keeps_free houter.heap _ fun t _ => hE t)
  intro _
  apply Keeps.bind (Run.keeps_free houter.heap _ fun t _ => hE t)
  intro _
  exact Keeps.bind (Run.keeps_setUpload houter _) fun _ => Keeps.pure

end Keeps

section Rules

open Lib

variable {libc} {γ : Type} {view : Machine φ → γ} {p : γ → Prop} {E : Fault → Prop}
  {dir filetitle : Option (List UInt8)}

/-- An open request is refused with nothing done, or has a path to open. -/
theorem fileUploadOpen_rule (hview : libc.Silent view) {Q : Bool → Machine φ → Prop}
    (hrefused : ∀ st, p (view st) → Q false st)
    (hopen : ∀ d title, dir = some d → filetitle = some title → d ≠ [] → title ≠ [] →
      Triple (fun st => p (view st)) (do
        let filenameTx ← Run.store (withSlash d ++ title)
        let fileHandle ← openTxFilename libc (withSlash d ++ title)
        if fileHandle.isNone then
          Run.free (some filenameTx)
          return false
        uploadFileSave libc (some title) (some filenameTx) fileHandle) Q E) :
    Triple (fun st => p (view st)) (fileUploadOpen libc dir filetitle) Q E := by
  unfold fileUploadOpen
  split
  · exact Triple.pure hrefused
  rename_i hdir
  obtain ⟨d, rfl, hd⟩ := exists_of_length hdir
  split
  · exact Triple.pure hrefused
  rename_i htitle
  obtain ⟨title, rfl, ht⟩ := exists_of_length htitle
  apply Triple.bind ((keeps_checkUpgradeDirectory hview _).triple p)
  intro exist
  split
  · exact Triple.pure hrefused
  apply Triple.bind (triple_utilDirAppend hview.malloc p)
  intro path
  apply Triple.assume
  intro hname
  split
  · rename_i path
    obtain rfl := hname path rfl
    exact hopen d title rfl rfl hd ht
  · exact Triple.pure hrefused

theorem fileExecuteScript_rule (hmalloc : ∀ n, Blind view (libc.malloc · n))
    {Q : Int → Machine φ → Prop}
    (hunnamed : dir.getD [] = [] ∨ filetitle.getD [] = [] → ∀ st, p (view st) → Q 0 st)
    (hunbuilt : ∀ st, p (view st) → Q 2 st)
    (hexecute : ∀ d title, dir = some d → filetitle = some title → d ≠ [] → title ≠ [] →
      Triple (fun st => p (view st)) (do
        if !(← utilFileIsExist libc (withSlash d ++ title)) then return 1
        if !(← Run.call (libc.chmod · (withSlash d ++ title))) then return 3
        executeScript libc (withSlash d ++ title)
        return 0) Q E) :
    Triple (fun st => p (view st)) (fileExecuteScript libc dir filetitle) Q E := by
  unfold fileExecuteScript
  split
  · rename_i hdir
    exact Triple.pure (hunnamed (.inl (by simpa using hdir)))
  rename_i hdir
  obtain ⟨d, rfl, hd⟩ := exists_of_length hdir
  split
  · rename_i htitle
    exact Triple.pure (hunnamed (.inr (by simpa using htitle)))
  rename_i htitle
  obtain ⟨title, rfl, ht⟩ := exists_of_length htitle
  apply Triple.bind (triple_utilDirAppend hmalloc p)
  intro path
  apply Triple.assume
  intro hname
  split
  · rename_i path
    obtain rfl := hname path rfl
    exact hexecute d title rfl rfl hd ht
  · exact Triple.pure hunbuilt

end Rules

section Whole

open Lib

variable {libc} {γ : Type} {view : Machine φ → γ} (henv : EnvFree view) (houter : Outer view)
include henv houter

theorem keeps_fileUploadSingleFinish (md5sum : List UInt8) :
    Keeps view anyFault (fileUploadSingleFinish libc md5sum) := by
  have hrest : Keeps view anyFault (do
      let filePath ← uploadFileGetPath
      let result ← checkFileByMd5 libc filePath md5sum
      let _ ← uploadFileClear
      return result) := by
    apply Keeps.bind (Keeps.bind Run.keeps_getUpload fun _ => Keeps.pure)
    intro filePath
    apply Keeps.bind (keeps_checkFileByMd5 henv _ _)
    exact fun _ => Keeps.bind (keeps_uploadFileClear houter fun _ => trivial) fun _ => Keeps.pure
  unfold fileUploadSingleFinish
  apply Keeps.bind (Keeps.bind Run.keeps_getUpload fun _ => Keeps.pure)
  intro handle
  cases handle with
  | none => exact hrest
  | some handle => exact Keeps.bind (Run.keeps_call (henv.blind _)) fun _ => hrest

theorem keeps_fileUploadOpen (dir filetitle : Option (List UInt8)) :
    Keeps view anyFault (fileUploadOpen libc dir filetitle) := by
  intro v
  apply fileUploadOpen_rule (p := (· = v)) (henv.silent libc) fun _ hs => hs
  intro d title _ _ _ _
  apply Triple.bind (Run.keeps_store houter.heap _ v)
  intro token
  apply Triple.bind (Run.keeps_call (henv.blind _) v)
  intro handle
  split
  · apply Triple.bind (Run.keeps_free houter.heap _ (fun _ _ => trivial) v)
    exact fun _ => Triple.pure fun _ hs => hs
  · exact keeps_uploadFileSave (henv.silent libc).malloc houter _ _ _ v

omit houter in
theorem keeps_fileExecuteScript (dir filetitle : Option (List UInt8)) :
    Keeps view anyFault (fileExecuteScript libc dir filetitle) := by
  intro v
  apply fileExecuteScript_rule (p := (· = v)) (henv.silent libc).malloc
    (fun _ _ hs => hs) (fun _ hs => hs)
  intro d title _ _ _ _
  apply Triple.bind (Run.keeps_call (henv.blind _) v)
  intro exist
  split
  · exact Triple.pure fun _ hs => hs
  apply Triple.bind (Run.keeps_call (henv.blind _) v)
  intro changed
  split
  · exact Triple.pure fun _ hs => hs
  · exact Triple.bind (Run.keeps_call (henv.blind _) v) fun _ => Triple.pure fun _ hs => hs

end Whole

end CccUpgrade
