import CccUpgrade.Machine

/-! The functions of util_func.c the request handlers use. -/
namespace CccUpgrade

def literal (s : String) : List UInt8 := s.toList.map fun c => UInt8.ofNat c.toNat

def slash : UInt8 := 0x2f

variable {φ : Type} (libc : Libc φ)

def utilFileIsExist (pathname : List UInt8) : Run φ Bool := Run.call (libc.access · pathname)

/-- The rounds of `util_create_dir` for the remaining values of `k`: every prefix of
`dirname` that ends before a slash is created unless it exists. -/
def utilCreateDirLoop (dirname : List UInt8) : List Nat → Run φ Bool
  | [] => return true
  | k :: ks => do
      if dirname[k]? = some slash then
        if !(← Run.call (libc.access · (dirname.take k))) then
          if !(← Run.call (libc.mkdir · (dirname.take k))) then
            return false
      utilCreateDirLoop dirname ks

def withSlash (dirname : List UInt8) : List UInt8 :=
  if dirname.getLast? = some slash then dirname else dirname ++ [slash]

def utilCreateDir (pathname : Option (List UInt8)) : Run φ Bool := do
  let some pathname := pathname | return false
  if pathname.length ≤ 0 then return false
  if !(← Run.call (libc.malloc · (pathname.length + 2))) then return false
  let dirname := withSlash pathname
  utilCreateDirLoop libc dirname (List.range' 1 (dirname.length - 1))

/-- `util_dir_append`: the content of the string returned, `none` for NULL. A caller
that keeps the string puts it on the heap. -/
def utilDirAppend (srcdir newdir : Option (List UInt8)) : Run φ (Option (List UInt8)) := do
  let some srcdir := srcdir | return none
  let some newdir := newdir | return none
  if srcdir.length ≤ 0 ∨ newdir.length ≤ 0 then return none
  if !(← Run.call (libc.malloc · (srcdir.length + 1 + newdir.length + 1))) then return none
  return some (withSlash srcdir ++ newdir)

def executeScript (command : List UInt8) : Run φ Unit := Run.call (libc.system · command)

def rebootDevice : Run φ Unit := Run.call (libc.system · (literal "/sbin/reboot"))

def toLowerByte (c : UInt8) : UInt8 := if 0x41 ≤ c ∧ c ≤ 0x5a then c + 0x20 else c

/-- `strncasecmp(s1, s2, n) == 0`, for strings given without their NUL. -/
def strncaseEq (s1 s2 : List UInt8) (n : Nat) : Bool :=
  (s1.take n).map toLowerByte = (s2.take n).map toLowerByte

section Keeps

open Lib

variable {libc} {γ : Type} {view : Machine φ → γ} (hview : libc.Silent view) {E : Fault → Prop}

include hview

theorem keeps_utilCreateDirLoop (dirname : List UInt8) (ks : List Nat) :
    Keeps view E (utilCreateDirLoop libc dirname ks) := by
  induction ks with
  | nil => exact Keeps.pure
  | cons k ks ih =>
      rw [utilCreateDirLoop]
      split
      · apply Keeps.bind (Run.keeps_call (hview.access _))
        intro exist
        split
        · apply Keeps.bind (Run.keeps_call (hview.mkdir _))
          intro made
          split
          · exact Keeps.pure
          · exact ih
        · exact ih
      · exact ih

theorem keeps_utilCreateDir (pathname : Option (List UInt8)) :
    Keeps view E (utilCreateDir libc pathname) := by
  unfold utilCreateDir
  split
  · split
    · exact Keeps.pure
    · apply Keeps.bind (Run.keeps_call (hview.malloc _))
      intro allocated
      split
      · exact Keeps.pure
      · exact keeps_utilCreateDirLoop hview _ _
  · exact Keeps.pure

omit hview in
theorem triple_utilDirAppend (hmalloc : ∀ n, Blind view (libc.malloc · n)) (p : γ → Prop)
    {dir title : List UInt8} :
    Triple (fun st => p (view st)) (utilDirAppend libc (some dir) (some title))
      (fun path st => (∀ q, path = some q → q = withSlash dir ++ title) ∧ p (view st)) E := by
  unfold utilDirAppend
  dsimp only
  split
  · exact Triple.pure fun _ hs => ⟨nofun, hs⟩
  · apply Triple.bind ((Run.keeps_call (hmalloc _)).triple p)
    intro allocated
    split
    · exact Triple.pure fun _ hs => ⟨nofun, hs⟩
    · refine Triple.pure fun _ hs => ⟨?_, hs⟩
      rintro q ⟨⟩
      rfl

end Keeps

end CccUpgrade
