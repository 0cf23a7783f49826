import Mathlib.Logic.Function.Basic
import Mathlib.Tactic.Common

/-! Trees of directories and regular files, the walk of a path through one and the
creation of directories. A location lists the names that lead to it, the innermost
first; the root is the empty list. -/
namespace CccUpgrade.Lib

universe u

inductive Entry
  | directory
  | file
deriving DecidableEq, Repr

inductive Component (ν : Type u)
  | here
  | up
  | name (n : ν)
deriving DecidableEq, Repr

structure PathName (ν : Type u) where
  absolute : Bool
  components : List (Component ν)
deriving DecidableEq, Repr

structure FileTree (ν : Type u) where
  entry : List ν → Option Entry
  cwd : List ν
  root_directory : entry [] = some .directory
  parent_directory : ∀ n dir, entry (n :: dir) ≠ none → entry dir = some .directory
  cwd_directory : entry cwd = some .directory

variable {ν : Type u}

/-- The root is its own parent. -/
def Component.follow (loc : List ν) : Component ν → List ν
  | here => loc
  | up => loc.tail
  | name n => n :: loc

/-- The location that the components lead to, when every location they are looked up in
is passable. -/
def walk (passable : List ν → Bool) (loc : List ν) : List (Component ν) → Option (List ν)
  | [] => some loc
  | c :: cs => if passable loc then walk passable (c.follow loc) cs else none

section Walk

variable {passable : List ν → Bool} {loc dest : List ν} {cs ds : List (Component ν)}

theorem walk_append :
    walk passable loc (cs ++ ds) = (walk passable loc cs).bind (walk passable · ds) := by
  induction cs generalizing loc with
  | nil => rfl
  | cons c cs ih =>
      simp only [List.cons_append, walk]
      split
      · exact ih
      · rfl

theorem walk_front (h : walk passable loc (cs ++ ds) = some dest) (hds : ds ≠ []) :
    ∃ middle, walk passable loc cs = some middle ∧ passable middle = true := by
  obtain ⟨d, ds, rfl⟩ := List.exists_cons_of_ne_nil hds
  rw [walk_append] at h
  obtain ⟨middle, hcs, hrest⟩ := Option.bind_eq_some_iff.mp h
  refine ⟨middle, hcs, ?_⟩
  by_contra hblocked
  rw [walk, if_neg hblocked] at hrest
  cases hrest

theorem walk_concat {c : Component ν} (h : walk passable loc cs = some dest)
    (hdest : passable dest = true) : walk passable loc (cs ++ [c]) = some (c.follow dest) := by
  rw [walk_append, h, Option.bind_some, walk, if_pos hdest, walk]

theorem walk_mono {passable' : List ν → Bool}
    (hmono : ∀ loc, passable loc = true → passable' loc = true)
    (h : walk passable loc cs = some dest) : walk passable' loc cs = some dest := by
  induction cs generalizing loc with
  | nil => exact h
  | cons c cs ih =>
      rw [walk] at h ⊢
      split at h
      next hpass =>
        rw [if_pos (hmono loc hpass)]
        exact ih h
      next => cases h

end Walk

namespace FileTree

def start (t : FileTree ν) (absolute : Bool) : List ν := if absolute then [] else t.cwd

/-- The location a path names. What stands there may be absent, but every location that
is passed is a directory. -/
def resolve (t : FileTree ν) (path : PathName ν) : Option (List ν) :=
  walk (fun loc => t.entry loc = some .directory) (t.start path.absolute) path.components

def lookup (t : FileTree ν) (path : PathName ν) : Option Entry := (t.resolve path).bind t.entry

/-- The location a path names once the directories that it passes and that are missing
have been made. -/
def reach (t : FileTree ν) (path : PathName ν) : Option (List ν) :=
  walk (fun loc => t.entry loc ≠ some .file) (t.start path.absolute) path.components

section Lookup

variable {t : FileTree ν} {absolute : Bool} {cs ds : List (Component ν)} {dest : List ν}

theorem lookup_front (h : t.lookup ⟨absolute, cs ++ ds⟩ ≠ none) (hds : ds ≠ []) :
    t.lookup ⟨absolute, cs⟩ = some .directory := by
  obtain ⟨e, he⟩ := Option.ne_none_iff_exists'.mp h
  obtain ⟨dest, hdest, -⟩ := Option.bind_eq_some_iff.mp he
  obtain ⟨middle, hcs, hdir⟩ := walk_front hdest hds
  exact Option.bind_eq_some_iff.mpr ⟨middle, hcs, of_decide_eq_true hdir⟩

theorem resolve_concat {c : Component ν} (h : t.resolve ⟨absolute, cs⟩ = some dest)
    (hdest : t.entry dest = some .directory) :
    t.resolve ⟨absolute, cs ++ [c]⟩ = some (c.follow dest) :=
  walk_concat h (decide_eq_true hdest)

theorem lookup_here (h : t.lookup ⟨absolute, cs⟩ = some .directory) :
    t.lookup ⟨absolute, cs ++ [.here]⟩ = some .directory := by
  obtain ⟨dest, hdest, hdir⟩ := Option.bind_eq_some_iff.mp h
  exact Option.bind_eq_some_iff.mpr ⟨dest, resolve_concat hdest hdir, hdir⟩

theorem reach_of_resolve {path : PathName ν} (h : t.resolve path = some dest) :
    t.reach path = some dest := by
  refine walk_mono (fun loc hloc => ?_) h
  rw [of_decide_eq_true hloc]
  rfl

theorem reach_front (h : t.reach ⟨absolute, cs ++ ds⟩ ≠ none) :
    t.reach ⟨absolute, cs⟩ ≠ none := by
  intro hnone
  apply h
  rw [reach] at hnone ⊢
  rw [walk_append, hnone, Option.bind_none]

theorem lookup_of_reach (h : t.lookup ⟨absolute, cs⟩ ≠ none)
    (hreach : t.reach ⟨absolute, cs ++ ds⟩ ≠ none) (hds : ds ≠ []) :
    t.lookup ⟨absolute, cs⟩ = some .directory := by
  obtain ⟨e, he⟩ := Option.ne_none_iff_exists'.mp h
  obtain ⟨loc, hloc, hentry⟩ := Option.bind_eq_some_iff.mp he
  obtain ⟨dest, hdest⟩ := Option.ne_none_iff_exists'.mp hreach
  obtain ⟨middle, hcs, hpass⟩ := walk_front hdest hds
  obtain rfl : middle = loc := Option.some.inj (hcs.symm.trans (reach_of_resolve hloc))
  cases e with
  | directory => exact he
  | file => exact absurd hentry (of_decide_eq_true hpass)

theorem walk_of_reached (hdest : t.entry dest ≠ none) (hup : .up ∉ cs) {loc : List ν}
    (h : walk (fun loc => t.entry loc ≠ some .file) loc cs = some dest) :
    t.entry loc ≠ none ∧ walk (fun loc => t.entry loc = some .directory) loc cs = some dest := by
  induction cs generalizing loc with
  | nil =>
      cases h
      exact ⟨hdest, rfl⟩
  | cons c cs ih =>
      obtain ⟨hne, hcs⟩ := List.ne_and_not_mem_of_not_mem_cons hup
      rw [walk] at h ⊢
      split at h
      next hpass =>
        obtain ⟨hthere, hrest⟩ := ih hcs h
        have hdir : t.entry loc = some .directory := by
          cases c with
          | here =>
              obtain ⟨e, he⟩ := Option.ne_none_iff_exists'.mp hthere
              cases e with
              | directory => exact he
              | file => exact absurd he (of_decide_eq_true hpass)
          | up => exact absurd rfl hne
          | name n => exact t.parent_directory n loc hthere
        rw [if_pos (decide_eq_true hdir)]
        refine ⟨?_, hrest⟩
        rw [hdir]
        exact nofun
      next => cases h

theorem resolve_of_reach {path : PathName ν} (hup : .up ∉ path.components)
    (h : t.reach path = some dest) (hdest : t.entry dest ≠ none) : t.resolve path = some dest :=
  (walk_of_reached hdest hup h).2

end Lookup

/-- The second tree has every entry of the first and besides only new directories. -/
structure Grown (t t' : FileTree ν) : Prop where
  cwd : t'.cwd = t.cwd
  entry : ∀ loc, t'.entry loc = t.entry loc ∨ t.entry loc = none ∧ t'.entry loc = some .directory

namespace Grown

variable {t t' t'' : FileTree ν} {path : PathName ν} {loc : List ν} {e : Entry}

theorem refl : Grown t t := ⟨rfl, fun _ => .inl rfl⟩

theorem kept (h : Grown t t') (he : t.entry loc = some e) : t'.entry loc = some e := by
  rcases h.entry loc with heq | ⟨hnone, -⟩
  · rw [heq, he]
  · rw [hnone] at he
    cases he

theorem file_iff (h : Grown t t') : t'.entry loc = some .file ↔ t.entry loc = some .file := by
  rcases h.entry loc with heq | ⟨hnone, hdir⟩
  · rw [heq]
  · rw [hnone, hdir]
    exact ⟨nofun, nofun⟩

theorem trans (h : Grown t t') (h' : Grown t' t'') : Grown t t'' where
  cwd := h'.cwd.trans h.cwd
  entry loc := by
    rcases h'.entry loc with heq | ⟨hnone, hdir⟩
    · rw [heq]
      exact h.entry loc
    · rcases h.entry loc with heq' | ⟨-, hdir'⟩
      · exact .inr ⟨heq'.symm.trans hnone, hdir⟩
      · rw [hdir'] at hnone
        cases hnone

theorem start (h : Grown t t') (absolute : Bool) : t'.start absolute = t.start absolute := by
  rw [FileTree.start, FileTree.start, h.cwd]

theorem resolve (h : Grown t t') (hloc : t.resolve path = some loc) : t'.resolve path = some loc := by
  rw [FileTree.resolve, h.start]
  exact walk_mono (fun loc hdir => decide_eq_true (h.kept (of_decide_eq_true hdir))) hloc

theorem lookup (h : Grown t t') (he : t.lookup path = some e) : t'.lookup path = some e := by
  obtain ⟨loc, hloc, hentry⟩ := Option.bind_eq_some_iff.mp he
  exact Option.bind_eq_some_iff.mpr ⟨loc, h.resolve hloc, h.kept hentry⟩

theorem lookup_ne_none (h : Grown t t') (he : t.lookup path ≠ none) : t'.lookup path ≠ none := by
  obtain ⟨e, he⟩ := Option.ne_none_iff_exists'.mp he
  rw [h.lookup he]
  exact nofun

theorem reach (h : Grown t t') : t'.reach path = t.reach path := by
  have hpass : (fun loc => decide (t'.entry loc ≠ some .file)) =
      fun loc => decide (t.entry loc ≠ some .file) := by
    funext loc
    exact decide_eq_decide.mpr (not_congr h.file_iff)
  rw [FileTree.reach, FileTree.reach, hpass, h.start]

end Grown

variable [DecidableEq ν]

def add (t : FileTree ν) (n : ν) (dir : List ν) (hdir : t.entry dir = some .directory)
    (hnew : t.entry (n :: dir) = none) : FileTree ν where
  entry := Function.update t.entry (n :: dir) (some .directory)
  cwd := t.cwd
  root_directory := by
    rw [Function.update_of_ne (List.cons_ne_nil _ _).symm]
    exact t.root_directory
  parent_directory := by
    intro m loc hloc
    have hkept : t.entry loc = some .directory := by
      by_cases heq : m :: loc = n :: dir
      · cases heq
        exact hdir
      · rw [Function.update_of_ne heq] at hloc
        exact t.parent_directory m loc hloc
    have hne : loc ≠ n :: dir := by
      rintro rfl
      rw [hnew] at hkept
      cases hkept
    rw [Function.update_of_ne hne]
    exact hkept
  cwd_directory := by
    have hne : t.cwd ≠ n :: dir := by
      intro heq
      have hcwd := t.cwd_directory
      rw [heq, hnew] at hcwd
      cases hcwd
    rw [Function.update_of_ne hne]
    exact t.cwd_directory

def mkdir (t : FileTree ν) (path : PathName ν) : Option (FileTree ν) :=
  match path.components.getLast?, t.resolve { path with components := path.components.dropLast } with
  | some (.name n), some dir =>
      if h : t.entry dir = some .directory ∧ t.entry (n :: dir) = none then some (t.add n dir h.1 h.2)
      else none
  | _, _ => none

section Mkdir

variable {t t' : FileTree ν} {path : PathName ν}

theorem mkdir_eq_some (h : t.mkdir path = some t') :
    ∃ n dir hdir hnew, t.resolve path = some (n :: dir) ∧ t' = t.add n dir hdir hnew := by
  unfold mkdir at h
  split at h
  next n dir hlast hresolve =>
    split at h
    next hfree =>
      obtain ⟨cs, hcs⟩ := List.getLast?_eq_some_iff.mp hlast
      rw [hcs, List.dropLast_concat] at hresolve
      refine ⟨n, dir, hfree.1, hfree.2, ?_, (Option.some.inj h).symm⟩
      have hpath := resolve_concat (c := .name n) hresolve hfree.1
      rwa [← hcs] at hpath
    next => cases h
  next => cases h

theorem lookup_or_mkdir {absolute : Bool} {cs : List (Component ν)} {dir : List ν}
    (hcs : t.resolve ⟨absolute, cs⟩ = some dir) (hdir : t.entry dir = some .directory)
    (c : Component ν) :
    t.lookup ⟨absolute, cs ++ [c]⟩ ≠ none ∨
      ∃ n t', c = .name n ∧ t.mkdir ⟨absolute, cs ++ [c]⟩ = some t' := by
  have hlookup : t.lookup ⟨absolute, cs ++ [c]⟩ = t.entry (c.follow dir) := by
    rw [lookup, resolve_concat hcs hdir, Option.bind_some]
  rw [hlookup]
  cases c with
  | here =>
      left
      rw [Component.follow, hdir]
      exact nofun
  | up =>
      left
      cases dir with
      | nil =>
          rw [Component.follow, List.tail_nil, hdir]
          exact nofun
      | cons n dir =>
          rw [Component.follow, List.tail_cons, t.parent_directory n dir (by rw [hdir]; exact nofun)]
          exact nofun
  | name n =>
      by_cases hnew : t.entry (n :: dir) = none
      · right
        refine ⟨n, t.add n dir hdir hnew, rfl, ?_⟩
        simp only [mkdir, List.getLast?_concat, List.dropLast_concat, hcs]
        rw [dif_pos ⟨hdir, hnew⟩]
      · exact .inl hnew

theorem add_entry {n : ν} {dir : List ν} {hdir : t.entry dir = some .directory}
    {hnew : t.entry (n :: dir) = none} : (t.add n dir hdir hnew).entry (n :: dir) = some .directory :=
  Function.update_self ..

theorem add_grown {n : ν} {dir : List ν} {hdir : t.entry dir = some .directory}
    {hnew : t.entry (n :: dir) = none} : Grown t (t.add n dir hdir hnew) where
  cwd := rfl
  entry loc := by
    by_cases heq : loc = n :: dir
    · right
      rw [heq]
      exact ⟨hnew, add_entry⟩
    · exact .inl (Function.update_of_ne heq ..)

end Mkdir

end FileTree

end CccUpgrade.Lib
