import CccUpgrade.Adapter.PathConfinement
import CccUpgrade.Utils.FileSystem

/-! The directory that an upload goes to. `util_create_dir` goes through the prefixes of
the path that end before a slash and takes one that exists for a directory. -/
namespace CccUpgrade

open Lib

inductive Creates (path : List UInt8) : FileSystem → FileSystem → Prop
  | nothing {t : FileSystem} : Creates path t t
  | made {t t₁ t₂ : FileSystem} {front : List UInt8} (hfront : front <+: path)
      (hmissing : t.lookup (pathName front) = none)
      (hmkdir : t.mkdir (pathName (trimSlashes front)) = some t₁) (hrest : Creates path t₁ t₂) :
      Creates path t t₂

namespace Creates

variable {path : List UInt8} {t t' : FileSystem}

theorem grown (h : Creates path t t') : FileTree.Grown t t' := by
  induction h with
  | nothing => exact .refl
  | made _ _ hmkdir _ ih =>
      obtain ⟨n, dir, hdir, hnew, rfl, -⟩ := exists_of_mkdir hmkdir
      exact FileTree.add_grown.trans ih

/-- What is new stands where a prefix of the path leads that led nowhere before. -/
theorem missing (h : Creates path t t') {loc : List (List UInt8)}
    (hnew : t'.entry loc ≠ t.entry loc) :
    ∃ front, front <+: path ∧ t.lookup (pathName front) = none ∧
      t'.resolve (pathName front) = some loc := by
  induction h with
  | nothing => exact absurd rfl hnew
  | @made t t₁ t₂ front hfront hmissing hmkdir hrest ih =>
      obtain ⟨n, dir, hdir, hfree, rfl, hresolve⟩ := exists_of_mkdir hmkdir
      by_cases hloc : loc = n :: dir
      · refine ⟨front, hfront, hmissing, ?_⟩
        rw [hloc]
        exact hrest.grown.resolve hresolve
      · have hsame : (t.add n dir hdir hfree).entry loc = t.entry loc :=
          Function.update_of_ne hloc ..
        rw [← hsame] at hnew
        obtain ⟨front', hfront', hnone, hlater⟩ := ih hnew
        refine ⟨front', hfront', ?_, hlater⟩
        by_contra hthere
        exact FileTree.add_grown.lookup_ne_none hthere hnone

end Creates

/-- The path with at most one slash less at its end, as `util_create_dir` completes it. -/
def withoutSlash (path : List UInt8) : List UInt8 :=
  if path.getLast? = some slash then path.dropLast else path

section Paths

variable {path front : List UInt8}

theorem withSlash_eq (path : List UInt8) : withSlash path = withoutSlash path ++ [slash] := by
  unfold withSlash withoutSlash
  split
  next hlast => exact (List.dropLast_append_getLast? _ hlast).symm
  next => rfl

theorem withoutSlash_front (path : List UInt8) : withoutSlash path <+: path := by
  unfold withoutSlash
  split
  · exact List.dropLast_prefix path
  · exact List.prefix_rfl

theorem withoutSlash_cases (path : List UInt8) :
    path = withoutSlash path ++ [slash] ∨ path = withoutSlash path := by
  rw [← withSlash_eq]
  unfold withSlash withoutSlash
  split
  · exact .inl rfl
  · exact .inr rfl

theorem front_of_take {k : Nat} {rest : List UInt8} (heq : path.take k = front ++ slash :: rest) :
    front.length < k ∧ path[front.length]? = some slash ∧ path.take front.length = front := by
  have hlt : front.length < k := by
    have hlength := congrArg List.length heq
    rw [List.length_take, List.length_append, List.length_cons] at hlength
    omega
  refine ⟨hlt, ?_, ?_⟩
  · rw [← List.getElem?_take_of_lt hlt, heq, List.getElem?_append_right (Nat.le_refl _), Nat.sub_self]
    rfl
  · rw [← Nat.min_eq_left (Nat.le_of_lt hlt), ← List.take_take, heq, List.take_left]

theorem take_withSlash {k : Nat} (hk : k < (withSlash path).length) :
    (withSlash path).take k <+: path := by
  rw [withSlash_eq, List.length_append, List.length_singleton] at hk
  rw [withSlash_eq, List.take_append_of_le_length (Nat.le_of_lt_succ hk)]
  have htake : (withoutSlash path).take k <+: withoutSlash path := List.take_prefix k _
  exact htake.trans (withoutSlash_front path)

end Paths

section Loop

variable {φ : Type} {libc : Libc φ} {tree : φ → FileSystem} (h : libc.Mounts tree)
  {path dirname : List UInt8}

def Makes (t : FileSystem) (front : List UInt8) (t' : FileSystem) : Prop :=
  t.lookup (pathName front) ≠ none ∧ t' = t ∨
    t.lookup (pathName front) = none ∧ t.mkdir (pathName (trimSlashes front)) = some t'

theorem Makes.creates {t t₁ t₂ : FileSystem} {front : List UInt8} (hmakes : Makes t front t₁)
    (hfront : front <+: path) (hrest : Creates path t₁ t₂) : Creates path t t₂ := by
  rcases hmakes with ⟨-, rfl⟩ | ⟨hmissing, hmkdir⟩
  · exact hrest
  · exact .made hfront hmissing hmkdir hrest

theorem Makes.lookup {t t' : FileSystem} {front : List UInt8} (hmakes : Makes t front t') :
    t'.lookup (pathName front) ≠ none := by
  rcases hmakes with ⟨hthere, rfl⟩ | ⟨-, hmkdir⟩
  · exact hthere
  · obtain ⟨n, dir, hdir, hnew, rfl, hresolve⟩ := exists_of_mkdir hmkdir
    rw [FileTree.lookup, hresolve, Option.bind_some, FileTree.add_entry]
    exact Option.some_ne_none _

theorem utilCreateDirLoop_other {k : Nat} {ks : List Nat} (hk : dirname[k]? ≠ some slash) :
    utilCreateDirLoop libc dirname (k :: ks) = utilCreateDirLoop libc dirname ks := by
  rw [utilCreateDirLoop, if_neg hk]

include h

/-- A round goes on with the prefix standing, or `mkdir` failed and ends the loop. -/
theorem utilCreateDirLoop_slash {k : Nat} (hk : dirname[k]? = some slash)
    (hne : dirname.take k ≠ []) (ks : List Nat) (st : Machine φ) :
    (∃ st', utilCreateDirLoop libc dirname (k :: ks) st = utilCreateDirLoop libc dirname ks st' ∧
      Makes (tree st.env) (dirname.take k) (tree st'.env)) ∨
    ∃ env st', utilCreateDirLoop libc dirname (k :: ks) st = .ok (false, st') ∧
      tree st'.env = tree st.env ∧ tree env = tree st.env ∧
      (tree st.env).lookup (pathName (dirname.take k)) = none ∧
      (libc.mkdir env (dirname.take k)).1 = false := by
  obtain ⟨hexist, hsame⟩ := h.access st.env _ hne
  rw [utilCreateDirLoop, if_pos hk]
  cases haccess : (libc.access st.env (dirname.take k)).1 with
  | true =>
      left
      rw [haccess] at hexist
      refine ⟨{ st with env := (libc.access st.env (dirname.take k)).2 }, ?_, .inl ⟨?_, hsame⟩⟩
      · rw [Run.bind_ok rfl, haccess]
        rfl
      · exact Option.isSome_iff_ne_none.mp hexist.symm
  | false =>
      rw [haccess] at hexist
      have hmissing := Option.isNone_iff_eq_none.mp (Option.isSome_eq_false_iff.mp hexist.symm)
      rw [← hsame] at hmissing
      rw [Run.bind_ok rfl, haccess]
      cases hmkdir : (libc.mkdir (libc.access st.env (dirname.take k)).2 (dirname.take k)).1 with
      | true =>
          left
          refine ⟨{ st with env := (libc.mkdir (libc.access st.env (dirname.take k)).2
            (dirname.take k)).2 }, ?_, .inr ⟨hsame ▸ hmissing, ?_⟩⟩
          · simp only [Bool.not_false, if_true]
            rw [Run.bind_ok rfl, hmkdir]
            rfl
          · rw [← hsame]
            exact h.mkdir _ _ hne hmkdir
      | false =>
          right
          refine ⟨(libc.access st.env (dirname.take k)).2, { st with env := (libc.mkdir
            (libc.access st.env (dirname.take k)).2 (dirname.take k)).2 }, ?_, ?_, hsame,
            hsame ▸ hmissing, hmkdir⟩
          · simp only [Bool.not_false, if_true]
            rw [Run.bind_ok rfl, hmkdir]
            rfl
          · exact (h.mkdir_failed _ _ hmkdir).trans hsame

theorem utilCreateDirLoop_creates {ks : List Nat}
    (hks : ∀ k ∈ ks, dirname.take k <+: path ∧ dirname.take k ≠ []) (st : Machine φ) :
    ∃ made st', utilCreateDirLoop libc dirname ks st = .ok (made, st') ∧
      Creates path (tree st.env) (tree st'.env) ∧
      (made = true → ∀ k ∈ ks, dirname[k]? = some slash →
        (tree st'.env).lookup (pathName (dirname.take k)) ≠ none) := by
  induction ks generalizing st with
  | nil => exact ⟨true, st, rfl, .nothing, fun _ _ hk => absurd hk List.not_mem_nil⟩
  | cons k ks ih =>
      obtain ⟨⟨hfront, hne⟩, hks⟩ := List.forall_mem_cons.mp hks
      by_cases hk : dirname[k]? = some slash
      · rcases utilCreateDirLoop_slash h hk hne ks st with
          ⟨st₁, hrun, hmakes⟩ | ⟨-, st₁, hrun, hsame, -⟩
        · obtain ⟨made, st₂, hrest, hcreates, hthere⟩ := ih hks st₁
          refine ⟨made, st₂, hrun.trans hrest, hmakes.creates hfront hcreates, fun hmade => ?_⟩
          exact List.forall_mem_cons.mpr
            ⟨fun _ => hcreates.grown.lookup_ne_none hmakes.lookup, hthere hmade⟩
        · refine ⟨false, st₁, hrun, ?_, nofun⟩
          rw [hsame]
          exact .nothing
      · rw [utilCreateDirLoop_other hk]
        obtain ⟨made, st₂, hrest, hcreates, hthere⟩ := ih hks st
        exact ⟨made, st₂, hrest, hcreates, fun hmade =>
          List.forall_mem_cons.mpr ⟨fun hslash => absurd hslash hk, hthere hmade⟩⟩

theorem utilCreateDirLoop_idle {ks : List Nat} (hks : ∀ k ∈ ks, dirname.take k ≠ [])
    (st : Machine φ) (hthere : ∀ k ∈ ks, dirname[k]? = some slash →
      (tree st.env).lookup (pathName (dirname.take k)) ≠ none) :
    ∃ st', utilCreateDirLoop libc dirname ks st = .ok (true, st') ∧
      tree st'.env = tree st.env := by
  induction ks generalizing st with
  | nil => exact ⟨st, rfl, rfl⟩
  | cons k ks ih =>
      obtain ⟨hne, hks⟩ := List.forall_mem_cons.mp hks
      obtain ⟨hfirst, hthere⟩ := List.forall_mem_cons.mp hthere
      by_cases hk : dirname[k]? = some slash
      · rcases utilCreateDirLoop_slash h hk hne ks st with
          ⟨st₁, hrun, ⟨-, hsame⟩ | ⟨hmissing, -⟩⟩ | ⟨-, -, -, -, -, hmissing, -⟩
        · rw [← hsame] at hthere
          obtain ⟨st₂, hrest, hsame'⟩ := ih hks st₁ hthere
          exact ⟨st₂, hrun.trans hrest, hsame'.trans hsame⟩
        · exact absurd hmissing (hfirst hk)
        · exact absurd hmissing (hfirst hk)
      · rw [utilCreateDirLoop_other hk]
        exact ih hks st hthere

theorem utilCreateDirLoop_made
    (hmkdir : ∀ env front, (tree env).mkdir (pathName (trimSlashes front)) ≠ none →
      (libc.mkdir env front).1 = true) {n k : Nat} (hk : 1 ≤ k) (hn : k + n ≤ dirname.length)
    (st : Machine φ)
    (hdone : ∀ j, 1 ≤ j → j < k → dirname[j]? = some slash →
      (tree st.env).lookup (pathName (dirname.take j)) ≠ none)
    (hreach : ∀ j, 1 ≤ j → dirname[j]? = some slash →
      (tree st.env).reach (pathName (dirname.take j)) ≠ none) :
    ∃ st', utilCreateDirLoop libc dirname (List.range' k n) st = .ok (true, st') := by
  induction n generalizing k st with
  | zero => exact ⟨st, rfl⟩
  | succ n ih =>
      rw [List.range'_succ]
      by_cases hslash : dirname[k]? = some slash
      · have hne : dirname.take k ≠ [] := by
          rw [← List.length_pos_iff, List.length_take]
          omega
        have hfront : ∀ front rest, dirname.take k = front ++ slash :: rest → front ≠ [] →
            (tree st.env).lookup (pathName front) ≠ none := by
          intro front rest heq hfront
          obtain ⟨hlt, hat, htake⟩ := front_of_take heq
          have hthere := hdone front.length (List.length_pos_iff.mpr hfront) hlt hat
          rwa [htake] at hthere
        rcases utilCreateDirLoop_slash h hslash hne (List.range' (k + 1) n) st with
          ⟨st₁, hrun, hmakes⟩ | ⟨env, -, -, -, henv, hmissing, hfailed⟩
        · rw [hrun]
          have hgrown : FileTree.Grown (tree st.env) (tree st₁.env) :=
            (hmakes.creates List.prefix_rfl .nothing).grown
          apply ih (by omega) (by omega)
          · intro j hj hlt hat
            by_cases heq : j = k
            · rw [heq]
              exact hmakes.lookup
            · exact hgrown.lookup_ne_none (hdone j hj (by omega) hat)
          · intro j hj hat
            rw [hgrown.reach]
            exact hreach j hj hat
        · have hpossible := (lookup_or_mkdir hfront (hreach k hk hslash)).resolve_left
            (not_not_intro hmissing)
          rw [← henv] at hpossible
          rw [hmkdir env _ hpossible] at hfailed
          cases hfailed
      · rw [utilCreateDirLoop_other hslash]
        apply ih (by omega) (by omega) st _ hreach
        intro j hj hlt hat
        apply hdone j hj _ hat
        have hne : j ≠ k := by
          rintro rfl
          exact hslash hat
        omega

end Loop

section Directory

variable {path : List UInt8} {t t' : FileSystem}

/-- A regular file stands where the path leads to once the missing directories that it
passes are made. -/
def EndsAtFile (t : FileSystem) (path : List UInt8) : Prop :=
  (t.reach (pathName (withoutSlash path))).bind t.entry = some .file

instance (t : FileSystem) (path : List UInt8) : Decidable (EndsAtFile t path) :=
  inferInstanceAs (Decidable (_ = _))

theorem lookup_withSlash_of (hthere : withoutSlash path = [] ∨
      t'.lookup (pathName (withoutSlash path)) ≠ none)
    (hgrown : FileTree.Grown t t') (hfile : ¬ EndsAtFile t path) :
    t'.lookup (pathName (withSlash path)) = some .directory := by
  rw [withSlash_eq]
  by_cases hempty : withoutSlash path = []
  · rw [hempty]
    exact lookup_root
  · apply lookup_append_slash _ hempty
    obtain ⟨e, he⟩ := Option.ne_none_iff_exists'.mp (hthere.resolve_left hempty)
    cases e with
    | directory => exact he
    | file =>
        obtain ⟨loc, hloc, hentry⟩ := Option.bind_eq_some_iff.mp he
        have hreach := FileTree.reach_of_resolve hloc
        rw [hgrown.reach] at hreach
        exact absurd (Option.bind_eq_some_iff.mpr ⟨loc, hreach, hgrown.file_iff.mp hentry⟩) hfile

theorem lookup_of_withSlash (hpath : path ≠ [])
    (h : t.lookup (pathName (withSlash path)) = some .directory) :
    t.lookup (pathName path) = some .directory := by
  rw [withSlash_eq] at h
  rcases withoutSlash_cases path with heq | heq
  · rwa [← heq] at h
  · rw [← heq] at h
    have hthere : t.lookup (pathName (path ++ [slash])) ≠ none := by
      rw [h]
      exact nofun
    exact lookup_front hthere hpath

theorem lookup_withoutSlash (h : t.lookup (pathName path) ≠ none) :
    withoutSlash path = [] ∨ t.lookup (pathName (withoutSlash path)) ≠ none := by
  rw [or_iff_not_imp_left]
  intro hne
  rcases withoutSlash_cases path with heq | heq
  · rw [heq] at h
    rw [lookup_front h hne]
    exact nofun
  · rwa [← heq]

theorem not_endsAtFile (h : t.lookup (pathName path) = some .directory) :
    ¬ EndsAtFile t path := by
  have hwithout : t.lookup (pathName (withoutSlash path)) = some .directory := by
    by_cases hempty : withoutSlash path = []
    · rw [hempty]
      have hcwd : t.lookup ⟨false, []⟩ = some .directory := t.cwd_directory
      exact FileTree.lookup_here hcwd
    · rcases withoutSlash_cases path with heq | heq
      · have hthere : t.lookup (pathName (withoutSlash path ++ [slash])) ≠ none := by
          rw [← heq, h]
          exact nofun
        exact lookup_front hthere hempty
      · rwa [← heq]
  intro hfile
  obtain ⟨loc, hloc, hentry⟩ := Option.bind_eq_some_iff.mp hwithout
  rw [EndsAtFile, FileTree.reach_of_resolve hloc, Option.bind_some, hentry] at hfile
  cases hfile

theorem endsAtFile_iff (hgrown : FileTree.Grown t t') : EndsAtFile t' path ↔ EndsAtFile t path := by
  rw [EndsAtFile, EndsAtFile, hgrown.reach, Option.bind_eq_some_iff, Option.bind_eq_some_iff]
  exact exists_congr fun _ => and_congr_right fun _ => hgrown.file_iff

/-- Unless the path goes up, the file is there to begin with. -/
theorem endsAtFile_iff_lookup (hup : .up ∉ components (withoutSlash path)) :
    EndsAtFile t path ↔ t.lookup (pathName (withoutSlash path)) = some .file := by
  constructor
  · intro hfile
    obtain ⟨loc, hloc, hentry⟩ := Option.bind_eq_some_iff.mp hfile
    have hthere : t.entry loc ≠ none := by
      rw [hentry]
      exact nofun
    exact Option.bind_eq_some_iff.mpr ⟨loc, FileTree.resolve_of_reach hup hloc hthere, hentry⟩
  · intro hfile
    obtain ⟨loc, hloc, hentry⟩ := Option.bind_eq_some_iff.mp hfile
    exact Option.bind_eq_some_iff.mpr ⟨loc, FileTree.reach_of_resolve hloc, hentry⟩

theorem reach_take (h : t.reach (pathName (withoutSlash path)) ≠ none) {k : Nat} (hk : 1 ≤ k)
    (hslash : (withSlash path)[k]? = some slash) :
    t.reach (pathName ((withSlash path).take k)) ≠ none := by
  have hlt : k < (withSlash path).length := (List.getElem?_eq_some_iff.mp hslash).1
  rw [withSlash_eq, List.length_append, List.length_singleton] at hlt
  rw [withSlash_eq] at hslash ⊢
  rw [List.take_append_of_le_length (Nat.le_of_lt_succ hlt)]
  by_cases hlast : k = (withoutSlash path).length
  · rwa [hlast, List.take_length]
  · have hless : k < (withoutSlash path).length := by omega
    rw [List.getElem?_append_left hless] at hslash
    obtain ⟨_, hat⟩ := List.getElem?_eq_some_iff.mp hslash
    have hsplit : withoutSlash path =
        (withoutSlash path).take k ++ slash :: (withoutSlash path).drop (k + 1) := by
      rw [← hat, List.getElem_cons_drop, List.take_append_drop]
    rw [hsplit] at h
    refine reach_front h ?_
    rw [← List.length_pos_iff, List.length_take]
    omega

end Directory

/-- What a call for the path has to make of the tree `t`, when it leaves `t'` and
returns `made`. -/
structure DirectoryCreated (path : List UInt8) (t t' : FileSystem) (made : Bool) : Prop where
  kept : ∀ loc e, t.entry loc = some e → t'.entry loc = some e
  missing : ∀ loc, t'.entry loc ≠ t.entry loc → t'.entry loc = some .directory ∧
    ∃ front, front <+: path ∧ t.lookup (pathName front) = none ∧
      t'.resolve (pathName front) = some loc
  inOrder : Creates path t t'
  directory : made = true → t'.lookup (pathName path) = some .directory
  ancestors : made = true → ∀ front rest, path = front ++ slash :: rest → front ≠ [] →
    t'.lookup (pathName front) = some .directory

def Admits (t : FileSystem) (dir : List UInt8) : Prop :=
  ∀ title, FileTitle title → ∃ loc, t.entry loc = some .directory ∧
    t.resolve (pathName (withSlash dir ++ title)) = some (title :: loc)

/-- What `util_create_dir` and `check_upgrade_directory` are for, of a path and the tree
they find: the path is a directory when they succeed, and a second call finds nothing
left to do. Only an allocation that fails can then keep it from succeeding. -/
def CreatesDirectory (path : List UInt8) (t : FileSystem) : Prop :=
  ∀ (φ : Type) (libc : Libc φ) (tree : φ → FileSystem), libc.Mounts tree →
    ∀ st : Machine φ, tree st.env = t →
      (∃ made st', utilCreateDir libc (some path) st = .ok (made, st') ∧
        DirectoryCreated path t (tree st'.env) made ∧
        (made = true → ∃ again st'', utilCreateDir libc (some path) st' = .ok (again, st'') ∧
          again = (libc.malloc st'.env (path.length + 2)).1 ∧ tree st''.env = tree st'.env)) ∧
      ∃ ready st', checkUpgradeDirectory libc (some path) st = .ok (ready, st') ∧
        (ready = true → Admits (tree st'.env) path)

section Calls

variable {φ : Type} {libc : Libc φ} {tree : φ → FileSystem} (h : libc.Mounts tree)
  {path : List UInt8} {t t' : FileSystem}

theorem components_of_fileTitle {title : List UInt8} (h : FileTitle title) :
    components title = [.name title] := by
  rw [components_of_not_mem h.plain, component, if_neg, if_neg h.parent]
  rintro (hempty | hdot)
  · exact h.nonempty hempty
  · exact h.current hdot

theorem admits_of_directory (hdir : t.lookup (pathName (withSlash path)) = some .directory) :
    Admits t path := by
  intro title htitle
  rw [withSlash_eq] at hdir ⊢
  rw [List.append_assoc]
  exact resolve_child hdir (components_of_fileTitle htitle)

theorem front_of_round {k : Nat} (hk : k ∈ List.range' 1 ((withSlash path).length - 1)) :
    (withSlash path).take k <+: path ∧ (withSlash path).take k ≠ [] := by
  obtain ⟨i, hi, rfl⟩ := List.mem_range'.mp hk
  refine ⟨take_withSlash (by omega), ?_⟩
  rw [← List.length_pos_iff, List.length_take]
  omega

def PrefixesStand (t : FileSystem) (path : List UInt8) : Prop :=
  ∀ k ∈ List.range' 1 ((withSlash path).length - 1), (withSlash path)[k]? = some slash →
    t.lookup (pathName ((withSlash path).take k)) ≠ none

theorem PrefixesStand.whole (hthere : PrefixesStand t path) :
    withoutSlash path = [] ∨ t.lookup (pathName (withoutSlash path)) ≠ none := by
  rw [or_iff_not_imp_left]
  intro hne
  have hpos := List.length_pos_iff.mpr hne
  have hlast := hthere (withoutSlash path).length
  rw [withSlash_eq, List.length_append, List.length_singleton, Nat.add_sub_cancel,
    List.getElem?_concat_length, List.take_left] at hlast
  refine hlast (List.mem_range'.mpr ⟨(withoutSlash path).length - 1, ?_, ?_⟩) rfl <;> omega

include h

theorem utilCreateDir_run (hpath : path ≠ []) (st : Machine φ) :
    ∃ st₁, tree st₁.env = tree st.env ∧ utilCreateDir libc (some path) st =
      if (libc.malloc st.env (path.length + 2)).1 = true then
        utilCreateDirLoop libc (withSlash path) (List.range' 1 ((withSlash path).length - 1)) st₁
      else .ok (false, st₁) := by
  have hlength : ¬ path.length ≤ 0 := by
    rw [Nat.le_zero, List.length_eq_zero_iff]
    exact hpath
  refine ⟨{ st with env := (libc.malloc st.env (path.length + 2)).2 }, h.malloc _ _, ?_⟩
  unfold utilCreateDir
  dsimp only
  rw [if_neg hlength, Run.bind_ok rfl]
  cases (libc.malloc st.env (path.length + 2)).1 <;> rfl

theorem utilCreateDir_creates (hpath : path ≠ []) (st : Machine φ) :
    ∃ made st', utilCreateDir libc (some path) st = .ok (made, st') ∧
      Creates path (tree st.env) (tree st'.env) ∧
      (made = true → PrefixesStand (tree st'.env) path) := by
  obtain ⟨st₁, hsame, hrun⟩ := utilCreateDir_run h hpath st
  split at hrun
  · obtain ⟨made, st₂, hloop, hcreates, hthere⟩ :=
      utilCreateDirLoop_creates h (fun _ => front_of_round) st₁
    rw [hsame] at hcreates
    exact ⟨made, st₂, hrun.trans hloop, hcreates, hthere⟩
  · refine ⟨false, st₁, hrun, ?_, nofun⟩
    rw [hsame]
    exact .nothing

theorem utilCreateDir_again (hpath : path ≠ []) (st : Machine φ)
    (hthere : PrefixesStand (tree st.env) path) :
    ∃ again st', utilCreateDir libc (some path) st = .ok (again, st') ∧
      again = (libc.malloc st.env (path.length + 2)).1 ∧ tree st'.env = tree st.env := by
  obtain ⟨st₁, hsame, hrun⟩ := utilCreateDir_run h hpath st
  split at hrun
  next hmalloc =>
    rw [← hsame] at hthere
    obtain ⟨st₂, hloop, hsame'⟩ :=
      utilCreateDirLoop_idle h (fun _ hk => (front_of_round hk).2) st₁ hthere
    exact ⟨true, st₂, hrun.trans hloop, hmalloc.symm, hsame'.trans hsame⟩
  next hmalloc => exact ⟨false, st₁, hrun, (Bool.eq_false_iff.mpr hmalloc).symm, hsame⟩

end Calls

theorem directoryCreated {path : List UInt8} (hpath : path ≠ []) {t t' : FileSystem} {made : Bool}
    (hfile : ¬ EndsAtFile t path) (hcreates : Creates path t t')
    (hthere : made = true → withoutSlash path = [] ∨
      t'.lookup (pathName (withoutSlash path)) ≠ none) : DirectoryCreated path t t' made := by
  have hdirectory : made = true → t'.lookup (pathName path) = some .directory := fun hmade =>
    lookup_of_withSlash hpath (lookup_withSlash_of (hthere hmade) hcreates.grown hfile)
  refine ⟨fun loc e => hcreates.grown.kept, fun loc hnew => ⟨?_, hcreates.missing hnew⟩, hcreates,
    hdirectory, ?_⟩
  · exact ((hcreates.grown.entry loc).resolve_left hnew).2
  · rintro hmade front rest rfl hfront
    have hthere : t'.lookup (pathName (front ++ slash :: rest)) ≠ none := by
      rw [hdirectory hmade]
      exact nofun
    exact lookup_front hthere hfront

theorem admits_of_checkUpgradeDirectory {φ : Type} {libc : Libc φ} {tree : φ → FileSystem}
    (h : libc.Mounts tree) {path : List UInt8} (hpath : path ≠ []) (st : Machine φ)
    (hfile : ¬ EndsAtFile (tree st.env) path) :
    ∃ ready st', checkUpgradeDirectory libc (some path) st = .ok (ready, st') ∧
      (ready = true → Admits (tree st'.env) path) := by
  obtain ⟨hexist, hsame⟩ := h.access st.env path hpath
  unfold checkUpgradeDirectory utilFileIsExist
  dsimp only
  rw [Run.bind_ok rfl]
  cases haccess : (libc.access st.env path).1 with
  | true =>
      refine ⟨true, _, rfl, fun _ => ?_⟩
      rw [haccess] at hexist
      have hthere := Option.isSome_iff_ne_none.mp hexist.symm
      rw [hsame]
      apply admits_of_directory
      exact lookup_withSlash_of (lookup_withoutSlash hthere) .refl hfile
  | false =>
      rw [← hsame] at hfile
      obtain ⟨made, st', hrun, hcreates, hthere⟩ :=
        utilCreateDir_creates h hpath { st with env := (libc.access st.env path).2 }
      refine ⟨made, st', hrun, fun hmade => ?_⟩
      apply admits_of_directory
      exact lookup_withSlash_of (hthere hmade).whole hcreates.grown hfile

def treeMachine (t : FileSystem) : Machine FileSystem :=
  ⟨t, .empty, ⟨none, none, none⟩, none, []⟩

theorem utilCreateDir_makes {path : List UInt8} (hpath : path ≠ []) (st : Machine FileSystem)
    (hreach : st.env.reach (pathName (withoutSlash path)) ≠ none) :
    ∃ st', utilCreateDir treeLibc (some path) st = .ok (true, st') := by
  obtain ⟨st₁, hsame, hrun⟩ := utilCreateDir_run treeLibc_mounts hpath st
  change st₁.env = st.env at hsame
  have hlength : 1 + ((withSlash path).length - 1) ≤ (withSlash path).length := by
    rw [withSlash_eq, List.length_append, List.length_singleton]
    omega
  obtain ⟨st₂, hloop⟩ := utilCreateDirLoop_made treeLibc_mounts (fun _ _ => treeLibc_mkdir)
    (Nat.le_refl 1) hlength st₁ (fun j hj hlt => absurd hlt (Nat.not_lt.mpr hj))
    fun j hj hslash => hsame ▸ reach_take hreach hj hslash
  exact ⟨st₂, hrun.trans hloop⟩

/-- Nothing but a file at the end of the path, which is taken for a directory, keeps the
two functions from doing what they are for. -/
theorem createsDirectory_iff {path : List UInt8} (hpath : path ≠ []) (t : FileSystem) :
    CreatesDirectory path t ↔ ¬ EndsAtFile t path := by
  constructor
  · intro hcreates hfile
    have hreach : t.reach (pathName (withoutSlash path)) ≠ none := by
      intro hnone
      rw [EndsAtFile, hnone] at hfile
      cases hfile
    obtain ⟨st', hmakes⟩ := utilCreateDir_makes hpath (treeMachine t) hreach
    obtain ⟨⟨made, st'', hrun, hcreated, -⟩, -⟩ :=
      hcreates FileSystem treeLibc id treeLibc_mounts (treeMachine t) rfl
    rw [hmakes] at hrun
    cases hrun
    have hnofile := not_endsAtFile (hcreated.directory rfl)
    rw [endsAtFile_iff hcreated.inOrder.grown] at hnofile
    exact hnofile hfile
  · rintro hfile φ libc tree h st rfl
    obtain ⟨made, st', hrun, hcreates, hthere⟩ := utilCreateDir_creates h hpath st
    refine ⟨⟨made, st', hrun, ?_, ?_⟩, admits_of_checkUpgradeDirectory h hpath st hfile⟩
    · exact directoryCreated hpath hfile hcreates fun hmade => (hthere hmade).whole
    · exact fun hmade => utilCreateDir_again h hpath st' (hthere hmade)

def oneFile : FileSystem where
  entry loc := if loc = [] then some .directory else if loc = [literal "up"] then some .file else none
  cwd := []
  root_directory := rfl
  parent_directory := by
    intro n dir hloc
    rw [if_neg (List.cons_ne_nil _ _)] at hloc
    split at hloc
    next heq =>
      rw [(List.cons_eq_cons.mp heq).2]
      rfl
    next => exact absurd rfl hloc
  cwd_directory := rfl

theorem createsDirectory_oneFile :
    literal "data//new/" ≠ [] ∧ CreatesDirectory (literal "data//new/") oneFile :=
  ⟨by decide, (createsDirectory_iff (by decide) oneFile).mpr (by decide)⟩

/-- The file is taken for the directory. -/
theorem not_createsDirectory_up : ¬ CreatesDirectory (literal "up") oneFile := by
  intro h
  obtain ⟨⟨made, st', hrun, hcreated, -⟩, -⟩ :=
    h FileSystem treeLibc id treeLibc_mounts (treeMachine oneFile) rfl
  have hresult : (utilCreateDir treeLibc (some (literal "up")) (treeMachine oneFile)).map
      (fun r => (r.1, r.2.env.lookup (pathName (literal "up")))) = .ok (true, some .file) := by
    decide
  rw [hrun] at hresult
  obtain ⟨hmade, hentry⟩ := Prod.mk.inj (Except.ok.inj hresult)
  have hdirectory := hcreated.directory hmade
  rw [id, hentry] at hdirectory
  cases hdirectory

end CccUpgrade
