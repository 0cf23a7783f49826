import Mathlib.Data.List.DropRight
import CccUpgrade.Lib.FileTree
import CccUpgrade.Utils.UtilFunc

/-! Path strings over a tree of directories and regular files, and what `access` and
`mkdir` do to one. -/
namespace CccUpgrade

open Lib

abbrev FileSystem := FileTree (List UInt8)

def component (name : List UInt8) : Component (List UInt8) :=
  if name = [] ∨ name = literal "." then .here
  else if name = literal ".." then .up
  else .name name

def components (path : List UInt8) : List (Component (List UInt8)) :=
  (path.splitOn slash).map component

def pathName (path : List UInt8) : PathName (List UInt8) :=
  ⟨path.head? = some slash, components path⟩

/-- `mkdir` disregards the slashes that a path ends with. -/
def trimSlashes (path : List UInt8) : List UInt8 := path.rdropWhile (· = slash)

/-- A C library that works on a file system. Other programs leave it alone; `mkdir` may
fail for any reason. -/
structure Libc.Mounts {φ : Type} (libc : Libc φ) (tree : φ → FileSystem) : Prop where
  malloc : ∀ env n, tree (libc.malloc env n).2 = tree env
  access : ∀ env path, path ≠ [] →
    (libc.access env path).1 = ((tree env).lookup (pathName path)).isSome ∧
      tree (libc.access env path).2 = tree env
  mkdir : ∀ env path, path ≠ [] → (libc.mkdir env path).1 = true →
    (tree env).mkdir (pathName (trimSlashes path)) = some (tree (libc.mkdir env path).2)
  mkdir_failed : ∀ env path, (libc.mkdir env path).1 = false → tree (libc.mkdir env path).2 = tree env

def treeLibc : Libc FileSystem where
  malloc t _ := (true, t)
  access t path := (path ≠ [] ∧ (t.lookup (pathName path)).isSome, t)
  mkdir t path := match t.mkdir (pathName (trimSlashes path)) with
    | some t' => (true, t')
    | none => (false, t)
  fopenWrite t _ := (none, t)
  fopenRead t _ := (none, t)
  fseek t _ _ := (false, t)
  fwrite t _ _ := (0, t)
  freads t _ := ([], t)
  fclose t _ := ((), t)
  chmod t _ := (false, t)
  system t _ := ((), t)
  getifaddrs t := (none, t)
  gethostname t := (none, t)
  longBits := 32

theorem treeLibc_mkdir {t : FileSystem} {path : List UInt8}
    (h : t.mkdir (pathName (trimSlashes path)) ≠ none) : (treeLibc.mkdir t path).1 = true := by
  obtain ⟨t', ht'⟩ := Option.ne_none_iff_exists'.mp h
  simp only [treeLibc, ht']

theorem treeLibc_mounts : treeLibc.Mounts id where
  malloc _ _ := rfl
  access t path hpath := by
    refine ⟨?_, rfl⟩
    simp only [treeLibc, ne_eq, hpath, not_false_eq_true, true_and, Bool.decide_eq_true, id]
  mkdir t path _ hmade := by
    cases ht : t.mkdir (pathName (trimSlashes path)) with
    | none =>
        simp only [treeLibc, ht] at hmade
        cases hmade
    | some t' => simp only [treeLibc, ht, id]
  mkdir_failed t path hfailed := by
    cases ht : t.mkdir (pathName (trimSlashes path)) with
    | none => simp only [treeLibc, ht]
    | some t' =>
        simp only [treeLibc, ht] at hfailed
        cases hfailed

section Components

variable {path rest title : List UInt8}

theorem components_ne_nil : components path ≠ [] :=
  List.map_eq_nil_iff.not.mpr (List.splitOn_ne_nil slash path)

theorem components_append_slash :
    components (path ++ slash :: rest) = components path ++ components rest := by
  rw [components, List.splitOn_append_cons_self, List.map_append, components, components]

theorem components_of_not_mem (h : slash ∉ path) : components path = [component path] := by
  rw [components, List.splitOn_eq_singleton h, List.map_singleton]

theorem pathName_append_slash (hpath : path ≠ []) (rest : List UInt8) :
    pathName (path ++ slash :: rest) =
      ⟨(pathName path).absolute, components path ++ components rest⟩ := by
  rw [pathName, components_append_slash, List.head?_append_of_ne_nil _ hpath, pathName]

theorem name_of_component {name : List UInt8} (h : component path = .name name) : path ≠ [] := by
  rintro rfl
  rw [component, if_pos (.inl rfl)] at h
  cases h

end Components

section Lookup

variable {t t' : FileSystem} {path rest title : List UInt8}

theorem lookup_front (h : t.lookup (pathName (path ++ slash :: rest)) ≠ none) (hpath : path ≠ []) :
    t.lookup (pathName path) = some .directory := by
  rw [pathName_append_slash hpath] at h
  exact FileTree.lookup_front h components_ne_nil

theorem reach_front (h : t.reach (pathName (path ++ slash :: rest)) ≠ none) (hpath : path ≠ []) :
    t.reach (pathName path) ≠ none := by
  rw [pathName_append_slash hpath] at h
  exact FileTree.reach_front h

theorem lookup_append_slash (h : t.lookup (pathName path) = some .directory) (hpath : path ≠ []) :
    t.lookup (pathName (path ++ [slash])) = some .directory := by
  rw [pathName_append_slash hpath]
  exact FileTree.lookup_here h

theorem lookup_root : t.lookup (pathName [slash]) = some .directory := by
  have hroot : t.lookup ⟨true, []⟩ = some .directory := t.root_directory
  exact FileTree.lookup_here (FileTree.lookup_here hroot)

theorem resolve_of_trimSlashes {loc : List (List UInt8)} (hdir : t.entry loc = some .directory)
    (h : t.resolve (pathName (trimSlashes path)) = some loc) (hne : trimSlashes path ≠ []) :
    t.resolve (pathName path) = some loc := by
  induction path using List.reverseRecOn with
  | nil => exact h
  | append_singleton path c ih =>
      rw [trimSlashes, List.rdropWhile_concat] at h hne
      split at h
      next hc =>
        rw [if_pos hc] at hne
        obtain rfl := of_decide_eq_true hc
        have hpath : path ≠ [] := by
          rintro rfl
          exact hne rfl
        rw [pathName_append_slash hpath]
        exact FileTree.resolve_concat (c := .here) (ih h hne) hdir
      next => exact h

theorem exists_of_mkdir (h : t.mkdir (pathName (trimSlashes path)) = some t') :
    ∃ n dir hdir hnew, t' = t.add n dir hdir hnew ∧
      t'.resolve (pathName path) = some (n :: dir) := by
  have hne : trimSlashes path ≠ [] := by
    intro hempty
    rw [hempty] at h
    cases h
  obtain ⟨n, dir, hdir, hnew, hloc, rfl⟩ := FileTree.mkdir_eq_some h
  refine ⟨n, dir, hdir, hnew, rfl, ?_⟩
  exact resolve_of_trimSlashes FileTree.add_entry (FileTree.add_grown.resolve hloc) hne

theorem resolve_child (h : t.lookup (pathName (path ++ [slash])) = some .directory)
    (htitle : components title = [.name title]) :
    ∃ dir, t.entry dir = some .directory ∧
      t.resolve (pathName (path ++ slash :: title)) = some (title :: dir) := by
  have hlookup : t.lookup ⟨(pathName (path ++ slash :: title)).absolute, components path⟩ =
      some .directory := by
    have hhead : (path ++ slash :: title).head? = (path ++ [slash]).head? := by cases path <;> rfl
    have hne : t.lookup (pathName (path ++ [slash])) ≠ none := by
      rw [h]
      exact nofun
    rw [pathName, components_append_slash] at hne
    rw [pathName, hhead]
    exact FileTree.lookup_front hne components_ne_nil
  obtain ⟨dir, hdir, hentry⟩ := Option.bind_eq_some_iff.mp hlookup
  refine ⟨dir, hentry, ?_⟩
  have hchild := FileTree.resolve_concat (c := .name title) hdir hentry
  rwa [← htitle, ← components_append_slash] at hchild

theorem trimSlashes_of_not_mem (path : List UInt8) (hrest : slash ∉ rest) (hne : rest ≠ []) :
    trimSlashes (path ++ rest) = path ++ rest := by
  apply List.rdropWhile_eq_self_iff.mpr
  intro hpath hlast
  apply hrest
  rw [← of_decide_eq_true hlast, List.getLast_append_of_ne_nil _ hne]
  exact List.getLast_mem hne

theorem exists_last_slash (h : slash ∈ path) :
    ∃ front rest, path = front ++ slash :: rest ∧ slash ∉ rest := by
  obtain ⟨rest, front, heq, hrest⟩ := List.eq_append_cons_of_mem (List.mem_reverse.mpr h)
  refine ⟨front.reverse, rest.reverse, ?_, List.mem_reverse.not.mpr hrest⟩
  rw [← List.reverse_reverse path, heq, List.reverse_append, List.reverse_cons, List.append_assoc]
  rfl

theorem lookup_or_mkdir
    (hfront : ∀ front rest, path = front ++ slash :: rest → front ≠ [] →
      t.lookup (pathName front) ≠ none)
    (hreach : t.reach (pathName path) ≠ none) :
    t.lookup (pathName path) ≠ none ∨ t.mkdir (pathName (trimSlashes path)) ≠ none := by
  have hlast : ∃ absolute cs name dir, pathName path = ⟨absolute, cs ++ [component name]⟩ ∧
      t.resolve ⟨absolute, cs⟩ = some dir ∧ t.entry dir = some .directory ∧
        (name ≠ [] → trimSlashes path = path) := by
    by_cases hmem : slash ∈ path
    · obtain ⟨front, rest, rfl, hrest⟩ := exists_last_slash hmem
      have htrim : rest ≠ [] → trimSlashes (front ++ slash :: rest) = front ++ slash :: rest := by
        intro hne
        have htrim := trimSlashes_of_not_mem (front ++ [slash]) hrest hne
        rwa [List.append_assoc] at htrim
      by_cases hne : front = []
      · refine ⟨true, [.here], rest, [], ?_, ?_, t.root_directory, htrim⟩
        · rw [hne, pathName, components_append_slash, components_of_not_mem hrest]
          rfl
        · have hroot : t.resolve ⟨true, []⟩ = some [] := rfl
          exact FileTree.resolve_concat hroot t.root_directory
      · have hpath := pathName_append_slash hne rest
        rw [components_of_not_mem hrest] at hpath
        rw [hpath] at hreach
        obtain ⟨dir, hdir, hentry⟩ := Option.bind_eq_some_iff.mp
          (FileTree.lookup_of_reach (hfront front rest rfl hne) hreach (List.cons_ne_nil _ _))
        exact ⟨_, _, rest, dir, hpath, hdir, hentry, htrim⟩
    · refine ⟨false, [], path, t.cwd, ?_, rfl, t.cwd_directory, ?_⟩
      · have hhead : path.head? ≠ some slash := fun h => hmem (List.mem_of_mem_head? h)
        rw [pathName, components_of_not_mem hmem, decide_eq_false hhead]
        rfl
      · exact trimSlashes_of_not_mem [] hmem
  obtain ⟨absolute, cs, name, dir, hpath, hcs, hdir, htrim⟩ := hlast
  rcases FileTree.lookup_or_mkdir hcs hdir (component name) with hthere | ⟨n, t', hn, hmade⟩
  · rw [hpath]
    exact .inl hthere
  · right
    rw [htrim (name_of_component hn), hpath, hmade]
    exact nofun

end Lookup

end CccUpgrade
