import CccUpgrade.Lib.Heap

/-! Chains of nodes on a heap: what is visited when the links are followed from one
node to another. A chain from a node to itself is a ring. -/
namespace CccUpgrade.Lib

universe u v

structure Linking (β : Type u) (γ : Type v) where
  value : β → γ
  next : β → Option Nat

variable {β : Type u} {γ : Type v}

/-- Following the links from `start` visits the given nodes, which hold the given
values, and then arrives at `stop`. -/
def Path (link : Linking β γ) (h : Heap β) (start : Nat) : List (Nat × γ) → Nat → Prop
  | [], stop => start = stop
  | cell :: cells, stop => start = cell.1 ∧ ∃ node next, h.read cell.1 = some node ∧
      link.value node = cell.2 ∧ link.next node = some next ∧ Path link h next cells stop

namespace Path

variable {link : Linking β γ} {h h' : Heap β} {start stop : Nat} {cells : List (Nat × γ)}

theorem append_iff {before after : List (Nat × γ)} :
    Path link h start (before ++ after) stop ↔
      ∃ middle, Path link h start before middle ∧ Path link h middle after stop := by
  induction before generalizing start with
  | nil => simp [Path]
  | cons cell before ih =>
      simp only [List.cons_append, Path, ih]
      constructor
      · rintro ⟨hstart, node, next, hread, hvalue, hnext, middle, hbefore, hafter⟩
        exact ⟨middle, ⟨hstart, node, next, hread, hvalue, hnext, hbefore⟩, hafter⟩
      · rintro ⟨middle, ⟨hstart, node, next, hread, hvalue, hnext, hbefore⟩, hafter⟩
        exact ⟨hstart, node, next, hread, hvalue, hnext, middle, hbefore, hafter⟩

theorem append {before after : List (Nat × γ)} {middle : Nat}
    (hbefore : Path link h start before middle) (hafter : Path link h middle after stop) :
    Path link h start (before ++ after) stop :=
  append_iff.mpr ⟨middle, hbefore, hafter⟩

/-- Only the nodes on the path matter to it. -/
theorem frame (hpath : Path link h start cells stop)
    (hread : ∀ cell ∈ cells, h'.read cell.1 = h.read cell.1) : Path link h' start cells stop := by
  induction cells generalizing start with
  | nil => exact hpath
  | cons cell cells ih =>
      obtain ⟨hstart, node, next, hnode, hvalue, hnext, hrest⟩ := hpath
      refine ⟨hstart, node, next, ?_, hvalue, hnext, ?_⟩
      · rw [hread cell List.mem_cons_self]
        exact hnode
      · exact ih hrest fun c hc => hread c (List.mem_cons_of_mem _ hc)

theorem mem (hpath : Path link h start cells stop) {cell : Nat × γ} (hcell : cell ∈ cells) :
    ∃ node, h.read cell.1 = some node ∧ link.value node = cell.2 := by
  induction cells generalizing start with
  | nil => cases hcell
  | cons c cells ih =>
      obtain ⟨-, node, next, hread, hvalue, -, hrest⟩ := hpath
      rcases List.mem_cons.mp hcell with rfl | htail
      · exact ⟨node, hread, hvalue⟩
      · exact ih hrest htail

theorem single {node : β} (hread : h.read start = some node) (hnext : link.next node = some stop) :
    Path link h start [(start, link.value node)] stop :=
  ⟨rfl, node, stop, hread, rfl, hnext, rfl⟩

theorem last {cell : Nat × γ} (hpath : Path link h start (cells ++ [cell]) stop) :
    Path link h start cells cell.1 ∧ ∃ node, h.read cell.1 = some node ∧
      link.value node = cell.2 ∧ link.next node = some stop := by
  obtain ⟨middle, hcells, rfl, node, next, hread, hvalue, hnext, rfl⟩ := append_iff.mp hpath
  exact ⟨hcells, node, hread, hvalue, hnext⟩

end Path

end CccUpgrade.Lib
