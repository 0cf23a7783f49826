import Mathlib.Data.List.Basic
import Mathlib.Tactic.Common

/-! First-in first-out queues that never hold more than a given number of items. What is
put into a full queue pushes the oldest item out. -/
namespace CccUpgrade.Lib

universe u

structure BoundedQueue (α : Type u) (capacity : Nat) where
  /-- The oldest item comes first. -/
  items : List α
  bound : items.length ≤ capacity

namespace BoundedQueue

variable {α : Type u} {capacity : Nat} (q : BoundedQueue α capacity)

def empty : BoundedQueue α capacity := ⟨[], Nat.zero_le _⟩

def put (item : α) : List α × BoundedQueue α capacity :=
  let all := q.items ++ [item]
  let excess := all.length - capacity
  (all.take excess, ⟨all.drop excess, by
    rw [List.length_drop]
    omega⟩)

def take : Option α × BoundedQueue α capacity :=
  (q.items.head?, ⟨q.items.tail, by
    have := q.bound
    rw [List.length_tail]
    omega⟩)

theorem put_room (item : α) (h : q.items.length < capacity) :
    (q.put item).1 = [] ∧ (q.put item).2.items = q.items ++ [item] := by
  have hexcess : (q.items ++ [item]).length - capacity = 0 := by
    rw [List.length_append, List.length_singleton]
    omega
  unfold put
  simp only [hexcess]
  exact ⟨rfl, rfl⟩

theorem put_full {oldest item : α} {rest : List α} (h : q.items.length = capacity)
    (hall : q.items ++ [item] = oldest :: rest) :
    (q.put item).1 = [oldest] ∧ (q.put item).2.items = rest := by
  have hexcess : (q.items ++ [item]).length - capacity = 1 := by
    rw [List.length_append, List.length_singleton]
    omega
  rw [hall] at hexcess
  unfold put
  simp only [hall, hexcess]
  exact ⟨rfl, rfl⟩

end BoundedQueue

end CccUpgrade.Lib
