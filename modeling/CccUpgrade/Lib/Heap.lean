import Mathlib.Data.List.Basic
import Mathlib.Tactic.Common

/-! A ledger of allocated blocks. Every allocation gets a token of its own, which
stays known after the block is freed, so that a use of a freed block and a second
free of it can be told from uses of live ones. -/
namespace CccUpgrade.Lib

universe u

structure Heap (β : Type u) where
  blocks : List (Option β)
deriving DecidableEq, Repr

namespace Heap

variable {β : Type u}

def empty : Heap β := ⟨[]⟩

def alloc (h : Heap β) (content : β) : Nat × Heap β :=
  (h.blocks.length, ⟨h.blocks ++ [some content]⟩)

def read (h : Heap β) (token : Nat) : Option β := (h.blocks[token]?).join

def free (h : Heap β) (token : Nat) : Option (Heap β) :=
  match h.read token with
  | some _ => some ⟨h.blocks.set token none⟩
  | none => none

def write (h : Heap β) (token : Nat) (content : β) : Option (Heap β) :=
  match h.read token with
  | some _ => some ⟨h.blocks.set token (some content)⟩
  | none => none

def Live (h : Heap β) (token : Nat) : Prop := ∃ content, h.read token = some content

theorem Live.lt {h : Heap β} {token : Nat} (hlive : h.Live token) : token < h.blocks.length := by
  obtain ⟨content, hread⟩ := hlive
  by_contra hlt
  rw [read, List.getElem?_eq_none (by omega)] at hread
  cases hread

@[simp] theorem read_alloc (h : Heap β) (content : β) :
    (h.alloc content).2.read (h.alloc content).1 = some content := by
  simp [alloc, read]

theorem live_alloc (h : Heap β) (content : β) :
    (h.alloc content).2.Live (h.alloc content).1 :=
  ⟨content, read_alloc h content⟩

theorem read_alloc_of_lt (h : Heap β) (content : β) {token : Nat}
    (hlt : token < h.blocks.length) : (h.alloc content).2.read token = h.read token := by
  simp [alloc, read, List.getElem?_append_left hlt]

theorem read_alloc_of_ne (h : Heap β) (content : β) {token : Nat}
    (hne : token ≠ (h.alloc content).1) : (h.alloc content).2.read token = h.read token := by
  by_cases hlt : token < h.blocks.length
  · exact read_alloc_of_lt h content hlt
  · change token ≠ h.blocks.length at hne
    have hbeyond : (h.blocks ++ [some content])[token]? = none := by
      rw [List.getElem?_eq_none]
      rw [List.length_append, List.length_singleton]
      omega
    rw [read, read, alloc, hbeyond, List.getElem?_eq_none (by omega)]

theorem Live.alloc {h : Heap β} {token : Nat} (hlive : h.Live token) (content : β) :
    (h.alloc content).2.Live token := by
  unfold Live
  rw [read_alloc_of_lt h content hlive.lt]
  exact hlive

theorem Live.ne_alloc {h : Heap β} {token : Nat} (hlive : h.Live token) (content : β) :
    token ≠ (h.alloc content).1 :=
  Nat.ne_of_lt hlive.lt

theorem Live.free {h : Heap β} {token : Nat} (hlive : h.Live token) :
    ∃ h', h.free token = some h' ∧ ¬ h'.Live token := by
  have hlt := hlive.lt
  obtain ⟨content, hread⟩ := hlive
  refine ⟨⟨h.blocks.set token none⟩, by simp only [Heap.free, hread], ?_⟩
  rintro ⟨content', hread'⟩
  rw [read, List.getElem?_set_self hlt] at hread'
  cases hread'

theorem read_free_of_ne {h h' : Heap β} {token other : Nat} (hfree : h.free token = some h')
    (hne : other ≠ token) : h'.read other = h.read other := by
  unfold Heap.free at hfree
  split at hfree
  · cases hfree
    simp [read, List.getElem?_set_ne (Ne.symm hne)]
  · cases hfree

theorem length_free {h h' : Heap β} {token : Nat} (hfree : h.free token = some h') :
    h'.blocks.length = h.blocks.length := by
  unfold Heap.free at hfree
  split at hfree
  · cases hfree
    exact List.length_set
  · cases hfree

theorem write_of_read {h : Heap β} {token : Nat} {old : β} (hread : h.read token = some old)
    (content : β) : ∃ h', h.write token content = some h' ∧ h'.read token = some content ∧
      ∀ other, other ≠ token → h'.read other = h.read other := by
  have hlt := Live.lt ⟨old, hread⟩
  refine ⟨⟨h.blocks.set token (some content)⟩, by simp only [write, hread], ?_, ?_⟩
  · simp [read, List.getElem?_set_self hlt]
  · intro other hne
    simp [read, List.getElem?_set_ne (Ne.symm hne)]

theorem free_of_read {h : Heap β} {token : Nat} {old : β} (hread : h.read token = some old) :
    ∃ h', h.free token = some h' ∧ ∀ other, other ≠ token → h'.read other = h.read other := by
  obtain ⟨h', hfree, -⟩ := Live.free ⟨old, hread⟩
  exact ⟨h', hfree, fun other hne => read_free_of_ne hfree hne⟩

theorem Live.free_of_ne {h h' : Heap β} {token other : Nat} (hlive : h.Live other)
    (hfree : h.free token = some h') (hne : other ≠ token) : h'.Live other := by
  unfold Live
  rw [read_free_of_ne hfree hne]
  exact hlive

end Heap

end CccUpgrade.Lib
