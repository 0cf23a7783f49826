import Mathlib.Data.List.Basic
import Mathlib.Data.List.Nodup
import Mathlib.Tactic.Common

/-! The account of a holder that keeps at most one resource. Resources are numbered in
the order they are acquired; what others acquire and give back in between counts too. -/
namespace CccUpgrade.Lib

structure Account where
  /-- The number of the next resource. -/
  next : Nat
  /-- What the holder has acquired. -/
  opens : List Nat
  /-- What has been given back, by the holder or by others. -/
  closes : List Nat
  current : Option Nat
deriving DecidableEq, Repr

namespace Account

def acquire (a : Account) : Account :=
  { a with next := a.next + 1, opens := a.opens ++ [a.next], current := some a.next }

def release (a : Account) : Account :=
  { a with closes := a.closes ++ a.current.toList, current := none }

def visit (a : Account) : Account :=
  { a with next := a.next + 1, closes := a.closes ++ [a.next] }

def returned (a : Account) : List Nat := a.closes.filter (· ∈ a.opens)

/-- What has been acquired and not given back is the one resource held, and nothing is
given back twice. -/
structure Conserved (a : Account) : Prop where
  balance : a.opens.length = a.returned.length + if a.current.isSome then 1 else 0
  once : a.closes.Nodup
  kept : ∀ h ∈ a.opens, h ∉ a.closes → a.current = some h

structure Inv (a : Account) : Prop where
  balance : a.opens = a.returned ++ a.current.toList
  opens_nodup : a.opens.Nodup
  closes_nodup : a.closes.Nodup
  opens_lt : ∀ h ∈ a.opens, h < a.next
  closes_lt : ∀ h ∈ a.closes, h < a.next
  open' : ∀ h, a.current = some h → h ∉ a.closes

theorem nodup_snoc {l : List Nat} (h : l.Nodup) {n : Nat} (hn : n ∉ l) : (l ++ [n]).Nodup := by
  rw [← List.concat_eq_append]
  exact h.concat hn

namespace Inv

theorem start : Inv ⟨0, [], [], none⟩ :=
  ⟨rfl, .nil, .nil, fun _ h => absurd h List.not_mem_nil, fun _ h => absurd h List.not_mem_nil, nofun⟩

variable {a : Account} (h : a.Inv)
include h

theorem conserved : a.Conserved where
  balance := by
    have hlength := congrArg List.length h.balance
    rw [List.length_append] at hlength
    cases hcurrent : a.current <;> simpa [hcurrent] using hlength
  once := h.closes_nodup
  kept n hopen hclosed := by
    rw [h.balance, List.mem_append] at hopen
    rcases hopen with hreturned | hcurrent
    · exact absurd (List.mem_of_mem_filter hreturned) hclosed
    · exact Option.mem_toList.mp hcurrent

theorem next_not_mem_opens : a.next ∉ a.opens := fun hmem => Nat.lt_irrefl _ (h.opens_lt _ hmem)

theorem next_not_mem_closes : a.next ∉ a.closes := fun hmem => Nat.lt_irrefl _ (h.closes_lt _ hmem)

theorem current_mem {n : Nat} (hcurrent : a.current = some n) : n ∈ a.opens := by
  rw [h.balance, hcurrent]
  exact List.mem_append_right _ (List.mem_singleton_self n)

theorem acquire_returned : a.acquire.returned = a.returned := by
  apply List.filter_congr
  intro n hn
  have hne : n ≠ a.next := Nat.ne_of_lt (h.closes_lt n hn)
  simp [acquire, hne]

theorem acquire (hidle : a.current = none) : a.acquire.Inv where
  balance := by
    have hbalance := h.balance
    rw [hidle, Option.toList_none, List.append_nil] at hbalance
    rw [h.acquire_returned, ← hbalance]
    rfl
  opens_nodup := nodup_snoc h.opens_nodup h.next_not_mem_opens
  closes_nodup := h.closes_nodup
  opens_lt n hn := by
    rcases List.mem_append.mp hn with hold | hnew
    · exact Nat.lt_succ_of_lt (h.opens_lt n hold)
    · rw [List.mem_singleton.mp hnew]
      exact Nat.lt_succ_self _
  closes_lt n hn := Nat.lt_succ_of_lt (h.closes_lt n hn)
  open' := by
    rintro n ⟨⟩
    exact h.next_not_mem_closes

theorem release : a.release.Inv := by
  cases hcurrent : a.current with
  | none =>
      have hsame : a.release = a := by
        unfold Account.release
        rw [hcurrent, Option.toList_none, List.append_nil, ← hcurrent]
      rwa [hsame]
  | some n =>
      have hopen := h.current_mem hcurrent
      have hcloses : a.release.closes = a.closes ++ [n] := by
        unfold Account.release
        rw [hcurrent]
        rfl
      have hreturned : a.release.returned = a.returned ++ [n] := by
        unfold Account.returned
        rw [hcloses, List.filter_append]
        congr 1
        apply List.filter_eq_self.mpr
        intro k hk
        rw [List.mem_singleton.mp hk]
        exact decide_eq_true hopen
      constructor
      case balance =>
        rw [hreturned]
        change a.opens = _ ++ []
        rw [List.append_nil, h.balance, hcurrent]
        rfl
      case opens_nodup => exact h.opens_nodup
      case closes_nodup =>
        rw [hcloses]
        exact nodup_snoc h.closes_nodup (h.open' n hcurrent)
      case opens_lt => exact h.opens_lt
      case closes_lt =>
        intro k hk
        rw [hcloses] at hk
        rcases List.mem_append.mp hk with hold | hnew
        · exact h.closes_lt k hold
        · rw [List.mem_singleton.mp hnew]
          exact h.opens_lt n hopen
      case open' => exact nofun

theorem visit : a.visit.Inv where
  balance := by
    have hreturned : a.visit.returned = a.returned := by
      unfold Account.returned Account.visit
      rw [List.filter_append]
      have hnone : [a.next].filter (· ∈ a.opens) = [] :=
        List.filter_eq_nil_iff.mpr (by simpa using h.next_not_mem_opens)
      rw [hnone, List.append_nil]
    rw [hreturned]
    exact h.balance
  opens_nodup := h.opens_nodup
  closes_nodup := nodup_snoc h.closes_nodup h.next_not_mem_closes
  opens_lt n hn := Nat.lt_succ_of_lt (h.opens_lt n hn)
  closes_lt n hn := by
    rcases List.mem_append.mp hn with hold | hnew
    · exact Nat.lt_succ_of_lt (h.closes_lt n hold)
    · rw [List.mem_singleton.mp hnew]
      exact Nat.lt_succ_self _
  open' n hn hmem := by
    rcases List.mem_append.mp hmem with hold | hnew
    · exact h.open' n hn hold
    · rw [List.mem_singleton.mp hnew] at hn
      exact h.next_not_mem_opens (h.current_mem hn)

theorem not_conserved_acquire {n : Nat} (hcurrent : a.current = some n) :
    ¬ a.acquire.Conserved := by
  intro hconserved
  have hkept := hconserved.kept n (List.mem_append_left _ (h.current_mem hcurrent))
    (h.open' n hcurrent)
  have hnext : a.next = n := Option.some.inj hkept
  exact h.next_not_mem_opens (hnext ▸ h.current_mem hcurrent)

end Inv

end Account

end CccUpgrade.Lib
