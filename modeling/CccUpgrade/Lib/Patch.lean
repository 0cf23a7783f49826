import Mathlib.Data.List.Basic
import Mathlib.Tactic.Common

/-! Lists that are written piece by piece, in any order. A piece that starts behind the
end leaves a gap, which is filled up. -/
namespace CccUpgrade.Lib

universe u

variable {α : Type u}

def patch (fill : α) (content : List α) (pos : Nat) (data : List α) : List α :=
  content.take pos ++ List.replicate (pos - content.length) fill ++ data ++
    content.drop (pos + data.length)

section Patch

variable (fill : α) (content : List α) (pos : Nat) (data : List α)

theorem patch_length :
    (patch fill content pos data).length = max content.length (pos + data.length) := by
  simp only [patch, List.length_append, List.length_take, List.length_replicate, List.length_drop]
  omega

theorem patch_before_length :
    (content.take pos ++ List.replicate (pos - content.length) fill).length = pos := by
  rw [List.length_append, List.length_take, List.length_replicate]
  omega

theorem patch_inside {i : Nat} (hi : pos ≤ i) (hlt : i < pos + data.length) :
    (patch fill content pos data)[i]? = data[i - pos]? := by
  have hbefore := patch_before_length fill content pos
  unfold patch
  rw [List.getElem?_append_left (by rw [List.length_append, hbefore]; exact hlt),
    List.getElem?_append_right (by rw [hbefore]; exact hi), hbefore]

theorem patch_outside {i : Nat} (hi : i < content.length) (hout : i < pos ∨ pos + data.length ≤ i) :
    (patch fill content pos data)[i]? = content[i]? := by
  have hbefore := patch_before_length fill content pos
  unfold patch
  rcases hout with hlt | hle
  · rw [List.append_assoc, List.getElem?_append_left (by rw [hbefore]; exact hlt),
      List.getElem?_append_left (by rw [List.length_take]; omega), List.getElem?_take_of_lt hlt]
  · have hlength : (content.take pos ++ List.replicate (pos - content.length) fill ++ data).length =
        pos + data.length := by rw [List.length_append, hbefore]
    rw [List.getElem?_append_right (by omega), hlength, List.getElem?_drop]
    congr 1
    omega

end Patch

/-- At the positions written so far the content is that of `target`. -/
structure Agrees (target content : List α) (written : Nat → Prop) : Prop where
  length_le : content.length ≤ target.length
  eq : ∀ i, written i → content[i]? = target[i]?

structure PieceOf (target : List α) (pos : Nat) (data : List α) : Prop where
  length_le : pos + data.length ≤ target.length
  eq : (target.drop pos).take data.length = data

namespace Agrees

variable {target content : List α} {written : Nat → Prop}

theorem nothing (target : List α) : Agrees target [] fun _ => False :=
  ⟨Nat.zero_le _, nofun⟩

theorem patch (h : Agrees target content written) (fill : α) {pos : Nat} {data : List α}
    (hdata : PieceOf target pos data) : Agrees target (patch fill content pos data)
      fun i => written i ∨ pos ≤ i ∧ i < pos + data.length := by
  have hlength := patch_length fill content pos data
  have hle := h.length_le
  have hdatale := hdata.length_le
  refine ⟨by omega, ?_⟩
  intro i hi
  by_cases hinside : pos ≤ i ∧ i < pos + data.length
  · rw [patch_inside fill content pos data hinside.1 hinside.2]
    have hpiece : data[i - pos]? = ((target.drop pos).take data.length)[i - pos]? := by
      rw [hdata.eq]
    rw [hpiece, List.getElem?_take_of_lt (by omega), List.getElem?_drop]
    congr 1
    omega
  · have hsame := h.eq i (hi.resolve_right hinside)
    by_cases hlt : i < content.length
    · rw [patch_outside fill content pos data hlt (by omega), hsame]
    · rw [List.getElem?_eq_none (by omega)] at hsame
      have htarget : target.length ≤ i := List.getElem?_eq_none_iff.mp hsame.symm
      rw [List.getElem?_eq_none (by omega), ← hsame]

theorem mono (h : Agrees target content written) {written' : Nat → Prop}
    (hsub : ∀ i, written' i → written i) : Agrees target content written' :=
  ⟨h.length_le, fun i hi => h.eq i (hsub i hi)⟩

theorem whole (h : Agrees target content written) (hall : ∀ i < target.length, written i) :
    content = target := by
  apply List.ext_getElem?
  intro i
  by_cases hi : i < target.length
  · exact h.eq i (hall i hi)
  · have hle := h.length_le
    rw [List.getElem?_eq_none (by omega), List.getElem?_eq_none (by omega)]

end Agrees

end CccUpgrade.Lib
