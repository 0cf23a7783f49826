import Mathlib.Tactic.Common

/-! Machines that take inputs and give outputs. A machine that may fault refines a
specification when it never does and always answers what the specification answers. -/
namespace CccUpgrade.Lib

universe u v w x

variable {σ : Type u} {τ : Type v} {ι : Type w} {ο : Type x} {ε : Type x}

/-- The answers to a sequence of inputs and the state after it. -/
def answers (step : τ → ι → ο × τ) : τ → List ι → List ο × τ
  | t, [] => ([], t)
  | t, input :: inputs =>
      let (output, t) := step t input
      let (outputs, t) := answers step t inputs
      (output :: outputs, t)

def replies (step : σ → ι → Except ε (ο × σ)) : σ → List ι → Except ε (List ο × σ)
  | s, [] => .ok ([], s)
  | s, input :: inputs =>
      match step s input with
      | .error e => .error e
      | .ok (output, s) =>
          match replies step s inputs with
          | .error e => .error e
          | .ok (outputs, s) => .ok (output :: outputs, s)

/-- One step of the machine from related states answers alike and leads to related states. -/
def Refines (R : τ → σ → Prop) (spec : τ → ι → ο × τ) (step : σ → ι → Except ε (ο × σ)) : Prop :=
  ∀ t s input, R t s → ∃ s', step s input = .ok ((spec t input).1, s') ∧ R (spec t input).2 s'

theorem Refines.run {R : τ → σ → Prop} {spec : τ → ι → ο × τ} {step : σ → ι → Except ε (ο × σ)}
    (h : Refines R spec step) (inputs : List ι) {t : τ} {s : σ} (hinit : R t s) :
    ∃ s', replies step s inputs = .ok ((answers spec t inputs).1, s') ∧
      R (answers spec t inputs).2 s' := by
  induction inputs generalizing t s with
  | nil => exact ⟨s, rfl, hinit⟩
  | cons input inputs ih =>
      obtain ⟨s₁, hstep, hrel⟩ := h t s input hinit
      obtain ⟨s₂, hrun, hend⟩ := ih hrel
      refine ⟨s₂, ?_, hend⟩
      simp only [replies, hstep, hrun]
      rfl

end CccUpgrade.Lib
