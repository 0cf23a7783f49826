import Mathlib.Tactic.Common

/-! Pre- and postconditions for stateful computations that may fault, and the part
of a state such a computation leaves alone. -/
namespace CccUpgrade.Lib

universe u

variable {σ ε α β : Type u}

/-- From a state in `P` the computation either returns with `Q` or faults with `E`. -/
def Triple (P : σ → Prop) (m : StateT σ (Except ε) α) (Q : α → σ → Prop) (E : ε → Prop) : Prop :=
  ∀ s, P s → match m s with
    | .ok (a, s') => Q a s'
    | .error e => E e

namespace Triple

variable {P : σ → Prop} {m : StateT σ (Except ε) α} {Q : α → σ → Prop} {E : ε → Prop}

theorem ok (h : Triple P m Q E) {s s' : σ} {a : α} (hs : P s) (hrun : m s = .ok (a, s')) :
    Q a s' := by
  have hm := h s hs
  rwa [hrun] at hm

theorem error (h : Triple P m Q E) {s : σ} {e : ε} (hs : P s) (hrun : m s = .error e) : E e := by
  have hm := h s hs
  rwa [hrun] at hm

theorem returns (h : Triple P m Q E) (hE : ∀ e, ¬ E e) {s : σ} (hs : P s) :
    ∃ a s', m s = .ok (a, s') ∧ Q a s' := by
  cases hrun : m s with
  | ok r => exact ⟨r.1, r.2, rfl, h.ok hs hrun⟩
  | error e => exact absurd (h.error hs hrun) (hE e)

theorem pure {a : α} (h : ∀ s, P s → Q a s) : Triple P (Pure.pure a) Q E := h

theorem throw {e : ε} (h : E e) : Triple P (MonadExcept.throw e : StateT σ (Except ε) α) Q E :=
  fun _ _ => h

theorem bind {f : α → StateT σ (Except ε) β} {R : β → σ → Prop} (hm : Triple P m Q E)
    (hf : ∀ a, Triple (Q a) (f a) R E) : Triple P (m >>= f) R E := by
  intro s hs
  have hfirst := hm s hs
  change match (m s >>= fun r => f r.1 r.2) with
    | .ok (b, s') => R b s'
    | .error e => E e
  cases hrun : m s with
  | error e =>
      rw [hrun] at hfirst
      exact hfirst
  | ok r =>
      rw [hrun] at hfirst
      exact hf r.1 r.2 hfirst

theorem mono {P' : σ → Prop} {Q' : α → σ → Prop} (h : Triple P m Q E) (hP : ∀ s, P' s → P s)
    (hQ : ∀ a s, Q a s → Q' a s) : Triple P' m Q' E := by
  intro s hs
  have hm := h s (hP s hs)
  cases hrun : m s with
  | error e =>
      rw [hrun] at hm
      exact hm
  | ok r =>
      rw [hrun] at hm
      exact hQ r.1 r.2 hm

theorem weaken {P' : σ → Prop} (h : Triple P m Q E) (hP : ∀ s, P' s → P s) : Triple P' m Q E :=
  h.mono hP fun _ _ hs => hs

theorem and {P' : σ → Prop} {Q' : α → σ → Prop} {E' : ε → Prop} (h : Triple P m Q E)
    (h' : Triple P' m Q' E') :
    Triple (fun s => P s ∧ P' s) m (fun a s => Q a s ∧ Q' a s) E := by
  intro s hs
  have hm := h s hs.1
  have hm' := h' s hs.2
  cases hrun : m s with
  | error e =>
      rw [hrun] at hm
      exact hm
  | ok r =>
      rw [hrun] at hm hm'
      exact ⟨hm, hm'⟩

theorem assume {p : Prop} (h : p → Triple P m Q E) : Triple (fun s => p ∧ P s) m Q E :=
  fun s hs => h hs.1 s hs.2

/-- A triple about one value of a view at a time. -/
theorem of_view {γ : Type u} {view : σ → γ} {p : γ → Prop} {q : γ → α → σ → Prop}
    (h : ∀ v, p v → Triple (fun s => view s = v) m (q v) E) (hq : ∀ v a s, p v → q v a s → Q a s) :
    Triple (fun s => p (view s)) m Q E :=
  fun s hs => ((h (view s) hs).mono (fun _ hv => hv) fun a s' => hq _ a s' hs) s rfl

end Triple

/-- Whatever the computation returns it leaves `view` of the state as it was, and
it only faults with `E`. -/
def Keeps {γ : Type u} (view : σ → γ) (E : ε → Prop) (m : StateT σ (Except ε) α) : Prop :=
  ∀ v, Triple (fun s => view s = v) m (fun _ s => view s = v) E

namespace Keeps

variable {γ : Type u} {view : σ → γ} {E : ε → Prop} {m : StateT σ (Except ε) α}

theorem pure {a : α} : Keeps view E (Pure.pure a) := fun _ => Triple.pure fun _ hs => hs

theorem throw {e : ε} (h : E e) : Keeps view E (MonadExcept.throw e : StateT σ (Except ε) α) :=
  fun _ => Triple.throw h

theorem bind {f : α → StateT σ (Except ε) β} (hm : Keeps view E m) (hf : ∀ a, Keeps view E (f a)) :
    Keeps view E (m >>= f) :=
  fun v => Triple.bind (hm v) fun a => hf a v

theorem triple (h : Keeps view E m) (p : γ → Prop) :
    Triple (fun s => p (view s)) m (fun _ s => p (view s)) E :=
  Triple.of_view (fun v _ => h v) fun v _ s hv hs => by rw [hs]; exact hv

end Keeps

end CccUpgrade.Lib
