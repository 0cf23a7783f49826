import CccUpgrade.Lib.Triple

/-! Two computations on one state of which the second does what the first does: they
return related results and leave one state, or fault alike. -/
namespace CccUpgrade.Lib

universe u

variable {σ ε α α' β β' : Type u}

inductive Alike (R : α → α' → Prop) : Except ε (α × σ) → Except ε (α' × σ) → Prop
  | ok {a : α} {a' : α'} {s : σ} (h : R a a') : Alike R (.ok (a, s)) (.ok (a', s))
  | error {e : ε} : Alike R (.error e) (.error e)

def Simulates (R : α → α' → Prop) (m : StateT σ (Except ε) α) (m' : StateT σ (Except ε) α') : Prop :=
  ∀ s, Alike R (m s) (m' s)

theorem Alike.bind {R : α → α' → Prop} {S : β → β' → Prop} {m : StateT σ (Except ε) α}
    {m' : StateT σ (Except ε) α'} {s : σ} (h : Alike R (m s) (m' s))
    {f : α → StateT σ (Except ε) β} {f' : α' → StateT σ (Except ε) β'}
    (hf : ∀ a a', R a a' → Simulates S (f a) (f' a')) : Alike S ((m >>= f) s) ((m' >>= f') s) := by
  change Alike S (m s >>= fun r => f r.1 r.2) (m' s >>= fun r => f' r.1 r.2)
  generalize m s = r at h ⊢
  generalize m' s = r' at h ⊢
  cases h with
  | @ok a a' s hr => exact hf a a' hr s
  | error => exact .error

namespace Simulates

variable {R : α → α' → Prop} {S : β → β' → Prop} {m : StateT σ (Except ε) α}
  {m' : StateT σ (Except ε) α'}

theorem pure {a : α} {a' : α'} (h : R a a') :
    Simulates R (Pure.pure a : StateT σ (Except ε) α) (Pure.pure a') :=
  fun _ => .ok h

theorem throw {e : ε} : Simulates R (MonadExcept.throw e : StateT σ (Except ε) α)
    (MonadExcept.throw e : StateT σ (Except ε) α') :=
  fun _ => .error

theorem refl : Simulates Eq m m := by
  intro s
  cases m s with
  | ok r => exact .ok rfl
  | error e => exact .error

theorem bind (h : Simulates R m m') {f : α → StateT σ (Except ε) β} {f' : α' → StateT σ (Except ε) β'}
    (hf : ∀ a a', R a a' → Simulates S (f a) (f' a')) : Simulates S (m >>= f) (m' >>= f') :=
  fun s => (h s).bind hf

end Simulates

end CccUpgrade.Lib
