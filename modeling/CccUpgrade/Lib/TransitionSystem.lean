import Mathlib.Data.List.Basic

/-! Labelled transition systems with an executable step function. A guard
restricts the schedule, so that one induction covers both unrestricted runs
and the runs all of whose steps meet a condition. -/
namespace CccUpgrade.Lib

universe u v

structure TransitionSystem (σ : Type u) (α : Type v) where
  init : σ
  step : σ → α → Option σ

namespace TransitionSystem

variable {σ : Type u} {α : Type v} (sys : TransitionSystem σ α)

/-- States reached by a schedule every step of which satisfies `guard` in the
state it is taken from. -/
inductive ReachableBy (guard : σ → α → Prop) : σ → Prop
  | init : ReachableBy guard sys.init
  | step {s s' : σ} {a : α} (hreach : ReachableBy guard s) (hguard : guard s a)
      (hstep : sys.step s a = some s') : ReachableBy guard s'

def free (_ : σ) (_ : α) : Prop := True

abbrev Reachable : σ → Prop := sys.ReachableBy free

variable {sys} {guard : σ → α → Prop}

/-- The invariant rule: what holds initially and is kept by every allowed step
taken from a reachable state holds in every reachable state. -/
theorem ReachableBy.invariant {inv : σ → Prop} (hinit : inv sys.init)
    (hstep : ∀ s a s', sys.ReachableBy guard s → inv s → guard s a →
      sys.step s a = some s' → inv s')
    {s : σ} (h : sys.ReachableBy guard s) : inv s := by
  induction h with
  | init => exact hinit
  | step hreach hguard hs ih => exact hstep _ _ _ hreach ih hguard hs

/-- The simulation rule: if every step, seen through `f`, is one of another system or no step
at all, then only what that system reaches is reached. -/
theorem ReachableBy.simulated {τ : Type u} {β : Type v} {sys' : TransitionSystem τ β} (f : σ → τ)
    (inv : σ → Prop) (hinit : inv sys.init ∧ f sys.init = sys'.init)
    (hstep : ∀ s a s', inv s → guard s a → sys.step s a = some s' →
      inv s' ∧ (f s' = f s ∨ ∃ b, sys'.step (f s) b = some (f s')))
    {s : σ} (h : sys.ReachableBy guard s) : inv s ∧ sys'.Reachable (f s) := by
  induction h with
  | init =>
      refine ⟨hinit.1, ?_⟩
      rw [hinit.2]
      exact .init
  | @step s s' a _ hguard hs ih =>
      obtain ⟨hinv, hmoved⟩ := hstep s a s' ih.1 hguard hs
      refine ⟨hinv, ?_⟩
      rcases hmoved with hsame | ⟨b, hb⟩
      · rw [hsame]
        exact ih.2
      · exact .step ih.2 trivial hb

def exec (sys : TransitionSystem σ α) (s : σ) : List α → Option σ
  | [] => some s
  | a :: as => match sys.step s a with
    | none => none
    | some s' => exec sys s' as

theorem exec_append (s : σ) (as later : List α) :
    sys.exec s (as ++ later) = (sys.exec s as).bind (sys.exec · later) := by
  induction as generalizing s with
  | nil => rfl
  | cons a as ih =>
      rw [List.cons_append, exec, exec]
      cases sys.step s a with
      | none => rfl
      | some s' => exact ih s'

/-- The schedule rule: a schedule that can be run, and every action of which is always
allowed, leads from a reachable state to a reachable state. -/
theorem ReachableBy.exec {s : σ} (hreach : sys.ReachableBy guard s) (as : List α)
    (hguard : ∀ s, ∀ a ∈ as, guard s a) {β : Type*} (f : σ → β) {b : β}
    (h : (sys.exec s as).map f = some b) : ∃ s', sys.ReachableBy guard s' ∧ f s' = b := by
  induction as generalizing s with
  | nil => exact ⟨s, hreach, Option.some.inj h⟩
  | cons a as ih =>
      simp only [TransitionSystem.exec] at h
      split at h
      · cases h
      · rename_i next hnext
        apply ih (.step hreach (hguard s a List.mem_cons_self) hnext) _ h
        exact fun s a ha => hguard s a (List.mem_cons_of_mem _ ha)

inductive Leads (sys : TransitionSystem σ α) (guard : σ → α → Prop) : σ → σ → Prop
  | refl (s : σ) : Leads sys guard s s
  | step {s s' s'' : σ} {a : α} (hguard : guard s a) (hstep : sys.step s a = some s')
      (hrest : Leads sys guard s' s'') : Leads sys guard s s''

namespace Leads

variable {s s' s'' : σ}

theorem one {a : α} (hguard : guard s a) (hstep : sys.step s a = some s') : sys.Leads guard s s' :=
  .step hguard hstep (.refl s')

theorem trans (h : sys.Leads guard s s') (h' : sys.Leads guard s' s'') : sys.Leads guard s s'' := by
  induction h with
  | refl => exact h'
  | step hguard hstep _ ih => exact .step hguard hstep (ih h')

theorem reachableBy {guard' : σ → α → Prop} (h : sys.Leads guard s s')
    (hguard : ∀ s a, guard s a → guard' s a) (hs : sys.ReachableBy guard' s) :
    sys.ReachableBy guard' s' := by
  induction h with
  | refl => exact hs
  | step hallowed hstep _ ih => exact ih (.step hs (hguard _ _ hallowed) hstep)

theorem invariant {Q : σ → Prop} (h : sys.Leads guard s s') (hs : Q s)
    (hstep : ∀ t a t', sys.Leads guard s t → Q t → guard t a → sys.step t a = some t' → Q t') :
    Q s' := by
  have hrun : ∀ {t t'}, sys.Leads guard t t' → sys.Leads guard s t → Q t → Q t' := by
    intro t t' hrest
    induction hrest with
    | refl => exact fun _ ht => ht
    | step hguard hnext _ ih =>
        intro hbefore ht
        exact ih (hbefore.trans (.one hguard hnext)) (hstep _ _ _ hbefore ht hguard hnext)
  exact hrun h (.refl s) hs

end Leads

def guarded (sys : TransitionSystem σ α) (guard : σ → α → Prop) [∀ s, DecidablePred (guard s)] :
    TransitionSystem σ α where
  init := sys.init
  step s a := if guard s a then sys.step s a else none

/-- A decidable guard that allows no more than another one in the states that one leads to. -/
theorem ReachableBy.of_guarded {guard' : σ → α → Prop} [∀ s, DecidablePred (guard' s)] {s : σ}
    (h : (sys.guarded guard').Reachable s)
    (hguard : ∀ s a, sys.ReachableBy guard s → guard' s a → guard s a) : sys.ReachableBy guard s := by
  induction h with
  | init => exact .init
  | @step s s' a _ _ hstep ih =>
      change (if guard' s a then sys.step s a else none) = some s' at hstep
      split at hstep
      · rename_i hallowed
        exact .step ih (hguard s a ih hallowed) hstep
      · cases hstep

theorem Leads.of_exec {guard' : σ → α → Prop} [∀ s, DecidablePred (guard' s)] {s s' : σ} {as : List α}
    (hguard : ∀ s, ∀ a ∈ as, guard' s a → guard s a) (h : (sys.guarded guard').exec s as = some s') :
    sys.Leads guard s s' := by
  induction as generalizing s with
  | nil =>
      rw [← Option.some.inj h]
      exact .refl s
  | cons a as ih =>
      simp only [TransitionSystem.exec, guarded] at h
      split at h
      · cases h
      · rename_i next hnext
        split at hnext
        · rename_i hallowed
          exact .step (hguard s a List.mem_cons_self hallowed) hnext
            (ih (fun s a ha => hguard s a (List.mem_cons_of_mem _ ha)) h)
        · cases hnext

/-- The system beside a record of what its steps did, the latest first. -/
def recorded {ε : Type v} (sys : TransitionSystem σ α) (note : σ → α → σ → List ε) :
    TransitionSystem (σ × List ε) α where
  init := (sys.init, [])
  step p a := (sys.step p.1 a).map fun s' => (s', note p.1 a s' ++ p.2)

theorem ReachableBy.record_invariant {ε : Type v} {note : σ → α → σ → List ε}
    {Q : σ → List ε → Prop} (hinit : Q sys.init [])
    (hstep : ∀ s record a s', Q s record → sys.step s a = some s' → Q s' (note s a s' ++ record))
    {p : σ × List ε} (h : (sys.recorded note).Reachable p) : Q p.1 p.2 := by
  induction h with
  | init => exact hinit
  | @step p _ a _ _ hp ih =>
      obtain ⟨s', hs', rfl⟩ := Option.map_eq_some_iff.mp hp
      exact hstep p.1 p.2 a s' ih hs'

end TransitionSystem

section History

variable {ε : Type u} {P : List ε → ε → Prop} {log : List ε}

/-- Every event of a log, the latest first, meets a condition on what came before it. -/
def Throughout (P : List ε → ε → Prop) (log : List ε) : Prop :=
  ∀ later e earlier, log = later ++ e :: earlier → P earlier e

theorem Throughout.nil : Throughout P [] := by
  intro later e earlier hlog
  cases later <;> cases hlog

theorem Throughout.cons (h : Throughout P log) {e : ε} (hlast : P log e) :
    Throughout P (e :: log) := by
  intro later e' earlier hlog
  cases later with
  | nil =>
      cases hlog
      exact hlast
  | cons e'' later =>
      cases hlog
      exact h later e' earlier rfl

end History

end CccUpgrade.Lib
