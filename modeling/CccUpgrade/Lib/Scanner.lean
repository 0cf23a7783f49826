import Mathlib.Data.List.Infix
import Mathlib.Tactic.Common

/-! Incremental scanning of a stream that arrives in pieces. A scanner looks at
what is buffered and either waits for more, takes a positive number of symbols
(perhaps reporting an event), or halts on a fault. The one law asked of it is
that a decision, once made, is not changed by symbols that arrive later; from
it follows that the way the stream is cut into pieces cannot be observed. -/
namespace CccUpgrade.Lib

universe u v w

inductive Look (ε : Type v) (φ : Type w)
  | wait
  | take (count : Nat) (event : Option ε)
  | halt (fault : φ)

/-- A look-ahead function whose decisions are stable under extension. -/
structure Scanner (α : Type u) (ε : Type v) (φ : Type w) where
  look : List α → Look ε φ
  take_pos : ∀ {input count event}, look input = .take count event → 0 < count
  take_le : ∀ {input count event}, look input = .take count event → count ≤ input.length
  stable : ∀ {input}, look input ≠ .wait → ∀ more, look (input ++ more) = look input

/-- How a scan ends: waiting with a rest that may still grow, or halted. -/
inductive Scan (α : Type u) (ε : Type v) (φ : Type w)
  | waiting (events : List ε) (rest : List α)
  | halted (events : List ε) (fault : φ)

namespace Scan

variable {α : Type u} {ε : Type v} {φ : Type w}

def events : Scan α ε φ → List ε
  | waiting es _ => es
  | halted es _ => es

def fault : Scan α ε φ → Option φ
  | waiting _ _ => none
  | halted _ f => some f

def prepend (before : List ε) : Scan α ε φ → Scan α ε φ
  | waiting es rest => waiting (before ++ es) rest
  | halted es f => halted (before ++ es) f

@[simp] theorem prepend_nil (s : Scan α ε φ) : s.prepend [] = s := by
  cases s <;> rfl

@[simp] theorem prepend_prepend (before after : List ε) (s : Scan α ε φ) :
    (s.prepend after).prepend before = s.prepend (before ++ after) := by
  cases s <;> simp [prepend]

@[simp] theorem events_prepend (before : List ε) (s : Scan α ε φ) :
    (s.prepend before).events = before ++ s.events := by
  cases s <;> rfl

@[simp] theorem fault_prepend (before : List ε) (s : Scan α ε φ) :
    (s.prepend before).fault = s.fault := by
  cases s <;> rfl

end Scan

namespace Scanner

variable {α : Type u} {ε : Type v} {φ : Type w}

/-- Take greedily until the scanner waits or halts. -/
def scan (sc : Scanner α ε φ) (input : List α) : Scan α ε φ :=
  match _hlook : sc.look input with
  | .wait => .waiting [] input
  | .halt f => .halted [] f
  | .take count event => (scan sc (input.drop count)).prepend event.toList
termination_by input.length
decreasing_by
  have hpos := sc.take_pos _hlook
  have hle := sc.take_le _hlook
  simp only [List.length_drop]
  omega

variable {sc : Scanner α ε φ}

theorem scan_wait {input : List α} (h : sc.look input = .wait) :
    sc.scan input = .waiting [] input := by
  rw [scan]
  split <;> simp_all

theorem scan_halt {input : List α} {f : φ} (h : sc.look input = .halt f) :
    sc.scan input = .halted [] f := by
  rw [scan]
  split <;> simp_all

theorem scan_take {input : List α} {count : Nat} {event : Option ε}
    (h : sc.look input = .take count event) :
    sc.scan input = (sc.scan (input.drop count)).prepend event.toList := by
  rw [scan]
  split <;> simp_all

/-- Induction along the takes of a scan, one case for each decision. -/
theorem scan_induction {motive : List α → Prop}
    (wait : ∀ input, sc.look input = .wait → motive input)
    (halt : ∀ input f, sc.look input = .halt f → motive input)
    (take : ∀ input count event, sc.look input = .take count event →
      motive (input.drop count) → motive input)
    (input : List α) : motive input := by
  induction hlen : input.length using Nat.strong_induction_on generalizing input with
  | _ len ih =>
    cases hlook : sc.look input with
    | wait => exact wait input hlook
    | halt f => exact halt input f hlook
    | take count event =>
        have hpos := sc.take_pos hlook
        have hle := sc.take_le hlook
        refine take input count event hlook (ih (len - count) (by omega) _ ?_)
        simp [hlen]

/-- Offer `more` to an ended scan. A halted one stays as it is. -/
def resume (sc : Scanner α ε φ) : Scan α ε φ → List α → Scan α ε φ
  | .waiting es rest, more => (sc.scan (rest ++ more)).prepend es
  | .halted es f, _ => .halted es f

@[simp] theorem resume_prepend (before : List ε) (s : Scan α ε φ) (more : List α) :
    sc.resume (s.prepend before) more = (sc.resume s more).prepend before := by
  cases s with
  | waiting es rest =>
      change (sc.scan (rest ++ more)).prepend (before ++ es) = _
      rw [resume, Scan.prepend_prepend]
  | halted es f => rfl

/-- Scanning a longer input continues the scan of its prefix. -/
theorem scan_append (input more : List α) :
    sc.scan (input ++ more) = sc.resume (sc.scan input) more := by
  induction input using sc.scan_induction with
  | wait input hlook => simp [scan_wait hlook, resume]
  | halt input f hlook =>
      have hmore : sc.look (input ++ more) = .halt f := by
        rw [sc.stable (by simp [hlook]), hlook]
      rw [scan_halt hmore, scan_halt hlook, resume]
  | take input count event hlook ih =>
      have hmore : sc.look (input ++ more) = .take count event := by
        rw [sc.stable (by simp [hlook]), hlook]
      have hle := sc.take_le hlook
      rw [scan_take hmore, scan_take hlook, resume_prepend, ← ih,
        List.drop_append_of_le_length hle]

theorem events_append (input more : List α) :
    (sc.scan input).events <+: (sc.scan (input ++ more)).events := by
  rw [scan_append]
  cases sc.scan input with
  | waiting es rest =>
      rw [resume, Scan.events_prepend]
      exact List.prefix_append es _
  | halted es f => exact List.prefix_rfl

/-- A scanner that decides alike wherever another one does not halt scans alike. -/
theorem scan_congr {sc' : Scanner α ε φ}
    (hlook : ∀ input, (∀ f, sc.look input ≠ .halt f) → sc'.look input = sc.look input)
    {input : List α} (hfault : (sc.scan input).fault = none) : sc'.scan input = sc.scan input := by
  induction input using sc.scan_induction with
  | wait input hwait =>
      rw [scan_wait hwait, scan_wait (by rw [hlook input (by simp [hwait]), hwait])]
  | halt input f hhalt =>
      rw [scan_halt hhalt] at hfault
      cases hfault
  | take input count event htake ih =>
      rw [scan_take htake, Scan.fault_prepend] at hfault
      rw [scan_take htake, scan_take (by rw [hlook input (by simp [htake]), htake]), ih hfault]

theorem events_congr {sc' : Scanner α ε φ}
    (hlook : ∀ input, (∀ f, sc.look input ≠ .halt f) → sc'.look input = sc.look input)
    (input : List α) : (sc.scan input).events <+: (sc'.scan input).events := by
  induction input using sc.scan_induction with
  | wait input hwait =>
      rw [scan_wait hwait]
      exact List.nil_prefix
  | halt input f hhalt =>
      rw [scan_halt hhalt]
      exact List.nil_prefix
  | take input count event htake ih =>
      have htake' : sc'.look input = .take count event := by
        rw [hlook input (by simp [htake]), htake]
      rw [scan_take htake, scan_take htake', Scan.events_prepend, Scan.events_prepend]
      exact (List.prefix_append_right_inj _).mpr ih

theorem look_rest {input rest : List α} {es : List ε}
    (h : sc.scan input = .waiting es rest) : sc.look rest = .wait := by
  induction input using sc.scan_induction generalizing es with
  | wait input hlook =>
      rw [scan_wait hlook] at h
      cases h
      exact hlook
  | halt input f hlook =>
      rw [scan_halt hlook] at h
      cases h
  | take input count event hlook ih =>
      rw [scan_take hlook] at h
      cases hs : sc.scan (input.drop count) with
      | waiting es' rest' =>
          rw [hs] at h
          cases h
          exact ih hs
      | halted es' f =>
          rw [hs] at h
          cases h

theorem look_of_short {input more : List α} {count : Nat} {event : Option ε}
    (hlook : sc.look (input ++ more) = .take count event) (hshort : input.length < count) :
    sc.look input = .wait := by
  by_contra hwait
  rw [sc.stable hwait] at hlook
  have hle := sc.take_le hlook
  omega

inductive Stands (sc : Scanner α ε φ) (input : List α) : List α → Prop
  | start : Stands sc input input
  | next {at' : List α} {count : Nat} {event : Option ε} (hstands : Stands sc input at')
      (hlook : sc.look at' = .take count event) : Stands sc input (at'.drop count)

theorem Stands.head {input suffix : List α} {count : Nat} {event : Option ε}
    (hlook : sc.look input = .take count event) (h : sc.Stands (input.drop count) suffix) :
    sc.Stands input suffix := by
  induction h with
  | start => exact .next .start hlook
  | next _ hlook' ih => exact .next ih hlook'

theorem Stands.congr {sc' : Scanner α ε φ}
    (hlook : ∀ input, (∀ f, sc.look input ≠ .halt f) → sc'.look input = sc.look input)
    {input suffix : List α} (h : sc.Stands input suffix) : sc'.Stands input suffix := by
  induction h with
  | start => exact .start
  | @next at' _ _ _ htake ih =>
      rw [← hlook at' (by simp [htake])] at htake
      exact .next ih htake

theorem Stands.trans {input middle suffix : List α} (h : sc.Stands input middle)
    (h' : sc.Stands middle suffix) : sc.Stands input suffix := by
  induction h' with
  | start => exact h
  | next _ hlook ih => exact .next ih hlook

theorem Stands.append {input suffix : List α} (h : sc.Stands input suffix) (more : List α) :
    sc.Stands (input ++ more) (suffix ++ more) := by
  induction h with
  | start => exact .start
  | @next at' count event _ hlook ih =>
      have hmore : sc.look (at' ++ more) = .take count event := by
        rw [sc.stable (by simp [hlook]), hlook]
      rw [← List.drop_append_of_le_length (sc.take_le hlook)]
      exact .next ih hmore

theorem stands_rest {input rest : List α} {es : List ε} (h : sc.scan input = .waiting es rest) :
    sc.Stands input rest := by
  induction input using sc.scan_induction generalizing es with
  | wait input hlook =>
      rw [scan_wait hlook] at h
      cases h
      exact .start
  | halt input f hlook =>
      rw [scan_halt hlook] at h
      cases h
  | take input count event hlook ih =>
      rw [scan_take hlook] at h
      cases hs : sc.scan (input.drop count) with
      | waiting es' rest' =>
          rw [hs] at h
          cases h
          exact (ih hs).head hlook
      | halted es' f =>
          rw [hs] at h
          cases h

theorem Stands.events {input suffix : List α} (h : sc.Stands input suffix) :
    (sc.scan suffix).events <:+ (sc.scan input).events := by
  induction h with
  | start => exact List.suffix_rfl
  | next _ hlook ih =>
      rw [scan_take hlook, Scan.events_prepend] at ih
      exact (List.suffix_append _ _).trans ih

theorem scan_fault_iff {input : List α} {f : φ} :
    (sc.scan input).fault = some f ↔
      ∃ suffix, sc.Stands input suffix ∧ sc.look suffix = .halt f := by
  constructor
  · intro h
    induction input using sc.scan_induction with
    | wait input hlook => simp [scan_wait hlook, Scan.fault] at h
    | halt input g hlook =>
        rw [scan_halt hlook] at h
        cases h
        exact ⟨input, .start, hlook⟩
    | take input count event hlook ih =>
        rw [scan_take hlook, Scan.fault_prepend] at h
        obtain ⟨suffix, hstands, hhalt⟩ := ih h
        exact ⟨suffix, hstands.head hlook, hhalt⟩
  · rintro ⟨suffix, hstands, hhalt⟩
    -- The scan of any standing point faults as the scan of the whole does.
    have hsame : (sc.scan suffix).fault = (sc.scan input).fault := by
      clear hhalt
      induction hstands with
      | start => rfl
      | next _ hlook ih => rw [← ih, scan_take hlook, Scan.fault_prepend]
    rw [← hsame, scan_halt hhalt]
    rfl

structure Taken (ε : Type v) where
  start : Nat
  count : Nat
  event : Option ε

def Taken.stop (t : Taken ε) : Nat := t.start + t.count

/-- The takes of a scan whose input starts at `pos`, and the rest it waits on. -/
inductive Takes (sc : Scanner α ε φ) : Nat → List α → List (Taken ε) → List α → Prop
  | wait {pos : Nat} {input : List α} (hlook : sc.look input = .wait) : Takes sc pos input [] input
  | take {pos count : Nat} {input rest : List α} {event : Option ε} {taken : List (Taken ε)}
      (hlook : sc.look input = .take count event)
      (htakes : Takes sc (pos + count) (input.drop count) taken rest) :
      Takes sc pos input (⟨pos, count, event⟩ :: taken) rest

theorem exists_takes {input rest : List α} {es : List ε} (h : sc.scan input = .waiting es rest)
    (pos : Nat) : ∃ taken, sc.Takes pos input taken rest ∧ taken.filterMap Taken.event = es := by
  induction input using sc.scan_induction generalizing pos es with
  | wait input hlook =>
      rw [scan_wait hlook] at h
      cases h
      exact ⟨[], .wait hlook, rfl⟩
  | halt input f hlook =>
      rw [scan_halt hlook] at h
      cases h
  | take input count event hlook ih =>
      rw [scan_take hlook] at h
      cases hs : sc.scan (input.drop count) with
      | waiting es' rest' =>
          rw [hs] at h
          cases h
          obtain ⟨taken, htakes, hevents⟩ := ih hs (pos + count)
          refine ⟨_, .take hlook htakes, ?_⟩
          rw [List.filterMap_cons, hevents]
          cases event <;> rfl
      | halted es' f =>
          rw [hs] at h
          cases h

namespace Takes

variable {pos : Nat} {input rest : List α} {taken : List (Taken ε)}

theorem start_le (h : sc.Takes pos input taken rest) : ∀ t ∈ taken, pos ≤ t.start := by
  induction h with
  | wait => exact nofun
  | take hlook htakes ih =>
      intro t ht
      cases ht with
      | head => exact Nat.le_refl _
      | tail _ ht => exact (Nat.le_add_right _ _).trans (ih t ht)

theorem disjoint (h : sc.Takes pos input taken rest) :
    taken.Pairwise fun t u => t.stop ≤ u.start := by
  induction h with
  | wait => exact .nil
  | take hlook htakes ih => exact .cons htakes.start_le ih

theorem look (h : sc.Takes pos input taken rest) :
    ∀ t ∈ taken, sc.look (input.drop (t.start - pos)) = .take t.count t.event := by
  induction h with
  | wait => exact nofun
  | @take pos count input rest event taken hlook htakes ih =>
      intro t ht
      cases ht with
      | head =>
          rw [Nat.sub_self]
          exact hlook
      | tail _ ht =>
          have hle := htakes.start_le t ht
          have hplace : t.start - pos = count + (t.start - (pos + count)) := by omega
          rw [hplace, ← List.drop_drop]
          exact ih t ht

theorem covers (h : sc.Takes pos input taken rest) {i : Nat} (hpos : pos ≤ i)
    (hi : i + rest.length < pos + input.length) : ∃ t ∈ taken, t.start ≤ i ∧ i < t.stop := by
  induction h with
  | wait => omega
  | @take pos count input rest event taken hlook htakes ih =>
      by_cases hhere : i < pos + count
      · exact ⟨_, List.mem_cons_self, hpos, hhere⟩
      · have hle := sc.take_le hlook
        rw [List.length_drop] at ih
        obtain ⟨t, ht, hcovers⟩ := ih (by omega) (by omega)
        exact ⟨t, List.mem_cons_of_mem _ ht, hcovers⟩

end Takes

end Scanner

end CccUpgrade.Lib
