import CccUpgrade.Server.Steps

/-! Who owns which descriptor. A run is guarded when no connection is registered into a
slot whose receive thread still runs, and `thread_create` never fails. In a guarded run
every thread works on its own connection only. -/
namespace CccUpgrade

open Lib ConnectTable

variable {φ : Type}

/-- The slot for the next connection has no receive thread, and one can be created. -/
def Server.Fresh (s : Server φ) : Action → Prop
  | .accept _ _ _ threadCreated =>
      threadCreated = true ∧ ∀ c t, s.threads c = some t → t.slot ≠ newSlot s.conns
  | _ => True

def Phase.Serves (c : Nat) (slot : Fin clientCountMax) (valid : Bool) : Phase → Prop
  | .loop => True
  | .blocked src => (valid = true → src = some c) ∧ ∀ d, src = some d → d = c
  | .callback cb => cb.src = c ∧ cb.handle = slot.val

/-- The slots, the open descriptors and the threads belong together. -/
structure Server.Paired (s : Server φ) : Prop where
  ok : s.conns.Ok
  pos : ∀ n c, s.fds n = some c → 0 < n
  known : ∀ n c, s.fds n = some c → c < s.accepted
  inj : ∀ n m c, s.fds n = some c → s.fds m = some c → n = m
  threads : ∀ c t, s.threads c = some t → c < s.accepted
  unique : ∀ c d t u, s.threads c = some t → s.threads d = some u → t.slot = u.slot → c = d
  held : ∀ i, (s.conns i).bValid = true →
    ∃ c t, s.threads c = some t ∧ t.slot = i ∧ s.fds (s.conns i).sock = some c
  opened : ∀ n c, s.fds n = some c → ∃ i, (s.conns i).bValid = true ∧ (s.conns i).sock = n
  serves : ∀ c t, s.threads c = some t → t.phase.Serves c t.slot (s.conns t.slot).bValid

namespace Server

namespace Paired

variable {s : Server φ}

theorem init (machine : Machine φ) : (Server.init machine).Paired where
  ok := .init _
  pos _ _ h := by cases h
  known _ _ h := by cases h
  inj _ _ _ h := by cases h
  threads _ _ h := by cases h
  unique _ _ _ _ h := by cases h
  held _ h := by cases h
  opened _ _ h := by cases h
  serves _ _ h := by cases h

theorem held_by (h : s.Paired) {c : Nat} {t : Thread} (ht : s.threads c = some t)
    (hvalid : (s.conns t.slot).bValid = true) : s.fds (s.conns t.slot).sock = some c := by
  obtain ⟨d, u, hu, hslot, hfd⟩ := h.held t.slot hvalid
  rwa [h.unique c d t u ht hu hslot.symm]

theorem closeSlot_cases (h : s.Paired) (slot : Fin clientCountMax) (cause : Cause) :
    ((s.conns slot).bValid = false ∧
      s.closeSlot slot cause = { s with conns := s.conns.set slot (s.conns slot).closed }) ∨
    (s.conns slot).bValid = true ∧ ∃ c t, s.threads c = some t ∧ t.slot = slot ∧
      s.fds (s.conns slot).sock = some c ∧ s.closeSlot slot cause = { s with
        conns := s.conns.set slot (s.conns slot).closed
        fds := Function.update s.fds (s.conns slot).sock none
        log := .closed c cause :: s.log } := by
  cases hvalid : (s.conns slot).bValid with
  | false =>
      left
      refine ⟨rfl, ?_⟩
      have hsock : tcpClose (s.conns slot).sock = none := by
        rw [h.ok.sock slot hvalid]
        decide
      rw [closeSlot, hsock]
      rfl
  | true =>
      right
      obtain ⟨c, t, ht, hslot, hfd⟩ := h.held slot hvalid
      refine ⟨rfl, c, t, ht, hslot, hfd, ?_⟩
      rw [closeSlot, tcpClose_of_pos (h.pos _ _ hfd)]
      simp only [Server.close, hfd]

theorem closeSlot_fds (h : s.Paired) (slot : Fin clientCountMax) (cause : Cause) (n : Int) (c : Nat) :
    (s.closeSlot slot cause).fds n = some c ↔ s.fds n = some c ∧ n ≠ (s.conns slot).sock := by
  rcases h.closeSlot_cases slot cause with ⟨hvalid, heq⟩ | ⟨-, d, t, -, -, -, heq⟩ <;> rw [heq]
  · refine ⟨fun hfd => ⟨hfd, ?_⟩, And.left⟩
    rintro rfl
    have := h.pos _ _ hfd
    rw [h.ok.sock slot hvalid] at this
    cases this
  · by_cases hn : n = (s.conns slot).sock
    · simp [hn]
    · simp [hn]

theorem sock_ne (h : s.Paired) {i j : Fin clientCountMax} (hi : (s.conns i).bValid = true)
    (hj : (s.conns j).bValid = true) (hne : i ≠ j) : (s.conns i).sock ≠ (s.conns j).sock := by
  intro heq
  obtain ⟨c, t, ht, hti, hc⟩ := h.held i hi
  obtain ⟨d, u, hu, huj, hd⟩ := h.held j hj
  rw [heq, hd] at hc
  cases hc
  rw [ht] at hu
  cases hu
  exact hne (hti.symm.trans huj)

theorem closeSlot (h : s.Paired) (slot : Fin clientCountMax) (cause : Cause) :
    (s.closeSlot slot cause).Paired := by
  have hfds := h.closeSlot_fds slot cause
  have hslot : (s.closeSlot slot cause).conns slot = (s.conns slot).closed := by
    rw [closeSlot_conns, set_self]
  have hother : ∀ i, i ≠ slot → (s.closeSlot slot cause).conns i = s.conns i := by
    intro i hi
    rw [closeSlot_conns, set_of_ne _ hi]
  have hvalid : ∀ i, ((s.closeSlot slot cause).conns i).bValid = true → i ≠ slot := by
    rintro i hi rfl
    rw [hslot] at hi
    cases hi
  have hthreads := s.closeSlot_threads slot cause
  have haccepted := s.closeSlot_accepted slot cause
  constructor
  case ok =>
    rw [closeSlot_conns]
    exact h.ok.set_of_not_login rfl (fun _ => rfl) (h.ok.ix slot)
  case pos =>
    intro n c hn
    exact h.pos n c ((hfds n c).mp hn).1
  case known =>
    intro n c hn
    rw [haccepted]
    exact h.known n c ((hfds n c).mp hn).1
  case inj =>
    intro n m c hn hm
    exact h.inj n m c ((hfds n c).mp hn).1 ((hfds m c).mp hm).1
  case threads =>
    rw [hthreads, haccepted]
    exact h.threads
  case unique =>
    rw [hthreads]
    exact h.unique
  case held =>
    intro i hi
    have hne := hvalid i hi
    rw [hother i hne] at hi ⊢
    obtain ⟨c, t, ht, hti, hfd⟩ := h.held i hi
    refine ⟨c, t, hthreads ▸ ht, hti, (hfds _ c).mpr ⟨hfd, ?_⟩⟩
    intro heq
    -- The closed slot would hold the same connection, so it would have the same thread.
    cases hclosed : (s.conns slot).bValid with
    | true => exact h.sock_ne hi hclosed hne heq
    | false =>
        have := h.pos _ _ hfd
        rw [heq, h.ok.sock slot hclosed] at this
        cases this
  case opened =>
    intro n c hn
    obtain ⟨hfd, hne⟩ := (hfds n c).mp hn
    obtain ⟨i, hi, hsock⟩ := h.opened n c hfd
    have : i ≠ slot := by
      rintro rfl
      exact hne hsock.symm
    exact ⟨i, by rwa [hother i this], by rwa [hother i this]⟩
  case serves =>
    intro c t ht
    rw [hthreads] at ht
    have hserves := h.serves c t ht
    by_cases hne : t.slot = slot
    · rw [hne, hslot]
      cases hphase : t.phase with
      | loop => trivial
      | blocked src =>
          rw [hphase] at hserves
          refine ⟨fun hclosed => ?_, hserves.2⟩
          cases hclosed
      | callback cb =>
          rw [hphase, hne] at hserves
          exact hserves
    · rwa [hother _ hne]

theorem advance (h : s.Paired) {c : Nat} {t : Thread} (ht : s.threads c = some t) (phase : Phase)
    (mainBuf : List UInt8) (hserves : phase.Serves c t.slot (s.conns t.slot).bValid) :
    (s.setThread c (some ⟨t.slot, phase, mainBuf⟩)).Paired := by
  have hold : ∀ d u, (s.setThread c (some ⟨t.slot, phase, mainBuf⟩)).threads d = some u →
      ∃ u', s.threads d = some u' ∧ u.slot = u'.slot ∧
        u.phase.Serves d u.slot (s.conns u.slot).bValid := by
    intro d u hu
    rcases s.setThread_threads.mp hu with ⟨rfl, ⟨⟩⟩ | ⟨-, hu⟩
    · exact ⟨t, ht, rfl, hserves⟩
    · exact ⟨u, hu, rfl, h.serves d u hu⟩
  refine { h with threads := ?threads, unique := ?unique, held := ?held, serves := ?serves }
  case threads =>
    intro d u hu
    obtain ⟨u', hu', -, -⟩ := hold d u hu
    exact h.threads d u' hu'
  case unique =>
    intro d e u v hu hv hsame
    obtain ⟨u', hu', hus, -⟩ := hold d u hu
    obtain ⟨v', hv', hvs, -⟩ := hold e v hv
    apply h.unique d e u' v' hu' hv'
    rw [← hus, hsame, hvs]
  case held =>
    intro i hi
    obtain ⟨d, u, hu, hui, hfd⟩ := h.held i hi
    by_cases hd : d = c
    · subst hd
      rw [ht] at hu
      cases hu
      exact ⟨d, _, s.setThread_threads.mpr (.inl ⟨rfl, rfl⟩), hui, hfd⟩
    · exact ⟨d, u, s.setThread_threads.mpr (.inr ⟨hd, hu⟩), hui, hfd⟩
  case serves =>
    intro d u hu
    obtain ⟨-, -, -, hu⟩ := hold d u hu
    exact hu

theorem endThread (h : s.Paired) {c : Nat} {t : Thread} (ht : s.threads c = some t)
    (hvalid : (s.conns t.slot).bValid = false) : (s.setThread c none).Paired := by
  have hold : ∀ d u, (s.setThread c none).threads d = some u → s.threads d = some u := by
    intro d u hu
    rcases s.setThread_threads.mp hu with ⟨-, ⟨⟩⟩ | ⟨-, hold⟩
    exact hold
  refine { h with threads := ?threads, unique := ?unique, held := ?held, serves := ?serves }
  case threads => exact fun d u hu => h.threads d u (hold d u hu)
  case unique => exact fun d e u v hu hv => h.unique d e u v (hold d u hu) (hold e v hv)
  case held =>
    intro i hi
    obtain ⟨d, u, hu, hui, hfd⟩ := h.held i hi
    have hd : d ≠ c := by
      rintro rfl
      rw [ht] at hu
      cases hu
      change (s.conns i).bValid = true at hi
      rw [← hui, hvalid] at hi
      cases hi
    exact ⟨d, u, s.setThread_threads.mpr (.inr ⟨hd, hu⟩), hui, hfd⟩
  case serves => exact fun d u hu => h.serves d u (hold d u hu)

theorem noted (h : s.Paired) (machine : Machine φ) (log : List Event) (halted : Option Fault) :
    ({ s with machine := machine, log := log, halted := halted }).Paired where
  ok := h.ok
  pos := h.pos
  known := h.known
  inj := h.inj
  threads := h.threads
  unique := h.unique
  held := h.held
  opened := h.opened
  serves := h.serves

theorem setConns (h : s.Paired) {conns : ConnectTable} (hok : conns.Ok)
    (hvalid : ∀ i, (conns i).bValid = (s.conns i).bValid)
    (hsock : ∀ i, (conns i).sock = (s.conns i).sock) : ({ s with conns := conns }).Paired := by
  constructor
  case ok => exact hok
  case pos => exact h.pos
  case known => exact h.known
  case inj => exact h.inj
  case threads => exact h.threads
  case unique => exact h.unique
  case held =>
    intro i hi
    dsimp only at hi ⊢
    rw [hsock]
    exact h.held i (hvalid i ▸ hi)
  case opened =>
    intro n c hn
    obtain ⟨i, hi, hn⟩ := h.opened n c hn
    exact ⟨i, (hvalid i).trans hi, (hsock i).trans hn⟩
  case serves =>
    intro c t ht
    dsimp only
    rw [hvalid]
    exact h.serves c t ht

theorem setLogin (h : s.Paired) {slot : Fin clientCountMax} (hslot : (s.conns slot).bValid = true)
    (cause : Cause) :
    ({ s.closeSlot (other slot) cause with conns := loggedIn s.conns slot }).Paired := by
  apply (h.closeSlot (other slot) cause).setConns (h.ok.loggedIn hslot) <;> intro i <;>
    rw [closeSlot_conns] <;> by_cases hi : i = slot
  · rw [hi, loggedIn_self, set_of_ne _ (other_ne slot).symm]
  · rw [loggedIn_of_ne _ hi, eq_other hi, set_self]
  · rw [hi, loggedIn_self, set_of_ne _ (other_ne slot).symm]
  · rw [loggedIn_of_ne _ hi, eq_other hi, set_self]

theorem reject (h : s.Paired) : (s.reject s.conns).Paired where
  ok := h.ok
  pos := h.pos
  known n c hn := Nat.lt_succ_of_lt (h.known n c hn)
  inj := h.inj
  threads c t ht := Nat.lt_succ_of_lt (h.threads c t ht)
  unique := h.unique
  held := h.held
  opened := h.opened
  serves := h.serves

theorem vacant (h : s.Paired) {slot : Fin clientCountMax}
    (hfree : ∀ c t, s.threads c = some t → t.slot ≠ slot) : (s.conns slot).bValid = false := by
  by_contra hvalid
  obtain ⟨c, t, ht, hslot, -⟩ := h.held slot (by simpa using hvalid)
  exact hfree c t ht hslot

theorem register (h : s.Paired) {sock : Int} (hsock : 0 < sock) (hfd : s.fds sock = none)
    (hfree : ∀ c t, s.threads c = some t → t.slot ≠ newSlot s.conns) (addr : List UInt8)
    (ipPort : Int) : (s.register sock addr ipPort).Paired := by
  constructor
  case ok =>
    exact h.ok.set_of_not_login h.ok.newSlot_bLogin (by simp [ConnectInfo.connected])
      (h.ok.ix (newSlot s.conns))
  case pos =>
    intro n c hn
    rcases (s.register_fds ..).mp hn with ⟨rfl, -⟩ | ⟨-, hn⟩
    · exact hsock
    · exact h.pos n c hn
  case known =>
    intro n c hn
    rw [register_accepted]
    rcases (s.register_fds ..).mp hn with ⟨-, rfl⟩ | ⟨-, hn⟩
    · exact Nat.lt_succ_self _
    · exact Nat.lt_succ_of_lt (h.known n c hn)
  case inj =>
    intro n m c hfdn hfdm
    rcases (s.register_fds ..).mp hfdn with ⟨rfl, rfl⟩ | ⟨-, hn⟩ <;>
      rcases (s.register_fds ..).mp hfdm with ⟨rfl, hc⟩ | ⟨-, hm⟩
    · rfl
    · exact absurd (h.known m _ hm) (Nat.lt_irrefl _)
    · exact absurd (hc ▸ h.known n c hn) (Nat.lt_irrefl _)
    · exact h.inj n m c hn hm
  case threads =>
    intro c t ht
    rw [register_accepted]
    rcases (s.register_threads ..).mp ht with ⟨rfl, -⟩ | ⟨-, ht⟩
    · exact Nat.lt_succ_self _
    · exact Nat.lt_succ_of_lt (h.threads c t ht)
  case unique =>
    intro c d t u ht hu hsame
    rcases (s.register_threads ..).mp ht with ⟨rfl, ⟨⟩⟩ | ⟨-, ht⟩ <;>
      rcases (s.register_threads ..).mp hu with ⟨rfl, ⟨⟩⟩ | ⟨-, hu⟩
    · rfl
    · exact absurd hsame.symm (hfree d u hu)
    · exact absurd hsame (hfree c t ht)
    · exact h.unique c d t u ht hu hsame
  case held =>
    intro i hi
    rw [register_conns] at hi ⊢
    by_cases hslot : i = newSlot s.conns
    · refine ⟨s.accepted, _, (s.register_threads ..).mpr (.inl ⟨rfl, rfl⟩), hslot.symm, ?_⟩
      rw [hslot, seated_newSlot]
      exact (s.register_fds ..).mpr (.inl ⟨rfl, rfl⟩)
    · rw [seated_of_ne _ _ _ _ hslot] at hi ⊢
      obtain ⟨c, t, ht, hti, hc⟩ := h.held i hi
      have hne : c ≠ s.accepted := (h.threads c t ht).ne
      refine ⟨c, t, (s.register_threads ..).mpr (.inr ⟨hne, ht⟩), hti, ?_⟩
      refine (s.register_fds ..).mpr (.inr ⟨fun heq => ?_, hc⟩)
      rw [heq, hfd] at hc
      cases hc
  case opened =>
    intro n c hn
    rw [register_conns]
    rcases (s.register_fds ..).mp hn with ⟨rfl, -⟩ | ⟨-, hn⟩
    · exact ⟨newSlot s.conns, by rw [seated_newSlot]; rfl, by rw [seated_newSlot]; rfl⟩
    · obtain ⟨i, hi, hin⟩ := h.opened n c hn
      have hne : i ≠ newSlot s.conns := by
        rintro rfl
        rw [h.vacant hfree] at hi
        cases hi
      rw [← seated_of_ne s sock addr ipPort hne] at hi hin
      exact ⟨i, hi, hin⟩
  case serves =>
    intro c t ht
    rcases (s.register_threads ..).mp ht with ⟨-, ⟨⟩⟩ | ⟨-, ht⟩
    · trivial
    · rw [register_conns, seated_of_ne _ _ _ _ (hfree c t ht)]
      exact h.serves c t ht

theorem serves_blocked (h : s.Paired) {c : Nat} {t : Thread} (ht : s.threads c = some t) :
    (Phase.blocked (s.fds (s.conns t.slot).sock)).Serves c t.slot (s.conns t.slot).bValid := by
  refine ⟨h.held_by ht, fun d hd => ?_⟩
  cases hvalid : (s.conns t.slot).bValid with
  | true =>
      rw [h.held_by ht hvalid] at hd
      cases hd
      rfl
  | false =>
      have := h.pos _ _ hd
      rw [h.ok.sock _ hvalid] at this
      cases this

theorem serves_callback (h : s.Paired) {c : Nat} {t : Thread} (ht : s.threads c = some t)
    {cb : Callback} (hphase : t.phase = .callback cb) : cb.src = c ∧ cb.handle = t.slot.val := by
  have := h.serves c t ht
  rwa [hphase] at this

theorem setCallback (h : s.Paired) {c : Nat} {t : Thread} (ht : s.threads c = some t)
    {cb : Callback} (hphase : t.phase = .callback cb) (todo : List PDU) (effects : List Effect) :
    (s.setCallback c t { cb with todo := todo, effects := effects }).Paired := by
  have hserves := h.serves_callback ht hphase
  exact h.advance ht _ _ hserves

theorem slot_eq (h : s.Paired) {i slot : Fin clientCountMax} (hslot : (s.conns i).ix = slot.val) :
    slot = i := by
  have hix := h.ok.ix i
  omega

theorem moved (h : s.Paired) {libc : Libc φ} {a : Action} {s' : Server φ} (hfresh : s.Fresh a)
    (hmoved : s.Moved libc a s') : s'.Paired := by
  cases hmoved with
  | registered hsock hfd => exact h.register hsock hfd hfresh.2 _ _
  | rejected => exact h.reject
  | unstarted =>
      have := hfresh.1
      cases this
  | recv ht hphase => exact h.advance ht _ _ (h.serves_blocked ht)
  | chunk ht hphase =>
      have hserves := h.serves _ _ ht
      rw [hphase] at hserves
      exact (h.advance ht (.callback _) _ ⟨hserves.2 _ rfl, h.ok.ix _⟩).noted _ _ _
  | process ht hphase heffects htodo hrun => exact (h.setCallback ht hphase _ _).noted _ _ _
  | processFault => exact h.noted _ _ _
  | setLogin ht hphase heffects hslot hvalid =>
      apply (h.setLogin hvalid _).setCallback _ hphase
      rwa [closeSlot_threads]
  | reply ht hphase heffects hslot hvalid hfd => exact (h.setCallback ht hphase _ _).noted _ _ _
  | effect ht hphase heffects => exact h.setCallback ht hphase _ _
  | done ht hphase => exact h.advance ht .loop _ trivial
  | endOfStream ht hphase hslot =>
      obtain rfl := h.slot_eq hslot
      apply (h.closeSlot _ _).endThread
      · rwa [closeSlot_threads]
      · rw [closeSlot_conns, set_self]
        rfl
  | outOfRange ht hphase hslot =>
      rw [h.ok.ix, slot?_slot] at hslot
      cases hslot
  | halted => exact h.noted _ _ _

end Paired

/-- The invariant of the slots, descriptors and threads holds throughout a guarded run. -/
theorem paired_of_fresh {libc : Libc φ} {machine : Machine φ} {s : Server φ}
    (h : (server libc machine).ReachableBy Fresh s) : s.Paired := by
  apply h.invariant (.init machine)
  intro s a s' _ hs hfresh hstep
  exact hs.moved hfresh (step_moved hstep)

end Server

end CccUpgrade
