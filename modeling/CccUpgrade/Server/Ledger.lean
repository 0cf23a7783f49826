import CccUpgrade.Network.ReceiveLoop
import CccUpgrade.Server.Ownership

/-! What the log of a run says about its connections: which have been closed, why, and
where the replies went. -/
namespace CccUpgrade

open Lib ConnectTable

variable {φ : Type}

def Event.closes : Event → Option Nat
  | .closed conn _ => some conn
  | _ => none

def Cause.Fits (c : Nat) (registered : Prop) : Cause → Prop
  | .endOfStream src => src = some c
  | .login src => src ≠ c
  | .rejected => ¬registered

structure Ledger (fds : Int → Option Nat) (accepted : Nat) (log : List Event) : Prop where
  registered : ∀ c, .registered c ∈ log → c < accepted
  closed : ∀ c cause, .closed c cause ∈ log → c < accepted
  shut : ∀ c cause, .closed c cause ∈ log → ∀ n, fds n ≠ some c
  accounted : ∀ c, .registered c ∈ log → (∃ n, fds n = some c) ∨ ∃ cause, .closed c cause ∈ log
  once : (log.filterMap Event.closes).Nodup
  fits : ∀ c cause, .closed c cause ∈ log → cause.Fits c (.registered c ∈ log)
  replied : ∀ src to' bytes, .replied src to' bytes ∈ log → to' = src

namespace Ledger

variable {fds : Int → Option Nat} {accepted : Nat} {log : List Event}

theorem nil : Ledger fds 0 [] where
  registered _ h := by cases h
  closed _ _ h := by cases h
  shut _ _ h := by cases h
  accounted _ h := by cases h
  once := List.nodup_nil
  fits _ _ h := by cases h
  replied _ _ _ h := by cases h

theorem note (h : Ledger fds accepted log) {e : Event} (hreg : ∀ c, e ≠ .registered c)
    (hclosed : e.closes = none) (hreply : ∀ src to' bytes, e = .replied src to' bytes → to' = src) :
    Ledger fds accepted (e :: log) := by
  have hregs : ∀ c, .registered c ∈ e :: log ↔ .registered c ∈ log := by
    intro c
    simp [(hreg c).symm]
  have hcloses : ∀ c cause, .closed c cause ∈ e :: log ↔ .closed c cause ∈ log := by
    intro c cause
    have : .closed c cause ≠ e := by
      rintro rfl
      cases hclosed
    simp [this]
  constructor
  case registered => simpa only [hregs] using h.registered
  case closed => simpa only [hcloses] using h.closed
  case shut => simpa only [hcloses] using h.shut
  case accounted => simpa only [hregs, hcloses] using h.accounted
  case once => simpa [hclosed] using h.once
  case fits => simpa only [hregs, hcloses] using h.fits
  case replied =>
    intro src to' bytes hmem
    rcases List.mem_cons.mp hmem with heq | hmem
    · exact hreply src to' bytes heq.symm
    · exact h.replied src to' bytes hmem

theorem mem_closes {c : Nat} (h : c ∈ log.filterMap Event.closes) :
    ∃ cause, .closed c cause ∈ log := by
  obtain ⟨e, he, hc⟩ := List.mem_filterMap.mp h
  cases e with
  | closed conn cause =>
      cases hc
      exact ⟨cause, he⟩
  | registered | handed | processed | replied => cases hc

theorem mem_closed_cons {c d : Nat} {cause cause' : Cause} :
    .closed c cause ∈ Event.closed d cause' :: log ↔
      c = d ∧ cause = cause' ∨ .closed c cause ∈ log := by
  simp

theorem close (h : Ledger fds accepted log) {n : Int} {c : Nat} (hfd : fds n = some c)
    (hknown : c < accepted) (hinj : ∀ m, fds m = some c → m = n) {cause : Cause}
    (hfits : cause.Fits c (.registered c ∈ log)) :
    Ledger (Function.update fds n none) accepted (.closed c cause :: log) := by
  have hregs : ∀ d, .registered d ∈ Event.closed c cause :: log ↔ .registered d ∈ log := by simp
  have hopen : ∀ m d, Function.update fds n none m = some d → m ≠ n ∧ fds m = some d := by
    intro m d hm
    rcases update_eq_some.mp hm with ⟨-, hm⟩ | hm
    · cases hm
    · exact hm
  constructor
  case registered => simpa only [hregs] using h.registered
  case closed =>
    intro d cause' hmem
    rcases mem_closed_cons.mp hmem with ⟨rfl, -⟩ | hmem
    · exact hknown
    · exact h.closed d cause' hmem
  case shut =>
    intro d cause' hmem m hm
    obtain ⟨hmn, hm⟩ := hopen m d hm
    rcases mem_closed_cons.mp hmem with ⟨rfl, -⟩ | hmem
    · exact hmn (hinj m hm)
    · exact h.shut d cause' hmem m hm
  case accounted =>
    intro d hmem
    rcases h.accounted d ((hregs d).mp hmem) with ⟨m, hm⟩ | ⟨cause', hd⟩
    · by_cases hmn : m = n
      · rw [hmn, hfd] at hm
        cases hm
        exact .inr ⟨cause, List.mem_cons_self⟩
      · exact .inl ⟨m, by simpa [hmn] using hm⟩
    · exact .inr ⟨cause', List.mem_cons_of_mem _ hd⟩
  case once =>
    refine List.nodup_cons.mpr ⟨fun hmem => ?_, h.once⟩
    obtain ⟨cause', hd⟩ := mem_closes hmem
    exact h.shut c cause' hd n hfd
  case fits =>
    intro d cause' hmem
    simp only [hregs]
    rcases mem_closed_cons.mp hmem with ⟨rfl, rfl⟩ | hmem
    · exact hfits
    · exact h.fits d cause' hmem
  case replied => simpa using h.replied

theorem register (h : Ledger fds accepted log) (hknown : ∀ n c, fds n = some c → c < accepted)
    {sock : Int} (hfd : fds sock = none) :
    Ledger (Function.update fds sock (some accepted)) (accepted + 1)
      (.registered accepted :: log) := by
  have hcloses : ∀ c cause,
      .closed c cause ∈ Event.registered accepted :: log ↔ .closed c cause ∈ log := by simp
  have hregs : ∀ c, .registered c ∈ Event.registered accepted :: log ↔
      c = accepted ∨ .registered c ∈ log := by simp
  constructor
  case registered =>
    intro c hc
    rcases (hregs c).mp hc with rfl | hc
    · exact Nat.lt_succ_self _
    · exact Nat.lt_succ_of_lt (h.registered c hc)
  case closed =>
    intro c cause hc
    exact Nat.lt_succ_of_lt (h.closed c cause ((hcloses c cause).mp hc))
  case shut =>
    intro c cause hc n hn
    rw [hcloses] at hc
    rcases update_eq_some.mp hn with ⟨-, hn⟩ | ⟨-, hn⟩
    · cases hn
      exact Nat.lt_irrefl _ (h.closed _ cause hc)
    · exact h.shut c cause hc n hn
  case accounted =>
    intro c hc
    rcases (hregs c).mp hc with rfl | hc
    · exact .inl ⟨sock, Function.update_self ..⟩
    · rcases h.accounted c hc with ⟨n, hn⟩ | ⟨cause, hd⟩
      · have hns : n ≠ sock := by
          rintro rfl
          rw [hfd] at hn
          cases hn
        exact .inl ⟨n, by simpa [hns] using hn⟩
      · exact .inr ⟨cause, (hcloses c cause).mpr hd⟩
  case once => exact h.once
  case fits =>
    intro c cause hc
    rw [hcloses] at hc
    have hne : c ≠ accepted := (h.closed c cause hc).ne
    simpa [hne] using h.fits c cause hc
  case replied => simpa using h.replied

theorem reject (h : Ledger fds accepted log) (hknown : ∀ n c, fds n = some c → c < accepted) :
    Ledger fds (accepted + 1) (.closed accepted .rejected :: log) := by
  have hregs : ∀ c, .registered c ∈ Event.closed accepted .rejected :: log ↔
      .registered c ∈ log := by simp
  constructor
  case registered =>
    intro c hc
    exact Nat.lt_succ_of_lt (h.registered c ((hregs c).mp hc))
  case closed =>
    intro c cause hc
    rcases mem_closed_cons.mp hc with ⟨rfl, -⟩ | hc
    · exact Nat.lt_succ_self _
    · exact Nat.lt_succ_of_lt (h.closed c cause hc)
  case shut =>
    intro c cause hc n hn
    rcases mem_closed_cons.mp hc with ⟨rfl, -⟩ | hc
    · exact Nat.lt_irrefl _ (hknown n _ hn)
    · exact h.shut c cause hc n hn
  case accounted =>
    intro c hc
    rcases h.accounted c ((hregs c).mp hc) with hopen | ⟨cause, hd⟩
    · exact .inl hopen
    · exact .inr ⟨cause, List.mem_cons_of_mem _ hd⟩
  case once =>
    refine List.nodup_cons.mpr ⟨fun hmem => ?_, h.once⟩
    obtain ⟨cause, hd⟩ := mem_closes hmem
    exact Nat.lt_irrefl _ (h.closed _ cause hd)
  case fits =>
    intro c cause hc
    simp only [hregs]
    rcases mem_closed_cons.mp hc with ⟨rfl, rfl⟩ | hc
    · exact fun hreg => Nat.lt_irrefl _ (h.registered _ hreg)
    · exact h.fits c cause hc
  case replied => simpa using h.replied

end Ledger

namespace Server

variable {s s' : Server φ}

theorem ledger_closeSlot (hp : s.Paired) (h : Ledger s.fds s.accepted s.log)
    (slot : Fin clientCountMax) {cause : Cause}
    (hfits : (s.conns slot).bValid = true → ∀ c t, s.threads c = some t → t.slot = slot →
      cause.Fits c (.registered c ∈ s.log)) :
    Ledger (s.closeSlot slot cause).fds (s.closeSlot slot cause).accepted
      (s.closeSlot slot cause).log := by
  rcases hp.closeSlot_cases slot cause with ⟨-, heq⟩ | ⟨hvalid, c, t, ht, hslot, hfd, heq⟩ <;> rw [heq]
  · exact h
  · apply h.close hfd (hp.known _ _ hfd)
    · intro m hm
      exact hp.inj m _ c hm hfd
    · exact hfits hvalid c t ht hslot

theorem ledger_moved (hp : s.Paired) (h : Ledger s.fds s.accepted s.log) {libc : Libc φ}
    {a : Action} (hfresh : s.Fresh a) (hmoved : s.Moved libc a s') :
    Ledger s'.fds s'.accepted s'.log := by
  cases hmoved with
  | registered hsock hfd => exact h.register hp.known hfd
  | rejected => exact h.reject hp.known
  | unstarted =>
      have := hfresh.1
      cases this
  | chunk ht hphase => exact h.note (by simp) rfl (by simp)
  | process ht hphase heffects htodo hrun => exact h.note (by simp) rfl (by simp)
  | processFault => exact h.note (by simp) rfl (by simp)
  | @setLogin thread _ _ t cb _ slot ht hphase heffects hslot hvalid =>
      obtain ⟨hsrc, hhandle⟩ := hp.serves_callback ht hphase
      apply ledger_closeSlot hp h
      intro _ c u hu hother hsame
      rw [← hsame, hsrc, ht] at hu
      cases hu
      apply other_ne slot
      omega
  | @reply thread _ _ t cb _ _ slot to' bytes ht hphase heffects hslot hvalid hfd =>
      obtain ⟨hsrc, hhandle⟩ := hp.serves_callback ht hphase
      have : slot = t.slot := by omega
      subst this
      rw [hp.held_by ht hvalid] at hfd
      cases hfd
      refine h.note (by simp) rfl ?_
      rintro src to' bytes ⟨⟩
      exact hsrc.symm
  | endOfStream ht hphase hslot =>
      obtain rfl := hp.slot_eq hslot
      apply ledger_closeSlot hp h
      intro hvalid c u hu hsame
      obtain rfl := hp.unique _ _ _ _ ht hu hsame.symm
      have hserves := hp.serves _ _ ht
      rw [hphase] at hserves
      exact hserves.1 hvalid
  | recv | effect | done | outOfRange | halted => exact h

theorem ledger_of_fresh {libc : Libc φ} {machine : Machine φ}
    (h : (server libc machine).ReachableBy Fresh s) : Ledger s.fds s.accepted s.log := by
  induction h with
  | init => exact .nil
  | step hreach hfresh hstep ih =>
      exact ledger_moved (paired_of_fresh hreach) ih hfresh (step_moved hstep)

/-- A registered connection has one owner until it is closed, and is closed once, for a
reason of its own. -/
structure Owns (s : Server φ) (c : Nat) : Prop where
  held : (∀ cause, .closed c cause ∉ s.log) →
    ∃! slot, (s.conns slot).bValid = true ∧ s.fds (s.conns slot).sock = some c
  once : (s.log.filterMap Event.closes).count c ≤ 1
  cause : ∀ cause, .closed c cause ∈ s.log →
    cause = .endOfStream (some c) ∨ ∃ src, src ≠ c ∧ cause = .login src

/-- In a guarded run the end of a stream closes that stream's connection, a login closes
another one, nothing else does, and no registered descriptor is forgotten. -/
theorem sockets_owned {libc : Libc φ} {machine : Machine φ}
    (h : (server libc machine).ReachableBy Fresh s) {c : Nat} (hreg : .registered c ∈ s.log) :
    s.Owns c := by
  have hp := paired_of_fresh h
  have hl := ledger_of_fresh h
  constructor
  case held =>
    intro hopen
    rcases hl.accounted c hreg with ⟨n, hn⟩ | ⟨cause, hc⟩
    · obtain ⟨i, hi, rfl⟩ := hp.opened n c hn
      refine ⟨i, ⟨hi, hn⟩, fun j hj => ?_⟩
      by_contra hne
      exact hp.sock_ne hj.1 hi hne (hp.inj _ _ c hj.2 hn)
    · exact absurd hc (hopen cause)
  case once => exact List.nodup_iff_count_le_one.mp hl.once c
  case cause =>
    intro cause hc
    have hfits := hl.fits c cause hc
    cases cause with
    | endOfStream src => exact .inl (congrArg _ hfits)
    | login src => exact .inr ⟨src, hfits, rfl⟩
    | rejected => exact absurd hreg hfits

def firstClient : Action := .accept 5 [0x31] 4000 true

def secondClient : Action := .accept 6 [0x32] 4001 true

def loginRequest (password : String) : Message :=
  ⟨pcsClientLogin, pcsEx01, literal password⟩

/-- The handling of one login request of a thread, up to its first call into the network. -/
def loginSchedule (thread : Nat) (password : String) : List Action :=
  [.chunk thread (loginRequest password).frame (some freshPdu), .process thread,
    .effect thread true fun _ => 10]

def loginRefused : List UInt8 := Message.frame ⟨pcsClientLogin, pcsEx01, [pcsExErr]⟩

def loginComplete (thread : Nat) : List Action :=
  loginSchedule thread "jikongupgrade" ++ [.effect thread true fun _ => 10, .done thread]

def bothClients : List Action := firstClient :: .recv 0 :: loginComplete 0 ++ [secondClient, .recv 1]

/-- `Fresh`, asked of the connections there are. -/
def FreshNow (s : Server φ) : Action → Prop
  | .accept _ _ _ threadCreated => threadCreated = true ∧
      ∀ c < s.accepted, ∀ t ∈ s.threads c, t.slot ≠ newSlot s.conns
  | _ => True

instance (s : Server φ) : DecidablePred s.FreshNow
  | .accept _ _ _ threadCreated => inferInstanceAs (Decidable (threadCreated = true ∧
      ∀ c < s.accepted, ∀ t ∈ s.threads c, t.slot ≠ newSlot s.conns))
  | .recv _ | .chunk .. | .process _ | .effect .. | .done _ | .endOfStream _ =>
      inferInstanceAs (Decidable True)

theorem fresh_of_freshNow {libc : Libc φ} {machine : Machine φ} {s : Server φ}
    (h : ((server libc machine).guarded FreshNow).Reachable s) :
    (server libc machine).ReachableBy Fresh s := by
  apply h.of_guarded
  intro s a hreach hfresh
  cases a with
  | accept => exact ⟨hfresh.1, fun c t ht => hfresh.2 c ((paired_of_fresh hreach).threads c t ht) t ht⟩
  | recv | chunk | process | effect | done | endOfStream => trivial

theorem fresh_firstClient : (server obligingLibc idleMachine).ReachableBy Fresh
    ((Server.init idleMachine).register 5 [0x31] 4000) :=
  .step (a := firstClient) .init ⟨rfl, fun _ _ h => by cases h⟩ rfl

/-- The login of a second client closes the connection of the first one. -/
theorem sockets_owned_both : ∃ s : Server Unit, .closed 0 (.login 1) ∈ s.log ∧ s.Owns 0 ∧ s.Owns 1 := by
  have hinit : ((server obligingLibc idleMachine).guarded FreshNow).Reachable
      (Server.init idleMachine) := .init
  obtain ⟨s, hreach, hlog⟩ := hinit.exec (bothClients ++ loginComplete 1) (fun _ _ _ => trivial)
    (fun s => decide (.closed 0 (.login 1) ∈ s.log ∧ .registered 0 ∈ s.log ∧ .registered 1 ∈ s.log))
    (b := true) (by decide +kernel)
  obtain ⟨hclosed, hfirst, hsecond⟩ := of_decide_eq_true hlog
  have hfresh := fresh_of_freshNow hreach
  exact ⟨s, hclosed, sockets_owned hfresh hfirst, sockets_owned hfresh hsecond⟩

/-- A client connects while another one's thread is in `recv`; the end of the first
one's stream then closes the second one's connection. -/
theorem sockets_owned_overwritten : ¬ ∀ s : Server Unit,
    (server obligingLibc idleMachine).Reachable s → ∀ c, .registered c ∈ s.log → s.Owns c := by
  intro hall
  have hinit : (server obligingLibc idleMachine).Reachable (Server.init idleMachine) := .init
  obtain ⟨s, hreach, hlog⟩ := hinit.exec [firstClient, .recv 0, secondClient, .endOfStream 0]
    (fun _ _ _ => trivial) Server.log
    (b := [.closed 1 (.endOfStream (some 0)), .registered 1, .registered 0]) (by decide +kernel)
  rcases (hall s hreach 1 (by simp [hlog])).cause (.endOfStream (some 0)) (by simp [hlog]) with
    heq | ⟨src, -, heq⟩
  · cases heq
  · cases heq

/-- In a guarded run a reply goes to the connection its request was received on. -/
theorem replies_routed {libc : Libc φ} {machine : Machine φ}
    (h : (server libc machine).ReachableBy Fresh s) {src to' : Nat} {bytes : List UInt8}
    (hreply : .replied src to' bytes ∈ s.log) : to' = src :=
  (ledger_of_fresh h).replied src to' bytes hreply

theorem replies_routed_both :
    ∃ s : Server Unit, .replied 1 1 loginRefused ∈ s.log ∧ .registered 0 ∈ s.log ∧
      ∀ src to', .replied src to' loginRefused ∈ s.log → to' = src := by
  have hinit : ((server obligingLibc idleMachine).guarded FreshNow).Reachable
      (Server.init idleMachine) := .init
  obtain ⟨s, hreach, hlog⟩ := hinit.exec (bothClients ++ loginSchedule 1 "wrong")
    (fun _ _ _ => trivial)
    (fun s => decide (.replied 1 1 loginRefused ∈ s.log ∧ .registered 0 ∈ s.log)) (b := true)
    (by decide +kernel)
  obtain ⟨hrefused, hfirst⟩ := of_decide_eq_true hlog
  exact ⟨s, hrefused, hfirst, fun _ _ hreply => replies_routed (fresh_of_freshNow hreach) hreply⟩

/-- A client connects while another one's thread is in `recv`; the reply to the first
one's request then goes to the second one. -/
theorem replies_routed_overwritten : ¬ ∀ s : Server Unit,
    (server obligingLibc idleMachine).Reachable s → ∀ src to' bytes,
      .replied src to' bytes ∈ s.log → to' = src := by
  intro hall
  have hinit : (server obligingLibc idleMachine).Reachable (Server.init idleMachine) := .init
  obtain ⟨s, hreach, hlog⟩ := hinit.exec
    ([firstClient, .recv 0, secondClient] ++ loginSchedule 0 "wrong")
    (fun _ _ _ => trivial) (fun s => s.log.head?) (b := some (.replied 0 1 loginRefused))
    (by decide +kernel)
  cases hall s hreach 0 1 loginRefused (List.mem_of_head? hlog)

end Server

end CccUpgrade
