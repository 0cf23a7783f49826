import CccUpgrade.Server.Datagrams
import CccUpgrade.Server.FineServer

/-! What clients are sent by the server with its pauses. Seen without them, every step of it is
a step of `Server` or none. -/
namespace CccUpgrade

open Lib ConnectTable

variable {φ : Type}

namespace Server

variable {s s' : Server φ}

theorem Attentive.reject (h : s.Attentive) : (s.reject s.conns).Attentive where
  paired := h.paired.reject
  ledger := h.ledger.reject h.paired.known
  own := h.own.note nofun
  tracks := h.tracks.accept fun _ => ⟨rfl, rfl⟩
  talking := h.talking.note fun d => unheard_closed _ d _ _

theorem Paired.sock_ne_of_closed (h : s.Paired) {n : Int} (hpos : 0 < n) (hfd : s.fds n = none)
    (i : Fin clientCountMax) : (s.conns i).sock ≠ n := by
  rintro rfl
  cases hvalid : (s.conns i).bValid with
  | true =>
      obtain ⟨c, t, -, -, hc⟩ := h.held i hvalid
      rw [hfd] at hc
      cases hc
  | false =>
      rw [h.ok.sock i hvalid] at hpos
      cases hpos

theorem Paired.fds_of_closed (h : s.Paired) {i : Fin clientCountMax}
    (hinvalid : (s.conns i).bValid = false) : s.fds (s.conns i).sock = none := by
  cases hfd : s.fds (s.conns i).sock with
  | none => rfl
  | some c =>
      have hpos := h.pos _ _ hfd
      rw [h.ok.sock i hinvalid] at hpos
      cases hpos

/-- What the step of a thread in `recv` or behind it leaves as it is. -/
structure Narrow (s s' : Server φ) : Prop where
  accepted : s'.accepted = s.accepted
  fds : ∀ n, s'.fds n = s.fds n ∨ s'.fds n = none ∧ ∃ i, (s.conns i).sock = n
  conns : ∀ i, (s'.conns i).bValid = true →
    (s.conns i).bValid = true ∧ (s'.conns i).sock = (s.conns i).sock
  threads : ∀ c, (∀ t, s.threads c = some t → t.phase = .loop) → s'.threads c = s.threads c

namespace Narrow

theorem noted (s : Server φ) (machine : Machine φ) (log : List Event) (halted : Option Fault) :
    s.Narrow { s with machine := machine, log := log, halted := halted } :=
  ⟨rfl, fun _ => .inl rfl, fun _ h => ⟨h, rfl⟩, fun _ _ => rfl⟩

theorem closeSlot (s : Server φ) (slot : Fin clientCountMax) (cause : Cause) :
    s.Narrow (s.closeSlot slot cause) where
  accepted := closeSlot_accepted ..
  fds n := by
    unfold Server.closeSlot
    rcases close_cases { s with conns := s.conns.set slot (s.conns slot).closed }
      (tcpClose (s.conns slot).sock) cause with heq | ⟨m, c, hclose, -, heq⟩ <;> rw [heq]
    · exact .inl rfl
    · dsimp only
      by_cases hn : n = m
      · subst hn
        right
        refine ⟨Function.update_self .., slot, ?_⟩
        unfold tcpClose at hclose
        split at hclose
        · cases hclose
        · exact Option.some.inj hclose
      · exact .inl (Function.update_of_ne hn ..)
  conns i hi := by
    rw [closeSlot_conns] at hi ⊢
    by_cases hslot : i = slot
    · rw [hslot, set_self] at hi
      cases hi
    · rw [set_of_ne _ hslot] at hi ⊢
      exact ⟨hi, rfl⟩
  threads c _ := by rw [closeSlot_threads]

theorem loggedIn (h : s.Narrow s') (slot : Fin clientCountMax) :
    s.Narrow { s' with conns := loggedIn s.conns slot } where
  accepted := h.accepted
  fds := h.fds
  conns i hi := by
    by_cases hslot : i = slot
    · rw [hslot] at hi ⊢
      dsimp only at hi ⊢
      rw [loggedIn_self] at hi ⊢
      exact ⟨hi, rfl⟩
    · dsimp only at hi ⊢
      rw [loggedIn_of_ne _ hslot] at hi ⊢
      cases hi
  threads := h.threads

theorem turn (h : s.Narrow s') (hthreads : s'.threads = s.threads) {c : Nat} {t : Thread}
    (ht : s.threads c = some t) (hphase : t.phase ≠ .loop) (u : Option Thread) :
    s.Narrow (s'.setThread c u) where
  accepted := h.accepted
  fds := h.fds
  conns := h.conns
  threads d hd := by
    change Function.update s'.threads c u d = _
    rw [hthreads]
    apply Function.update_of_ne
    rintro rfl
    exact hphase (hd t ht)

end Narrow

theorem narrow_moved {libc : Libc φ} {a : Action} (ha : a.AfterRecv) (h : s.Moved libc a s') :
    s.Narrow s' := by
  cases h with
  | registered | rejected | unstarted | recv => cases ha
  | chunk ht hphase | process ht hphase | reply ht hphase | effect ht hphase | done ht hphase
  | outOfRange ht hphase => exact Narrow.turn (.noted ..) rfl ht (by simp [hphase]) _
  | setLogin ht hphase =>
      exact Narrow.turn ((Narrow.closeSlot ..).loggedIn _) (closeSlot_threads ..) ht (by simp [hphase]) _
  | endOfStream ht hphase =>
      exact Narrow.turn (.closeSlot ..) (closeSlot_threads ..) ht (by simp [hphase]) _
  | processFault | halted => exact .noted ..

end Server

/-- What the accept loop knows of the connection it works on. -/
def Accepting.Owns (server : Server φ) : Accepting → Prop
  | .waiting => True
  | .accepted sock conn _ _ | .refused sock conn =>
      0 < sock ∧ server.fds sock = some conn ∧ server.accepted = conn + 1
  | .seated _ conn _ => server.threads conn = none

theorem Server.step_accept (libc : Libc φ) {s : Server φ} (hrunning : s.halted = none) {sock : Int}
    {conn : Nat} (hpos : 0 < sock) (hfd : s.fds sock = some conn) (haccepted : s.accepted = conn + 1)
    {ipAddr : List UInt8} {ipPort : Int} {slot : Fin clientCountMax} {conns : ConnectTable}
    (hnew : internalClientManagerNew s.conns sock (some ipAddr) ipPort = (some slot, conns)) :
    (s.without sock conn).step libc (.accept sock ipAddr ipPort true) =
      some (({ s with conns := conns, log := .registered conn :: s.log }).setThread conn
        (some ⟨slot, .loop, []⟩)) := by
  have hfds : Function.update (Function.update s.fds sock none) sock (some conn) = s.fds := by
    rw [Function.update_idem, ← hfd, Function.update_eq_self]
  have hfree : 0 < sock ∧ (s.without sock conn).fds sock = none := ⟨hpos, Function.update_self ..⟩
  simp only [Server.step, without_halted, hrunning, Option.isSome_none, Bool.false_eq_true, if_false,
    Server.accept, if_pos hfree, without_conns, hnew, if_true]
  simp only [without, hfds, ← haccepted]

/-- The number of a connection that is in no slot. -/
def Accepting.pending : Accepting → Option Int
  | .accepted sock _ _ _ | .refused sock _ => some sock
  | .waiting | .seated _ _ _ => none

namespace FineServer

variable {libc : Libc φ} {s s' : FineServer φ}

/-- The server as it is without the pauses. A connection is there from `client_manager_new`
on, with a thread that has not done anything. -/
def coarse (s : FineServer φ) : Server φ :=
  match s.accepting with
  | .waiting => s.server
  | .accepted sock conn _ _ | .refused sock conn => s.server.without sock conn
  | .seated _ conn slot => s.server.setThread conn (some ⟨slot, .loop, []⟩)

@[simp] theorem coarse_conns (s : FineServer φ) : s.coarse.conns = s.server.conns := by
  unfold coarse
  split <;> rfl

@[simp] theorem coarse_halted (s : FineServer φ) : s.coarse.halted = s.server.halted := by
  unfold coarse
  split <;> rfl

@[simp] theorem coarse_log (s : FineServer φ) : s.coarse.log = s.server.log := by
  unfold coarse
  split <;> rfl

/-- Thread `c` has read `n` from its slot, which may have been closed since. -/
def Holds (server : Server φ) (c : Nat) (n : Int) : Prop :=
  ∃ t, server.threads c = some t ∧ t.phase = .loop ∧
    ((server.conns t.slot).bValid = true → n = (server.conns t.slot).sock) ∧
    ((server.conns t.slot).bValid = false → server.fds n = none)

theorem coarse_fds_of_ne {n : Int} (h : s.accepting.pending ≠ some n) :
    s.coarse.fds n = s.server.fds n := by
  unfold coarse
  cases haccepting : s.accepting with
  | waiting | seated => rfl
  | accepted sock conn | refused sock conn =>
      rw [haccepting] at h
      have hne : n ≠ sock := fun heq => h (congrArg some heq.symm)
      exact Function.update_of_ne hne ..

theorem threads_of_coarse {c : Nat} {t : Thread} (ht : s.coarse.threads c = some t)
    (hphase : t.phase ≠ .loop) : s.server.threads c = some t := by
  unfold coarse at ht
  cases haccepting : s.accepting with
  | waiting | accepted | refused =>
      rw [haccepting] at ht
      exact ht
  | seated sock conn slot =>
      rw [haccepting] at ht
      rcases (s.server.setThread_threads).mp ht with ⟨-, ⟨⟩⟩ | ⟨-, ht⟩
      · exact absurd rfl hphase
      · exact ht

theorem Holds.mono {server server' : Server φ} {c : Nat} {n : Int} (h : Holds server c n)
    (hthreads : ∀ t, server.threads c = some t → server'.threads c = some t)
    (hconns : ∀ t, server.threads c = some t → server'.conns t.slot = server.conns t.slot)
    (hfds : server.fds n = none → server'.fds n = none) : Holds server' c n := by
  obtain ⟨t, ht, hphase, hvalid, hclosed⟩ := h
  refine ⟨t, hthreads t ht, hphase, ?_⟩
  rw [hconns t ht]
  exact ⟨hvalid, fun hinvalid => hfds (hclosed hinvalid)⟩

structure Settled (s : FineServer φ) : Prop where
  attentive : s.coarse.Attentive
  owns : s.accepting.Owns s.server
  held : ∀ c n, s.held c = some n → Holds s.server c n

/-- `accept` returns no number that a thread has read for a `recv` it has not called yet, the
slot of a new connection has no thread, `thread_create` does not fail, and the system
takes the replies. -/
def Attended (s : FineServer φ) : FineAction → Prop
  | .accept sock _ _ => ∀ c, s.held c ≠ some sock
  | .new => ∀ c t, s.server.threads c = some t → t.slot ≠ newSlot s.server.conns
  | .create created => created = true
  | .rest a => s.server.Supplied a ∧ s.server.Heard a
  | .refuse | .read _ | .recv _ => True

namespace Settled

theorem init (machine : Machine φ) : (FineServer.init machine).Settled where
  attentive := .init machine
  owns := trivial
  held := nofun

theorem pending_ne (h : s.Settled) (i : Fin clientCountMax) :
    s.accepting.pending ≠ some (s.server.conns i).sock := by
  have hne := fun n => h.attentive.paired.sock_ne_of_closed (n := n)
  have howns := h.owns
  unfold coarse at hne
  cases haccepting : s.accepting with
  | waiting | seated => exact nofun
  | accepted sock conn | refused sock conn =>
      rw [haccepting] at hne howns
      exact fun heq => hne sock howns.1 (Function.update_self ..) i (Option.some.inj heq).symm

theorem coarse_fds (h : s.Settled) (i : Fin clientCountMax) :
    s.coarse.fds (s.server.conns i).sock = s.server.fds (s.server.conns i).sock :=
  coarse_fds_of_ne (h.pending_ne i)

theorem fds_closed (h : s.Settled) {i : Fin clientCountMax} (hinvalid : (s.server.conns i).bValid = false) :
    s.server.fds (s.server.conns i).sock = none := by
  rw [← h.coarse_fds, ← coarse_conns]
  rw [← coarse_conns] at hinvalid
  exact h.attentive.paired.fds_of_closed hinvalid

theorem coarse_threads (h : s.Settled) {c : Nat} {t : Thread} (ht : s.server.threads c = some t) :
    s.coarse.threads c = some t := by
  have howns := h.owns
  unfold coarse
  cases haccepting : s.accepting with
  | waiting | accepted | refused => exact ht
  | seated sock conn slot =>
      rw [haccepting] at howns
      have hne : c ≠ conn := by
        rintro rfl
        rw [howns] at ht
        cases ht
      exact (Function.update_of_ne hne ..).trans ht

theorem accept (h : s.Settled) {sock : Int} {ipAddr : List UInt8} {ipPort : Int}
    (hguard : ∀ c, s.held c ≠ some sock) (hstep : s.accept sock ipAddr ipPort = some s') :
    s'.Settled := by
  unfold FineServer.accept at hstep
  split at hstep
  next hwaiting =>
    split at hstep
    next hsock =>
      cases hstep
      have hcoarse : s.coarse = s.server := by
        unfold coarse
        rw [hwaiting]
      have hfds : Function.update (Function.update s.server.fds sock (some s.server.accepted)) sock
          none = s.server.fds := by
        rw [Function.update_idem, ← hsock.2, Function.update_eq_self]
      refine ⟨?_, ⟨hsock.1, Function.update_self .., rfl⟩, ?_⟩
      · change Server.Attentive { s.server with
          fds := Function.update (Function.update s.server.fds sock (some s.server.accepted)) sock none }
        rw [hfds, ← hcoarse]
        exact h.attentive
      · intro c n hn
        have hne : n ≠ sock := by
          rintro rfl
          exact hguard c hn
        exact (h.held c n hn).mono (fun _ => id) (fun _ _ => rfl) (Function.update_of_ne hne ..).trans
    · cases hstep
  · cases hstep

theorem new (libc : Libc φ) (h : s.Settled)
    (hguard : ∀ c t, s.server.threads c = some t → t.slot ≠ newSlot s.server.conns)
    (hrunning : s.server.halted = none) (hstep : s.new = some s') : s'.Settled := by
  unfold FineServer.new at hstep
  split at hstep
  next sock conn ipAddr ipPort haccepted =>
    have howns := h.owns
    have hattentive := h.attentive
    unfold coarse at hattentive
    rw [haccepted] at howns hattentive
    obtain ⟨hpos, hfd, haccepted'⟩ := howns
    rcases new_cases s.server.conns sock (some ipAddr) ipPort with heq | ⟨addr, heq⟩ <;>
      simp only [heq] at hstep
    · cases hstep
      exact ⟨hattentive, ⟨hpos, hfd, haccepted'⟩, h.held⟩
    · cases hstep
      have hmoved := Server.step_accept libc hrunning hpos hfd haccepted' heq
      have hallowed : (s.server.without sock conn).Attended (.accept sock ipAddr ipPort true) :=
        ⟨⟨rfl, hguard⟩, trivial, trivial⟩
      refine ⟨hattentive.step hallowed hmoved hrunning, ?_, ?_⟩
      · cases hthread : s.server.threads conn with
        | none => exact hthread
        | some t => exact absurd (hattentive.paired.threads conn t hthread) (Nat.lt_irrefl _)
      · intro c n hn
        exact (h.held c n hn).mono (fun _ => id)
          (fun t ht => s.server.seated_of_ne _ _ _ (hguard c t ht)) id
  · cases hstep

theorem create (h : s.Settled) (hstep : s.create true = some s') : s'.Settled := by
  unfold FineServer.create at hstep
  split at hstep
  next sock conn slot hseated =>
    have howns := h.owns
    have hattentive := h.attentive
    unfold coarse at hattentive
    rw [hseated] at howns hattentive
    cases hstep
    refine ⟨hattentive, trivial, ?_⟩
    intro c n hn
    refine (h.held c n hn).mono (fun t ht => ?_) (fun _ _ => rfl) id
    have hne : c ≠ conn := by
      rintro rfl
      rw [howns] at ht
      cases ht
    exact (Function.update_of_ne hne ..).trans ht
  · cases hstep

theorem refuse (h : s.Settled) (hstep : s.refuse = some s') : s'.Settled := by
  unfold FineServer.refuse at hstep
  split at hstep
  next sock conn hrefused =>
    have howns := h.owns
    have hattentive := h.attentive
    unfold coarse at hattentive
    rw [hrefused] at howns hattentive
    obtain ⟨hpos, hfd, haccepted⟩ := howns
    cases hstep
    have hclosed : s.server.close (some sock) .rejected =
        (s.server.without sock conn).reject s.server.conns := by
      unfold Server.close
      simp only [hfd, Server.reject, Server.without, haccepted]
    refine ⟨?_, trivial, ?_⟩
    · change (s.server.close (some sock) .rejected).Attentive
      rw [hclosed]
      exact hattentive.reject
    · intro c n hn
      rw [hclosed]
      refine (h.held c n hn).mono (fun _ => id) (fun _ _ => rfl) fun hnone => ?_
      change Function.update s.server.fds sock none n = none
      by_cases hsame : n = sock
      · rw [hsame, Function.update_self]
      · rw [Function.update_of_ne hsame, hnone]
  · cases hstep

theorem read (h : s.Settled) {c : Nat} {t : Thread} (ht : s.server.threads c = some t)
    (hstep : s.read c t = some s') : s'.Settled := by
  unfold FineServer.read at hstep
  split at hstep
  next hphase hnone =>
    cases hstep
    refine ⟨h.attentive, h.owns, ?_⟩
    intro d n hn
    rcases update_eq_some.mp hn with ⟨rfl, hread⟩ | ⟨-, hn⟩
    · cases hread
      exact ⟨t, ht, hphase, fun _ => rfl, h.fds_closed⟩
    · exact h.held d n hn
  · cases hstep

/-- A thread that calls `recv` on its number waits for its own connection or for none. -/
theorem fds_held (h : s.Settled) {c : Nat} {n : Int} {t : Thread} (hn : s.held c = some n)
    (ht : s.server.threads c = some t) :
    s.server.fds n = s.coarse.fds (s.coarse.conns t.slot).sock := by
  obtain ⟨u, hu, -, hvalid, hclosed⟩ := h.held c n hn
  rw [ht] at hu
  cases hu
  rw [coarse_conns, h.coarse_fds]
  cases hslot : (s.server.conns t.slot).bValid with
  | true => rw [hvalid hslot]
  | false => rw [hclosed hslot, h.fds_closed hslot]

theorem coarse_setThread (h : s.Settled) {c : Nat} {t : Thread} (ht : s.server.threads c = some t)
    (u : Option Thread) (held : Nat → Option Int) :
    ({ s with server := s.server.setThread c u, held := held }).coarse = s.coarse.setThread c u := by
  have howns := h.owns
  unfold coarse
  cases haccepting : s.accepting with
  | waiting | accepted | refused => rfl
  | seated sock conn slot =>
      rw [haccepting] at howns
      apply Eq.symm
      apply Server.setThread_comm
      rintro rfl
      rw [howns] at ht
      cases ht

theorem recv (libc : Libc φ) (h : s.Settled) {c : Nat} {t : Thread} (ht : s.server.threads c = some t)
    (hrunning : s.server.halted = none) (hstep : s.recv c t = some s') : s'.Settled := by
  unfold FineServer.recv at hstep
  split at hstep
  next sock hphase hheld =>
    cases hstep
    have hcoarse := h.coarse_setThread ht (some { t with phase := .blocked (s.server.fds sock) })
      (Function.update s.held c none)
    have hmoved : s.coarse.step libc (.recv c) =
        some (s.coarse.setThread c (some { t with phase := .blocked (s.server.fds sock) })) := by
      rw [h.fds_held hheld ht]
      simp only [Server.step, coarse_halted, hrunning, h.coarse_threads ht, Option.isSome_none,
        Bool.false_eq_true, if_false, Option.bind_some, Server.recv, hphase]
    have hother : ∀ d v, d ≠ c → s.server.threads d = v →
        (s.server.setThread c (some { t with phase := .blocked (s.server.fds sock) })).threads d = v :=
      fun d v hd hv => (Function.update_of_ne hd ..).trans hv
    refine ⟨?_, ?_, ?_⟩
    · rw [← hcoarse] at hmoved
      have hallowed : s.coarse.Attended (.recv c) := ⟨trivial, trivial, trivial⟩
      apply h.attentive.step hallowed hmoved
      rw [coarse_halted]
      exact hrunning
    · have howns := h.owns
      cases haccepting : s.accepting with
      | waiting => trivial
      | accepted | refused =>
          rw [haccepting] at howns
          exact howns
      | seated sock conn slot =>
          rw [haccepting] at howns
          apply hother conn none _ howns
          rintro rfl
          rw [howns] at ht
          cases ht
    · intro d n hn
      rcases update_eq_some.mp hn with ⟨-, ⟨⟩⟩ | ⟨hd, hn⟩
      exact (h.held d n hn).mono (fun u hu => hother d _ hd hu) (fun _ _ => rfl) id
  · cases hstep

/-- A step of a thread in `recv` or behind it is the same step without the pauses. -/
theorem coarse_step (h : s.Settled) {a : Action} (ha : a.AfterRecv) {server : Server φ}
    (hstep : s.server.step libc a = some server) :
    s.coarse.step libc a = some ({ s with server := server }).coarse := by
  have hpending := h.pending_ne
  have howns := h.owns
  unfold coarse
  cases haccepting : s.accepting with
  | waiting => exact hstep
  | accepted sock conn | refused sock conn =>
      rw [haccepting] at hpending
      have hsock : ∀ i, (s.server.conns i).sock ≠ sock := fun i heq => hpending i (congrArg some heq.symm)
      rw [Server.step_without hsock ha, hstep]
      rfl
  | seated sock conn slot =>
      rw [haccepting] at howns
      rw [Server.step_seated howns rfl ha, hstep]
      rfl

theorem attended_coarse {a : Action} (ha : a.AfterRecv)
    (hguard : s.server.Supplied a ∧ s.server.Heard a) : s.coarse.Attended a := by
  cases a with
  | accept | recv => cases ha
  | chunk => exact ⟨trivial, hguard.1, trivial⟩
  | process | done | endOfStream => exact ⟨trivial, trivial, trivial⟩
  | effect thread allocated kernel =>
      obtain ⟨hallocated, htaken⟩ := hguard.2
      refine ⟨trivial, trivial, hallocated, ?_⟩
      intro t cb cmd cmdEx data effects ht hphase heffects
      rw [coarse_conns]
      exact htaken t cb cmd cmdEx data effects (threads_of_coarse ht (by simp [hphase])) hphase heffects

theorem rest (h : s.Settled) {a : Action} (ha : a.AfterRecv)
    (hguard : s.server.Supplied a ∧ s.server.Heard a) {server : Server φ}
    (hstep : s.server.step libc a = some server) (hrunning : server.halted = none) :
    ({ s with server := server }).Settled := by
  have hnarrow := Server.narrow_moved ha (Server.step_moved hstep)
  have hattentive := h.attentive.step (attended_coarse ha hguard) (h.coarse_step ha hstep)
    (by rw [coarse_halted]; exact hrunning)
  refine ⟨hattentive, ?_, ?_⟩
  · have hpending := h.pending_ne
    have howns := h.owns
    cases haccepting : s.accepting with
    | waiting => trivial
    | accepted sock conn | refused sock conn =>
        rw [haccepting] at howns hpending
        obtain ⟨hpos, hfd, haccepted⟩ := howns
        refine ⟨hpos, ?_, hnarrow.accepted.trans haccepted⟩
        rcases hnarrow.fds sock with hsame | ⟨-, i, hi⟩
        · exact hsame.trans hfd
        · exact absurd (congrArg some hi.symm) (hpending i)
    | seated sock conn slot =>
        rw [haccepting] at howns
        refine (hnarrow.threads conn fun t ht => ?_).trans howns
        rw [howns] at ht
        cases ht
  · intro c n hn
    obtain ⟨t, ht, hphase, hvalid, hclosed⟩ := h.held c n hn
    have hcoarse_fds : ({ s with server := server }).coarse.fds (s.server.conns t.slot).sock =
        server.fds (s.server.conns t.slot).sock :=
      coarse_fds_of_ne (s := { s with server := server }) (h.pending_ne t.slot)
    have hkept : s.server.fds n = none → server.fds n = none := by
      intro hnone
      rcases hnarrow.fds n with hsame | ⟨hnone', -⟩
      · exact hsame.trans hnone
      · exact hnone'
    have ht' : server.threads c = some t := by
      refine (hnarrow.threads c fun u hu => ?_).trans ht
      rw [ht] at hu
      cases hu
      exact hphase
    refine ⟨t, ht', hphase, fun hvalid' => ?_, fun hinvalid => ?_⟩
    · obtain ⟨hbefore, hsock⟩ := hnarrow.conns _ hvalid'
      exact (hvalid hbefore).trans hsock.symm
    · -- A slot that this step has closed held the number, and the number is closed with it.
      cases hbefore : (s.server.conns t.slot).bValid with
      | false => exact hkept (hclosed hbefore)
      | true =>
          rw [hvalid hbefore]
          cases hopen : server.fds (s.server.conns t.slot).sock with
          | none => rfl
          | some d =>
              rw [← hcoarse_fds] at hopen
              obtain ⟨i, hi, hsock⟩ := hattentive.paired.opened _ d hopen
              rw [coarse_conns] at hi hsock
              obtain ⟨hi', hsock'⟩ := hnarrow.conns i hi
              have hne : i ≠ t.slot := by
                rintro rfl
                rw [hinvalid] at hi
                cases hi
              have hsame := hsock'.symm.trans hsock
              rw [← coarse_conns] at hi' hbefore hsame
              exact absurd hsame (h.attentive.paired.sock_ne hi' hbefore hne)

theorem step (h : s.Settled) {a : FineAction} (hguard : s.Attended a)
    (hstep : s.step libc a = some s') (hrunning : s'.server.halted = none) : s'.Settled := by
  unfold FineServer.step at hstep
  split at hstep
  · cases hstep
  next hhalted =>
    have hbefore : s.server.halted = none := Option.not_isSome_iff_eq_none.mp hhalted
    cases a with
    | accept sock ipAddr ipPort => exact h.accept hguard hstep
    | new => exact h.new libc hguard hbefore hstep
    | create created =>
        obtain rfl := hguard
        exact h.create hstep
    | refuse => exact h.refuse hstep
    | read thread =>
        obtain ⟨t, ht, hstep⟩ := Option.bind_eq_some_iff.mp hstep
        exact h.read ht hstep
    | recv thread =>
        obtain ⟨t, ht, hstep⟩ := Option.bind_eq_some_iff.mp hstep
        exact h.recv libc ht hbefore hstep
    | rest a =>
        dsimp only at hstep
        split at hstep
        next ha =>
          obtain ⟨server, hserver, rfl⟩ := Option.map_eq_some_iff.mp hstep
          exact h.rest ha hguard hserver hrunning
        · cases hstep

theorem withMachine (h : s.Settled) (machine : Machine φ) (halted : Option Fault) :
    ({ s with server := { s.server with machine := machine, halted := halted } }).Settled := by
  refine ⟨?_, ?_, h.held⟩
  · have hattentive := h.attentive.withMachine machine halted
    unfold coarse at hattentive ⊢
    cases haccepting : s.accepting with
    | waiting | accepted | refused | seated =>
        rw [haccepting] at hattentive
        exact hattentive
  · have howns := h.owns
    cases haccepting : s.accepting with
    | waiting | accepted | refused | seated =>
        rw [haccepting] at howns
        exact howns

theorem coarse_waiting (h : s.Settled) (c : Nat) :
    pendingOf (s.coarse.threads c) = pendingOf (s.server.threads c) ∧
      todoOf (s.coarse.threads c) = todoOf (s.server.threads c) := by
  have howns := h.owns
  unfold coarse
  cases haccepting : s.accepting with
  | waiting | accepted | refused => exact ⟨rfl, rfl⟩
  | seated sock conn slot =>
      rw [haccepting] at howns
      change pendingOf (Function.update s.server.threads conn _ c) = _ ∧
        todoOf (Function.update s.server.threads conn _ c) = _
      by_cases hc : c = conn
      · rw [hc, Function.update_self, howns]
        exact ⟨rfl, rfl⟩
      · rw [Function.update_of_ne hc]
        exact ⟨rfl, rfl⟩

theorem conversation (h : s.Settled) (c : Nat) : s.server.Conversation c := by
  obtain ⟨hpending, htodo⟩ := h.coarse_waiting c
  obtain ⟨hreplies, hrequests⟩ := h.attentive.conversation c
  rw [coarse_log, hpending] at hreplies
  rw [coarse_log, htodo] at hrequests
  exact ⟨hreplies, hrequests⟩

end Settled

theorem running_of_step {a : FineAction} (h : s.step libc a = some s') : s.server.halted = none := by
  unfold step at h
  split at h
  · cases h
  next hrunning => exact Option.not_isSome_iff_eq_none.mp hrunning

theorem settled_of_attended {machine : Machine φ}
    (h : (fineServer libc machine).ReachableBy Attended s) (hrunning : s.server.halted = none) :
    s.Settled := by
  induction h with
  | init => exact .init machine
  | step hreach hguard hstep ih => exact (ih (running_of_step hstep)).step hguard hstep hrunning

/-- The messages in the stream of each connection are taken up once and in order, and the bytes
sent to it are one reply for each request among them, in the same order, until a login on
another connection closes it. -/
theorem connections_answered {machine : Machine φ}
    (h : (fineServer libc machine).ReachableBy Attended s) (hrunning : s.server.halted = none)
    (c : Nat) : s.server.Conversation c :=
  (settled_of_attended h hrunning).conversation c

/-- A step of a receive thread with its pause. -/
def paused : Action → List FineAction
  | .recv thread => [.read thread, .recv thread]
  | a => [.rest a]

theorem attended_cutLogin (s : FineServer Unit) : ∀ a ∈ Server.cutLogin.flatMap paused, s.Attended a := by
  intro a ha
  obtain ⟨b, hb, ha⟩ := List.mem_flatMap.mp ha
  obtain ⟨-, hsupplied, hheard⟩ := Server.attended_cutLogin s.server b hb
  cases b with
  | recv =>
      simp only [paused, List.mem_cons, List.not_mem_nil, or_false] at ha
      rcases ha with rfl | rfl <;> trivial
  | accept | chunk | process | effect | done | endOfStream =>
      rw [List.mem_singleton.mp ha]
      exact ⟨hsupplied, hheard⟩

/-- One client is in its slot, and another one has just been accepted. -/
def twoClients : FineServer Unit :=
  let server := (Server.init idleMachine).register 5 [0x31] 4000
  { server := { server with fds := Function.update server.fds 6 (some 1), accepted := 2 }
    accepting := .accepted 6 1 [0x32] 4001
    held := fun _ => none }

theorem attended_twoClients : (fineServer obligingLibc idleMachine).ReachableBy Attended twoClients := by
  have haccepted : (fineServer obligingLibc idleMachine).ReachableBy Attended _ :=
    .step (a := .accept 5 [0x31] 4000) .init (fun _ => nofun) rfl
  have hseated : (fineServer obligingLibc idleMachine).ReachableBy Attended _ :=
    .step (a := .new) haccepted (fun _ _ => nofun) rfl
  have hcreated : (fineServer obligingLibc idleMachine).ReachableBy Attended _ :=
    .step (a := .create true) hseated rfl rfl
  exact .step (a := .accept 6 [0x32] 4001) hcreated (fun _ => nofun) rfl

theorem connections_answered_cut :
    ∃ s : FineServer Unit, sentTo s.server.log 0 = Server.loginRefused ∧ s.server.Conversation 0 := by
  obtain ⟨s, hreach, hs⟩ := attended_twoClients.exec (Server.cutLogin.flatMap paused)
    attended_cutLogin (fun s => (s.server.halted, sentTo s.server.log 0))
    (b := (none, Server.loginRefused)) (by decide +kernel)
  obtain ⟨hrunning, hsent⟩ := Prod.mk.inj hs
  exact ⟨s, hsent, connections_answered hreach hrunning 0⟩

end FineServer

structure FineHost (φ : Type) where
  host : Host φ
  accepting : Accepting
  held : Nat → Option Int

inductive FineHostAction
  | tcp (a : FineAction)
  /-- A step of the thread that serves datagrams. -/
  | udp (a : HostAction)

namespace FineHost

variable {libc : Libc φ} {udp : UdpServer} {s s' : FineHost φ}

def init (machine : Machine φ) : FineHost φ := ⟨Host.init machine, .waiting, fun _ => none⟩

def tcp (s : FineHost φ) : FineServer φ := ⟨s.host.server, s.accepting, s.held⟩

def step (libc : Libc φ) (udp : UdpServer) (s : FineHost φ) : FineHostAction → Option (FineHost φ)
  | .tcp a => (s.tcp.step libc a).map fun t =>
      ⟨{ s.host with server := t.server }, t.accepting, t.held⟩
  | .udp (.tcp _) => none
  | .udp a => (s.host.step udp libc a).map ({ s with host := · })

end FineHost

def fineHost (libc : Libc φ) (machine : Machine φ) (udp : UdpServer) :
    TransitionSystem (FineHost φ) FineHostAction where
  init := FineHost.init machine
  step := FineHost.step libc udp

namespace FineHost

variable {libc : Libc φ} {udp : UdpServer} {s s' : FineHost φ}

def ServesTcp (s : FineHost φ) : FineHostAction → Prop
  | .tcp a => s.tcp.Attended a
  | .udp _ => True

theorem step_cases {a : FineHostAction} (h : s.step libc udp a = some s') :
    (∃ b, a = .tcp b ∧ s.tcp.step libc b = some s'.tcp) ∨
      ∃ b host, a = .udp b ∧ b.OfUdp ∧ s.host.step udp libc b = some host ∧
        s' = { s with host := host } := by
  cases a with
  | tcp b =>
      obtain ⟨t, ht, rfl⟩ := Option.map_eq_some_iff.mp h
      exact .inl ⟨b, rfl, ht⟩
  | udp b =>
      cases b with
      | tcp => cases h
      | datagram | process | effect | done =>
          obtain ⟨host, hhost, rfl⟩ := Option.map_eq_some_iff.mp h
          exact .inr ⟨_, host, rfl, trivial, hhost, rfl⟩

theorem running_of_step {a : FineHostAction} (h : s.step libc udp a = some s') :
    s.host.server.halted = none := by
  rcases step_cases h with ⟨b, -, hb⟩ | ⟨b, host, -, -, hhost, -⟩
  · exact FineServer.running_of_step hb
  · exact Host.running_of_step hhost

theorem settled_of_serves (hslot : slot? udp.handle = none) {machine : Machine φ}
    (h : (fineHost libc machine udp).ReachableBy ServesTcp s)
    (hrunning : s.host.server.halted = none) : s.tcp.Settled := by
  induction h with
  | init => exact .init machine
  | step hreach hguard hstep ih =>
      have hsettled := ih (running_of_step hstep)
      rcases step_cases hstep with ⟨b, rfl, hb⟩ | ⟨b, host, rfl, hudp, hhost, rfl⟩
      · exact hsettled.step hguard hb hrunning
      · have hserver := Host.udp_server hslot hudp hhost
        have hkept := hsettled.withMachine host.server.machine host.server.halted
        unfold tcp at hkept ⊢
        dsimp only at hkept ⊢
        rwa [hserver] at hkept

/-- Whatever datagrams arrive, and however their handling is interleaved with that of the
connections, each client is served as `FineServer.connections_answered` says. -/
theorem conversations_undisturbed (hslot : slot? udp.handle = none) {machine : Machine φ}
    (h : (fineHost libc machine udp).ReachableBy ServesTcp s)
    (hrunning : s.host.server.halted = none) (c : Nat) : s.host.server.Conversation c :=
  (settled_of_serves hslot h hrunning).conversation c

theorem reachable_tcp (udp : UdpServer) {machine : Machine φ} {t : FineServer φ}
    (h : (fineServer libc machine).ReachableBy FineServer.Attended t) :
    (fineHost libc machine udp).ReachableBy ServesTcp
      ⟨{ Host.init machine with server := t.server }, t.accepting, t.held⟩ := by
  induction h with
  | init => exact .init
  | @step t t' a _ hguard hstep ih =>
      refine .step (a := .tcp a) ih hguard ?_
      exact congrArg (Option.map _) hstep

/-- A client logs in, its stream cut, while another one is accepted and a discovery request is
answered. -/
theorem conversations_undisturbed_discover :
    ∃ s : FineHost Unit, sentTo s.host.server.log 0 = Server.loginRefused ∧
      s.host.server.Conversation 0 := by
  let discovery : List HostAction :=
    [.datagram ⟨1, 2⟩ (Message.frame ⟨pcsDiscoverDevice, pcsEx01, []⟩) (some freshPdu), .process]
  let actions : List FineHostAction :=
    discovery.map .udp ++ (Server.cutLogin.flatMap FineServer.paused).map .tcp
  have hguard : ∀ s : FineHost Unit, ∀ a ∈ actions, s.ServesTcp a := by
    intro s a ha
    rcases List.mem_append.mp ha with ha | ha
    · obtain ⟨b, -, rfl⟩ := List.mem_map.mp ha
      trivial
    · obtain ⟨b, hb, rfl⟩ := List.mem_map.mp ha
      exact FineServer.attended_cutLogin s.tcp b hb
  obtain ⟨s, hreach, hs⟩ := (reachable_tcp ⟨7, 4096⟩ FineServer.attended_twoClients).exec actions hguard
    (fun s => (s.host.server.halted, sentTo s.host.server.log 0))
    (b := (none, Server.loginRefused)) (by decide +kernel)
  obtain ⟨hrunning, hsent⟩ := Prod.mk.inj hs
  exact ⟨s, hsent, conversations_undisturbed rfl hreach hrunning 0⟩

end FineHost

end CccUpgrade
