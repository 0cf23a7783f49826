import CccUpgrade.Server.Authentication

/-! What each receive thread of the server does with the bytes handed to it. Whatever the
other threads do in between, it runs the receive loop of a single connection on them. -/
namespace CccUpgrade

open Lib ConnectTable

variable {φ : Type}

def chunks : List Event → Nat → List (List UInt8)
  | [], _ => []
  | .handed thread _ bytes _ :: log, c =>
      if thread = c then chunks log c ++ [bytes] else chunks log c
  | .registered _ :: log, c => chunks log c
  | .processed .. :: log, c => chunks log c
  | .replied .. :: log, c => chunks log c
  | .closed .. :: log, c => chunks log c

def handled : List Event → Nat → List (PDU × Branch)
  | [], _ => []
  | .processed thread pdu branch :: log, c =>
      if thread = c then handled log c ++ [(pdu, branch)] else handled log c
  | .registered _ :: log, c => handled log c
  | .handed .. :: log, c => handled log c
  | .replied .. :: log, c => handled log c
  | .closed .. :: log, c => handled log c

def processed (log : List Event) (c : Nat) : List PDU := (handled log c).map Prod.fst

theorem handled_self (c : Nat) (pdu : PDU) (branch : Branch) (log : List Event) :
    handled (.processed c pdu branch :: log) c = handled log c ++ [(pdu, branch)] :=
  if_pos rfl

theorem handled_of_ne {c d : Nat} (h : d ≠ c) (pdu : PDU) (branch : Branch) (log : List Event) :
    handled (.processed c pdu branch :: log) d = handled log d :=
  if_neg h.symm

theorem processed_self (c : Nat) (pdu : PDU) (branch : Branch) (log : List Event) :
    processed (.processed c pdu branch :: log) c = processed log c ++ [pdu] := by
  rw [processed, handled_self, List.map_append, List.map_singleton, processed]

theorem processed_of_ne {c d : Nat} (h : d ≠ c) (pdu : PDU) (branch : Branch) (log : List Event) :
    processed (.processed c pdu branch :: log) d = processed log d := by
  rw [processed, handled_of_ne h, processed]

namespace Thread

def todo (t : Thread) : List PDU :=
  match t.phase with
  | .callback cb => cb.todo
  | _ => []

def fault (t : Thread) : Option Fault :=
  match t.phase with
  | .callback cb => cb.fault
  | _ => none

def rest (t : Thread) : List UInt8 :=
  match t.phase with
  | .callback cb => t.mainBuf.drop cb.consume.toNat
  | _ => t.mainBuf

/-- The receive loop a thread is in, when it has taken up the PDUs `done`. In a callback the
loop stands at the end of its round. -/
def loop (t : Thread) (done : List PDU) : RecvLoop := ⟨t.rest, done ++ t.todo, t.fault⟩

theorem loop_callback {t : Thread} {cb : Callback} (hphase : t.phase = .callback cb)
    (done : List PDU) :
    t.loop done = ⟨t.mainBuf.drop cb.consume.toNat, done ++ cb.todo, cb.fault⟩ := by
  simp only [loop, rest, todo, fault, hphase]

theorem loop_waiting {t : Thread} (hphase : ∀ cb, t.phase ≠ .callback cb) (done : List PDU) :
    t.loop done = ⟨t.mainBuf, done, none⟩ := by
  cases h : t.phase with
  | callback cb => exact absurd h (hphase cb)
  | loop | blocked => simp only [loop, rest, todo, fault, h, List.append_nil]

end Thread

structure InLoop (t : Option Thread) (done : List PDU) (loop : RecvLoop) : Prop where
  running : ∀ u, t = some u → loop = u.loop done
  ended : t = none → loop.dispatched = done ∧ loop.fault = none

/-- The packets of a run are such as `packet_pool_get_pdu_buf` gives them when there is
memory. -/
def Recv.Supplied (ev : Recv) : Prop :=
  ∃ lpPdu, ev.packet = some lpPdu ∧ lpPdu.data.length = protoDataLenMax

def Loops (t : Option Thread) (input : List (List UInt8)) (done : List PDU) : Prop :=
  ∃ evs : List Recv, evs.map Recv.bytes = input ∧ (∀ ev ∈ evs, ev.Supplied) ∧
    (RecvLoop.run evs).Fits ∧ InLoop t done (RecvLoop.run evs)

section Loops

variable {t : Thread} {input : List (List UInt8)} {done : List PDU}

theorem fits_init : RecvLoop.init.Fits := nofun

theorem loops_none : Loops none [] [] :=
  ⟨[], rfl, nofun, fits_init, nofun, fun _ => ⟨rfl, rfl⟩⟩

theorem loops_new (slot : Fin clientCountMax) : Loops (some ⟨slot, .loop, []⟩) [] [] := by
  refine ⟨[], rfl, nofun, fits_init, ?_, nofun⟩
  rintro _ ⟨⟩
  rfl

theorem Loops.thread (h : Loops (some t) input done) {t' : Thread} {done' : List PDU}
    (hsame : t'.loop done' = t.loop done) : Loops (some t') input done' := by
  obtain ⟨evs, hbytes, hsupplied, hfits, hrunning, -⟩ := h
  refine ⟨evs, hbytes, hsupplied, hfits, ?_, nofun⟩
  rintro _ ⟨⟩
  rw [hsame]
  exact hrunning t rfl

theorem Loops.ended (h : Loops (some t) input done) (hphase : ∀ cb, t.phase ≠ .callback cb) :
    Loops none input done := by
  obtain ⟨evs, hbytes, hsupplied, hfits, hrunning, -⟩ := h
  refine ⟨evs, hbytes, hsupplied, hfits, nofun, fun _ => ?_⟩
  rw [hrunning t rfl, Thread.loop_waiting hphase]
  exact ⟨rfl, rfl⟩

theorem Loops.receive (h : Loops (some t) input done) (hphase : ∀ cb, t.phase ≠ .callback cb)
    {ev : Recv} (hsupplied : ev.Supplied)
    (hroom : t.mainBuf.length + ev.bytes.length ≤ 2 * recvDataBuffer) (src : Nat)
    (info : ConnectInfo) :
    Loops (some ⟨t.slot, .callback (Server.called src info
        (protocolAdapterProcessData ev.packet (t.mainBuf ++ ev.bytes))), t.mainBuf ++ ev.bytes⟩)
      (input ++ [ev.bytes]) done := by
  obtain ⟨evs, hbytes, hall, hfits, hrunning, -⟩ := h
  have hrun : RecvLoop.run evs = ⟨t.mainBuf, done, none⟩ := by
    rw [hrunning t rfl, Thread.loop_waiting hphase]
  refine ⟨evs ++ [ev], ?_, ?_, ?_, ?_, nofun⟩
  · rw [List.map_append, hbytes, List.map_singleton]
  · intro e he
    rcases List.mem_append.mp he with he | he
    · exact hall e he
    · rwa [List.mem_singleton.mp he]
  · rw [RecvLoop.run_concat]
    apply RecvLoop.Fits.of_room
    · rw [hrun]
    · rwa [hrun]
  · rintro _ ⟨⟩
    rw [RecvLoop.run_concat, hrun, RecvLoop.step, if_neg (by simp), if_neg (Nat.not_lt.mpr hroom)]
    rfl

end Loops

namespace Server

variable {s s' : Server φ}

def Supplied (_ : Server φ) : Action → Prop
  | .chunk _ bytes packet => (Recv.mk bytes packet).Supplied
  | _ => True

theorem chunk_room {libc : Libc φ} {thread : Nat} {bytes : List UInt8} {packet : Option PDU}
    (h : s.step libc (.chunk thread bytes packet) = some s') (hrunning : s'.halted = none)
    {t : Thread} (ht : s.threads thread = some t) :
    t.mainBuf.length + bytes.length ≤ 2 * recvDataBuffer := by
  by_contra hroom
  unfold step at h
  split at h
  · cases h
  · dsimp only at h
    rw [ht, Option.bind_some] at h
    unfold chunk at h
    split at h
    · split at h
      · rw [if_pos (by omega)] at h
        cases h
        cases hrunning
      · cases h
    · cases h

theorem done_finished {libc : Libc φ} {thread : Nat} (h : s.step libc (.done thread) = some s')
    (hrunning : s'.halted = none) {t : Thread} (ht : s.threads thread = some t) {cb : Callback}
    (hphase : t.phase = .callback cb) : cb.todo = [] ∧ cb.fault = none ∧ cb.effects = [] := by
  unfold step at h
  split at h
  · cases h
  · dsimp only at h
    rw [ht, Option.bind_some] at h
    simp only [done, hphase] at h
    split at h
    · cases h
      cases hrunning
    next heffects htodo hfault => exact ⟨htodo, hfault, heffects⟩
    · cases h

theorem running_of_step {libc : Libc φ} {a : Action} (h : s.step libc a = some s') :
    s.halted = none := by
  unfold step at h
  split at h
  · cases h
  next hrunning => exact Option.not_isSome_iff_eq_none.mp hrunning

structure Tracks (threads : Nat → Option Thread) (accepted : Nat) (log : List Event) : Prop where
  new : ∀ c, accepted ≤ c → threads c = none ∧ chunks log c = [] ∧ processed log c = []
  loops : ∀ c, Loops (threads c) (chunks log c) (processed log c)

namespace Tracks

variable {threads : Nat → Option Thread} {accepted : Nat} {log : List Event}

theorem init : Tracks (fun _ => none) 0 [] := ⟨fun _ _ => ⟨rfl, rfl, rfl⟩, fun _ => loops_none⟩

theorem lt_accepted (h : Tracks threads accepted log) {c : Nat} {t : Thread}
    (ht : threads c = some t) : c < accepted := by
  by_contra hnew
  rw [(h.new c (Nat.not_lt.mp hnew)).1] at ht
  cases ht

theorem turn (h : Tracks threads accepted log) {c : Nat} {t : Thread} (ht : threads c = some t)
    {u : Option Thread} {log' : List Event}
    (hother : ∀ d, d ≠ c → chunks log' d = chunks log d ∧ processed log' d = processed log d)
    (hloops : Loops u (chunks log' c) (processed log' c)) :
    Tracks (Function.update threads c u) accepted log' := by
  have hlt := h.lt_accepted ht
  constructor
  · intro d hd
    have hne : d ≠ c := by omega
    rw [Function.update_of_ne hne, (hother d hne).1, (hother d hne).2]
    exact h.new d hd
  · intro d
    by_cases hd : d = c
    · subst hd
      rwa [Function.update_self]
    · rw [Function.update_of_ne hd, (hother d hd).1, (hother d hd).2]
      exact h.loops d

theorem advance (h : Tracks threads accepted log) {c : Nat} {t t' : Thread}
    (ht : threads c = some t) (hsame : ∀ done, t'.loop done = t.loop done) :
    Tracks (Function.update threads c (some t')) accepted log := by
  have hloops := h.loops c
  rw [ht] at hloops
  exact h.turn ht (fun _ _ => ⟨rfl, rfl⟩) (hloops.thread (hsame _))

theorem finish (h : Tracks threads accepted log) {c : Nat} {t : Thread} (ht : threads c = some t)
    {src : Option Nat} (hphase : t.phase = .blocked src) :
    Tracks (Function.update threads c none) accepted log := by
  have hloops := h.loops c
  rw [ht] at hloops
  apply h.turn ht (fun _ _ => ⟨rfl, rfl⟩) (hloops.ended ?_)
  rw [hphase]
  exact nofun

theorem note (h : Tracks threads accepted log) {log' : List Event}
    (hsame : ∀ d, chunks log' d = chunks log d ∧ processed log' d = processed log d) :
    Tracks threads accepted log' := by
  constructor
  · intro d hd
    rw [(hsame d).1, (hsame d).2]
    exact h.new d hd
  · intro d
    rw [(hsame d).1, (hsame d).2]
    exact h.loops d

theorem start (h : Tracks threads accepted log) (slot : Fin clientCountMax) :
    Tracks (Function.update threads accepted (some ⟨slot, .loop, []⟩)) (accepted + 1)
      (.registered accepted :: log) := by
  obtain ⟨-, hchunks, hprocessed⟩ := h.new accepted (Nat.le_refl _)
  constructor
  · intro d hd
    rw [Function.update_of_ne (by omega)]
    exact h.new d (by omega)
  · intro d
    by_cases hd : d = accepted
    · subst hd
      change Loops _ (chunks log d) (processed log d)
      rw [Function.update_self, hchunks, hprocessed]
      exact loops_new slot
    · rw [Function.update_of_ne hd]
      exact h.loops d

theorem accept (h : Tracks threads accepted log) {log' : List Event}
    (hsame : ∀ d, chunks log' d = chunks log d ∧ processed log' d = processed log d) :
    Tracks threads (accepted + 1) log' := by
  have hnote := h.note hsame
  exact ⟨fun d hd => hnote.new d (by omega), hnote.loops⟩

theorem closeSlot (h : Tracks s.threads s.accepted s.log) (slot : Fin clientCountMax)
    (cause : Cause) : Tracks s.threads s.accepted (s.closeSlot slot cause).log := by
  apply h.note
  intro d
  rcases s.closeSlot_log slot cause with heq | ⟨c, heq⟩ <;> rw [heq] <;> exact ⟨rfl, rfl⟩

end Tracks

theorem loop_recv {t : Thread} (hphase : t.phase = .loop) (src : Option Nat) (done : List PDU) :
    Thread.loop { t with phase := .blocked src } done = t.loop done := by
  rw [t.loop_waiting (by simp [hphase]), Thread.loop_waiting (by simp)]

theorem loop_effect {t : Thread} {cb : Callback} (hphase : t.phase = .callback cb)
    (effects : List Effect) (done : List PDU) :
    Thread.loop { t with phase := .callback { cb with effects := effects } } done = t.loop done := by
  rw [t.loop_callback hphase, Thread.loop_callback rfl]

theorem loop_process {t : Thread} {cb : Callback} (hphase : t.phase = .callback cb) {pdu : PDU}
    {todo : List PDU} (htodo : cb.todo = pdu :: todo) (effects : List Effect) (done : List PDU) :
    Thread.loop { t with phase := .callback { cb with todo := todo, effects := effects } }
      (done ++ [pdu]) = t.loop done := by
  rw [t.loop_callback hphase, Thread.loop_callback rfl, htodo, List.append_assoc,
    List.singleton_append]

theorem loop_done {t : Thread} {cb : Callback} (hphase : t.phase = .callback cb)
    (htodo : cb.todo = []) (hfault : cb.fault = none) (done : List PDU) :
    Thread.loop { t with phase := .loop, mainBuf := t.mainBuf.drop cb.consume.toNat } done =
      t.loop done := by
  rw [t.loop_callback hphase, Thread.loop_waiting (by simp), htodo, hfault, List.append_nil]

theorem tracks_moved (h : Tracks s.threads s.accepted s.log) {libc : Libc φ} {a : Action}
    (hsupplied : s.Supplied a) (hstep : s.step libc a = some s') (hrunning : s'.halted = none) :
    Tracks s'.threads s'.accepted s'.log := by
  cases step_moved hstep with
  | registered hsock hfd => exact h.start _
  | rejected => exact h.accept fun _ => ⟨rfl, rfl⟩
  | unstarted => exact h.accept fun _ => ⟨rfl, rfl⟩
  | recv ht hphase => exact h.advance ht (loop_recv hphase _)
  | @chunk thread t bytes packet src ht hphase =>
      have hroom := chunk_room hstep hrunning ht
      have hloops := h.loops thread
      rw [ht] at hloops
      apply h.turn ht
      · intro d hd
        exact ⟨if_neg hd.symm, rfl⟩
      · have hnocall : ∀ cb, t.phase ≠ .callback cb := by
          rw [hphase]
          exact nofun
        have hchunks : chunks (.handed thread src bytes (s.conns t.slot) :: s.log) thread =
            chunks s.log thread ++ [bytes] := if_pos rfl
        have hreceived := hloops.receive hnocall hsupplied hroom src (s.conns t.slot)
        rw [← hchunks] at hreceived
        exact hreceived
  | @process thread t cb pdu todo machine ht hphase heffects htodo hrun =>
      have hloops := h.loops thread
      rw [ht] at hloops
      apply h.turn ht
      · intro d hd
        exact ⟨rfl, processed_of_ne hd ..⟩
      · have hthread := hloops.thread (loop_process hphase htodo machine.effects _)
        rw [← processed_self thread pdu (pdu.branch cb.bLogin)] at hthread
        exact hthread
  | @setLogin thread _ _ t cb effects slot ht hphase heffects hslot hvalid =>
      change Tracks (Function.update (s.closeSlot (other slot) (.login cb.src)).threads thread _)
        (s.closeSlot (other slot) (.login cb.src)).accepted
        (s.closeSlot (other slot) (.login cb.src)).log
      rw [closeSlot_threads, closeSlot_accepted]
      exact (h.closeSlot _ _).advance ht (loop_effect hphase effects)
  | @reply thread _ _ t cb _ effects _ to' bytes ht hphase heffects hslot hvalid hfd =>
      have hnoted : Tracks s.threads s.accepted (.replied cb.src to' bytes :: s.log) :=
        h.note fun _ => ⟨rfl, rfl⟩
      exact hnoted.advance ht (loop_effect hphase effects)
  | effect ht hphase heffects => exact h.advance ht (loop_effect hphase _)
  | @done thread t cb ht hphase =>
      obtain ⟨htodo, hfault, -⟩ := done_finished hstep hrunning ht hphase
      exact h.advance ht (loop_done hphase htodo hfault)
  | @endOfStream thread t src slot ht hphase hslot =>
      change Tracks (Function.update (s.closeSlot slot (.endOfStream src)).threads thread none)
        (s.closeSlot slot (.endOfStream src)).accepted (s.closeSlot slot (.endOfStream src)).log
      rw [closeSlot_threads, closeSlot_accepted]
      exact (h.closeSlot _ _).finish ht hphase
  | outOfRange ht hphase hslot => exact h.finish ht hphase
  | processFault | halted => cases hrunning

theorem tracks_of_supplied {libc : Libc φ} {machine : Machine φ}
    (h : (server libc machine).ReachableBy Supplied s) (hrunning : s.halted = none) :
    Tracks s.threads s.accepted s.log := by
  induction h with
  | init => exact .init
  | step hreach hsupplied hstep ih =>
      exact tracks_moved (ih (running_of_step hstep)) hsupplied hstep hrunning

end Server

theorem Loops.scan {t : Option Thread} {input : List (List UInt8)} {done : List PDU}
    (h : Loops t input done) : ∃ loop messages, InLoop t done loop ∧
      Carry loop.dispatched messages ∧ (frameScanner protoDataLenMax).scan input.flatten =
        match loop.fault with
        | none => .waiting messages loop.mainBuf
        | some f => .halted messages f := by
  obtain ⟨evs, rfl, hsupplied, hfits, hloop⟩ := h
  have hcapacity : Capacity protoDataLenMax evs := by
    intro ev hev lpPdu hpacket
    obtain ⟨lpPdu', hpacket', hlength⟩ := hsupplied ev hev
    rw [hpacket] at hpacket'
    rw [Option.some.inj hpacket', hlength]
  have hserved : LastServed evs := by
    intro ev hev hnone
    obtain ⟨lpPdu, hpacket, -⟩ := hsupplied ev (List.mem_of_getLast? hev)
    rw [hnone] at hpacket
    cases hpacket
  obtain ⟨messages, hcarry, hscan⟩ := RecvLoop.run_scan hcapacity hserved hfits
  rw [← List.flatMap_def]
  exact ⟨_, messages, hloop, hcarry, hscan⟩

def Thread.Scans (t : Thread) (input : List UInt8) (done : List PDU) : Prop :=
  ∃ messages, Carry (done ++ t.todo) messages ∧ (frameScanner protoDataLenMax).scan input =
    match t.fault with
    | none => .waiting messages t.rest
    | some f => .halted messages f

namespace Server

/-- Whatever the other threads do, even with its slot, every receive thread takes up the
messages that the scan of the bytes handed to it reports, each once and in order, and keeps
what the scan waits on. When it has ended, no message is left. -/
theorem threads_scan {libc : Libc φ} {machine : Machine φ}
    (h : (server libc machine).ReachableBy Supplied s) (hrunning : s.halted = none) (c : Nat) :
    (∀ t, s.threads c = some t → t.Scans (chunks s.log c).flatten (processed s.log c)) ∧
      (s.threads c = none → ∃ messages rest, Carry (processed s.log c) messages ∧
        (frameScanner protoDataLenMax).scan (chunks s.log c).flatten = .waiting messages rest) := by
  obtain ⟨loop, messages, hloop, hcarry, hscan⟩ := ((tracks_of_supplied h hrunning).loops c).scan
  constructor
  · intro t ht
    rw [hloop.running t ht] at hcarry hscan
    exact ⟨messages, hcarry, hscan⟩
  · intro ht
    obtain ⟨hdone, hfault⟩ := hloop.ended ht
    rw [hdone] at hcarry
    rw [hfault] at hscan
    exact ⟨messages, loop.mainBuf, hcarry, hscan⟩

/-- A discovery request that comes in two chunks, while the slot of its thread is given to a
second client that sends one as well. -/
theorem threads_scan_overwritten :
    ∃ s : Server Unit, chunks s.log 0 = [[0x7e, 0xE0], [0x01, 0, 0, 0, 0, 0x01, 0x5F]] ∧
      chunks s.log 1 = [[0x7e]] ∧
      (∀ t, s.threads 0 = some t → t.Scans (chunks s.log 0).flatten (processed s.log 0)) ∧
      (∀ t, s.threads 1 = some t → t.Scans (chunks s.log 1).flatten (processed s.log 1)) := by
  have hinit : (server obligingLibc idleMachine).ReachableBy Supplied (Server.init idleMachine) :=
    .init
  obtain ⟨s, hreach, hs⟩ := hinit.exec
    [firstClient, .recv 0, secondClient, .recv 1, .chunk 0 [0x7e, 0xE0] (some freshPdu),
      .chunk 1 [0x7e] (some freshPdu), .done 0, .recv 0, .done 1,
      .chunk 0 [0x01, 0, 0, 0, 0, 0x01, 0x5F] (some freshPdu), .process 0]
    (by simp [Supplied, Recv.Supplied, freshPdu_data_length, firstClient, secondClient])
    (fun s => (s.halted, chunks s.log 0, chunks s.log 1))
    (b := (none, [[0x7e, 0xE0], [0x01, 0, 0, 0, 0, 0x01, 0x5F]], [[0x7e]])) (by decide +kernel)
  obtain ⟨hrunning, hs⟩ := Prod.mk.inj hs
  obtain ⟨hfirst, hsecond⟩ := Prod.mk.inj hs
  exact ⟨s, hfirst, hsecond, (threads_scan hreach hrunning 0).1, (threads_scan hreach hrunning 1).1⟩

end Server

end CccUpgrade
