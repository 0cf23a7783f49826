import CccUpgrade.Server.Steps

/-! The start of the server. `tcp_server_start` starts the accept thread before it
resets the connection table and sets the callback, and the two run side by side:
each store of `client_manager_init` is a step of its own, as are the two halves of
`client_manager_reg` and everything the receive threads do. -/
namespace CccUpgrade

open Lib ConnectTable

inductive StartStmt
  | tcpSocket
  | tpServerBind
  | tpServerAccept
  | ix (k : Fin clientCountMax)
  | bValid (k : Fin clientCountMax)
  | bLogin (k : Fin clientCountMax)
  | sock (k : Fin clientCountMax)
  | networkCallback
deriving DecidableEq, Repr

/-- The loop of `client_manager_init`. -/
def clientManagerInitStmts : List StartStmt :=
  (List.finRange clientCountMax).flatMap fun k => [.ix k, .bValid k, .bLogin k, .sock k]

def tcpServerStart : List StartStmt :=
  [.tcpSocket, .tpServerBind, .tpServerAccept] ++ clientManagerInitStmts ++ [.networkCallback]

def StartStmt.store (conns : ConnectTable) : StartStmt → ConnectTable
  | .ix k => conns.set k { conns k with ix := k.val }
  | .bValid k => conns.set k { conns k with bValid := false }
  | .bLogin k => conns.set k { conns k with bLogin := false }
  | .sock k => conns.set k { conns k with sock := -1 }
  | _ => conns

def StartStmt.slot : StartStmt → Option (Fin clientCountMax)
  | .ix k | .bValid k | .bLogin k | .sock k => some k
  | _ => none

/-- Undisturbed, the stores are those of `client_manager_init`. -/
theorem clientManagerInitStmts_eq (conns : ConnectTable) :
    clientManagerInitStmts.foldl StartStmt.store conns = clientManagerInit conns := by
  funext k
  match k with
  | 0 => rfl
  | 1 => rfl

/-- A connection between `client_manager_new` and `thread_create`. -/
structure Seat where
  conn : Nat
  sock : Int
  slot : Fin clientCountMax

namespace Server

variable {φ : Type}

/-- The first half of `accept`: the connection takes a slot, or is closed. -/
def seat (s : Server φ) (sock : Int) (ipAddr : List UInt8) (ipPort : Int) :
    Option (Option Seat × Server φ) :=
  if 0 < sock ∧ s.fds sock = none then
    let conn := s.accepted
    let s := { s with fds := Function.update s.fds sock (some conn), accepted := conn + 1 }
    match internalClientManagerNew s.conns sock (some ipAddr) ipPort with
    | (none, conns) => some (none, ({ s with conns := conns }).close (some sock) .rejected)
    | (some slot, conns) => some (some ⟨conn, sock, slot⟩, { s with conns := conns })
  else none

/-- The second half: the receive thread is started, or the connection closed. -/
def threadCreate (s : Server φ) (seat : Seat) (created : Bool) : Server φ :=
  if created then
    ({ s with log := .registered seat.conn :: s.log }).setThread seat.conn
      (some ⟨seat.slot, .loop, []⟩)
  else s.close (some seat.sock) .rejected

/-- With nothing in between, the two halves are the one step. -/
theorem accept_eq_seat (s : Server φ) (sock : Int) (ipAddr : List UInt8) (ipPort : Int)
    (created : Bool) : s.accept sock ipAddr ipPort created =
      (s.seat sock ipAddr ipPort).map fun r =>
        match r.1 with
        | none => r.2
        | some seat => r.2.threadCreate seat created := by
  unfold accept seat threadCreate
  split
  · dsimp only
    split
    · simp_all
    · cases created <;> simp_all
  · rfl

/-- Bytes that arrive while no callback is set: `output_client_recv_data` returns 0 and
they stay in `main_buf`. -/
def unserved (s : Server φ) (thread : Nat) (t : Thread) (bytes : List UInt8) : Option (Server φ) :=
  match t.phase with
  | .blocked (some _) =>
      if 1 ≤ bytes.length ∧ bytes.length ≤ recvDataBuffer then
        if 2 * recvDataBuffer < t.mainBuf.length + bytes.length then
          some { s with halted := some (.mainBuf (t.mainBuf.length + bytes.length)) }
        else
          some (s.setThread thread (some { t with phase := .loop, mainBuf := t.mainBuf ++ bytes }))
      else none
  | _ => none

end Server

def Event.Unserved (ev : Event) : Prop :=
  (∀ thread conn bytes info, ev ≠ .handed thread conn bytes info) ∧
    ∀ thread pdu branch, ev ≠ .processed thread pdu branch

structure StartUp (φ : Type) where
  server : Server φ
  remaining : List StartStmt
  /-- Whether the accept thread runs. -/
  accepting : Bool
  /-- Whether `l_network_callback` is set. -/
  callback : Bool
  pending : Option Seat
  /-- The connections that `client_manager_reg` has registered, with their slots. -/
  registered : List (Nat × Fin clientCountMax)

inductive StartAction
  /-- The next statement of `tcp_server_start`; `succeeds` is for the calls that can fail. -/
  | start (succeeds : Bool)
  | seat (sock : Int) (ipAddr : List UInt8) (ipPort : Int)
  | threadCreate (created : Bool)
  | server (a : Action)

namespace StartUp

variable {φ : Type}

def init (machine : Machine φ) : StartUp φ where
  server := { Server.init machine with conns := .zero }
  remaining := tcpServerStart
  accepting := false
  callback := false
  pending := none
  registered := []

def start (s : StartUp φ) (succeeds : Bool) : Option (StartUp φ) :=
  match s.remaining with
  | [] => none
  | stmt :: remaining =>
      match stmt with
      | .tcpSocket | .tpServerBind =>
          some { s with remaining := if succeeds then remaining else [] }
      | .tpServerAccept =>
          some { s with remaining := if succeeds then remaining else [], accepting := succeeds }
      | .networkCallback => some { s with remaining := remaining, callback := true }
      | stmt =>
          some { s with
            remaining := remaining
            server := { s.server with conns := stmt.store s.server.conns } }

def seat (s : StartUp φ) (sock : Int) (ipAddr : List UInt8) (ipPort : Int) : Option (StartUp φ) :=
  if s.accepting = false ∨ s.pending.isSome then none
  else (s.server.seat sock ipAddr ipPort).map fun r => { s with pending := r.1, server := r.2 }

def threadCreate (s : StartUp φ) (created : Bool) : Option (StartUp φ) :=
  match s.pending with
  | none => none
  | some seat =>
      some { s with
        pending := none
        server := s.server.threadCreate seat created
        registered := if created then (seat.conn, seat.slot) :: s.registered else s.registered }

def receive (libc : Libc φ) (s : StartUp φ) (a : Action) : Option (StartUp φ) :=
  match a with
  | .accept .. => none
  | .chunk thread bytes packet =>
      let next :=
        if s.callback then s.server.step libc (.chunk thread bytes packet)
        else (s.server.threads thread).bind (s.server.unserved thread · bytes)
      next.map fun server => { s with server := server }
  | a => (s.server.step libc a).map fun server => { s with server := server }

def step (libc : Libc φ) (s : StartUp φ) (a : StartAction) : Option (StartUp φ) :=
  if s.server.halted.isSome then none
  else match a with
    | .start succeeds => s.start succeeds
    | .seat sock ipAddr ipPort => s.seat sock ipAddr ipPort
    | .threadCreate created => s.threadCreate created
    | .server a => s.receive libc a

/-- A connection that has been registered is valid in its slot, by its own descriptor. -/
structure InTable (s : StartUp φ) (conn : Nat) (slot : Fin clientCountMax) : Prop where
  registered : (conn, slot) ∈ s.registered
  valid : (s.server.conns slot).bValid = true
  sock : s.server.fds (s.server.conns slot).sock = some conn

def ErasesNothing (s : StartUp φ) : Prop :=
  ∀ succeeds s', s.start succeeds = some s' → ∀ conn slot, s.InTable conn slot → s'.InTable conn slot

def Waits (s : StartUp φ) : Prop :=
  s.callback = false → ∀ ev ∈ s.server.log, ev.Unserved

/-- No connection takes a slot that `client_manager_init` has still to reset. -/
def TakesResetSlot (s : StartUp φ) : StartAction → Prop
  | .seat _ _ _ => ∀ stmt ∈ s.remaining, stmt.slot ≠ some (newSlot s.server.conns)
  | _ => True

instance (s : StartUp φ) : DecidablePred s.TakesResetSlot
  | .seat _ _ _ => inferInstanceAs (Decidable (∀ stmt ∈ s.remaining, _))
  | .start _ | .threadCreate _ | .server _ => inferInstanceAs (Decidable True)

end StartUp

def startUp {φ : Type} (libc : Libc φ) (machine : Machine φ) :
    TransitionSystem (StartUp φ) StartAction where
  init := StartUp.init machine
  step := StartUp.step libc

structure Server.Idle {φ : Type} (s : Server φ) : Prop where
  threads : ∀ thread t cb, s.threads thread = some t → t.phase ≠ .callback cb
  log : ∀ ev ∈ s.log, ev.Unserved

namespace Server.Idle

variable {φ : Type} {s s' : Server φ}

theorem of_log (h : s.Idle) (hthreads : s'.threads = s.threads)
    (hlog : ∀ ev ∈ s'.log, ev ∈ s.log ∨ ev.Unserved) : s'.Idle where
  threads := by
    rw [hthreads]
    exact h.threads
  log := fun ev hev => (hlog ev hev).elim (h.log ev) id

theorem setThread (h : s.Idle) (thread : Nat) {t : Thread} (ht : ∀ cb, t.phase ≠ .callback cb) :
    (s.setThread thread (some t)).Idle where
  threads := by
    intro d u cb hd
    rcases (setThread_threads s).mp hd with ⟨-, heq⟩ | ⟨-, heq⟩
    · rw [← Option.some.inj heq]
      exact ht cb
    · exact h.threads d u cb heq
  log := h.log

theorem endThread (h : s.Idle) (thread : Nat) : (s.setThread thread none).Idle where
  threads := by
    intro d u cb hd
    rcases (setThread_threads s).mp hd with ⟨-, heq⟩ | ⟨-, heq⟩
    · cases heq
    · exact h.threads d u cb heq
  log := h.log

theorem close (h : s.Idle) (sock : Option Int) (cause : Cause) : (s.close sock cause).Idle := by
  apply h.of_log (s.close_threads sock cause)
  intro ev hev
  rcases s.close_cases sock cause with heq | ⟨n, c, -, -, heq⟩ <;> rw [heq] at hev
  · exact .inl hev
  · rcases List.mem_cons.mp hev with rfl | hbefore
    · exact .inr ⟨nofun, nofun⟩
    · exact .inl hbefore

theorem conns (h : s.Idle) (conns : ConnectTable) : ({ s with conns := conns } : Server φ).Idle :=
  h.of_log rfl fun _ hev => .inl hev

theorem seat (h : s.Idle) {sock : Int} {ipAddr : List UInt8} {ipPort : Int}
    {r : Option Seat × Server φ} (hseat : s.seat sock ipAddr ipPort = some r) : r.2.Idle := by
  have hseated : ∀ conns fds accepted,
      ({ s with conns := conns, fds := fds, accepted := accepted } : Server φ).Idle :=
    fun _ _ _ => h.of_log rfl fun _ hev => .inl hev
  unfold Server.seat at hseat
  split at hseat
  · dsimp only at hseat
    split at hseat
    · cases hseat
      dsimp only
      exact (hseated _ _ _).close _ _
    · cases hseat
      exact hseated _ _ _
  · cases hseat

theorem threadCreate (h : s.Idle) (seat : Seat) (created : Bool) :
    (s.threadCreate seat created).Idle := by
  have hregistered : ({ s with log := .registered seat.conn :: s.log } : Server φ).Idle := by
    refine h.of_log rfl fun ev hev => ?_
    rcases List.mem_cons.mp hev with rfl | hbefore
    · exact .inr ⟨nofun, nofun⟩
    · exact .inl hbefore
  unfold Server.threadCreate
  split
  · exact hregistered.setThread _ fun _ => nofun
  · exact h.close _ _

theorem unserved (h : s.Idle) {thread : Nat} {t : Thread} {bytes : List UInt8}
    (hrun : s.unserved thread t bytes = some s') : s'.Idle := by
  unfold Server.unserved at hrun
  split at hrun
  · split at hrun
    · split at hrun
      · cases hrun
        exact h.of_log rfl fun _ hev => .inl hev
      · cases hrun
        exact h.setThread _ fun _ => nofun
    · cases hrun
  · cases hrun

theorem step (h : s.Idle) {libc : Libc φ} {a : Action}
    (haccept : ∀ sock ipAddr ipPort created, a ≠ .accept sock ipAddr ipPort created)
    (hchunk : ∀ thread bytes packet, a ≠ .chunk thread bytes packet)
    (hstep : s.step libc a = some s') : s'.Idle := by
  cases step_moved hstep with
  | registered | rejected | unstarted => exact absurd rfl (haccept _ _ _ _)
  | chunk => exact absurd rfl (hchunk _ _ _)
  | recv => exact h.setThread _ fun _ => nofun
  | process ht hphase | processFault ht hphase | setLogin ht hphase | reply ht hphase
  | effect ht hphase | done ht hphase => exact absurd hphase (h.threads _ _ _ ht)
  | endOfStream =>
      apply endThread
      exact (h.conns _).close _ _
  | outOfRange => exact h.endThread _
  | halted => exact h.of_log rfl fun _ hev => .inl hev

end Server.Idle

namespace StartUp

variable {φ : Type} {libc : Libc φ} {machine : Machine φ} {s s' : StartUp φ}

theorem start_cases {succeeds : Bool} (h : s.start succeeds = some s') :
    s'.registered = s.registered ∧ s'.pending = s.pending ∧ s'.remaining <:+ s.remaining ∧
      (s'.callback = true ∨ s'.callback = s.callback) ∧ ∃ stmt ∈ s.remaining,
        s'.server = { s.server with conns := stmt.store s.server.conns } := by
  unfold start at h
  split at h
  · cases h
  · rename_i stmt remaining hremaining
    have htail : remaining <:+ s.remaining := by
      rw [hremaining]
      exact List.suffix_cons _ _
    have hfailed : (if succeeds then remaining else []) <:+ s.remaining := by
      split
      · exact htail
      · exact List.nil_suffix
    have hmem : stmt ∈ s.remaining := by
      rw [hremaining]
      exact List.mem_cons_self
    split at h <;> cases h
    · exact ⟨rfl, rfl, hfailed, .inr rfl, _, hmem, rfl⟩
    · exact ⟨rfl, rfl, hfailed, .inr rfl, _, hmem, rfl⟩
    · exact ⟨rfl, rfl, hfailed, .inr rfl, _, hmem, rfl⟩
    · exact ⟨rfl, rfl, htail, .inl rfl, _, hmem, rfl⟩
    · exact ⟨rfl, rfl, htail, .inr rfl, _, hmem, rfl⟩

theorem receive_cases {a : Action} (h : s.receive libc a = some s') :
    ∃ server, s' = { s with server := server } ∧
      (s.callback = false → s.server.Idle → server.Idle) := by
  unfold receive at h
  split at h
  · cases h
  · rename_i thread bytes packet
    obtain ⟨server, hnext, rfl⟩ := Option.map_eq_some_iff.mp h
    refine ⟨server, rfl, fun hcallback hidle => ?_⟩
    rw [hcallback, if_neg (by simp)] at hnext
    obtain ⟨t, -, hrun⟩ := Option.bind_eq_some_iff.mp hnext
    exact hidle.unserved hrun
  · rename_i a haccept hchunk
    obtain ⟨server, hstep, rfl⟩ := Option.map_eq_some_iff.mp h
    exact ⟨server, rfl, fun _ hidle => hidle.step haccept hchunk hstep⟩

inductive Moved (s : StartUp φ) : StartAction → StartUp φ → Prop
  | start {succeeds : Bool} {next : StartUp φ} (h : s.start succeeds = some next) :
      Moved s (.start succeeds) next
  | seat {sock : Int} {ipAddr : List UInt8} {ipPort : Int} {r : Option Seat × Server φ}
      (h : s.server.seat sock ipAddr ipPort = some r) :
      Moved s (.seat sock ipAddr ipPort) { s with pending := r.1, server := r.2 }
  | threadCreate {created : Bool} {seat : Seat} (h : s.pending = some seat) :
      Moved s (.threadCreate created)
        { s with
          pending := none
          server := s.server.threadCreate seat created
          registered := if created then (seat.conn, seat.slot) :: s.registered else s.registered }
  | server {a : Action} {server : Server φ}
      (h : s.callback = false → s.server.Idle → server.Idle) :
      Moved s (.server a) { s with server := server }

theorem step_moved {a : StartAction} (h : s.step libc a = some s') : s.Moved a s' := by
  unfold step at h
  split at h
  · cases h
  cases a with
  | start succeeds => exact .start h
  | seat sock ipAddr ipPort =>
      dsimp only at h
      unfold seat at h
      split at h
      · cases h
      · obtain ⟨r, hseat, rfl⟩ := Option.map_eq_some_iff.mp h
        exact .seat hseat
  | threadCreate created =>
      dsimp only at h
      unfold threadCreate at h
      split at h
      · cases h
      · rename_i seat hpending
        cases h
        exact .threadCreate hpending
  | server a =>
      obtain ⟨server, rfl, hidle⟩ := receive_cases h
      exact .server hidle

section Runs

variable {guard : StartUp φ → StartAction → Prop}

def IdleUntilSet (s : StartUp φ) : Prop := s.callback = false → s.server.Idle

theorem idle_of_reachable (hreach : (startUp libc machine).ReachableBy guard s) :
    s.IdleUntilSet := by
  apply hreach.invariant
  · exact fun _ => ⟨fun _ _ _ hnone => (by cases hnone), nofun⟩
  · intro s a s' _ hidle _ hstep
    cases step_moved hstep with
    | start h =>
        obtain ⟨-, -, -, hcallback, stmt, -, hserver⟩ := start_cases h
        intro hunset
        rcases hcallback with hset | hsame
        · rw [hset] at hunset
          cases hunset
        · rw [hserver]
          exact (hidle (hsame.symm.trans hunset)).conns _
    | seat h => exact fun hunset => (hidle hunset).seat h
    | threadCreate => exact fun hunset => (hidle hunset).threadCreate _ _
    | server h => exact fun hunset => h hunset (hidle hunset)

structure Placed (s : StartUp φ) : Prop where
  registered : ∀ conn slot, (conn, slot) ∈ s.registered → ∀ stmt ∈ s.remaining, stmt.slot ≠ some slot
  pending : ∀ seat, s.pending = some seat → ∀ stmt ∈ s.remaining, stmt.slot ≠ some seat.slot

theorem seat_slot {server : Server φ} {sock : Int} {ipAddr : List UInt8} {ipPort : Int}
    {r : Option Seat × Server φ} (h : server.seat sock ipAddr ipPort = some r) {seat : Seat}
    (hseat : r.1 = some seat) : seat.slot = newSlot server.conns := by
  unfold Server.seat at h
  split at h
  · rcases new_cases server.conns sock (some ipAddr) ipPort with heq | ⟨addr, heq⟩ <;>
      simp only [heq] at h <;> cases h
    · cases hseat
    · cases hseat
      rfl
  · cases h

theorem placed_step {a : StartAction} (h : s.Placed) (hguard : s.TakesResetSlot a)
    (hstep : s.step libc a = some s') : s'.Placed := by
  cases step_moved hstep with
  | start hstart =>
      obtain ⟨hregistered, hpending, hremaining, -, -⟩ := start_cases hstart
      constructor
      · intro conn slot hmem stmt hstmt
        exact h.registered conn slot (hregistered ▸ hmem) stmt (hremaining.mem hstmt)
      · intro seat hseat stmt hstmt
        exact h.pending seat (hpending ▸ hseat) stmt (hremaining.mem hstmt)
  | seat hseat =>
      refine ⟨h.registered, fun seat htaken => ?_⟩
      rw [seat_slot hseat htaken]
      exact hguard
  | threadCreate hpending =>
      refine ⟨fun conn slot hmem => ?_, nofun⟩
      dsimp only at hmem
      split at hmem
      · rcases List.mem_cons.mp hmem with heq | hbefore
        · cases heq
          exact h.pending _ hpending
        · exact h.registered conn slot hbefore
      · exact h.registered conn slot hmem
  | server => exact ⟨h.registered, h.pending⟩

theorem store_of_ne (conns : ConnectTable) {stmt : StartStmt} {slot : Fin clientCountMax}
    (h : stmt.slot ≠ some slot) : stmt.store conns slot = conns slot := by
  have hset : ∀ k info, some k ≠ some slot → conns.set k info slot = conns slot := by
    intro k info hne
    exact set_of_ne conns (fun heq => hne (congrArg some heq.symm)) info
  cases stmt with
  | ix k | bValid k | bLogin k | sock k => exact hset k _ h
  | tcpSocket | tpServerBind | tpServerAccept | networkCallback => rfl

theorem Placed.erasesNothing (h : s.Placed) : s.ErasesNothing := by
  intro succeeds s' hstart conn slot hin
  obtain ⟨hregistered, -, -, -, stmt, hstmt, hserver⟩ := start_cases hstart
  have hsame : s'.server.conns slot = s.server.conns slot := by
    rw [hserver]
    exact store_of_ne s.server.conns (h.registered conn slot hin.registered stmt hstmt)
  constructor
  · rw [hregistered]
    exact hin.registered
  · rw [hsame]
    exact hin.valid
  · rw [hsame, hserver]
    exact hin.sock

end Runs

end StartUp

/-- Where no connection takes a slot that is still to be reset, start-up erases no
registered connection; and no bytes are processed before the callback is set. -/
theorem start_up_order {φ : Type} {libc : Libc φ} {machine : Machine φ} {s : StartUp φ}
    (hreach : (startUp libc machine).ReachableBy StartUp.TakesResetSlot s) :
    s.ErasesNothing ∧ s.Waits := by
  constructor
  · have hplaced : s.Placed := by
      apply hreach.invariant
      · exact ⟨nofun, nofun⟩
      · exact fun _ _ _ _ hplaced hguard hstep => StartUp.placed_step hplaced hguard hstep
    exact hplaced.erasesNothing
  · exact fun hunset => (StartUp.idle_of_reachable hreach hunset).log

def earlyClient : List StartAction :=
  [.start true, .start true, .start true, .seat 5 [0x31] 4000, .threadCreate true, .start true]

/-- What is looked at: the registered connections, the first slot and the next statement. -/
def StartUp.glance {φ : Type} (s : StartUp φ) :
    List (Nat × Fin clientCountMax) × Bool × Option Nat × Option StartStmt :=
  let first := s.server.conns ⟨0, Nat.zero_lt_two⟩
  (s.registered, first.bValid, s.server.fds first.sock, s.remaining.head?)

/-- The early client is registered, and then `client_manager_init` makes its slot invalid. -/
theorem start_up_order_early :
    ¬ ∀ s, (startUp obligingLibc idleMachine).Reachable s → s.ErasesNothing ∧ s.Waits := by
  intro h
  have hrun : ((startUp obligingLibc idleMachine).exec (StartUp.init idleMachine) earlyClient).map
      StartUp.glance = some ([(0, 0)], true, some 0, some (.bValid 0)) := by decide +kernel
  obtain ⟨s, hreach, hglance⟩ := TransitionSystem.ReachableBy.exec .init earlyClient
    (fun _ _ _ => trivial) StartUp.glance hrun
  simp only [StartUp.glance, Prod.mk.injEq] at hglance
  obtain ⟨hregistered, hvalid, hsock, hnext⟩ := hglance
  obtain ⟨remaining, hremaining⟩ := List.head?_eq_some_iff.mp hnext
  have hin : s.InTable 0 0 := ⟨by rw [hregistered]; exact List.mem_cons_self, hvalid, hsock⟩
  have hstart : s.start true = some { s with
      remaining := remaining
      server := { s.server with conns := StartStmt.store s.server.conns (.bValid 0) } } := by
    simp only [StartUp.start, hremaining]
  have hkept := ((h s hreach).1 true _ hstart 0 0 hin).valid
  simp [StartStmt.store] at hkept

/-- A client that connects when its slot, but not yet the other one, has been reset. -/
theorem start_up_order_reset :
    ∃ s, s.glance = ([(0, 0)], true, some 0, some (.bValid 1)) ∧
      (startUp obligingLibc idleMachine).ReachableBy StartUp.TakesResetSlot s ∧
      s.ErasesNothing ∧ s.Waits := by
  have hrun : (((startUp obligingLibc idleMachine).guarded StartUp.TakesResetSlot).exec
      (StartUp.init idleMachine) (List.replicate 7 (.start true) ++
        [.seat 5 [0x31] 4000, .threadCreate true, .start true])).map StartUp.glance =
      some ([(0, 0)], true, some 0, some (.bValid 1)) := by decide +kernel
  obtain ⟨s, hreach, hglance⟩ := TransitionSystem.ReachableBy.exec .init _ (fun _ _ _ => trivial)
    StartUp.glance hrun
  have hallowed := hreach.of_guarded fun _ _ _ => id
  exact ⟨s, hglance, hallowed, start_up_order hallowed⟩

end CccUpgrade
