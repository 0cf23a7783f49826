import CccUpgrade.Server.Steps

/-! The server with the pauses of `accept` and `recv`. Between `accept` and the start of the
receive thread the accept loop works on the new connection while the other threads go on, and
a receive thread reads the number of its descriptor before it calls `recv` on that number. A
number that is read while its slot is being closed is one read before. In a run in which
`accept` never returns a number that a thread still has in hand, what happens is what happens
without the pauses. -/
namespace CccUpgrade

open Lib ConnectTable

inductive Accepting
  /-- In `accept`. -/
  | waiting
  /-- The descriptor and the connection that `accept` has returned. -/
  | accepted (sock : Int) (conn : Nat) (ipAddr : List UInt8) (ipPort : Int)
  /-- `client_manager_new` has put the connection into a slot, which has no thread yet. -/
  | seated (sock : Int) (conn : Nat) (slot : Fin clientCountMax)
  /-- The callback has returned 0. -/
  | refused (sock : Int) (conn : Nat)

structure FineServer (φ : Type) where
  server : Server φ
  accepting : Accepting
  /-- The number a thread has read from its slot for its next `recv`. -/
  held : Nat → Option Int

inductive FineAction
  | accept (sock : Int) (ipAddr : List UInt8) (ipPort : Int)
  /-- `client_manager_new`. -/
  | new
  /-- `thread_create` in `client_manager_reg`. -/
  | create (created : Bool)
  /-- `thread_func_accept_client` closes a connection that was not registered. -/
  | refuse
  /-- A thread reads `conn_info->sock`. -/
  | read (thread : Nat)
  /-- A thread calls `recv` on the number it has read. -/
  | recv (thread : Nat)
  | rest (a : Action)

/-- What a receive thread does once it has called `recv`. -/
def Action.AfterRecv : Action → Prop
  | .accept .. | .recv _ => False
  | .chunk .. | .process _ | .effect .. | .done _ | .endOfStream _ => True

def Action.thread : Action → Nat
  | .accept .. => 0
  | .recv thread | .chunk thread _ _ | .process thread | .effect thread _ _ | .done thread
  | .endOfStream thread => thread

instance : DecidablePred Action.AfterRecv
  | .accept .. | .recv _ => .isFalse id
  | .chunk .. | .process _ | .effect .. | .done _ | .endOfStream _ => .isTrue trivial

namespace FineServer

variable {φ : Type}

def init (machine : Machine φ) : FineServer φ := ⟨Server.init machine, .waiting, fun _ => none⟩

def accept (s : FineServer φ) (sock : Int) (ipAddr : List UInt8) (ipPort : Int) :
    Option (FineServer φ) :=
  match s.accepting with
  | .waiting =>
      if 0 < sock ∧ s.server.fds sock = none then
        let conn := s.server.accepted
        some { s with
          server := { s.server with
            fds := Function.update s.server.fds sock (some conn), accepted := conn + 1 }
          accepting := .accepted sock conn ipAddr ipPort }
      else none
  | _ => none

def new (s : FineServer φ) : Option (FineServer φ) :=
  match s.accepting with
  | .accepted sock conn ipAddr ipPort =>
      match internalClientManagerNew s.server.conns sock (some ipAddr) ipPort with
      | (none, conns) =>
          some { s with server := { s.server with conns := conns }, accepting := .refused sock conn }
      | (some slot, conns) =>
          some { s with
            server := { s.server with conns := conns, log := .registered conn :: s.server.log }
            accepting := .seated sock conn slot }
  | _ => none

def create (s : FineServer φ) (created : Bool) : Option (FineServer φ) :=
  match s.accepting with
  | .seated sock conn slot =>
      if created then
        some { s with
          server := s.server.setThread conn (some ⟨slot, .loop, []⟩), accepting := .waiting }
      else some { s with accepting := .refused sock conn }
  | _ => none

def refuse (s : FineServer φ) : Option (FineServer φ) :=
  match s.accepting with
  | .refused sock _ =>
      some { s with server := s.server.close (some sock) .rejected, accepting := .waiting }
  | _ => none

def read (s : FineServer φ) (thread : Nat) (t : Thread) : Option (FineServer φ) :=
  match t.phase, s.held thread with
  | .loop, none =>
      some { s with held := Function.update s.held thread (some (s.server.conns t.slot).sock) }
  | _, _ => none

def recv (s : FineServer φ) (thread : Nat) (t : Thread) : Option (FineServer φ) :=
  match t.phase, s.held thread with
  | .loop, some sock =>
      some { s with
        server := s.server.setThread thread (some { t with phase := .blocked (s.server.fds sock) })
        held := Function.update s.held thread none }
  | _, _ => none

def step (libc : Libc φ) (s : FineServer φ) (a : FineAction) : Option (FineServer φ) :=
  if s.server.halted.isSome then none
  else match a with
    | .accept sock ipAddr ipPort => s.accept sock ipAddr ipPort
    | .new => s.new
    | .create created => s.create created
    | .refuse => s.refuse
    | .read thread => (s.server.threads thread).bind (s.read thread)
    | .recv thread => (s.server.threads thread).bind (s.recv thread)
    | .rest a => if a.AfterRecv then (s.server.step libc a).map ({ s with server := · }) else none

end FineServer

namespace Server

variable {φ : Type} {libc : Libc φ} {s s' : Server φ}

/-- The step of a thread in `recv` or behind it. -/
def turn (libc : Libc φ) (s : Server φ) (thread : Nat) (t : Thread) : Action → Option (Server φ)
  | .accept .. | .recv _ => none
  | .chunk _ bytes packet => s.chunk thread t bytes packet
  | .process _ => s.process libc thread t
  | .effect _ allocated kernel => s.effect thread t allocated kernel
  | .done _ => s.done thread t
  | .endOfStream _ => s.endOfStream thread t

theorem step_turn {a : Action} (ha : a.AfterRecv) : s.step libc a =
    if s.halted.isSome then none
    else (s.threads a.thread).bind (s.turn libc a.thread · a) := by
  cases a with
  | accept | recv => cases ha
  | chunk | process | effect | done | endOfStream => rfl

theorem turn_loop {t : Thread} (hphase : t.phase = .loop) (thread : Nat) (a : Action) :
    s.turn libc thread t a = none := by
  cases a with
  | accept | recv => rfl
  | chunk => simp only [turn, chunk, hphase]
  | process => simp only [turn, process, hphase]
  | effect => simp only [turn, effect, hphase]
  | done => simp only [turn, done, hphase]
  | endOfStream => simp only [turn, endOfStream, hphase]

/-- Other descriptors, threads and number of connections than the server has. -/
structure Overlay where
  fds : (Int → Option Nat) → Int → Option Nat
  accepted : Nat → Nat
  threads : (Nat → Option Thread) → Nat → Option Thread

namespace Overlay

def on (v : Overlay) (s : Server φ) : Server φ :=
  { s with fds := v.fds s.fds, accepted := v.accepted s.accepted, threads := v.threads s.threads }

/-- Neither the descriptors of the slots nor the thread are concerned. -/
structure Spares (v : Overlay) (s : Server φ) (thread : Nat) : Prop where
  thread : ∀ threads u, Function.update (v.threads threads) thread u =
    v.threads (Function.update threads thread u)
  fd : ∀ i, v.fds s.fds (s.conns i).sock = s.fds (s.conns i).sock
  closed : ∀ i, Function.update (v.fds s.fds) (s.conns i).sock none =
    v.fds (Function.update s.fds (s.conns i).sock none)

namespace Spares

variable {v : Overlay} {thread : Nat} (h : v.Spares s thread)
include h

theorem setThread (s' : Server φ) (u : Option Thread) :
    (v.on s').setThread thread u = v.on (s'.setThread thread u) :=
  congrArg (fun threads => { v.on s' with threads := threads }) (h.thread s'.threads u)

theorem close (conns : ConnectTable) (i : Fin clientCountMax) (cause : Cause) :
    ({ v.on s with conns := conns } : Server φ).close (tcpClose (s.conns i).sock) cause =
      v.on (({ s with conns := conns } : Server φ).close (tcpClose (s.conns i).sock) cause) := by
  unfold tcpClose
  split
  · rfl
  · unfold Server.close
    dsimp only [on]
    rw [h.fd i]
    cases s.fds (s.conns i).sock with
    | none => rfl
    | some c =>
        dsimp only
        rw [h.closed i]

theorem setLogin (cb : Callback) : (v.on s).setLogin cb = v.on (s.setLogin cb) := by
  have hconns : (v.on s).conns = s.conns := rfl
  unfold Server.setLogin
  rw [hconns]
  rcases login_cases s.conns cb.handle with heq | ⟨slot, -, -, heq⟩ <;> rw [heq]
  · rfl
  · exact h.close ..

theorem reply (cb : Callback) (cmd cmdEx : UInt8) (data : List UInt8) (allocated : Bool)
    (kernel : Nat → Int) : (v.on s).reply cb cmd cmdEx data allocated kernel =
      v.on (s.reply cb cmd cmdEx data allocated kernel) := by
  unfold Server.reply
  dsimp only [on]
  simp only [h.fd]
  split
  · rfl
  split
  · rfl
  split
  · rfl
  cases (slot? cb.handle).bind fun slot => s.fds (s.conns slot).sock <;> rfl

theorem chunk (t : Thread) (bytes : List UInt8) (packet : Option PDU) :
    (v.on s).chunk thread t bytes packet = (s.chunk thread t bytes packet).map v.on := by
  unfold Server.chunk
  split
  · split
    · dsimp only
      split
      · rfl
      · dsimp only [Option.map_some]
        rw [← h.setThread]
        rfl
    · rfl
  · rfl

theorem process (libc : Libc φ) (t : Thread) :
    (v.on s).process libc thread t = (s.process libc thread t).map v.on := by
  unfold Server.process
  split
  next cb hphase =>
    split
    next pdu todo heffects htodo =>
      dsimp only [on]
      cases processProtocolPdu libc pdu cb.bLogin { s.machine with effects := [] } with
      | error => rfl
      | ok r =>
          dsimp only [Option.map_some]
          rw [← h.setThread]
          rfl
    · rfl
  · rfl

theorem effect (t : Thread) (allocated : Bool) (kernel : Nat → Int) :
    (v.on s).effect thread t allocated kernel = (s.effect thread t allocated kernel).map v.on := by
  unfold Server.effect
  split
  next cb hphase =>
    split
    · rfl
    next e effects heffects =>
      dsimp only [Option.map_some]
      rw [← h.setThread]
      cases e with
      | setLogin =>
          dsimp only
          rw [h.setLogin]
      | replyToClient cmd cmdEx data =>
          dsimp only
          rw [h.reply]
      | replyToUdp => rfl
  · rfl

theorem done (t : Thread) : (v.on s).done thread t = (s.done thread t).map v.on := by
  unfold Server.done
  split
  · split
    · rfl
    · exact congrArg some (h.setThread s _)
    · rfl
  · rfl

theorem endOfStream (t : Thread) :
    (v.on s).endOfStream thread t = (s.endOfStream thread t).map v.on := by
  unfold Server.endOfStream
  split
  next src hphase =>
    dsimp only [Option.map_some]
    rw [← h.setThread]
    change some (Server.setThread (Server.close { v.on s with
      conns := (internalClientManagerClose s.conns (s.conns t.slot).ix).conns } _ _) _ _) = _
    unfold internalClientManagerClose
    dsimp only [on]
    split
    · rfl
    · exact congrArg (fun s => some (s.setThread thread none)) (h.close ..)
  · rfl

theorem turn (libc : Libc φ) (t : Thread) (a : Action) :
    (v.on s).turn libc thread t a = (s.turn libc thread t a).map v.on := by
  cases a with
  | accept | recv => rfl
  | chunk _ bytes packet => exact h.chunk t bytes packet
  | process => exact h.process libc t
  | effect _ allocated kernel => exact h.effect t allocated kernel
  | done => exact h.done t
  | endOfStream => exact h.endOfStream t

end Spares

end Overlay

/-- The server before `accept` has returned a connection. -/
def without (s : Server φ) (sock : Int) (conn : Nat) : Server φ :=
  { s with fds := Function.update s.fds sock none, accepted := conn }

section Without

variable {sock : Int} {conn : Nat}

@[simp] theorem without_conns : (s.without sock conn).conns = s.conns := rfl

@[simp] theorem without_threads : (s.without sock conn).threads = s.threads := rfl

@[simp] theorem without_halted : (s.without sock conn).halted = s.halted := rfl

theorem step_without (hsock : ∀ i, (s.conns i).sock ≠ sock) {a : Action} (ha : a.AfterRecv) :
    (s.without sock conn).step libc a = (s.step libc a).map (·.without sock conn) := by
  let before : Overlay := ⟨(Function.update · sock none), fun _ => conn, id⟩
  have hspares : before.Spares s a.thread :=
    ⟨fun _ _ => rfl, fun i => Function.update_of_ne (hsock i) ..,
      fun i => Function.update_comm (hsock i).symm ..⟩
  rw [step_turn ha, step_turn ha, without_halted, without_threads]
  split
  · rfl
  · rw [Option.map_bind]
    exact congrArg _ (funext fun t => hspares.turn libc t a)

end Without

section Seated

variable {conn : Nat} {u : Option Thread}

theorem setThread_comm {thread : Nat} (hne : thread ≠ conn) (s : Server φ) (t : Option Thread) :
    (s.setThread conn u).setThread thread t = (s.setThread thread t).setThread conn u := by
  unfold setThread
  dsimp only
  rw [Function.update_comm hne.symm]

theorem step_seated (hnone : s.threads conn = none) {u : Thread} (hphase : u.phase = .loop)
    {a : Action} (ha : a.AfterRecv) :
    (s.setThread conn (some u)).step libc a = (s.step libc a).map (·.setThread conn (some u)) := by
  let seated : Overlay := ⟨id, id, (Function.update · conn (some u))⟩
  rw [step_turn ha, step_turn ha]
  change (if s.halted.isSome then none
    else (Function.update s.threads conn (some u) a.thread).bind _) = _
  split
  · rfl
  by_cases hc : a.thread = conn
  · rw [hc, hnone, Function.update_self]
    exact turn_loop hphase conn a
  · have hspares : seated.Spares s a.thread :=
      ⟨fun _ _ => Function.update_comm (Ne.symm hc) .., fun _ => rfl, fun _ => rfl⟩
    rw [Function.update_of_ne hc, Option.map_bind]
    exact congrArg _ (funext fun t => hspares.turn libc t a)

end Seated

end Server

/-- The server with its pauses, from `client_manager_init` on. -/
def fineServer {φ : Type} (libc : Libc φ) (machine : Machine φ) :
    TransitionSystem (FineServer φ) FineAction where
  init := FineServer.init machine
  step := FineServer.step libc

end CccUpgrade
