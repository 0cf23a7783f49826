import CccUpgrade.Adapter.Handlers
import CccUpgrade.Adapter.ProcessData
import CccUpgrade.Network.ClientManager
import CccUpgrade.Network.ReceiveLoop

/-! The TCP server as a system of threads: the accept loop, which registers new
connections, and one receive thread for each registered connection. Each operation
on the connection table runs under its mutex and is one step, as are each call of
`recv`, each PDU handled and each call a handler makes into the network. A connection
has an identity of its own, because the kernel gives descriptor numbers out again. -/
namespace CccUpgrade

open Lib

structure Callback where
  /-- The connection the new bytes came from. -/
  src : Nat
  handle : Int
  bLogin : Bool
  /-- The PDUs of the buffer that are still to be processed. -/
  todo : List PDU
  /-- What the handler of the last PDU still has to do. -/
  effects : List Effect
  consume : Int
  fault : Option Fault

inductive Phase
  | loop
  /-- In `tcp_recv` on a connection, or on a bad descriptor. -/
  | blocked (src : Option Nat)
  | callback (cb : Callback)

structure Thread where
  slot : Fin clientCountMax
  phase : Phase
  /-- The bytes in use at the start of `main_buf`. -/
  mainBuf : List UInt8

inductive Cause
  /-- A receive on the given connection ended or failed. -/
  | endOfStream (src : Option Nat)
  /-- A login that was received on the given connection. -/
  | login (src : Nat)
  | rejected
deriving DecidableEq, Repr

inductive Event
  | registered (conn : Nat)
  /-- Bytes of `conn` are handed to the callback by `thread`, which reads the given
  slot contents for it. -/
  | handed (thread conn : Nat) (bytes : List UInt8) (info : ConnectInfo)
  | processed (thread : Nat) (pdu : PDU) (branch : Branch)
  /-- A reply to a PDU received on `src` has been sent to `to'`. -/
  | replied (src to' : Nat) (bytes : List UInt8)
  | closed (conn : Nat) (cause : Cause)
deriving DecidableEq

structure Server (φ : Type) where
  conns : ConnectTable
  /-- The connection an open descriptor refers to. -/
  fds : Int → Option Nat
  /-- The number of connections accepted so far, which is the next one's identity. -/
  accepted : Nat
  /-- The receive thread of each connection, while it runs. -/
  threads : Nat → Option Thread
  machine : Machine φ
  log : List Event
  halted : Option Fault

inductive Action
  /-- `accept` returns `sock`, and `client_manager_reg` runs. -/
  | accept (sock : Int) (ipAddr : List UInt8) (ipPort : Int) (threadCreated : Bool)
  | recv (thread : Nat)
  /-- `tcp_recv` returns bytes, and the callback starts with the given packet. -/
  | chunk (thread : Nat) (bytes : List UInt8) (packet : Option PDU)
  | process (thread : Nat)
  /-- The next call of a handler into the network. `allocated` says whether it gets a
  packet buffer, `kernel` answers its calls of `send`. -/
  | effect (thread : Nat) (allocated : Bool) (kernel : Nat → Int)
  | done (thread : Nat)
  /-- `tcp_recv` returns no bytes. -/
  | endOfStream (thread : Nat)

namespace Server

variable {φ : Type}

def init (machine : Machine φ) : Server φ where
  conns := clientManagerInit .zero
  fds _ := none
  accepted := 0
  threads _ := none
  machine := machine
  log := []
  halted := none

def setThread (s : Server φ) (thread : Nat) (t : Option Thread) : Server φ :=
  { s with threads := Function.update s.threads thread t }

/-- `close`. A number that is not open is refused. -/
def close (s : Server φ) (sock : Option Int) (cause : Cause) : Server φ :=
  match sock with
  | none => s
  | some sock =>
      match s.fds sock with
      | none => s
      | some conn =>
          { s with
            fds := Function.update s.fds sock none
            log := .closed conn cause :: s.log }

/-- `thread_func_accept_client` with `client_manager_reg`, without a pause between them
(`FineServer` has the pauses). A connection that cannot be registered is closed. -/
def accept (s : Server φ) (sock : Int) (ipAddr : List UInt8) (ipPort : Int)
    (threadCreated : Bool) : Option (Server φ) :=
  if 0 < sock ∧ s.fds sock = none then
    let conn := s.accepted
    let s := { s with fds := Function.update s.fds sock (some conn), accepted := conn + 1 }
    match internalClientManagerNew s.conns sock (some ipAddr) ipPort with
    | (none, conns) => some (({ s with conns := conns }).close (some sock) .rejected)
    | (some slot, conns) =>
        let s := { s with conns := conns }
        if threadCreated then
          some (({ s with log := .registered conn :: s.log }).setThread conn (some ⟨slot, .loop, []⟩))
        else some (s.close (some sock) .rejected)
  else none

/-- The descriptor is read from the slot before every `tcp_recv`, here at once before it
(`FineServer` has the pause). -/
def recv (s : Server φ) (thread : Nat) (t : Thread) : Option (Server φ) :=
  match t.phase with
  | .loop =>
      let sock := (s.conns t.slot).sock
      some (s.setThread thread (some { t with phase := .blocked (s.fds sock) }))
  | _ => none

/-- The code reads `ix` and `b_login` without the mutex. A read between the stores of a
close is one made before that close. -/
def chunk (s : Server φ) (thread : Nat) (t : Thread) (bytes : List UInt8) (packet : Option PDU) :
    Option (Server φ) :=
  match t.phase with
  | .blocked (some src) =>
      if 1 ≤ bytes.length ∧ bytes.length ≤ recvDataBuffer then
        if 2 * recvDataBuffer < t.mainBuf.length + bytes.length then
          some { s with halted := some (.mainBuf (t.mainBuf.length + bytes.length)) }
        else
          let mainBuf := t.mainBuf ++ bytes
          let info := s.conns t.slot
          let r := protocolAdapterProcessData packet mainBuf
          let cb : Callback := ⟨src, info.ix, info.bLogin, r.dispatched, [], r.consume, r.fault⟩
          some (({ s with log := .handed thread src bytes info :: s.log }).setThread thread
            (some { t with phase := .callback cb, mainBuf := mainBuf }))
      else none
  | _ => none

/-- `process_protocol_pdu` on the next PDU, up to its calls into the network. Nothing locks
`l_upload_current`: the step is a handler during which no other one works on it. -/
def process (libc : Libc φ) (s : Server φ) (thread : Nat) (t : Thread) : Option (Server φ) :=
  match t.phase with
  | .callback cb =>
      match cb.effects, cb.todo with
      | [], pdu :: todo =>
          let s := { s with log := .processed thread pdu (pdu.branch cb.bLogin) :: s.log }
          match processProtocolPdu libc pdu cb.bLogin { s.machine with effects := [] } with
          | .error f => some { s with halted := some f }
          | .ok ((), machine) =>
              let cb := { cb with todo := todo, effects := machine.effects }
              some (({ s with machine := machine }).setThread thread
                (some { t with phase := .callback cb }))
      | _, _ => none
  | _ => none

/-- `send_reply_to_client`. Nothing is written for a slot that is not valid or whose
descriptor is not open. -/
def reply (s : Server φ) (cb : Callback) (cmd cmdEx : UInt8) (data : List UInt8)
    (allocated : Bool) (kernel : Nat → Int) : Server φ :=
  if allocated = false then s
  else
    let out := createProtocolPacket cmd cmdEx (some data) data.length true protocolDataSizeMax
    if out.result ≤ 0 then s
    else
      let r := internalClientManagerSend kernel s.conns cb.handle (some out.packet) out.result
      if r.calls = [] then s
      else
        match (ConnectTable.slot? cb.handle).bind fun slot => s.fds (s.conns slot).sock with
        | none => s
        | some to' => { s with log := .replied cb.src to' r.written :: s.log }

def setLogin (s : Server φ) (cb : Callback) : Server φ :=
  let call := internalClientManagerLogin s.conns cb.handle
  ({ s with conns := call.conns }).close call.closed (.login cb.src)

def effect (s : Server φ) (thread : Nat) (t : Thread) (allocated : Bool) (kernel : Nat → Int) :
    Option (Server φ) :=
  match t.phase with
  | .callback cb =>
      match cb.effects with
      | [] => none
      | e :: effects =>
          let s := match e with
            | .setLogin => s.setLogin cb
            | .replyToClient cmd cmdEx data => s.reply cb cmd cmdEx data allocated kernel
            -- The handle of a TCP request is no address, so `sendto` fails.
            | .replyToUdp _ _ _ => s
          some (s.setThread thread
            (some { t with phase := .callback { cb with effects := effects } }))
  | _ => none

def done (s : Server φ) (thread : Nat) (t : Thread) : Option (Server φ) :=
  match t.phase with
  | .callback cb =>
      match cb.effects, cb.todo, cb.fault with
      | [], [], some f => some { s with halted := some f }
      | [], [], none =>
          let mainBuf := t.mainBuf.drop cb.consume.toNat
          some (s.setThread thread (some { t with phase := .loop, mainBuf := mainBuf }))
      | _, _, _ => none
  | _ => none

def endOfStream (s : Server φ) (thread : Nat) (t : Thread) : Option (Server φ) :=
  match t.phase with
  | .blocked src =>
      let call := internalClientManagerClose s.conns (s.conns t.slot).ix
      let s := ({ s with conns := call.conns }).close call.closed (.endOfStream src)
      some (s.setThread thread none)
  | _ => none

def step (libc : Libc φ) (s : Server φ) (a : Action) : Option (Server φ) :=
  if s.halted.isSome then none
  else match a with
    | .accept sock ipAddr ipPort threadCreated => s.accept sock ipAddr ipPort threadCreated
    | .recv thread => (s.threads thread).bind (s.recv thread)
    | .chunk thread bytes packet => (s.threads thread).bind (s.chunk thread · bytes packet)
    | .process thread => (s.threads thread).bind (s.process libc thread)
    | .effect thread allocated kernel => (s.threads thread).bind (s.effect thread · allocated kernel)
    | .done thread => (s.threads thread).bind (s.done thread)
    | .endOfStream thread => (s.threads thread).bind (s.endOfStream thread)

end Server

/-- The server from `client_manager_init` on. -/
def server {φ : Type} (libc : Libc φ) (machine : Machine φ) :
    TransitionSystem (Server φ) Action where
  init := Server.init machine
  step := Server.step libc

end CccUpgrade
