import CccUpgrade.Network.ReplyPackets
import CccUpgrade.Server.Ownership

/-! The TCP server with the packet pool its threads share. The calls of packet_pool.c run
under its mutex and are one step each. In between, a thread works on the packets it was
given: the PDU it processes and the frame it sends are what it then finds in them. -/
namespace CccUpgrade

open Lib

def Effect.message? : Effect → Option Message
  | .setLogin => none
  | .replyToClient cmd cmdEx data | .replyToUdp cmd cmdEx data => some ⟨cmd, cmdEx, data⟩

inductive Stage
  | between
  /-- The next PDU has been parsed into the packet. -/
  | parsed
  /-- A second packet has a reply of the given size. -/
  | built (reply : Nat) (size : Nat)
  | sent (reply : Nat)
deriving DecidableEq, Repr

structure Lease where
  packet : Nat
  /-- What the parser leaves in the packet in the end, if it is handed back. -/
  left : Option PDU
  stage : Stage
deriving DecidableEq, Repr

def Lease.packets (lease : Lease) : List Nat :=
  match lease.stage with
  | .between | .parsed => [lease.packet]
  | .built reply _ | .sent reply => [lease.packet, reply]

structure PooledServer (φ : Type) where
  server : Server φ
  packets : PoolUse
  /-- The lease of each thread that is in a callback and got a packet for it. -/
  leases : Nat → Option Lease

inductive PooledAction
  /-- A step that has nothing to do with packets. -/
  | server (a : Action)
  | chunk (thread : Nat) (bytes : List UInt8) (mallocs : Mallocs)
  /-- `parse_packet2` finds the next PDU. -/
  | parse (thread : Nat)
  | process (thread : Nat)
  | setLogin (thread : Nat)
  /-- `packet_pool_get_buffer` and `create_protocol_packet`. -/
  | build (thread : Nat) (mallocs : Mallocs)
  | send (thread : Nat) (kernel : Nat → Int)
  /-- `packet_pool_set` behind a reply; `node` says whether `malloc` has room for a node. -/
  | handBack (thread : Nat) (node : Bool)
  | done (thread : Nat) (node : Bool)

namespace Server

variable {φ : Type}

def callback? (s : Server φ) (thread : Nat) : Option (Thread × Callback) :=
  (s.threads thread).bind fun t => match t.phase with
    | .callback cb => some (t, cb)
    | _ => none

/-- `process_protocol_pdu` on the PDU found in the packet. -/
def processFound (libc : Libc φ) (s : Server φ) (thread : Nat) (t : Thread) (cb : Callback)
    (pdu : PDU) : Server φ :=
  let s := { s with log := .processed thread pdu (pdu.branch cb.bLogin) :: s.log }
  match processProtocolPdu libc pdu cb.bLogin { s.machine with effects := [] } with
  | .error f => { s with halted := some f }
  | .ok ((), machine) =>
      let cb := { cb with todo := cb.todo.tail, effects := machine.effects }
      ({ s with machine := machine }).setThread thread (some { t with phase := .callback cb })

/-- The end of `send_reply_to_client`, with the frame found in the packet. -/
def replyFound (s : Server φ) (cb : Callback) (frame : Option (List UInt8)) (size : Nat)
    (kernel : Nat → Int) : Server φ :=
  if size ≤ 0 then s
  else
    let r := internalClientManagerSend kernel s.conns cb.handle frame size
    if r.calls = [] then s
    else
      match (ConnectTable.slot? cb.handle).bind fun slot => s.fds (s.conns slot).sock with
      | none => s
      | some to' => { s with log := .replied cb.src to' r.written :: s.log }

def sendFound (s : Server φ) (thread : Nat) (t : Thread) (cb : Callback) (frame : Option (List UInt8))
    (size : Nat) (kernel : Nat → Int) : Server φ :=
  let s := match cb.effects.head? with
    | some (.replyToClient _ _ _) => s.replyFound cb frame size kernel
    | _ => s
  s.setThread thread (some { t with phase := .callback { cb with effects := cb.effects.tail } })

end Server

namespace PooledServer

variable {φ : Type}

def lend (s : PooledServer φ) (thread : Nat) (lease : Option Lease) : PooledServer φ :=
  { s with leases := Function.update s.leases thread lease }

/-- What the parser leaves in a packet it gets for the bytes of a thread. -/
def leaves (s : PooledServer φ) (thread : Nat) (bytes : List UInt8) (pdu : PDU) : Option PDU :=
  match s.server.threads thread with
  | none => none
  | some t => (protocolAdapterProcessData (some pdu) (t.mainBuf ++ bytes)).packet

/-- The callback starts with `packet_pool_get_pdu_buf`. -/
def chunk (libc : Libc φ) (s : PooledServer φ) (thread : Nat) (bytes : List UInt8)
    (mallocs : Mallocs) : Except PoolFault (Option (PooledServer φ)) := do
  let (packet, packets) ← s.packets.getPduBuf protoDataLenMax mallocs
  match packet with
  | none =>
      return (s.server.step libc (.chunk thread bytes none)).map fun server =>
        { s with server := server, packets := packets }
  | some packet =>
      let pdu := (← packets.pool.load packet).pdu
      return (s.server.step libc (.chunk thread bytes (some pdu))).map fun server =>
        ({ s with server := server, packets := packets }).lend thread
          (some ⟨packet, s.leaves thread bytes pdu, .between⟩)

def build (libc : Libc φ) (s : PooledServer φ) (thread : Nat) (lease : Lease) (m : Message)
    (mallocs : Mallocs) : Except PoolFault (Option (PooledServer φ)) := do
  let (reply, packets) ← s.packets.getBuffer protocolDataSizeMax mallocs
  match reply with
  | none =>
      return (s.server.step libc (.effect thread false fun _ => 0)).map fun server =>
        { s with server := server, packets := packets }
  | some reply =>
      let (size, content) := (← packets.pool.load reply).build m
      let pool ← packets.pool.store reply content
      return some (({ s with packets := ⟨pool, packets.out⟩ }).lend thread
        (some { lease with stage := .built reply size }))

def putBack (packets : PoolUse) (lease : Option Lease) (node : Bool) : Except PoolFault PoolUse :=
  match lease with
  | some ⟨packet, some pdu, _⟩ => do
      let packets ← packets.fill packet pdu
      return (← packets.set (some packet) node).2
  | _ => return packets

def done (libc : Libc φ) (s : PooledServer φ) (thread : Nat) (node : Bool) :
    Except PoolFault (Option (PooledServer φ)) :=
  match s.server.step libc (.done thread) with
  | none => return none
  | some server => do
      let packets ← putBack s.packets (s.leases thread) node
      return some (({ s with server := server, packets := packets }).lend thread none)

def call (libc : Libc φ) (s : PooledServer φ) (thread : Nat) (t : Thread) (cb : Callback)
    (lease : Lease) : PooledAction → Except PoolFault (Option (PooledServer φ))
  | .parse _ =>
      match lease.stage, cb.effects, cb.todo with
      | .between, [], pdu :: _ => do
          let packets ← s.packets.fill lease.packet pdu
          return some (({ s with packets := packets }).lend thread (some { lease with stage := .parsed }))
      | _, _, _ => return none
  | .process _ =>
      match lease.stage with
      | .parsed => do
          let content ← s.packets.pool.load lease.packet
          return some (({ s with
            server := s.server.processFound libc thread t cb content.pdu }).lend thread
              (some { lease with stage := .between }))
      | _ => return none
  | .setLogin _ =>
      match lease.stage, cb.effects with
      | .between, .setLogin :: _ =>
          return (s.server.step libc (.effect thread true fun _ => 0)).map fun server =>
            { s with server := server }
      | _, _ => return none
  | .build _ mallocs =>
      match lease.stage, cb.effects.head?.bind Effect.message? with
      | .between, some m => s.build libc thread lease m mallocs
      | _, _ => return none
  | .send _ kernel =>
      match lease.stage with
      | .built reply size => do
          let content ← s.packets.pool.load reply
          let frame := content.buffer.map (·.take size)
          return some (({ s with
            server := s.server.sendFound thread t cb frame size kernel }).lend thread
              (some { lease with stage := .sent reply }))
      | _ => return none
  | .handBack _ node =>
      match lease.stage with
      | .sent reply => do
          let (_, packets) ← s.packets.set (some reply) node
          return some (({ s with packets := packets }).lend thread
            (some { lease with stage := .between }))
      | _ => return none
  | _ => return none

def inCallback (libc : Libc φ) (s : PooledServer φ) (thread : Nat) (a : PooledAction) :
    Except PoolFault (Option (PooledServer φ)) :=
  match s.server.callback? thread, s.leases thread with
  | some (t, cb), some lease => s.call libc thread t cb lease a
  | _, _ => return none

def Outside : Action → Bool
  | .accept _ _ _ _ | .recv _ | .endOfStream _ => true
  | _ => false

/-- A pool fault is undefined behaviour; `none` is a step that is not enabled. -/
def step (libc : Libc φ) (s : PooledServer φ) (a : PooledAction) :
    Except PoolFault (Option (PooledServer φ)) :=
  if s.server.halted.isSome then return none
  else match a with
    | .server a =>
        if Outside a then
          return (s.server.step libc a).map fun server => { s with server := server }
        else return none
    | .chunk thread bytes mallocs => s.chunk libc thread bytes mallocs
    | .done thread node =>
        match s.leases thread with
        | none | some ⟨_, _, .between⟩ => s.done libc thread node
        | _ => return none
    | .parse thread | .process thread | .setLogin thread | .build thread _ | .send thread _
    | .handBack thread _ => s.inCallback libc thread a

def init (machine : Machine φ) : PooledServer φ := ⟨.init machine, .init, fun _ => none⟩

end PooledServer

def pooledServer {φ : Type} (libc : Libc φ) (machine : Machine φ) :
    TransitionSystem (PooledServer φ) PooledAction where
  init := .init machine
  step s a := (s.step libc a).toOption.join

end CccUpgrade
