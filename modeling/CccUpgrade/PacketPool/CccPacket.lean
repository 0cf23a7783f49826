import CccUpgrade.PacketPool.Packets
import CccUpgrade.PacketPool.Refinement

/-! packet_pool.c over ccc_packet.c: the packets behind the idle list, their buffers and
the answers of `malloc`. Beside the pool stand the packets its callers hold. -/
namespace CccUpgrade

open Lib

/-- `CCCPACKET`. `un.pdu.data` points into `buffer`. -/
structure CccPacket where
  pdu : PDU
  /-- The block that `malloc` has returned for the buffer. -/
  buffer : Option (List UInt8)
  bufferSize : Int
deriving DecidableEq, Repr

/-- How `malloc` answers one call of the pool: with the memory it finds or with NULL. -/
structure Mallocs where
  packet : Option PDU
  buffer : Option (Nat → UInt8)

namespace CccPacket

variable (packet : CccPacket)

/-- `cccpacket_check_buffer`. The old buffer is freed before there is a new one. -/
def cccpacketCheckBuffer (bufferSize : Int) (memory : Option (Nat → UInt8)) : Bool × CccPacket :=
  if bufferSize ≤ 0 then (false, packet)
  else if packet.buffer = none ∨ packet.bufferSize < bufferSize then
    match memory with
    | none => (false, { packet with buffer := none })
    | some memory =>
        (true, { packet with
          buffer := some ((List.range bufferSize.toNat).map memory), bufferSize := bufferSize })
  else (true, packet)

def fill (pdu : PDU) : CccPacket :=
  { packet with
    pdu := pdu
    buffer := packet.buffer.map fun old => pdu.data.take old.length ++ old.drop pdu.data.length }

end CccPacket

structure PacketPool where
  /-- `g_packet_list_idle`. -/
  idle : PacketNodeList
  /-- The packets that `malloc` has returned. -/
  packets : Heap CccPacket
deriving DecidableEq, Repr

namespace PacketPool

variable (pool : PacketPool)

def load (packet : Nat) : Except PoolFault CccPacket :=
  match pool.packets.read packet with
  | some content => .ok content
  | none => .error (.dangling packet)

def store (packet : Nat) (content : CccPacket) : Except PoolFault PacketPool :=
  match pool.packets.write packet content with
  | some packets => .ok { pool with packets := packets }
  | none => .error (.dangling packet)

def cccPacketCreate (memory : Option PDU) : Option Nat × PacketPool :=
  match memory with
  | none => (none, pool)
  | some pdu =>
      let created := pool.packets.alloc ⟨pdu, none, 0⟩
      (some created.1, { pool with packets := created.2 })

def cccPacketMalloc (packet : Nat) (bufferSize : Int) (memory : Option (Nat → UInt8)) :
    Except PoolFault (Bool × PacketPool) := do
  let (result, content) := (← pool.load packet).cccpacketCheckBuffer bufferSize memory
  return (result, ← pool.store packet content)

def cccPacketDelete (packet : Nat) : Except PoolFault PacketPool :=
  match pool.packets.free packet with
  | some packets => .ok { pool with packets := packets }
  | none => .error (.dangling packet)

def deleteAll : List Nat → PacketPool → Except PoolFault PacketPool
  | [], pool => return pool
  | packet :: deleted, pool => do deleteAll deleted (← pool.cccPacketDelete packet)

def internalPacketPoolGet (reqBufferSize : Int) (mallocs : Mallocs) :
    Except PoolFault (Option Nat × PacketPool) := do
  let (result, idle) ← pool.idle.internalPacketPoolGetFromHead
  let pool := { pool with idle := idle }
  let (result, pool) := if result.isSome then (result, pool) else pool.cccPacketCreate mallocs.packet
  match result with
  | none => return (none, pool)
  | some packet =>
      if 0 < reqBufferSize then
        -- What `ccc_packet_malloc` returns is not looked at.
        let (_, pool) ← pool.cccPacketMalloc packet reqBufferSize mallocs.buffer
        return (some packet, pool)
      else return (some packet, pool)

def packetPoolGetBuffer (reqBufferSize : Int) (mallocs : Mallocs) :
    Except PoolFault (Option Nat × PacketPool) :=
  pool.internalPacketPoolGet reqBufferSize mallocs

def packetPoolGetPduBuf (bufferSize : Int) (mallocs : Mallocs) :
    Except PoolFault (Option Nat × PacketPool) := do
  let (result, pool) ← pool.packetPoolGetBuffer bufferSize mallocs
  match result with
  | none => return (none, pool)
  | some packet =>
      let content ← pool.load packet
      let pdu := { content.pdu with data := content.buffer.getD [] }
      return (some packet, ← pool.store packet { content with pdu := pdu })

/-- `packet_pool_set`; `allocated` says whether `malloc` has room for a node. -/
def packetPoolSet (pktPtr : Option Nat) (allocated : Bool) :
    Except PoolFault (Bool × PacketPool) := do
  let ((result, deleted), idle) ← pool.idle.internalPacketPoolSet pktPtr allocated
  return (result, ← deleteAll deleted { pool with idle := idle })

def next (memory : Option PDU) : Option CccPacket :=
  match pool.idle.internalPacketPoolGetFromHead with
  | .ok (some packet, _) => pool.packets.read packet
  | .ok (none, _) => memory.map fun pdu => ⟨pdu, none, 0⟩
  | .error _ => none

end PacketPool

/-- The pool, and the packets that were handed out and not handed back. -/
structure PoolUse where
  pool : PacketPool
  out : List Nat
deriving DecidableEq, Repr

namespace PoolUse

variable (s : PoolUse)

def getBuffer (reqBufferSize : Int) (mallocs : Mallocs) :
    Except PoolFault (Option Nat × PoolUse) := do
  let (result, pool) ← s.pool.packetPoolGetBuffer reqBufferSize mallocs
  return (result, ⟨pool, result.toList ++ s.out⟩)

def getPduBuf (bufferSize : Int) (mallocs : Mallocs) :
    Except PoolFault (Option Nat × PoolUse) := do
  let (result, pool) ← s.pool.packetPoolGetPduBuf bufferSize mallocs
  return (result, ⟨pool, result.toList ++ s.out⟩)

def set (pktPtr : Option Nat) (allocated : Bool) : Except PoolFault (Bool × PoolUse) := do
  let (result, pool) ← s.pool.packetPoolSet pktPtr allocated
  return (result, ⟨pool, s.out.diff pktPtr.toList⟩)

def fill (packet : Nat) (pdu : PDU) : Except PoolFault PoolUse := do
  let pool ← s.pool.store packet ((← s.pool.load packet).fill pdu)
  return ⟨pool, s.out⟩

def init : PoolUse := ⟨⟨.empty pktCountMax, .empty⟩, []⟩

end PoolUse

/-- `packet_pool_get` is `getBuffer 0`. -/
inductive PoolCall
  | getBuffer (reqBufferSize : Int) (mallocs : Mallocs)
  | getPduBuf (bufferSize : Int) (mallocs : Mallocs)
  | set (pktPtr : Option Nat) (allocated : Bool)
  | fill (packet : Nat) (pdu : PDU)

def PoolUse.call (s : PoolUse) : PoolCall → Except PoolFault PoolUse
  | .getBuffer reqBufferSize mallocs => return (← s.getBuffer reqBufferSize mallocs).2
  | .getPduBuf bufferSize mallocs => return (← s.getPduBuf bufferSize mallocs).2
  | .set pktPtr allocated => return (← s.set pktPtr allocated).2
  | .fill packet pdu => s.fill packet pdu

end CccUpgrade
