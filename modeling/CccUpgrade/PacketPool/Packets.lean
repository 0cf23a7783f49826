import CccUpgrade.Lib.BoundedQueue
import CccUpgrade.Protocol.Core

/-! The contents of the packets that packet_pool.c hands out. They are not cleared: a
packet holds what its last user has left in it, a new one what was in the memory. -/
namespace CccUpgrade

open Lib

def pktCountMax : Nat := 128

/-- What is in the memory that `malloc` returns for a packet and for its buffer. -/
structure Uncleared where
  packet : PDU
  buffer : Nat → UInt8

/-- `ccc_packet_malloc`: a buffer that is too small is replaced. -/
def PDU.malloc (packet : PDU) (bufferSize : Nat) (memory : Nat → UInt8) : PDU :=
  if packet.data.length < bufferSize then
    { packet with data := (List.range bufferSize).map memory }
  else packet

theorem PDU.malloc_length (packet : PDU) (bufferSize : Nat) (memory : Nat → UInt8) :
    bufferSize ≤ (packet.malloc bufferSize memory).data.length := by
  unfold PDU.malloc
  split
  · simp
  · omega

structure Packets where
  /-- The packets of `g_packet_list_idle`, by their contents. -/
  idle : BoundedQueue PDU pktCountMax
  memory : Nat → Uncleared

namespace Packets

variable (packets : Packets)

/-- `packet_pool_get_buffer` and `packet_pool_get_pdu_buf`, when all memory is allocated. -/
def get (bufferSize : Nat) : PDU × Packets :=
  let new := packets.memory 0
  let packet := packets.idle.take.1.getD { new.packet with data := [] }
  (packet.malloc bufferSize new.buffer, ⟨packets.idle.take.2, fun k => packets.memory (k + 1)⟩)

def set (packet : PDU) : Packets := { packets with idle := (packets.idle.put packet).2 }

theorem get_length (bufferSize : Nat) : bufferSize ≤ (packets.get bufferSize).1.data.length :=
  PDU.malloc_length _ _ _

end Packets

/-- The buffer behind `create_protocol_packet`, which has stored the body and over it
the checksum. -/
def PacketOut.store (out : PacketOut) (buffer : List UInt8) : List UInt8 :=
  let at' := out.trailerAt.toNat
  let stored := out.body ++ buffer.drop out.body.length
  stored.take at' ++ out.trailer ++ stored.drop (at' + 2)

end CccUpgrade
