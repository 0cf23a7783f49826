import CccUpgrade.Lib.Heap

/-! The idle list of packet_pool.c: a ring of nodes in which those from `head` to `tail`
hold a packet and those between `tail` and `head` are empty. -/
namespace CccUpgrade

open Lib

/-- Undefined behaviour of the list operations, or a loop that does not end. -/
inductive PoolFault
  | null
  | dangling (node : Nat)
  | endless
deriving DecidableEq, Repr

structure PacketNode where
  /-- The packet held, by its address. -/
  pktPtr : Option Nat
  next : Option Nat
deriving DecidableEq, Repr

structure PacketNodeList where
  /-- The nodes that `malloc` has returned. -/
  nodes : Heap PacketNode
  head : Option Nat
  tail : Option Nat
  ringSize : Int
  pktCount : Int
  pktCountMax : Int
deriving DecidableEq, Repr

namespace PacketNodeList

variable (l : PacketNodeList)

def load (node : Option Nat) : Except PoolFault PacketNode :=
  match node with
  | none => .error .null
  | some n =>
      match l.nodes.read n with
      | some content => .ok content
      | none => .error (.dangling n)

def store (node : Option Nat) (content : PacketNode) : Except PoolFault PacketNodeList :=
  match node with
  | none => .error .null
  | some n =>
      match l.nodes.write n content with
      | some nodes => .ok { l with nodes := nodes }
      | none => .error (.dangling n)

def nodeFree (node : Option Nat) : Except PoolFault PacketNodeList :=
  match node with
  | none => .ok l
  | some n =>
      match l.nodes.free n with
      | some nodes => .ok { l with nodes := nodes }
      | none => .error (.dangling n)

def nodeCreate (allocated : Bool) : Option Nat × PacketNodeList :=
  if allocated = false then (none, l)
  else (some (l.nodes.alloc ⟨none, none⟩).1, { l with nodes := (l.nodes.alloc ⟨none, none⟩).2 })

/-- A new node comes behind the tail. -/
def internalPacketPoolNodeInsert (node : Nat) : Except PoolFault PacketNodeList := do
  if l.ringSize ≤ 0 then
    let l ← l.store (some node) { ← l.load (some node) with next := some node }
    return { l with head := some node, tail := some node, ringSize := l.ringSize + 1 }
  else
    let next := (← l.load l.tail).next
    let l ← l.store (some node) { ← l.load (some node) with next := next }
    let l ← l.store l.tail { ← l.load l.tail with next := some node }
    return { l with ringSize := l.ringSize + 1 }

/-- The node behind the tail is removed. -/
def internalPacketPoolNodeDelete : Except PoolFault PacketNodeList := do
  if l.ringSize ≤ 0 then return l
  else if l.ringSize = 1 then
    let l ← l.nodeFree l.tail
    return { l with head := none, tail := none, ringSize := 0 }
  else
    let node := (← l.load l.tail).next
    let next := (← l.load node).next
    let l ← l.store l.tail { ← l.load l.tail with next := next }
    let l ← l.nodeFree node
    return { l with ringSize := l.ringSize - 1 }

def internalPacketPoolNodeAdd (allocated : Bool) : Except PoolFault (Bool × PacketNodeList) :=
  match l.nodeCreate allocated with
  | (none, l) => .ok (false, l)
  | (some node, l) => do return (true, ← l.internalPacketPoolNodeInsert node)

/-- The rest of `internal_packet_pool_save_from_tail`, once there is an empty node. -/
def saveNext (pktPtr : Nat) : Except PoolFault PacketNodeList := do
  let node := (← l.load l.tail).next
  let l ← l.store node { ← l.load node with pktPtr := some pktPtr }
  return { l with tail := node, pktCount := l.pktCount + 1 }

def internalPacketPoolSaveFromTail (pktPtr : Option Nat) (allocated : Bool) :
    Except PoolFault (Bool × PacketNodeList) :=
  match pktPtr with
  | none => .ok (false, l)
  | some pktPtr => do
      -- When all nodes are in use there has to be a new one.
      if l.ringSize = l.pktCount then
        let (added, l) ← l.internalPacketPoolNodeAdd allocated
        if added = false then return (false, l)
        else return (true, ← l.saveNext pktPtr)
      else return (true, ← l.saveNext pktPtr)

def internalPacketPoolGetFromHead : Except PoolFault (Option Nat × PacketNodeList) := do
  if l.ringSize ≤ 0 ∨ l.pktCount ≤ 0 then return (none, l)
  else
    let result := (← l.load l.head).pktPtr
    let l ← l.store l.head { ← l.load l.head with pktPtr := none }
    let next := (← l.load l.head).next
    return (result, { l with head := next, pktCount := l.pktCount - 1 })

/-- The first loop of `internal_packet_pool_delete`, with the packets it deletes. -/
def deletePackets : Nat → PacketNodeList → List Nat → Except PoolFault (List Nat × PacketNodeList)
  | 0, _, _ => .error .endless
  | fuel + 1, l, deleted => do
      if l.pktCountMax < l.pktCount then
        let (packet, l) ← l.internalPacketPoolGetFromHead
        deletePackets fuel l (deleted ++ packet.toList)
      else return (deleted, l)

def deleteNodes : Nat → PacketNodeList → Except PoolFault PacketNodeList
  | 0, _ => .error .endless
  | fuel + 1, l => do
      if l.pktCount < l.ringSize then deleteNodes fuel (← l.internalPacketPoolNodeDelete)
      else return l

/-- `internal_packet_pool_delete`: the packets deleted. Each round takes a packet or a
node away, so one more round than there are is enough. -/
def internalPacketPoolDelete : Except PoolFault (List Nat × PacketNodeList) := do
  let (deleted, l) ← deletePackets (l.pktCount.toNat + 1) l []
  return (deleted, ← deleteNodes (l.ringSize.toNat + 1) l)

/-- `internal_packet_pool_set`: the result and the packets deleted. -/
def internalPacketPoolSet (pktPtr : Option Nat) (allocated : Bool) :
    Except PoolFault ((Bool × List Nat) × PacketNodeList) := do
  let (saved, l) ← l.internalPacketPoolSaveFromTail pktPtr allocated
  if saved = false then return ((false, []), l)
  else if l.pktCountMax < l.pktCount then
    let (deleted, l) ← l.internalPacketPoolDelete
    return ((true, deleted), l)
  else return ((true, []), l)

def empty (pktCountMax : Int) : PacketNodeList := ⟨.empty, none, none, 0, 0, pktCountMax⟩

end PacketNodeList

inductive PoolOp
  /-- `internal_packet_pool_set`; `allocated` says whether `malloc` has room for a node. -/
  | set (pktPtr : Option Nat) (allocated : Bool)
  | getFromHead

inductive PoolReply
  | set (result : Bool) (deleted : List Nat)
  | packet (pktPtr : Option Nat)
deriving DecidableEq, Repr

def PacketNodeList.step (l : PacketNodeList) : PoolOp → Except PoolFault (PoolReply × PacketNodeList)
  | .set pktPtr allocated => do
      let ((result, deleted), l) ← l.internalPacketPoolSet pktPtr allocated
      return (.set result deleted, l)
  | .getFromHead => do
      let (packet, l) ← l.internalPacketPoolGetFromHead
      return (.packet packet, l)

end CccUpgrade
