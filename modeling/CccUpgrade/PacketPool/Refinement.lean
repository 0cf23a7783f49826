import CccUpgrade.Lib.BoundedQueue
import CccUpgrade.Lib.Refinement
import CccUpgrade.PacketPool.Ring

/-! The idle list is a bounded queue of packets. Next to the packets the abstract state
only says how many empty nodes there are, on which it depends whether a packet that is
given back needs a new one. -/
namespace CccUpgrade

open Lib

/-- What the idle list is for: packets that are given back are handed out again, in
the same order, and the oldest is dropped when there are too many. -/
structure IdlePackets (capacity : Nat) where
  queue : BoundedQueue Nat capacity
  spare : Nat

namespace IdlePackets

variable {capacity : Nat}

def init : IdlePackets capacity := ⟨.empty, 0⟩

def step (s : IdlePackets capacity) : PoolOp → PoolReply × IdlePackets capacity
  | .set none _ => (.set false [], s)
  | .set (some packet) allocated =>
      if s.spare = 0 ∧ allocated = false then (.set false [], s)
      else
        let (deleted, queue) := s.queue.put packet
        (.set true deleted, ⟨queue, if deleted = [] then s.spare - 1 else 0⟩)
  | .getFromHead =>
      match s.queue.items with
      | [] => (.packet none, s)
      | _ :: _ => (.packet s.queue.take.1, ⟨s.queue.take.2, s.spare + 1⟩)

end IdlePackets

namespace PacketNodeList

variable {l : PacketNodeList} {empties : List Nat} {fulls : List (Nat × Nat)}

namespace Ring

theorem alloc (h : l.Ring empties fulls) (content : PacketNode) :
    ({ l with nodes := (l.nodes.alloc content).2 } : PacketNodeList).Ring empties fulls where
  nodup := h.nodup
  ringSize := h.ringSize
  pktCount := h.pktCount
  tail := h.tail
  idle := h.idle
  linked := by
    intro hnodes
    have hkept : ∀ other ∈ ringNodes empties fulls,
        (l.nodes.alloc content).2.read other = l.nodes.read other := fun other hmem =>
      Heap.read_alloc_of_lt l.nodes content (h.live hmem).lt
    obtain ⟨first, start, hhead, hempties, hfulls⟩ := h.linked hnodes
    refine ⟨first, start, hhead, frame_emptyCells hempties ?_, frame_fullCells hfulls ?_⟩
    · exact fun other hmem => hkept other (List.mem_append_left _ hmem)
    · exact fun other hmem => hkept other (List.mem_append_right _ hmem)

theorem nodeAdd (h : l.Ring [] fulls) :
    ∃ node l', l.internalPacketPoolNodeAdd true = .ok (true, l') ∧ l'.Ring [node] fulls ∧
      l'.pktCountMax = l.pktCountMax := by
  have hread := Heap.read_alloc l.nodes ⟨none, none⟩
  have hring := h.alloc ⟨none, none⟩
  have hnew : (l.nodes.alloc ⟨none, none⟩).1 ∉ fulls.map Prod.fst := fun hmem =>
    (h.live (List.mem_append_right [] hmem)).ne_alloc ⟨none, none⟩ rfl
  have hinsert : ∃ l', ({ l with nodes := (l.nodes.alloc ⟨none, none⟩).2 } :
      PacketNodeList).internalPacketPoolNodeInsert (l.nodes.alloc ⟨none, none⟩).1 = .ok l' ∧
        l'.Ring [(l.nodes.alloc ⟨none, none⟩).1] fulls ∧ l'.pktCountMax = l.pktCountMax := by
    rcases List.eq_nil_or_concat' fulls with rfl | ⟨before, ⟨last, packet⟩, rfl⟩
    · exact hring.nodeInsert_first hread
    · exact hring.nodeInsert hread hnew
  obtain ⟨l', hrun, hring', hmax⟩ := hinsert
  refine ⟨_, l', ?_, hring', hmax⟩
  simp only [internalPacketPoolNodeAdd, nodeCreate, Bool.true_eq_false, if_false, hrun]
  rfl

theorem nodeAdd_failed : l.internalPacketPoolNodeAdd false = .ok (false, l) := rfl

theorem saveFromTail_refused (h : l.Ring [] fulls) (packet : Nat) :
    l.internalPacketPoolSaveFromTail (some packet) false = .ok (false, l) := by
  have hsizes := h.ringSize
  have hcount := h.pktCount
  unfold internalPacketPoolSaveFromTail
  dsimp only
  rw [if_pos (by simp [hsizes, hcount]), nodeAdd_failed]
  rfl

theorem saveFromTail (h : l.Ring empties fulls) (packet : Nat) {allocated : Bool}
    (hroom : ¬ (empties.length = 0 ∧ allocated = false)) :
    ∃ node l', l.internalPacketPoolSaveFromTail (some packet) allocated = .ok (true, l') ∧
      l'.Ring empties.tail (fulls ++ [(node, packet)]) ∧ l'.pktCountMax = l.pktCountMax := by
  have hsizes := h.ringSize
  have hcount := h.pktCount
  unfold internalPacketPoolSaveFromTail
  dsimp only
  cases empties with
  | nil =>
      obtain rfl : allocated = true := by simpa using hroom
      obtain ⟨node, l₁, hadd, hring, hmax⟩ := h.nodeAdd
      obtain ⟨l₂, hsave, hring', hmax'⟩ := hring.saveNext packet
      refine ⟨node, l₂, ?_, hring', hmax'.trans hmax⟩
      rw [if_pos (by simp [hsizes, hcount]), hadd]
      simp only [bind, Except.bind, pure, Except.pure, Bool.true_eq_false, if_false, hsave]
  | cons node rest =>
      obtain ⟨l', hsave, hring, hmax⟩ := h.saveNext packet
      refine ⟨node, l', ?_, hring, hmax⟩
      rw [List.length_cons] at hsizes
      rw [if_neg (by omega), hsave]
      rfl

theorem deletePackets {excess capacity : Nat} (h : l.Ring empties fulls)
    (hmax : l.pktCountMax = capacity) (hexcess : fulls.length = excess + capacity) (fuel : Nat)
    (hfuel : excess < fuel) (deleted : List Nat) :
    ∃ l', PacketNodeList.deletePackets fuel l deleted =
        .ok (deleted ++ (fulls.map Prod.snd).take excess, l') ∧
      l'.Ring (empties ++ (fulls.map Prod.fst).take excess) (fulls.drop excess) ∧
      l'.pktCountMax = capacity := by
  have hcount := h.pktCount
  induction fuel generalizing l empties fulls excess deleted with
  | zero => omega
  | succ fuel ih =>
      rw [PacketNodeList.deletePackets]
      cases excess with
      | zero =>
          refine ⟨l, ?_, by simpa using h, hmax⟩
          rw [if_neg (by omega), List.take_zero, List.append_nil]
          rfl
      | succ excess =>
          cases fulls with
          | nil =>
              rw [List.length_nil] at hexcess
              omega
          | cons cell rest =>
              obtain ⟨l₁, hget, hring, hmax₁⟩ := h.getFromHead
              rw [List.length_cons] at hexcess hcount
              have hexcess' : rest.length = excess + capacity := by omega
              obtain ⟨l₂, hrest, hring₂, hmax₂⟩ := ih hring (hmax₁.trans hmax) hexcess' (by omega)
                (deleted ++ [cell.2]) hring.pktCount
              refine ⟨l₂, ?_, ?_, hmax₂⟩
              · rw [if_pos (by omega), hget]
                simp only [bind, Except.bind, Option.toList_some, hrest]
                simp
              · simpa using hring₂

theorem deleteNodes (h : l.Ring empties fulls) (hsafe : fulls = [] → empties.length ≤ 1)
    (fuel : Nat) (hfuel : empties.length < fuel) :
    ∃ l', PacketNodeList.deleteNodes fuel l = .ok l' ∧ l'.Ring [] fulls ∧
      l'.pktCountMax = l.pktCountMax := by
  have hsizes := h.ringSize
  have hcount := h.pktCount
  induction fuel generalizing l empties with
  | zero => omega
  | succ fuel ih =>
      rw [PacketNodeList.deleteNodes]
      cases empties with
      | nil =>
          refine ⟨l, ?_, h, rfl⟩
          rw [if_neg (by simp [hsizes, hcount])]
          rfl
      | cons node rest =>
          rw [List.length_cons] at hsizes hfuel hsafe
          have hdelete : ∃ l', l.internalPacketPoolNodeDelete = .ok l' ∧ l'.Ring rest fulls ∧
              l'.pktCountMax = l.pktCountMax := by
            rcases List.eq_nil_or_concat' fulls with rfl | ⟨before, ⟨last, packet⟩, rfl⟩
            · obtain rfl : rest = [] := List.length_eq_zero_iff.mp (by have := hsafe rfl; omega)
              exact h.nodeDelete_only
            · exact h.nodeDelete
          obtain ⟨l₁, hrun, hring, hmax⟩ := hdelete
          obtain ⟨l₂, hrest, hring₂, hmax₂⟩ := ih hring (fun hnil => by have := hsafe hnil; omega)
            (by omega) hring.ringSize hring.pktCount
          refine ⟨l₂, ?_, hring₂, hmax₂.trans hmax⟩
          rw [if_pos (by omega), hrun]
          exact hrest

end Ring

/-- The list is a well-formed ring that holds the packets of the queue. -/
structure Represents {capacity : Nat} (l : PacketNodeList) (s : IdlePackets capacity)
    (empties : List Nat) (fulls : List (Nat × Nat)) : Prop where
  ring : l.Ring empties fulls
  packets : fulls.map Prod.snd = s.queue.items
  spare : empties.length = s.spare
  pktCountMax : l.pktCountMax = capacity
  size : empties.length + fulls.length ≤ capacity

def WellFormed {capacity : Nat} (s : IdlePackets capacity) (l : PacketNodeList) : Prop :=
  ∃ empties fulls, l.Represents s empties fulls

section Steps

variable {capacity : Nat} {s : IdlePackets capacity}

theorem Represents.length (h : l.Represents s empties fulls) :
    fulls.length = s.queue.items.length := by
  rw [← h.packets, List.length_map]

theorem set_room (h : l.Represents s empties fulls) (packet : Nat) {allocated : Bool}
    (hroom : ¬ (empties.length = 0 ∧ allocated = false)) (hfit : fulls.length < capacity) :
    ∃ l', l.step (.set (some packet) allocated) = .ok (.set true [], l') ∧
      WellFormed ⟨(s.queue.put packet).2, s.spare - 1⟩ l' := by
  obtain ⟨node, l₁, hsave, hring, hmax⟩ := h.ring.saveFromTail packet hroom
  have hcount := hring.pktCount
  have hmax' := hmax.trans h.pktCountMax
  have hsize := h.size
  rw [List.length_append, List.length_singleton] at hcount
  refine ⟨l₁, ?_, empties.tail, fulls ++ [(node, packet)], hring, ?_, ?_, hmax', ?_⟩
  · simp only [PacketNodeList.step, internalPacketPoolSet, hsave, bind, Except.bind]
    rw [if_neg (by simp), if_neg (by omega)]
    rfl
  · rw [(s.queue.put_room packet (by rw [← h.length]; exact hfit)).2, List.map_append, h.packets]
    rfl
  · rw [List.length_tail, h.spare]
  · rw [List.length_tail, List.length_append, List.length_singleton]
    omega

theorem set_full (h : l.Represents s empties fulls) (packet : Nat) {allocated : Bool}
    (hroom : ¬ (empties.length = 0 ∧ allocated = false)) (hfull : fulls.length = capacity) :
    ∃ oldest rest l', s.queue.items ++ [packet] = oldest :: rest ∧
      l.step (.set (some packet) allocated) = .ok (.set true [oldest], l') ∧
      WellFormed ⟨(s.queue.put packet).2, 0⟩ l' := by
  obtain ⟨node, l₁, hsave, hring, hmax⟩ := h.ring.saveFromTail packet hroom
  have hmax' := hmax.trans h.pktCountMax
  have hsize := h.size
  have hempty : empties = [] := List.length_eq_zero_iff.mp (by omega)
  have hpackets : (fulls ++ [(node, packet)]).map Prod.snd = s.queue.items ++ [packet] := by
    rw [List.map_append, h.packets]
    rfl
  have hlength : (fulls ++ [(node, packet)]).length = 1 + capacity := by
    rw [List.length_append, List.length_singleton, hfull, Nat.add_comm]
  generalize fulls ++ [(node, packet)] = fulls' at hring hpackets hlength
  subst hempty
  cases fulls' with
  | nil =>
      rw [List.length_nil] at hlength
      omega
  | cons cell rest =>
      have hcount := hring.pktCount
      have hitems : s.queue.items ++ [packet] = cell.2 :: rest.map Prod.snd := hpackets.symm
      have hput := s.queue.put_full (by rw [← h.length]; exact hfull) hitems
      rw [List.length_cons] at hlength hcount
      obtain ⟨l₂, hpkts, hring₂, hmax₂⟩ := hring.deletePackets hmax' hlength
        (l₁.pktCount.toNat + 1) (by omega) []
      have hsizes := hring₂.ringSize
      simp only [List.tail_nil, List.nil_append, List.map_cons, List.take_succ_cons, List.take_zero,
        List.drop_succ_cons, List.drop_zero, List.length_singleton] at hpkts hring₂ hsizes
      obtain ⟨l₃, hnodes, hring₃, hmax₃⟩ := hring₂.deleteNodes (fun _ => Nat.le_refl 1)
        (l₂.ringSize.toNat + 1) (by rw [List.length_singleton]; omega)
      refine ⟨cell.2, rest.map Prod.snd, l₃, hitems, ?_, [], rest, hring₃, hput.2.symm, rfl,
        hmax₃.trans hmax₂, ?_⟩
      · simp only [PacketNodeList.step, internalPacketPoolSet, hsave, bind, Except.bind]
        rw [if_neg (by simp), if_pos (by omega)]
        simp only [internalPacketPoolDelete, bind, Except.bind, hpkts, hnodes, pure, Except.pure]
      · rw [List.length_nil]
        omega

theorem getFromHead_represents (h : l.Represents s empties fulls) :
    ∃ l', l.step .getFromHead = .ok ((s.step .getFromHead).1, l') ∧
      WellFormed (s.step .getFromHead).2 l' := by
  have hpackets := h.packets
  cases fulls with
  | nil =>
      have hstep : s.step .getFromHead = (.packet none, s) := by
        simp only [IdlePackets.step, ← hpackets, List.map_nil]
      refine ⟨l, ?_, hstep ▸ ⟨empties, [], h⟩⟩
      rw [hstep]
      simp only [PacketNodeList.step, h.ring.getFromHead_empty]
      rfl
  | cons cell rest =>
      have hsize := h.size
      have hstep : s.step .getFromHead =
          (.packet (some cell.2), ⟨s.queue.take.2, s.spare + 1⟩) := by
        simp only [IdlePackets.step, BoundedQueue.take, ← hpackets, List.map_cons, List.head?_cons]
      obtain ⟨l', hget, hring, hmax⟩ := h.ring.getFromHead
      rw [hstep]
      refine ⟨l', ?_, empties ++ [cell.1], rest, hring, ?_, ?_, hmax.trans h.pktCountMax, ?_⟩
      · simp only [PacketNodeList.step, hget]
        rfl
      · simp only [BoundedQueue.take, ← hpackets, List.map_cons, List.tail_cons]
      · rw [List.length_append, List.length_singleton, h.spare]
      · rw [List.length_cons] at hsize
        rw [List.length_append, List.length_singleton]
        omega

theorem set_represents (h : l.Represents s empties fulls) (pktPtr : Option Nat) (allocated : Bool) :
    ∃ l', l.step (.set pktPtr allocated) = .ok ((s.step (.set pktPtr allocated)).1, l') ∧
      WellFormed (s.step (.set pktPtr allocated)).2 l' := by
  cases pktPtr with
  | none => exact ⟨l, rfl, empties, fulls, h⟩
  | some packet =>
      have hsize := h.size
      by_cases hroom : empties.length = 0 ∧ allocated = false
      · obtain ⟨hempty, rfl⟩ := hroom
        obtain rfl : empties = [] := List.length_eq_zero_iff.mp hempty
        have hstep : s.step (.set (some packet) false) = (.set false [], s) := by
          simp only [IdlePackets.step, ← h.spare]
          rfl
        rw [hstep]
        refine ⟨l, ?_, [], fulls, h⟩
        simp only [PacketNodeList.step, internalPacketPoolSet, h.ring.saveFromTail_refused]
        rfl
      · have hspare : ¬ (s.spare = 0 ∧ allocated = false) := by rwa [← h.spare]
        by_cases hfit : fulls.length < capacity
        · have hput := (s.queue.put_room packet (by rw [← h.length]; exact hfit)).1
          have hstep : s.step (.set (some packet) allocated) =
              (.set true [], ⟨(s.queue.put packet).2, s.spare - 1⟩) := by
            simp only [IdlePackets.step, if_neg hspare, hput, if_true]
          rw [hstep]
          exact set_room h packet hroom hfit
        · have hfull : fulls.length = capacity := by omega
          obtain ⟨oldest, rest, l', hitems, hrun, hformed⟩ := set_full h packet hroom hfull
          have hput := (s.queue.put_full (by rw [← h.length]; exact hfull) hitems).1
          have hstep : s.step (.set (some packet) allocated) =
              (.set true [oldest], ⟨(s.queue.put packet).2, 0⟩) := by
            simp only [IdlePackets.step, if_neg hspare, hput]
            rw [if_neg (by simp)]
          rw [hstep]
          exact ⟨l', hrun, hformed⟩

/-- One operation on the list answers and acts as the queue does. -/
theorem step_refines :
    Refines (@WellFormed capacity) IdlePackets.step PacketNodeList.step := by
  rintro s l op ⟨empties, fulls, h⟩
  cases op with
  | getFromHead => exact getFromHead_represents h
  | set pktPtr allocated => exact set_represents h pktPtr allocated

theorem empty_represents :
    (empty capacity).Represents (.init : IdlePackets capacity) [] [] where
  ring := ⟨List.nodup_nil, rfl, rfl, rfl, fun _ => rfl, fun hnodes => absurd rfl hnodes⟩
  packets := rfl
  spare := rfl
  pktCountMax := rfl
  size := Nat.zero_le _

end Steps

end PacketNodeList

open PacketNodeList in
/-- Whatever is asked of an idle list and whichever nodes can be had, it answers as the
bounded queue does and stays a well-formed ring. -/
theorem packet_pool_refines (capacity : Nat) (ops : List PoolOp) :
    let spec := answers IdlePackets.step (.init : IdlePackets capacity) ops
    ∃ l, replies PacketNodeList.step (.empty capacity) ops = .ok (spec.1, l) ∧
      WellFormed spec.2 l ∧ l.pktCount ≤ l.pktCountMax ∧
      ∀ tail, l.tail = some tail → ∃ cells : List (Nat × Option Nat),
        l.ringSize = cells.length ∧ (cells.map Prod.fst).Nodup ∧
          Path packetLink l.nodes tail cells tail := by
  intro spec
  obtain ⟨l, hrun, hformed⟩ := step_refines.run ops
    (show WellFormed (.init : IdlePackets capacity) (.empty capacity) from ⟨[], [], empty_represents⟩)
  refine ⟨l, hrun, hformed, ?_⟩
  obtain ⟨empties, fulls, h⟩ := hformed
  have hsize := h.size
  constructor
  · rw [h.ring.pktCount, h.pktCountMax]
    omega
  · exact fun tail htail => h.ring.round htail

end CccUpgrade
