import CccUpgrade.Adapter.ProcessData

/-! The receive loop `thread_func_client_pad_or_0` of one connection with
`protocol_adapter_process_data` as its callback, over any sequence of positive
`tcp_recv` results. The loop is tied to the frame scanner run over the whole
stream received so far. -/
namespace CccUpgrade

open Lib

def recvDataBuffer : Nat := 4096

/-- One positive result of `tcp_recv`, with the packet the callback then gets
from the pool (`none` when it gets NULL). -/
structure Recv where
  bytes : List UInt8
  packet : Option PDU

def Recv.served (bytes : List UInt8) : Recv := ⟨bytes, some freshPdu⟩

structure RecvLoop where
  /-- The `recvLen` bytes in use at the start of `main_buf`. -/
  mainBuf : List UInt8
  /-- The PDUs handed to `process_protocol_pdu` so far. -/
  dispatched : List PDU
  fault : Option Fault
deriving DecidableEq, Repr

namespace RecvLoop

def init : RecvLoop := ⟨[], [], none⟩

/-- One round with `iRetrun = bytes.length > 0`. `main_buf` has room for
`2 * RECV_DATA_BUFFER` bytes; a fault ends the run. -/
def step (st : RecvLoop) (ev : Recv) : RecvLoop :=
  if st.fault.isSome then st
  else if 2 * recvDataBuffer < st.mainBuf.length + ev.bytes.length then
    { st with fault := some (.mainBuf (st.mainBuf.length + ev.bytes.length)) }
  else
    let mainBuf := st.mainBuf ++ ev.bytes
    let r := protocolAdapterProcessData ev.packet mainBuf
    { mainBuf := mainBuf.drop r.consume.toNat
      dispatched := st.dispatched ++ r.dispatched
      fault := r.fault }

def run (evs : List Recv) : RecvLoop := evs.foldl step init

theorem run_concat (evs : List Recv) (ev : Recv) : run (evs ++ [ev]) = step (run evs) ev := by
  simp [run]

end RecvLoop

def received (evs : List Recv) : List UInt8 := evs.flatMap Recv.bytes

@[simp] theorem received_concat (evs : List Recv) (ev : Recv) :
    received (evs ++ [ev]) = received evs ++ ev.bytes := by
  simp [received]

def Capacity (capacity : Nat) (evs : List Recv) : Prop :=
  ∀ ev ∈ evs, ∀ lpPdu, ev.packet = some lpPdu → lpPdu.data.length = capacity

def LastServed (evs : List Recv) : Prop := ∀ ev, evs.getLast? = some ev → ev.packet ≠ none

theorem Capacity.init {capacity : Nat} {evs : List Recv} {ev : Recv}
    (h : Capacity capacity (evs ++ [ev])) : Capacity capacity evs :=
  fun ev' hmem => h ev' (List.mem_append_left _ hmem)

theorem Capacity.last {capacity : Nat} {evs : List Recv} {ev : Recv}
    (h : Capacity capacity (evs ++ [ev])) {lpPdu : PDU} (hpacket : ev.packet = some lpPdu) :
    lpPdu.data.length = capacity :=
  h ev (List.mem_append_right _ (List.mem_singleton_self _)) lpPdu hpacket

theorem capacity_served (chunks : List (List UInt8)) :
    Capacity protoDataLenMax (chunks.map Recv.served) := by
  intro ev hev lpPdu hpacket
  obtain ⟨bytes, -, rfl⟩ := List.mem_map.mp hev
  rw [← Option.some.inj hpacket, freshPdu_data_length]

theorem lastServed_served (chunks : List (List UInt8)) :
    LastServed (chunks.map Recv.served) := by
  intro ev hev hnone
  obtain ⟨bytes, -, rfl⟩ := List.mem_map.mp (List.mem_of_getLast? hev)
  cases hnone

namespace RecvLoop

variable {capacity : Nat}

def Fits (st : RecvLoop) : Prop := ∀ n, st.fault ≠ some (.mainBuf n)

/-- The scan of the whole stream as the loop has realised it: what was dispatched
is what the scan has reported, and what is buffered is still to be scanned. -/
def Realises (capacity : Nat) (stream : List UInt8) (st : RecvLoop) : Prop :=
  ∃ messages, Carry st.dispatched messages ∧
    (frameScanner capacity).scan stream =
      match st.fault with
      | none => ((frameScanner capacity).scan st.mainBuf).prepend messages
      | some f => .halted messages f

theorem scan_fault_ne_mainBuf (capacity : Nat) (input : List UInt8) (n : Nat) :
    ((frameScanner capacity).scan input).fault ≠ some (.mainBuf n) := by
  intro h
  obtain ⟨suffix, -, hhalt⟩ := Scanner.scan_fault_iff.mp h
  obtain ⟨len, -, -, -, -, -, hcopy⟩ := frameLook_halt_iff.mp hhalt
  cases hcopy

theorem step_cases (st : RecvLoop) (ev : Recv) (hfault : st.fault = none)
    (hroom : st.mainBuf.length + ev.bytes.length ≤ 2 * recvDataBuffer) :
    (ev.packet = none ∧ st.step ev = { st with mainBuf := st.mainBuf ++ ev.bytes }) ∨
    ∃ lpPdu later, ev.packet = some lpPdu ∧
      (st.step ev).dispatched = st.dispatched ++ later ∧
      match (frameScanner lpPdu.data.length).scan (st.mainBuf ++ ev.bytes) with
      | .waiting events rest =>
          Carry later events ∧ (st.step ev).fault = none ∧ (st.step ev).mainBuf = rest
      | .halted events f => Carry later events ∧ (st.step ev).fault = some f := by
  have hstep : st.step ev =
      { mainBuf := (st.mainBuf ++ ev.bytes).drop
          (protocolAdapterProcessData ev.packet (st.mainBuf ++ ev.bytes)).consume.toNat
        dispatched := st.dispatched ++
          (protocolAdapterProcessData ev.packet (st.mainBuf ++ ev.bytes)).dispatched
        fault := (protocolAdapterProcessData ev.packet (st.mainBuf ++ ev.bytes)).fault } := by
    unfold step
    rw [if_neg (by simp [hfault]), if_neg (by omega)]
  cases hpacket : ev.packet with
  | none =>
      left
      refine ⟨rfl, ?_⟩
      rw [hstep, hpacket]
      simp [protocolAdapterProcessData, hfault]
  | some lpPdu =>
      right
      obtain ⟨hcarry, hfaultEq, hrest⟩ :=
        protocolAdapterProcessData_spec lpPdu (st.mainBuf ++ ev.bytes)
      rw [hstep, hpacket]
      refine ⟨lpPdu, _, rfl, rfl, ?_⟩
      cases hend : (frameScanner lpPdu.data.length).scan (st.mainBuf ++ ev.bytes) with
      | waiting events rest =>
          rw [hend] at hcarry hfaultEq
          exact ⟨hcarry, hfaultEq, hrest events rest hend⟩
      | halted events f =>
          rw [hend] at hcarry hfaultEq
          exact ⟨hcarry, hfaultEq⟩

theorem step_of_fault {st : RecvLoop} {f : Fault} (hfault : st.fault = some f) (ev : Recv) :
    st.step ev = st := by
  unfold step
  rw [if_pos (by simp [hfault])]

theorem Fits.room {st : RecvLoop} {ev : Recv} (hfits : (st.step ev).Fits)
    (hfault : st.fault = none) :
    st.mainBuf.length + ev.bytes.length ≤ 2 * recvDataBuffer := by
  by_contra hroom
  apply hfits (st.mainBuf.length + ev.bytes.length)
  unfold step
  rw [if_neg (by simp [hfault]), if_pos (by omega)]

theorem Fits.of_step {st : RecvLoop} {ev : Recv} (hfits : (st.step ev).Fits) : st.Fits := by
  intro n hfault
  rw [step_of_fault hfault] at hfits
  exact hfits n hfault

theorem Fits.of_room {st : RecvLoop} {ev : Recv} (hfault : st.fault = none)
    (hroom : st.mainBuf.length + ev.bytes.length ≤ 2 * recvDataBuffer) : (st.step ev).Fits := by
  intro n
  rcases step_cases st ev hfault hroom with ⟨-, hstep⟩ | ⟨lpPdu, later, -, -, hend⟩
  · simp [hstep, hfault]
  · cases hscanned : (frameScanner lpPdu.data.length).scan (st.mainBuf ++ ev.bytes) with
    | waiting events rest =>
        rw [hscanned] at hend
        simp [hend.2.1]
    | halted events f =>
        rw [hscanned] at hend
        rw [hend.2]
        have hne := scan_fault_ne_mainBuf lpPdu.data.length (st.mainBuf ++ ev.bytes) n
        rwa [hscanned] at hne

theorem Realises.step {stream : List UInt8} {st : RecvLoop} {ev : Recv}
    (h : Realises capacity stream st) (hfits : (st.step ev).Fits)
    (hcapacity : ∀ lpPdu, ev.packet = some lpPdu → lpPdu.data.length = capacity) :
    Realises capacity (stream ++ ev.bytes) (st.step ev) := by
  obtain ⟨messages, hcarry, hscan⟩ := h
  cases hfault : st.fault with
  | some f =>
      rw [step_of_fault hfault]
      refine ⟨messages, hcarry, ?_⟩
      rw [Scanner.scan_append, hscan, hfault]
      rfl
  | none =>
      rw [hfault] at hscan
      have hmore : (frameScanner capacity).scan (stream ++ ev.bytes) =
          ((frameScanner capacity).scan (st.mainBuf ++ ev.bytes)).prepend messages := by
        rw [Scanner.scan_append, hscan, Scanner.resume_prepend, ← Scanner.scan_append]
      rcases step_cases st ev hfault (hfits.room hfault) with
        ⟨-, hstep⟩ | ⟨lpPdu, later, hpacket, hdispatched, hend⟩
      · rw [hstep]
        refine ⟨messages, hcarry, ?_⟩
        rw [hmore, hfault]
      · rw [hcapacity lpPdu hpacket] at hend
        cases hscanned : (frameScanner capacity).scan (st.mainBuf ++ ev.bytes) with
        | waiting events rest =>
            rw [hscanned] at hend
            obtain ⟨hlater, hnone, hrest⟩ := hend
            refine ⟨messages ++ events, ?_, ?_⟩
            · rw [hdispatched]
              exact List.rel_append hcarry hlater
            · rw [hmore, hscanned, hnone, hrest,
                Scanner.scan_wait (Scanner.look_rest hscanned)]
              simp [Scan.prepend]
        | halted events f =>
            rw [hscanned] at hend
            obtain ⟨hlater, hsome⟩ := hend
            refine ⟨messages ++ events, ?_, ?_⟩
            · rw [hdispatched]
              exact List.rel_append hcarry hlater
            · rw [hmore, hscanned, hsome]
              rfl

/-- Over a whole run that never leaves `main_buf`, the loop realises the scan of
everything received. -/
theorem run_realises {evs : List Recv} (hcapacity : Capacity capacity evs)
    (hfits : (run evs).Fits) : Realises capacity (received evs) (run evs) := by
  induction evs using List.reverseRecOn with
  | nil => exact ⟨[], .nil, (Scan.prepend_nil _).symm⟩
  | append_singleton evs ev ih =>
      rw [run_concat] at hfits ⊢
      rw [received_concat]
      exact (ih hcapacity.init hfits.of_step).step hfits fun _ => hcapacity.last

theorem run_waits {evs : List Recv} (hcapacity : Capacity capacity evs)
    (hserved : LastServed evs) (hfault : (run evs).fault = none) :
    frameLook capacity (run evs).mainBuf = .wait := by
  rcases List.eq_nil_or_concat' evs with rfl | ⟨before, ev, rfl⟩
  · rfl
  · rw [run_concat] at hfault ⊢
    cases hbefore : (run before).fault with
    | some f =>
        rw [step_of_fault hbefore, hbefore] at hfault
        cases hfault
    | none =>
        have hfits : ((run before).step ev).Fits := by
          intro n
          simp [hfault]
        rcases step_cases (run before) ev hbefore (hfits.room hbefore) with
          ⟨hpacket, -⟩ | ⟨lpPdu, later, hpacket, -, hend⟩
        · exact absurd hpacket (hserved ev (by simp))
        · rw [hcapacity.last hpacket] at hend
          cases hscanned : (frameScanner capacity).scan ((run before).mainBuf ++ ev.bytes) with
          | waiting events rest =>
              rw [hscanned] at hend
              rw [hend.2.2]
              exact Scanner.look_rest hscanned
          | halted events f =>
              rw [hscanned, hfault] at hend
              cases hend.2

theorem run_scan {evs : List Recv} (hcapacity : Capacity capacity evs)
    (hserved : LastServed evs) (hfits : (run evs).Fits) :
    ∃ messages, Carry (run evs).dispatched messages ∧
      (frameScanner capacity).scan (received evs) =
        match (run evs).fault with
        | none => .waiting messages (run evs).mainBuf
        | some f => .halted messages f := by
  obtain ⟨messages, hcarry, hscan⟩ := run_realises hcapacity hfits
  refine ⟨messages, hcarry, ?_⟩
  cases hfault : (run evs).fault with
  | some f => rw [hscan, hfault]
  | none =>
      rw [hscan, hfault, Scanner.scan_wait (run_waits hcapacity hserved hfault)]
      simp [Scan.prepend]

end RecvLoop

end CccUpgrade
