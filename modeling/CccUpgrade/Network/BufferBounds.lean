import CccUpgrade.Network.ReceiveLoop

/-! How far the two buffers behind the parser are filled. The parser waits for
payloads of up to 0xFFFFF bytes and never learns the size of the buffers: neither
`main_buf` nor the payload buffer of a packet is large enough for all of them. -/
namespace CccUpgrade

open Lib

/-- The longest declared payload for which a frame waited on, together with one
more chunk, always fits into `main_buf`. -/
def longestWaited : Int := 4088

/-- The bytes start with a frame head that the parser goes on waiting behind
although the frame leaves no room for another chunk. -/
def DeclaresTooMuch (buffer : List UInt8) : Prop :=
  ∃ len, lengthField buffer = some len ∧ longestWaited < len ∧ len ≤ 0xFFFFF

/-- Every chunk is a positive result of a `tcp_recv` for `RECV_DATA_BUFFER` bytes,
and every callback gets its packet. -/
structure Delivered (evs : List Recv) : Prop where
  size : ∀ ev ∈ evs, 1 ≤ ev.bytes.length ∧ ev.bytes.length ≤ recvDataBuffer
  packet : ∀ ev ∈ evs, ∃ lpPdu, ev.packet = some lpPdu ∧ lpPdu.data.length = protoDataLenMax

def MainBufSafe (evs : List Recv) : Prop :=
  ∀ before ev, before ++ [ev] <+: evs → (RecvLoop.run before).fault = none →
    (RecvLoop.run before).mainBuf.length + ev.bytes.length ≤ 2 * recvDataBuffer

namespace Delivered

variable {evs : List Recv}

theorem of_prefix {before : List Recv} (h : Delivered evs) (hinit : before <+: evs) :
    Delivered before :=
  ⟨fun ev hev => h.size ev (hinit.subset hev), fun ev hev => h.packet ev (hinit.subset hev)⟩

theorem append {more : List Recv} (h : Delivered evs) (hmore : Delivered more) :
    Delivered (evs ++ more) := by
  constructor
  · intro ev hev
    exact (List.mem_append.mp hev).elim (h.size ev) (hmore.size ev)
  · intro ev hev
    exact (List.mem_append.mp hev).elim (h.packet ev) (hmore.packet ev)

theorem capacity (h : Delivered evs) : Capacity protoDataLenMax evs := by
  intro ev hev lpPdu hpacket
  obtain ⟨lpPdu', hpacket', hlength⟩ := h.packet ev hev
  rw [hpacket] at hpacket'
  rw [Option.some.inj hpacket', hlength]

theorem served (h : Delivered evs) : LastServed evs := by
  intro ev hev hnone
  obtain ⟨lpPdu, hpacket, -⟩ := h.packet ev (List.mem_of_getLast? hev)
  rw [hnone] at hpacket
  cases hpacket

def zeros (count : Nat) : Recv := .served (List.replicate count 0)

theorem of_zeros {counts : List Nat}
    (hcounts : ∀ count ∈ counts, 1 ≤ count ∧ count ≤ recvDataBuffer) :
    Delivered (counts.map zeros) := by
  constructor
  · intro ev hev
    obtain ⟨count, hmem, rfl⟩ := List.mem_map.mp hev
    have hlength : (zeros count).bytes.length = count := List.length_replicate
    rw [hlength]
    exact hcounts count hmem
  · intro ev hev
    obtain ⟨count, -, rfl⟩ := List.mem_map.mp hev
    exact ⟨freshPdu, rfl, freshPdu_data_length⟩

end Delivered

theorem DeclaresTooMuch.append {buffer : List UInt8} (h : DeclaresTooMuch buffer)
    (more : List UInt8) : DeclaresTooMuch (buffer ++ more) := by
  obtain ⟨len, hfield, hlong, hmax⟩ := h
  obtain ⟨cmd, cmdEx, b0, b1, b2, b3, payload, rfl, hlen⟩ := lengthField_eq_some hfield
  refine ⟨len, ?_, hlong, hmax⟩
  rw [List.append_assoc, lengthField_head, hlen]

namespace RecvLoop

theorem room_of_wait {buffer : List UInt8} (hwait : frameLook protoDataLenMax buffer = .wait)
    (hdeclared : ¬ DeclaresTooMuch buffer) : buffer.length ≤ recvDataBuffer := by
  have hbuffer : recvDataBuffer = 4096 := rfl
  rcases frameLook_wait hwait with hshort | ⟨len, hfield, hmax, hlength⟩
  · omega
  · by_cases hlong : longestWaited < len
    · exact absurd ⟨len, hfield, hlong, hmax⟩ hdeclared
    · have : longestWaited = 4088 := rfl
      omega

theorem mainBufSafe_of_declared {evs : List Recv} (hevs : Delivered evs)
    (hdeclared : ∀ before ev, before ++ [ev] <+: evs → ¬ DeclaresTooMuch (run before).mainBuf) :
    MainBufSafe evs := by
  intro before ev hinit hfault
  have hdelivered := hevs.of_prefix ((List.prefix_append before [ev]).trans hinit)
  have hwait := run_waits hdelivered.capacity hdelivered.served hfault
  have hroom := room_of_wait hwait (hdeclared before ev hinit)
  have hchunk := (hevs.size ev (hinit.subset (by simp))).2
  omega

theorem step_of_wait {st : RecvLoop} {ev : Recv} {lpPdu : PDU} (hfault : st.fault = none)
    (hpacket : ev.packet = some lpPdu)
    (hroom : st.mainBuf.length + ev.bytes.length ≤ 2 * recvDataBuffer)
    (hwait : frameLook lpPdu.data.length (st.mainBuf ++ ev.bytes) = .wait) :
    (st.step ev).fault = none ∧ (st.step ev).mainBuf = st.mainBuf ++ ev.bytes := by
  rcases step_cases st ev hfault hroom with ⟨hnone, -⟩ | ⟨lpPdu', later, hsome, -, hend⟩
  · rw [hpacket] at hnone
    cases hnone
  · rw [hpacket] at hsome
    rw [← Option.some.inj hsome, Scanner.scan_wait hwait] at hend
    exact hend.2

theorem wait_of_declares {buffer : List UInt8} (hdeclared : DeclaresTooMuch buffer)
    (hlength : buffer.length ≤ 4097) : frameLook protoDataLenMax buffer = .wait := by
  obtain ⟨len, hfield, hlong, hmax⟩ := hdeclared
  obtain ⟨cmd, cmdEx, b0, b1, b2, b3, payload, rfl, hlen⟩ := lengthField_eq_some hfield
  have hwaited : longestWaited = 4088 := rfl
  have hcapacity : protoDataLenMax = 4096 := rfl
  rw [List.length_append, frameHead_length] at hlength
  rw [frameLook_head, payloadLook_wait_iff hlen]
  omega

/-- Two more chunks of zero bytes run a connection that declares too much out of
`main_buf`: one fills it to 4097 bytes, the next does not fit any more. -/
theorem overflow_of_declares {evs : List Recv} (hevs : Delivered evs)
    (hfault : (run evs).fault = none) (hdeclared : DeclaresTooMuch (run evs).mainBuf) :
    ∃ more, Delivered (evs ++ more) ∧ ¬ MainBufSafe (evs ++ more) := by
  have hbuffer : recvDataBuffer = 4096 := rfl
  have hcapacity : freshPdu.data.length = protoDataLenMax := freshPdu_data_length
  have hzeros : ∀ count, (Delivered.zeros count).bytes.length = count := fun count =>
    List.length_replicate
  by_cases hfull : 4097 ≤ (run evs).mainBuf.length
  · refine ⟨[recvDataBuffer].map Delivered.zeros, hevs.append (.of_zeros (by simp [hbuffer])), ?_⟩
    intro hsafe
    have hroom := hsafe evs (Delivered.zeros recvDataBuffer) (List.prefix_refl _) hfault
    rw [hzeros] at hroom
    omega
  · have hseven : 7 ≤ (run evs).mainBuf.length := by
      obtain ⟨len, hfield, -, -⟩ := hdeclared
      obtain ⟨_, _, _, _, _, _, payload, hbuf, -⟩ := lengthField_eq_some hfield
      rw [hbuf, List.length_append, frameHead_length]
      omega
    obtain ⟨fill, hfill⟩ : ∃ fill, fill = 4097 - (run evs).mainBuf.length := ⟨_, rfl⟩
    have hfilled : ((run evs).mainBuf ++ (Delivered.zeros fill).bytes).length = 4097 := by
      rw [List.length_append, hzeros]
      omega
    have hwait : frameLook freshPdu.data.length
        ((run evs).mainBuf ++ (Delivered.zeros fill).bytes) = .wait := by
      rw [hcapacity]
      exact wait_of_declares (hdeclared.append _) (by omega)
    have hstep := step_of_wait hfault rfl (by rw [hzeros]; omega) hwait
    rw [← run_concat] at hstep
    refine ⟨[fill, recvDataBuffer].map Delivered.zeros,
      hevs.append (.of_zeros (by simp [hbuffer]; omega)), ?_⟩
    intro hsafe
    have hroom := hsafe (evs ++ [Delivered.zeros fill]) (Delivered.zeros recvDataBuffer)
      (by simp) hstep.1
    rw [hstep.2, hzeros, hfilled] at hroom
    omega

end RecvLoop

/-- Where no buffered frame declares too much, every copy into `main_buf` stays
inside it; and a connection that has declared too much can be made to leave it. -/
theorem main_buf_bound {evs : List Recv} (hevs : Delivered evs) :
    ((∀ before ev, before ++ [ev] <+: evs → ¬ DeclaresTooMuch (RecvLoop.run before).mainBuf) →
        MainBufSafe evs) ∧
      ((RecvLoop.run evs).fault = none → DeclaresTooMuch (RecvLoop.run evs).mainBuf →
        ∃ more, Delivered (evs ++ more) ∧ ¬ MainBufSafe (evs ++ more)) :=
  ⟨RecvLoop.mainBufSafe_of_declared hevs, RecvLoop.overflow_of_declares hevs⟩

def announced (len count : Nat) : List UInt8 :=
  frameHead pcsClientLogin pcsEx01 0 (UInt8.ofNat (len / 2 ^ 16)) (UInt8.ofNat (len / 2 ^ 8))
    (UInt8.ofNat len) ++ List.replicate count 0

theorem delivered_served {chunks : List (List UInt8)}
    (hsize : ∀ chunk ∈ chunks, 1 ≤ chunk.length ∧ chunk.length ≤ recvDataBuffer) :
    Delivered (chunks.map Recv.served) := by
  constructor
  · intro ev hev
    obtain ⟨bytes, hbytes, rfl⟩ := List.mem_map.mp hev
    exact hsize bytes hbytes
  · intro ev hev
    obtain ⟨bytes, -, rfl⟩ := List.mem_map.mp hev
    exact ⟨freshPdu, rfl, freshPdu_data_length⟩

def modestRun : List Recv := [announced 2 1, [0, 0, 0], announced 2 1].map Recv.served

def boastfulRun : List Recv := [announced 2 1, [0, 0, 0], announced 0xFFFFF 0].map Recv.served

theorem main_buf_bound_announced : MainBufSafe modestRun ∧
    ∃ more, Delivered (boastfulRun ++ more) ∧ ¬ MainBufSafe (boastfulRun ++ more) := by
  constructor
  · refine (main_buf_bound (delivered_served (by decide +kernel))).1 ?_
    rintro before ev hinit ⟨len, hfield, hlong, -⟩
    have hall : ∀ before ∈ modestRun.inits, ∀ len ∈ lengthField (RecvLoop.run before).mainBuf,
        len = 2 := by decide +kernel
    have hbefore := (List.mem_inits before modestRun).mpr ((List.prefix_append ..).trans hinit)
    rw [hall before hbefore len hfield] at hlong
    revert hlong
    decide
  · exact (main_buf_bound (delivered_served (by decide +kernel))).2 (by decide +kernel)
      ⟨0xFFFFF, by decide +kernel, by decide +kernel, by decide +kernel⟩

/-- Two full chunks of a frame that declares 0xFFFFF bytes, and one more byte. -/
def greedyRun : List Recv :=
  [announced 0xFFFFF 4089, List.replicate 4096 0, [0]].map Recv.served

theorem greedyRun_overflows : Delivered greedyRun ∧ ¬ MainBufSafe greedyRun := by
  refine ⟨delivered_served (by decide +kernel), fun hsafe => ?_⟩
  have hroom := hsafe ([announced 0xFFFFF 4089, List.replicate 4096 0].map Recv.served)
    (.served [0]) (List.prefix_refl _) (by decide +kernel)
  revert hroom
  decide +kernel

/-- No payload copy of the call has a non-negative length beyond the payload
buffer, `PROTO_DATA_LEN_MAX` for the packets both callers request. -/
def CopiesFit (r : ProcessData) : Prop := ∀ n : Nat, r.fault ≠ some (.payloadCopy n)

/-- The bytes start with a frame head whose declared payload is longer than the
payload buffer, and with more bytes behind it than it declares. -/
def OversizePayload (input : List UInt8) : Prop :=
  ∃ len, lengthField input = some len ∧ (protoDataLenMax : Int) < len ∧ len ≤ 0xFFFFF ∧
    len + 7 < input.length

theorem look_oversize_iff {input : List UInt8} :
    (∃ n : Nat, frameLook protoDataLenMax input = .halt (.payloadCopy n)) ↔
      OversizePayload input := by
  have hcapacity : protoDataLenMax = 4096 := rfl
  constructor
  · rintro ⟨n, hhalt⟩
    obtain ⟨len, hfield, -, hlength, hmax, hbad, hcopy⟩ := frameLook_halt_iff.mp hhalt
    obtain rfl : (n : Int) = len := Fault.payloadCopy.inj hcopy
    exact ⟨n, hfield, by omega, hmax, hlength⟩
  · rintro ⟨len, hfield, hlong, hmax, hlength⟩
    obtain ⟨n, rfl⟩ : ∃ n : Nat, len = n := ⟨len.toNat, by omega⟩
    exact ⟨n, frameLook_halt_iff.mpr
      ⟨n, hfield, by omega, hlength, hmax, .inr hlong, rfl⟩⟩

theorem copiesFit_iff {lpPdu : PDU} (hpdu : lpPdu.data.length = protoDataLenMax)
    (buffer : List UInt8) :
    CopiesFit (protocolAdapterProcessData (some lpPdu) buffer) ↔
      ∀ suffix, (frameScanner protoDataLenMax).Stands buffer suffix → ¬ OversizePayload suffix := by
  obtain ⟨-, hfault, -⟩ := protocolAdapterProcessData_spec lpPdu buffer
  rw [hpdu] at hfault
  unfold CopiesFit
  rw [hfault]
  constructor
  · intro hfit suffix hstands hover
    obtain ⟨n, hhalt⟩ := look_oversize_iff.mpr hover
    exact hfit n (Scanner.scan_fault_iff.mpr ⟨suffix, hstands, hhalt⟩)
  · intro hnone n hcopy
    obtain ⟨suffix, hstands, hhalt⟩ := Scanner.scan_fault_iff.mp hcopy
    exact hnone suffix hstands (look_oversize_iff.mp ⟨n, hhalt⟩)

theorem copiesFit_udp {lpPdu : PDU} (hpdu : lpPdu.data.length = protoDataLenMax)
    {buffer : List UInt8} (hlength : buffer.length ≤ 1024) :
    CopiesFit (protocolAdapterProcessUdpData (some lpPdu) buffer) := by
  intro n hcopy
  unfold protocolAdapterProcessUdpData at hcopy
  cases hparse : parsePacket2 buffer { lpPdu with bEnable := false } with
  | error f =>
      simp only [hparse, Option.some.injEq] at hcopy
      have hhalt := parsePacket2_error hparse
      have hstart := List.dropWhile_suffix (l := buffer) (· ≠ protocolHeader)
      rw [hcopy] at hhalt
      obtain ⟨len, -, hlong, -, hover⟩ := look_oversize_iff.mp ⟨n, hpdu ▸ hhalt⟩
      have hcapacity : protoDataLenMax = 4096 := rfl
      have := hstart.length_le
      omega
  | ok parsed =>
      simp only [hparse] at hcopy
      split at hcopy
      · cases hcopy
      · split at hcopy <;> cases hcopy

/-- The stream loop keeps its copies within the payload buffer exactly when no
header it comes to is followed by more than an oversize payload; the datagram
handler always does. -/
theorem payload_copies_fit {lpPdu : PDU} (hpdu : lpPdu.data.length = protoDataLenMax) :
    (∀ buffer, CopiesFit (protocolAdapterProcessData (some lpPdu) buffer) ↔
        ∀ suffix, (frameScanner protoDataLenMax).Stands buffer suffix →
          ¬ OversizePayload suffix) ∧
      ∀ buffer, buffer.length ≤ 1024 →
        CopiesFit (protocolAdapterProcessUdpData (some lpPdu) buffer) :=
  ⟨copiesFit_iff hpdu, fun _ => copiesFit_udp hpdu⟩

theorem payload_copies_fit_fresh :
    (∀ buffer, CopiesFit (protocolAdapterProcessData (some freshPdu) buffer) ↔
        ∀ suffix, (frameScanner protoDataLenMax).Stands buffer suffix →
          ¬ OversizePayload suffix) ∧
      ∀ buffer, buffer.length ≤ 1024 →
        CopiesFit (protocolAdapterProcessUdpData (some freshPdu) buffer) :=
  payload_copies_fit freshPdu_data_length

/-- Two full chunks hold all 5000 payload bytes of a frame; the receive loop hands
them over and all of them are copied. -/
theorem announced_overflows_payload :
    let buffer := announced 5000 4089 ++ List.replicate 4096 0
    buffer.length ≤ 2 * recvDataBuffer ∧
      (RecvLoop.run ([announced 5000 4089, List.replicate 4096 0].map Recv.served)).fault =
        some (.payloadCopy 5000) ∧
      ¬ CopiesFit (protocolAdapterProcessData (some freshPdu) buffer) := by
  intro buffer
  refine ⟨by decide +kernel, by decide +kernel, fun hfit => hfit 5000 ?_⟩
  decide +kernel

end CccUpgrade
