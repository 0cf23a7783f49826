import CccUpgrade.Network.ReceiveLoop

/-! What the receive loop makes of a stream does not depend on how the stream
was cut into chunks, and a stream of encoded messages comes back as exactly
these messages. -/
namespace CccUpgrade

open Lib RecvLoop

/-- Two runs over the same bytes dispatch the same PDUs, fault alike, and if they
do not fault leave the same bytes unconsumed. A fault is a payload copy whose
length is negative or beyond the payload buffer. -/
theorem segmentation_independence {capacity : Nat} {evs₁ evs₂ : List Recv}
    (hstream : received evs₁ = received evs₂)
    (hcapacity₁ : Capacity capacity evs₁) (hcapacity₂ : Capacity capacity evs₂)
    (hserved₁ : LastServed evs₁) (hserved₂ : LastServed evs₂)
    (hfits₁ : (run evs₁).Fits) (hfits₂ : (run evs₂).Fits) :
    (run evs₁).dispatched.map PDU.message = (run evs₂).dispatched.map PDU.message ∧
      (run evs₁).fault = (run evs₂).fault ∧
      ((run evs₁).fault = none → (run evs₁).mainBuf = (run evs₂).mainBuf) := by
  obtain ⟨messages₁, hcarry₁, hscan₁⟩ := run_scan hcapacity₁ hserved₁ hfits₁
  obtain ⟨messages₂, hcarry₂, hscan₂⟩ := run_scan hcapacity₂ hserved₂ hfits₂
  rw [hcarry₁.message_eq, hcarry₂.message_eq]
  rw [hstream, hscan₂] at hscan₁
  cases hfault₁ : (run evs₁).fault with
  | none =>
      cases hfault₂ : (run evs₂).fault with
      | none =>
          rw [hfault₁, hfault₂] at hscan₁
          obtain ⟨hmessages, hmainBuf⟩ := Scan.waiting.inj hscan₁
          exact ⟨hmessages.symm, rfl, fun _ => hmainBuf.symm⟩
      | some f =>
          rw [hfault₁, hfault₂] at hscan₁
          cases hscan₁
  | some f =>
      cases hfault₂ : (run evs₂).fault with
      | none =>
          rw [hfault₁, hfault₂] at hscan₁
          cases hscan₁
      | some g =>
          rw [hfault₁, hfault₂] at hscan₁
          obtain ⟨hmessages, hf⟩ := Scan.halted.inj hscan₁
          exact ⟨hmessages.symm, by rw [hf], by simp⟩

/-- A frame cut inside its length field, and whole. -/
theorem segmentation_independence_cut :
    let evs₁ := [[0x7e, 0xE0, 0x01, 0], [0, 0, 0, 0x01, 0x5F]].map Recv.served
    let evs₂ := [[0x7e, 0xE0, 0x01, 0, 0, 0, 0, 0x01, 0x5F]].map Recv.served
    (run evs₁).dispatched.map PDU.message = (run evs₂).dispatched.map PDU.message ∧
      (run evs₁).fault = (run evs₂).fault ∧
      ((run evs₁).fault = none → (run evs₁).mainBuf = (run evs₂).mainBuf) := by
  intro evs₁ evs₂
  have hfault₁ : (run evs₁).fault = none := by decide +kernel
  have hfault₂ : (run evs₂).fault = none := by decide +kernel
  exact segmentation_independence (by rfl) (capacity_served _) (capacity_served _)
    (lastServed_served _) (lastServed_served _) (fun n => by simp [hfault₁])
    (fun n => by simp [hfault₂])

structure Sent where
  junk : List UInt8
  message : Message

/-- The bytes `create_protocol_packet` encodes the message into, in a buffer of
the size its callers use. -/
def Message.encoded (m : Message) : List UInt8 :=
  (createProtocolPacket m.cmd m.cmdEx (some m.data) m.data.length true protocolDataSizeMax).packet

def sentStream (sent : List Sent) (tail : List UInt8) : List UInt8 :=
  sent.flatMap (fun s => s.junk ++ s.message.encoded) ++ tail

theorem Message.encoded_eq {m : Message} (hlong : m.data.length ≤ protocolDataLenMax) :
    m.encoded = m.frame := by
  apply createProtocolPacket_packet m (by decide)
  have : protocolDataLenMax = 4080 := rfl
  omega

/-- What may be sent: junk free of header bytes, payloads of at most
`PROTOCOL_DATA_LEN_MAX` bytes. -/
structure Sent.Ok (s : Sent) : Prop where
  junk : protocolHeader ∉ s.junk
  long : s.message.data.length ≤ protocolDataLenMax

theorem look_encoded {s : Sent} (hs : s.Ok) (rest : List UInt8) :
    (frameScanner protoDataLenMax).look (s.message.encoded ++ rest) =
      .take s.message.encoded.length (some s.message) := by
  have hmax : protocolDataLenMax = 4080 := rfl
  have hcapacity : protoDataLenMax = 4096 := rfl
  have hlong := hs.long
  rw [Message.encoded_eq hs.long, Message.frame_length]
  exact frameLook_frame (by omega) (by omega) rest

theorem recvDataBuffer_pos : ([] : List UInt8).length < recvDataBuffer := by
  unfold recvDataBuffer
  exact Nat.zero_lt_succ _

theorem scan_of_junk (capacity : Nat) {tail : List UInt8} (htail : protocolHeader ∉ tail) :
    (frameScanner capacity).scan tail = .waiting [] [] := by
  have h := scan_junk capacity htail []
  rwa [List.append_nil, scan_nil] at h

theorem scan_sentStream {sent : List Sent} {tail : List UInt8} (hsent : ∀ s ∈ sent, s.Ok)
    (htail : protocolHeader ∉ tail) :
    (frameScanner protoDataLenMax).scan (sentStream sent tail) =
      .waiting (sent.map Sent.message) [] := by
  induction sent with
  | nil => exact scan_of_junk _ htail
  | cons s sent ih =>
      have hs := hsent s (List.mem_cons_self ..)
      have hsplit : sentStream (s :: sent) tail =
          s.junk ++ (s.message.encoded ++ sentStream sent tail) := by
        simp [sentStream]
      rw [hsplit, scan_junk _ hs.junk, Scanner.scan_take (look_encoded hs _), List.drop_left,
        ih fun t ht => hsent t (List.mem_cons_of_mem _ ht)]
      rfl

theorem scan_part {s : Sent} (hs : s.Ok) {used later : List UInt8}
    (hframe : s.message.encoded = used ++ later) :
    ∃ events rest, (frameScanner protoDataLenMax).scan used = .waiting events rest ∧
      rest.length < recvDataBuffer := by
  have hlook := look_encoded hs []
  rw [List.append_nil] at hlook
  by_cases hlater : later = []
  · have hused : used = s.message.encoded := by rw [hframe, hlater, List.append_nil]
    rw [hused, Scanner.scan_take hlook, List.drop_length, scan_nil]
    exact ⟨_, _, rfl, recvDataBuffer_pos⟩
  · have hpos := List.length_pos_iff.mpr hlater
    have hlength : s.message.encoded.length = 9 + s.message.data.length := by
      rw [Message.encoded_eq hs.long, Message.frame_length]
    have hsplit := congrArg List.length hframe
    rw [List.length_append] at hsplit
    have hlong := hs.long
    have hmax : protocolDataLenMax = 4080 := rfl
    rw [hframe] at hlook
    refine ⟨[], used, Scanner.scan_wait (Scanner.look_of_short hlook ?_), ?_⟩
    · rw [← hframe]
      omega
    · unfold recvDataBuffer
      omega

/-- At every point of the stream the scan waits on less than one receive buffer:
on a proper prefix of one frame. -/
theorem scan_sent_prefix {sent : List Sent} {tail : List UInt8} (hsent : ∀ s ∈ sent, s.Ok)
    (htail : protocolHeader ∉ tail) {before after : List UInt8}
    (hstream : before ++ after = sentStream sent tail) :
    ∃ events rest, (frameScanner protoDataLenMax).scan before = .waiting events rest ∧
      rest.length < recvDataBuffer := by
  induction sent generalizing before with
  | nil =>
      have hbefore : protocolHeader ∉ before := by
        intro hmem
        apply htail
        have : before ++ after = tail := hstream
        rw [← this]
        exact List.mem_append_left _ hmem
      exact ⟨[], [], scan_of_junk _ hbefore, recvDataBuffer_pos⟩
  | cons s sent ih =>
      have hs := hsent s (List.mem_cons_self ..)
      have hsplit : before ++ after =
          s.junk ++ (s.message.encoded ++ sentStream sent tail) := by
        rw [hstream]
        simp [sentStream]
      rcases List.append_eq_append_iff.mp hsplit with ⟨gap, hjunk, -⟩ | ⟨used, rfl, hmore⟩
      · -- The junk is not all there yet.
        have hbefore : protocolHeader ∉ before := by
          intro hmem
          apply hs.junk
          rw [hjunk]
          exact List.mem_append_left _ hmem
        exact ⟨[], [], scan_of_junk _ hbefore, recvDataBuffer_pos⟩
      · rw [scan_junk _ hs.junk]
        rcases List.append_eq_append_iff.mp hmore.symm with
          ⟨later, hframe, -⟩ | ⟨later, hused, htail'⟩
        · exact scan_part hs hframe
        · -- The frame is taken and the scan goes on behind it.
          obtain ⟨events, rest, hscan, hrest⟩ :=
            ih (fun t ht => hsent t (List.mem_cons_of_mem _ ht)) htail'.symm
          rw [hused, Scanner.scan_take (look_encoded hs _), List.drop_left, hscan]
          exact ⟨_, rest, rfl, hrest⟩

theorem run_sent {sent : List Sent} {tail : List UInt8} (hsent : ∀ s ∈ sent, s.Ok)
    (htail : protocolHeader ∉ tail) {evs : List Recv} {after : List UInt8}
    (hstream : received evs ++ after = sentStream sent tail)
    (hsize : ∀ ev ∈ evs, ev.bytes.length ≤ recvDataBuffer)
    (hcapacity : Capacity protoDataLenMax evs) (hserved : ∀ ev ∈ evs, ev.packet ≠ none) :
    (run evs).fault = none ∧ (run evs).mainBuf.length < recvDataBuffer := by
  induction evs using List.reverseRecOn generalizing after with
  | nil => exact ⟨rfl, recvDataBuffer_pos⟩
  | append_singleton evs ev ih =>
      obtain ⟨hfault, hshort⟩ := ih 
        (by rwa [received_concat, List.append_assoc] at hstream)
        (fun e he => hsize e (List.mem_append_left _ he)) hcapacity.init
        (fun e he => hserved e (List.mem_append_left _ he))
      have hchunk := hsize ev (by simp)
      have hfits : (run (evs ++ [ev])).Fits := by
        rw [run_concat]
        exact .of_room hfault (by omega)
      have hlast : LastServed (evs ++ [ev]) := by
        intro e he
        rw [List.getLast?_concat] at he
        exact hserved e (by simp [Option.some.inj he])
      obtain ⟨messages, -, hscan⟩ := run_scan hcapacity hlast hfits
      obtain ⟨events, rest, hinit, hrest⟩ := scan_sent_prefix hsent htail hstream
      rw [hinit] at hscan
      cases hend : (run (evs ++ [ev])).fault with
      | none =>
          rw [hend] at hscan
          rw [← (Scan.waiting.inj hscan).2]
          exact ⟨rfl, hrest⟩
      | some f =>
          rw [hend] at hscan
          cases hscan

/-- Every message sent is dispatched exactly once, in order and unchanged, however
the stream is cut into chunks. After every iteration less than one receive buffer
is in use, after the last one none of it. -/
theorem stream_round_trip {sent : List Sent} {tail : List UInt8} {evs : List Recv}
    (hjunk : ∀ s ∈ sent, protocolHeader ∉ s.junk) (htail : protocolHeader ∉ tail)
    (hlong : ∀ s ∈ sent, s.message.data.length ≤ protocolDataLenMax)
    (hstream : received evs = sentStream sent tail)
    (hsize : ∀ ev ∈ evs, 1 ≤ ev.bytes.length ∧ ev.bytes.length ≤ recvDataBuffer)
    (hpacket : ∀ ev ∈ evs, ∃ lpPdu, ev.packet = some lpPdu ∧ lpPdu.data.length = protoDataLenMax) :
    Carry (run evs).dispatched (sent.map Sent.message) ∧ (run evs).fault = none ∧
      (run evs).mainBuf = [] ∧
      ∀ before, before <+: evs →
        (run before).fault = none ∧ (run before).mainBuf.length < recvDataBuffer := by
  have hsent : ∀ s ∈ sent, s.Ok := fun s hs => ⟨hjunk s hs, hlong s hs⟩
  have hserved : ∀ ev ∈ evs, ev.packet ≠ none := by
    intro ev hev hnone
    obtain ⟨lpPdu, hsome, -⟩ := hpacket ev hev
    rw [hnone] at hsome
    cases hsome
  have hcapacity : Capacity protoDataLenMax evs := by
    intro ev hev lpPdu hsome
    obtain ⟨lpPdu', hsome', hlength⟩ := hpacket ev hev
    rw [hsome] at hsome'
    rw [Option.some.inj hsome', hlength]
  have hinit : ∀ before, before <+: evs →
      (run before).fault = none ∧ (run before).mainBuf.length < recvDataBuffer := by
    rintro before ⟨after, rfl⟩
    have hsplit : received before ++ received after = sentStream sent tail := by
      rw [← hstream]
      simp [received]
    apply run_sent hsent htail hsplit
    · exact fun ev hev => (hsize ev (List.mem_append_left _ hev)).2
    · exact fun ev hev => hcapacity ev (List.mem_append_left _ hev)
    · exact fun ev hev => hserved ev (List.mem_append_left _ hev)
  obtain ⟨hfault, -⟩ := hinit evs (List.prefix_refl _)
  obtain ⟨messages, hcarry, hscan⟩ := run_scan hcapacity
    (fun ev hev => hserved ev (List.mem_of_getLast? hev)) (fun n => by simp [hfault])
  rw [hstream, scan_sentStream hsent htail, hfault] at hscan
  obtain ⟨rfl, hmainBuf⟩ := Scan.waiting.inj hscan
  exact ⟨hcarry, hfault, hmainBuf.symm, hinit⟩

/-- A discovery request between two stray bytes, cut behind its command. -/
theorem stream_round_trip_discover :
    let sent : List Sent := [⟨[0x55], ⟨pcsDiscoverDevice, pcsEx01, []⟩⟩]
    let evs := [[0x55, 0x7e, 0xE0], [0x01, 0, 0, 0, 0, 0x01, 0x5F, 0]].map Recv.served
    Carry (run evs).dispatched (sent.map Sent.message) ∧ (run evs).fault = none ∧
      (run evs).mainBuf = [] ∧
      ∀ before, before <+: evs →
        (run before).fault = none ∧ (run before).mainBuf.length < recvDataBuffer := by
  intro sent evs
  have hstream : received evs = sentStream sent [0] := by decide +kernel
  refine stream_round_trip (by decide) (by decide) (by decide +kernel) hstream
    (by decide +kernel) fun ev hev => ?_
  obtain ⟨bytes, -, rfl⟩ := List.mem_map.mp hev
  exact ⟨freshPdu, rfl, freshPdu_data_length⟩

end CccUpgrade
