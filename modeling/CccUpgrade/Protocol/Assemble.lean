import CccUpgrade.Protocol.Parse

/-! The second encoder, `assemble_protocol_packet`, against the first one and the parser.
It copies the checksum the parser left in the PDU instead of computing one. -/
namespace CccUpgrade

open Lib

/-- `assemble_protocol_packet`: the bytes stored to `out_buffer` and to `size`. The payload
is stored by `memcpy`, so a negative length is a copy no buffer holds. -/
def assembleProtocolPacket (lpPdu : PDU) : Except Fault (List UInt8 × Int) :=
  if lpPdu.dataLen < 0 then .error (.payloadCopy lpPdu.dataLen)
  else if (lpPdu.data.length : Int) < lpPdu.dataLen then .error (.read lpPdu.data.length)
  else
    let dataLen := lpPdu.dataLen.toNat
    .ok (protocolHeader :: lpPdu.cmd :: lpPdu.cmdEx :: (toBigEndian32 dataLen ++
      lpPdu.data.take dataLen ++ [lpPdu.checksum1, lpPdu.checksum2]), lpPdu.dataLen + 9)

theorem PDU.Carries.take_data {pdu : PDU} {m : Message} (h : pdu.Carries m) :
    pdu.data.take pdu.dataLen.toNat = m.data := by
  rw [h.dataLen, Int.toNat_natCast, h.data]

theorem PDU.Carries.room {pdu : PDU} {m : Message} (h : pdu.Carries m) :
    m.data.length ≤ pdu.data.length := by
  have hlength := congrArg List.length h.data
  rw [List.length_take] at hlength
  omega

/-- A PDU that carries a message with its checksum is assembled to its frame. -/
theorem assembleProtocolPacket_eq {pdu : PDU} {m : Message} (hcarries : pdu.Carries m)
    (hchecksum : [pdu.checksum1, pdu.checksum2] = checksumBytes m.body) :
    assembleProtocolPacket pdu = .ok (m.frame, (m.frame.length : Int)) := by
  have hroom := hcarries.room
  unfold assembleProtocolPacket
  rw [hcarries.dataLen, if_neg (by omega), if_neg (by omega)]
  simp only [Int.toNat_natCast, hcarries.data, hchecksum, hcarries.cmd, hcarries.cmdEx]
  refine congrArg Except.ok (Prod.ext ?_ ?_)
  · simp only [Message.frame, Message.body, List.cons_append]
  · rw [Message.frame_length]
    dsimp only
    omega

/-- The encoders and the parser agree on a PDU that was enabled with `r` bytes used. -/
structure Reassembles (inBuffer : List UInt8) (r : Int) (pdu : PDU) : Prop where
  dataLen : 0 ≤ pdu.dataLen ∧ pdu.dataLen ≤ 0xFFFFF
  used : 9 + pdu.dataLen ≤ r ∧ r ≤ inBuffer.length
  assembled : assembleProtocolPacket pdu =
    .ok ((inBuffer.take r.toNat).drop (r - (9 + pdu.dataLen)).toNat, 9 + pdu.dataLen)
  created : ∀ bufferSize, 9 + pdu.dataLen.toNat ≤ bufferSize →
    (createProtocolPacket pdu.cmd pdu.cmdEx (some pdu.data) pdu.dataLen.toNat true
      bufferSize).packet = (inBuffer.take r.toNat).drop (r - (9 + pdu.dataLen)).toNat

/-- What the parser makes of an encoded message, for any old contents of the PDU. -/
structure ParsesBack (m : Message) (packet : List UInt8) (pdu : PDU) : Prop where
  whole : ∀ rest, ∃ pdu', parsePacket2 (packet ++ rest) pdu = .ok ((packet.length : Int), pdu') ∧
    pdu'.bEnable = true ∧ pdu'.message = m ∧
    assembleProtocolPacket pdu' = .ok (packet, (packet.length : Int))
  cut : ∀ n < packet.length, ∃ pdu', parsePacket2 (packet.take n) pdu = .ok (0, pdu') ∧
    pdu'.bEnable = pdu.bEnable

theorem createProtocolPacket_take (cmd cmdEx : UInt8) (data : List UInt8) (n bufferSize : Nat) :
    createProtocolPacket cmd cmdEx (some data) n true bufferSize =
      createProtocolPacket cmd cmdEx (some (data.take n)) n true bufferSize := by
  have htake : data.take (if 0 < n then n else 0) =
      (data.take n).take (if 0 < n then n else 0) := by
    split
    · rw [List.take_take, Nat.min_self]
    · rw [List.take_zero, List.take_zero]
  simp only [createProtocolPacket, Option.isSome_some, and_true, Option.getD_some, htake]

theorem reassembles {inBuffer : List UInt8} {pdu pdu' : PDU} {r : Int}
    (hbefore : pdu.bEnable = false) (h : parsePacket2 inBuffer pdu = .ok (r, pdu'))
    (henable : pdu'.bEnable = true) : Reassembles inBuffer r pdu' := by
  obtain ⟨junk, m, rest, rfl, hlong, rfl, hcarries, hchecksum⟩ :=
    parsePacket2_enabled hbefore h henable
  have hdataLen : 9 + pdu'.dataLen = (m.frame.length : Nat) := by
    rw [hcarries.dataLen, Message.frame_length]
    omega
  have hlast : ((junk ++ (m.frame ++ rest)).take (junk.length + m.frame.length)).drop
      junk.length = m.frame := by
    rw [List.take_length_add_append, List.drop_left, List.take_left]
  have hstart : (((junk.length + m.frame.length : Nat) : Int) - (9 + pdu'.dataLen)).toNat =
      junk.length := by
    rw [hdataLen]
    omega
  constructor
  · rw [hcarries.dataLen]
    omega
  · rw [hdataLen]
    simp only [List.length_append]
    omega
  · rw [hstart, Int.toNat_natCast, hlast, hdataLen]
    exact assembleProtocolPacket_eq hcarries hchecksum
  · intro bufferSize hbuffer
    rw [hstart, Int.toNat_natCast, hlast, createProtocolPacket_take, hcarries.take_data,
      hcarries.cmd, hcarries.cmdEx, hcarries.dataLen, Int.toNat_natCast]
    rw [hcarries.dataLen, Int.toNat_natCast] at hbuffer
    exact createProtocolPacket_packet m (by omega) (by omega)

theorem parsesBack (m : Message) {pdu : PDU} (hbefore : pdu.bEnable = false)
    (hlong : m.data.length ≤ 0xFFFFF) (hroom : m.data.length ≤ pdu.data.length) :
    ParsesBack m m.frame pdu := by
  have hlook : ∀ rest, frameLook pdu.data.length (m.frame ++ rest) =
      .take (9 + m.data.length) (some m) := frameLook_frame hroom hlong
  constructor
  · intro rest
    have hparsed := parsePacket2_start pdu (m.frame.tail ++ rest)
    change Parsed 0 pdu (frameLook _ (m.frame ++ rest)) (parsePacket2 (m.frame ++ rest) pdu)
      at hparsed
    rw [hlook] at hparsed
    generalize hcall : parsePacket2 (m.frame ++ rest) pdu = call at hparsed
    generalize hcount : 9 + m.data.length = count at hparsed
    cases hparsed with
    | @frame pdu' _ _ hcarries hcapacity henable =>
        obtain ⟨junk, m', rest', hsplit, -, -, hcarries', hchecksum⟩ :=
          parsePacket2_enabled hbefore hcall henable
        have hsame : m' = m := hcarries'.message_eq.symm.trans hcarries.message_eq
        subst hsame
        refine ⟨pdu', ?_, henable, hcarries.message_eq, assembleProtocolPacket_eq hcarries hchecksum⟩
        rw [Message.frame_length, hcount, Int.natCast_zero, Int.zero_add]
  · intro n hn
    cases n with
    | zero => exact ⟨pdu, rfl, rfl⟩
    | succ n =>
        have hwhole : (frameScanner pdu.data.length).look
            (m.frame.take (n + 1) ++ m.frame.drop (n + 1)) =
              .take (9 + m.data.length) (some m) := by
          have hnothing := hlook []
          rw [List.append_nil] at hnothing
          rw [List.take_append_drop]
          exact hnothing
        have hshort : (m.frame.take (n + 1)).length < 9 + m.data.length := by
          rw [List.length_take, Message.frame_length]
          rw [Message.frame_length] at hn
          omega
        have hwait : frameLook pdu.data.length (m.frame.take (n + 1)) = .wait :=
          Scanner.look_of_short hwhole hshort
        have hparsed := parsePacket2_start pdu (m.frame.tail.take n)
        change Parsed 0 pdu (frameLook _ (m.frame.take (n + 1)))
          (parsePacket2 (m.frame.take (n + 1)) pdu) at hparsed
        rw [hwait] at hparsed
        generalize parsePacket2 (m.frame.take (n + 1)) pdu = call at hparsed
        cases hparsed with
        | @wait pdu' hkept => exact ⟨pdu', rfl, hkept.bEnable⟩

theorem encoders_agree :
    (∀ (inBuffer : List UInt8) (pdu pdu' : PDU) (r : Int), pdu.bEnable = false →
      parsePacket2 inBuffer pdu = .ok (r, pdu') → pdu'.bEnable = true →
        Reassembles inBuffer r pdu') ∧
    ∀ (m : Message) (pdu : PDU) (bufferSize : Nat), pdu.bEnable = false →
      m.data.length ≤ 0xFFFFF → m.data.length ≤ pdu.data.length →
      9 + m.data.length ≤ bufferSize →
        ParsesBack m (createProtocolPacket m.cmd m.cmdEx (some m.data) m.data.length true
          bufferSize).packet pdu := by
  constructor
  · exact fun inBuffer pdu pdu' r => reassembles
  · intro m pdu bufferSize hbefore hlong hroom hbuffer
    rw [createProtocolPacket_packet m (by omega) (by omega)]
    exact parsesBack m hbefore hlong hroom

/-- A PDU in a packet that has just been allocated, with room for two bytes. -/
def smallPdu : PDU := ⟨0, 0, [0, 0], 0, 0, 0, false⟩

theorem encoders_agree_small :
    (∃ pdu', Reassembles ([0x00] ++ Message.frame ⟨pcsUploadFile, pcsEx05, [pcsExOk]⟩) 11 pdu') ∧
      ParsesBack ⟨pcsUploadFile, pcsEx01, [0x7e, 0x7e]⟩
        (createProtocolPacket pcsUploadFile pcsEx01 (some [0x7e, 0x7e]) 2 true 11).packet
        smallPdu := by
  have hparse : parsePacket2 ([0x00] ++ Message.frame ⟨pcsUploadFile, pcsEx05, [pcsExOk]⟩)
      smallPdu = .ok (11, ⟨pcsUploadFile, pcsEx05, [pcsExOk, 0], 1, 0x02, 0x64, true⟩) := by
    decide +kernel
  exact ⟨⟨_, encoders_agree.1 _ _ _ _ rfl hparse rfl⟩,
    encoders_agree.2 ⟨pcsUploadFile, pcsEx01, [0x7e, 0x7e]⟩ smallPdu 11 rfl (by decide)
      (by decide) (by decide)⟩

end CccUpgrade
