import CccUpgrade.Protocol.Frame

/-! One call of `parse_packet2` discards the junk before the first header and
then takes the scanner's decision on what starts there. -/
namespace CccUpgrade

open Lib

/-- What a call that dispatches nothing leaves of the PDU: it may have stored
header fields and payload bytes, but in the same buffer and not enabled. -/
structure PDU.Kept (before after : PDU) : Prop where
  capacity : after.data.length = before.data.length
  bEnable : after.bEnable = before.bEnable

/-- The PDU of a taken frame. -/
structure PDU.Carries (pdu : PDU) (m : Message) : Prop where
  cmd : pdu.cmd = m.cmd
  cmdEx : pdu.cmdEx = m.cmdEx
  dataLen : pdu.dataLen = m.data.length
  data : pdu.data.take m.data.length = m.data

/-- The message a PDU stands for: its payload is the first `dataLen` bytes. -/
def PDU.message (pdu : PDU) : Message :=
  ⟨pdu.cmd, pdu.cmdEx, pdu.data.take pdu.dataLen.toNat⟩

theorem PDU.Carries.message_eq {pdu : PDU} {m : Message} (h : pdu.Carries m) :
    pdu.message = m := by
  unfold PDU.message
  rw [h.cmd, h.cmdEx, h.dataLen, Int.toNat_natCast, h.data]

theorem idxOf?_header (junk rest : List UInt8) (hjunk : protocolHeader ∉ junk) :
    (junk ++ protocolHeader :: rest).idxOf? protocolHeader = some junk.length := by
  induction junk with
  | nil => simp [List.idxOf?, List.findIdx?_cons]
  | cons byte junk ih =>
      simp only [List.mem_cons, not_or] at hjunk
      have hbyte : (byte == protocolHeader) = false := by
        simp only [beq_eq_false_iff_ne]
        exact Ne.symm hjunk.1
      simp only [List.idxOf?, List.cons_append, List.findIdx?_cons, hbyte]
      have := ih hjunk.2
      simp only [List.idxOf?] at this
      simp [this]

theorem parsePacket2_junk {inBuffer : List UInt8} (pdu : PDU)
    (hjunk : protocolHeader ∉ inBuffer) :
    parsePacket2 inBuffer pdu = .ok ((inBuffer.length : Int), pdu) := by
  have hidx : inBuffer.idxOf? protocolHeader = none := List.idxOf?_eq_none_iff.mpr hjunk
  unfold parsePacket2
  simp only [hidx]
  split
  · have hzero : (inBuffer.length : Int) = 0 := by omega
    rw [hzero]
    rfl
  · rfl

section Header

variable {junk : List UInt8} (hjunk : protocolHeader ∉ junk) (pdu : PDU)
include hjunk

theorem parsePacket2_short {rest : List UInt8} (hrest : rest.length ≤ 6) :
    ∃ pdu', parsePacket2 (junk ++ protocolHeader :: rest) pdu = .ok ((junk.length : Int), pdu') ∧
      pdu.Kept pdu' := by
  unfold parsePacket2
  simp only [idxOf?_header junk rest hjunk, List.length_append, List.length_cons]
  rw [if_neg (by omega)]
  by_cases hone : rest.length = 0
  · rw [if_pos (by omega)]
    exact ⟨pdu, rfl, rfl, rfl⟩
  rw [if_neg (by omega)]
  by_cases htwo : rest.length ≤ 2
  · rw [if_pos (by omega)]
    exact ⟨pdu, rfl, rfl, rfl⟩
  rw [if_neg (by omega)]
  obtain ⟨cmd, cmdEx, tail, rfl⟩ : ∃ cmd cmdEx tail, rest = cmd :: cmdEx :: tail := by
    match rest, htwo with
    | cmd :: cmdEx :: tail, _ => exact ⟨cmd, cmdEx, tail, rfl⟩
    | [_], h => simp at h
    | [], h => simp at h
  rw [readByte_append junk 1 rfl]
  refine ⟨{ pdu with cmd := cmd, cmdEx := cmdEx }, ?_, rfl, rfl⟩
  change (readByte (junk ++ protocolHeader :: cmd :: cmdEx :: tail) (junk.length + 2) >>= _) = _
  rw [readByte_append junk 2 rfl]
  change (if _ then _ else _) = _
  rw [if_pos]
  · rfl
  · simp only [List.length_cons] at hrest ⊢
    unfold protocolSegDataLen
    omega

end Header

/-- The result of a call as the decision it took after `discarded` junk bytes. -/
inductive Parsed (discarded : Nat) (pdu : PDU) :
    Look Message Fault → Except Fault (Int × PDU) → Prop
  | wait {pdu' : PDU} (hkept : pdu.Kept pdu') :
      Parsed discarded pdu .wait (.ok ((discarded : Int), pdu'))
  | drop {pdu' : PDU} (hkept : pdu.Kept pdu') :
      Parsed discarded pdu (.take 1 none) (.ok ((discarded : Int) + 1, pdu'))
  | frame {pdu' : PDU} {m : Message} {count : Nat} (hcarries : pdu'.Carries m)
      (hcapacity : pdu'.data.length = pdu.data.length) (henable : pdu'.bEnable = true) :
      Parsed discarded pdu (.take count (some m)) (.ok ((discarded : Int) + count, pdu'))
  | halt {f : Fault} : Parsed discarded pdu (.halt f) (.error f)

theorem calcuChecksum_append (body rest : List UInt8) :
    calcuChecksum (body ++ rest) body.length = calcuChecksum body body.length := by
  unfold calcuChecksum
  simp

theorem checksumBytes_eq (body : List UInt8) (p0 p1 : UInt8) :
    checksumBytes body = [p0, p1] ↔
      ¬ (UInt8.ofNat (calcuChecksum body body.length / 2 ^ 8) ≠ p0 ∨
        UInt8.ofNat (calcuChecksum body body.length) ≠ p1) := by
  have hsum : calcuChecksum body body.length = (body.map UInt8.toNat).sum % 2 ^ 16 := by
    unfold calcuChecksum
    split
    · have : body = [] := List.length_eq_zero_iff.mp (by omega)
      simp [this]
    · simp
  rw [hsum]
  simp [checksumBytes]

theorem readByte_trailer (junk : List UInt8) (cmd cmdEx b0 b1 b2 b3 : UInt8)
    (data : List UInt8) {trailer : List UInt8} (index : Nat) {byte : UInt8}
    (h : trailer[index]? = some byte) :
    readByte (junk ++ (frameHead cmd cmdEx b0 b1 b2 b3 ++ (data ++ trailer)))
      (junk.length + 1 + 2 + 4 + data.length + index) = .ok byte := by
  rw [show junk.length + 1 + 2 + 4 + data.length + index =
    junk.length + (7 + (data.length + index)) by omega]
  apply readByte_append
  rw [List.getElem?_append_right (by simp), frameHead_length, Nat.add_sub_cancel_left,
    List.getElem?_append_right (by omega), Nat.add_sub_cancel_left, h]

theorem exists_trailer {payload : List UInt8} {n : Nat} (h : n + 2 ≤ payload.length) :
    ∃ data p0 p1 tail, data.length = n ∧ payload = data ++ p0 :: p1 :: tail := by
  match htail : payload.drop n with
  | p0 :: p1 :: tail =>
      refine ⟨payload.take n, p0, p1, tail, ?_, ?_⟩
      · rw [List.length_take]
        omega
      · rw [← htail, List.take_append_drop]
  | [_] | [] =>
      have hlength := congrArg List.length htail
      simp only [List.length_drop, List.length_cons, List.length_nil] at hlength
      omega

section Head

variable (junk : List UInt8) (cmd cmdEx b0 b1 b2 b3 : UInt8)

theorem head_length (payload : List UInt8) :
    (junk ++ (frameHead cmd cmdEx b0 b1 b2 b3 ++ payload)).length =
      junk.length + (7 + payload.length) := by
  simp only [frameHead, List.length_append, List.length_cons, List.length_nil]

theorem head_field (payload : List UInt8) :
    calcuDataLength ((junk ++ (frameHead cmd cmdEx b0 b1 b2 b3 ++ payload)).drop
      (junk.length + 1 + 2)) protocolSegDataLen = asInt32 (bigEndian32 b0 b1 b2 b3) := by
  rw [show junk.length + 1 + 2 = junk.length + 3 by omega, List.drop_length_add_append]
  unfold calcuDataLength protocolSegDataLen
  rw [if_neg (by decide)]
  rfl

theorem head_payload (payload : List UInt8) :
    (junk ++ (frameHead cmd cmdEx b0 b1 b2 b3 ++ payload)).drop (junk.length + 1 + 2 + 4) =
      payload := by
  rw [show junk.length + 1 + 2 + 4 = junk.length + 7 by omega, List.drop_length_add_append]
  rfl

theorem head_checksum (data trailer : List UInt8) :
    calcuChecksum (frameHead cmd cmdEx b0 b1 b2 b3 ++ (data ++ trailer))
      (1 + 2 + protocolSegDataLen + data.length) =
      calcuChecksum (frameHead cmd cmdEx b0 b1 b2 b3 ++ data)
        (frameHead cmd cmdEx b0 b1 b2 b3 ++ data).length := by
  have hlength : 1 + 2 + protocolSegDataLen + (data.length : Int) =
      (frameHead cmd cmdEx b0 b1 b2 b3 ++ data).length := by
    rw [List.length_append, frameHead_length]
    unfold protocolSegDataLen
    omega
  rw [← List.append_assoc, hlength, calcuChecksum_append]

end Head

/-- With the head complete, the call decides by the length field, the payload
and the checksum, in the scanner's order. -/
theorem parsePacket2_head {junk : List UInt8} (hjunk : protocolHeader ∉ junk) (pdu : PDU)
    (cmd cmdEx b0 b1 b2 b3 : UInt8) {payload : List UInt8} (hpayload : payload ≠ []) :
    Parsed junk.length pdu (payloadLook pdu.data.length cmd cmdEx b0 b1 b2 b3 payload)
      (parsePacket2 (junk ++ (frameHead cmd cmdEx b0 b1 b2 b3 ++ payload)) pdu) := by
  have hpos : 0 < payload.length := List.length_pos_iff.mpr hpayload
  have hcmd : readByte (junk ++ (frameHead cmd cmdEx b0 b1 b2 b3 ++ payload))
      (junk.length + 1) = .ok cmd := readByte_append junk 1 rfl
  have hcmdEx : readByte (junk ++ (frameHead cmd cmdEx b0 b1 b2 b3 ++ payload))
      (junk.length + 1 + 1) = .ok cmdEx := readByte_append junk 2 rfl
  have hidx : (junk ++ (frameHead cmd cmdEx b0 b1 b2 b3 ++ payload)).idxOf? protocolHeader =
      some junk.length := idxOf?_header junk _ hjunk
  unfold parsePacket2
  simp only [hidx, head_length, hcmd]
  rw [if_neg (by omega), if_neg (by omega), if_neg (by omega)]
  change Parsed _ _ _ (readByte _ _ >>= _)
  rw [hcmdEx]
  change Parsed _ _ _ (if _ then _ else _)
  rw [if_neg (by unfold protocolSegDataLen; omega)]
  have hremain : ((junk.length + (7 + payload.length) : Nat) : Int) - junk.length - 1 - 2 -
      protocolSegDataLen = payload.length := by
    unfold protocolSegDataLen
    omega
  simp only [head_field, head_payload, hremain, payloadLook, hpayload, ↓reduceIte]
  generalize asInt32 (bigEndian32 b0 b1 b2 b3) = len
  by_cases hlong : 0xFFFFF < len
  · rw [if_pos hlong, if_pos hlong]
    exact .drop ⟨rfl, rfl⟩
  rw [if_neg hlong, if_neg hlong]
  by_cases hwait : (payload.length : Int) ≤ len
  · rw [if_pos hwait, if_pos hwait]
    exact .wait ⟨rfl, rfl⟩
  rw [if_neg hwait, if_neg hwait]
  by_cases hunfit : len < 0 ∨ (pdu.data.length : Int) < len
  · rw [if_pos hunfit]
    unfold memcpy
    rw [if_pos hunfit]
    exact .halt
  rw [if_neg hunfit]
  obtain ⟨n, rfl⟩ : ∃ n : Nat, len = n := ⟨len.toNat, by omega⟩
  have hroom : n ≤ pdu.data.length := by omega
  rw [memcpy_ok hroom (by omega)]
  change Parsed _ _ _ (if _ then _ else _)
  have hkept : (payload.take n ++ pdu.data.drop n).length = pdu.data.length := by
    simp only [List.length_append, List.length_take, List.length_drop]
    omega
  have hcheck : ((payload.length : Int) - n < protocolSegChecksumLen) =
      ((payload.length : Int) < n + 2) := by
    unfold protocolSegChecksumLen
    exact propext (by omega)
  simp only [hcheck]
  by_cases hsum : (payload.length : Int) < n + 2
  · rw [if_pos hsum, if_pos hsum]
    exact .wait ⟨hkept, rfl⟩
  rw [if_neg hsum, if_neg hsum]
  obtain ⟨data, p0, p1, tail, rfl, rfl⟩ := exists_trailer (show n + 2 ≤ payload.length by omega)
  have hread0 : readByte (junk ++ (frameHead cmd cmdEx b0 b1 b2 b3 ++ (data ++ p0 :: p1 :: tail)))
      (junk.length + 1 + 2 + 4 + data.length) = .ok p0 := readByte_trailer junk _ _ _ _ _ _ data 0 rfl
  have hread1 : readByte (junk ++ (frameHead cmd cmdEx b0 b1 b2 b3 ++ (data ++ p0 :: p1 :: tail)))
      (junk.length + 1 + 2 + 4 + data.length + 1) = .ok p1 :=
    readByte_trailer junk _ _ _ _ _ _ data 1 rfl
  simp only [Int.toNat_natCast, hread0, List.take_left, List.drop_left, head_checksum,
    List.take_succ_cons, List.take_zero]
  change Parsed _ _ _ (readByte _ _ >>= _)
  rw [hread1]
  change Parsed _ _ _ (if _ then _ else _)
  by_cases hbytes : [p0, p1] = checksumBytes (frameHead cmd cmdEx b0 b1 b2 b3 ++ data)
  · rw [if_pos hbytes, if_neg ((checksumBytes_eq _ _ _).mp hbytes.symm)]
    have hcount : ((junk.length + (7 + (data ++ p0 :: p1 :: tail).length) : Nat) : Int) -
        ((data ++ p0 :: p1 :: tail).length - data.length - protocolSegChecksumLen) =
        junk.length + (9 + data.length : Nat) := by
      unfold protocolSegChecksumLen
      omega
    rw [hcount]
    exact .frame ⟨rfl, rfl, rfl, List.take_left⟩ (by simpa using hkept) rfl
  · rw [if_neg hbytes, if_pos (not_not.mp ((checksumBytes_eq _ _ _).not.mp (Ne.symm hbytes)))]
    exact .drop ⟨by simpa using hkept, rfl⟩

theorem parsePacket2_header {junk : List UInt8} (hjunk : protocolHeader ∉ junk) (pdu : PDU)
    (rest : List UInt8) :
    Parsed junk.length pdu (frameLook pdu.data.length (protocolHeader :: rest))
      (parsePacket2 (junk ++ protocolHeader :: rest) pdu) := by
  rw [frameLook_header]
  by_cases hshort : rest.length ≤ 6
  · obtain ⟨pdu', hparse, hkept⟩ := parsePacket2_short hjunk pdu hshort
    rw [headLook_short _ hshort, hparse]
    exact .wait hkept
  · obtain ⟨cmd, cmdEx, b0, b1, b2, b3, payload, hpayload, rfl⟩ := exists_head hshort
    exact parsePacket2_head hjunk pdu cmd cmdEx b0 b1 b2 b3 hpayload

theorem parsePacket2_start (pdu : PDU) (rest : List UInt8) :
    Parsed 0 pdu (frameLook pdu.data.length (protocolHeader :: rest))
      (parsePacket2 (protocolHeader :: rest) pdu) :=
  parsePacket2_header List.not_mem_nil pdu rest

theorem parsePacket2_checksum {inBuffer : List UInt8} {pdu pdu' : PDU} {r : Int}
    (hbefore : pdu.bEnable = false) (h : parsePacket2 inBuffer pdu = .ok (r, pdu'))
    (henable : pdu'.bEnable = true) :
    ∃ start, inBuffer.idxOf? protocolHeader = some start ∧
      pdu'.checksum1 =
        UInt8.ofNat (calcuChecksum (inBuffer.drop start) (7 + pdu'.dataLen) / 2 ^ 8) ∧
      pdu'.checksum2 = UInt8.ofNat (calcuChecksum (inBuffer.drop start) (7 + pdu'.dataLen)) := by
  have hearly : ∀ {n : Int} {q : PDU}, (pure (n, q) : Except Fault (Int × PDU)) = .ok (r, pdu') →
      q.bEnable ≠ pdu.bEnable := by
    rintro n q hreturn
    cases hreturn
    rw [henable, hbefore]
    decide
  unfold parsePacket2 at h
  dsimp only at h
  split at h
  · exact (hearly h rfl).elim
  split at h
  case h_2 => exact (hearly h rfl).elim
  rename_i start hstart
  refine ⟨start, hstart, ?_⟩
  -- header and command
  split at h
  · exact (hearly h rfl).elim
  split at h
  · exact (hearly h rfl).elim
  obtain ⟨cmd, -, h⟩ := bind_eq_ok h
  obtain ⟨cmdEx, -, h⟩ := bind_eq_ok h
  -- length
  split at h
  · exact (hearly h rfl).elim
  split at h
  · exact (hearly h rfl).elim
  split at h
  · exact (hearly h rfl).elim
  -- data and checksum
  obtain ⟨data, -, h⟩ := bind_eq_ok h
  split at h
  · exact (hearly h rfl).elim
  obtain ⟨p0, -, h⟩ := bind_eq_ok h
  obtain ⟨p1, -, h⟩ := bind_eq_ok h
  split at h
  · exact (hearly h rfl).elim
  have hseven : 1 + 2 + protocolSegDataLen = (7 : Int) := rfl
  rw [hseven] at h
  obtain ⟨-, hpdu⟩ := Prod.mk.inj (Except.ok.inj h)
  subst hpdu
  simp only [Nat.reducePow, and_self]

theorem parsePacket2_enabled {inBuffer : List UInt8} {pdu pdu' : PDU} {r : Int}
    (hbefore : pdu.bEnable = false) (h : parsePacket2 inBuffer pdu = .ok (r, pdu'))
    (henable : pdu'.bEnable = true) :
    ∃ junk m rest, inBuffer = junk ++ (m.frame ++ rest) ∧ m.data.length ≤ 0xFFFFF ∧
      r = (junk.length + m.frame.length : Nat) ∧ pdu'.Carries m ∧
      [pdu'.checksum1, pdu'.checksum2] = checksumBytes m.body := by
  by_cases hheader : protocolHeader ∈ inBuffer
  case neg =>
    rw [parsePacket2_junk pdu hheader] at h
    cases h
    exact absurd (hbefore.symm.trans henable) (by decide)
  obtain ⟨junk, start, rfl, hjunk⟩ := List.eq_append_cons_of_mem hheader
  have hparsed := parsePacket2_header hjunk pdu start
  obtain ⟨at', hidx, hchecksum⟩ := parsePacket2_checksum hbefore h henable
  rw [idxOf?_header junk start hjunk, Option.some.injEq] at hidx
  rw [← hidx, List.drop_left] at hchecksum
  rw [h] at hparsed
  generalize hlook : frameLook pdu.data.length (protocolHeader :: start) = look at hparsed
  cases hparsed with
  | wait hkept => exact absurd (henable.symm.trans (hkept.bEnable.trans hbefore)) (by decide)
  | drop hkept => exact absurd (henable.symm.trans (hkept.bEnable.trans hbefore)) (by decide)
  | @frame pdu' m count hcarries hcapacity henable =>
      obtain ⟨rest, hrest⟩ := frameLook_event hlook
      obtain ⟨hcount, hlong⟩ := frameLook_count hlook
      have hlength : 7 + pdu'.dataLen = (m.body.length : Nat) := by
        rw [hcarries.dataLen, Message.body_length]
        omega
      refine ⟨junk, m, rest, by rw [hrest], hlong, ?_, hcarries, ?_⟩
      · rw [Message.frame_length, hcount]
        omega
      · rw [← hrest, hlength, Message.frame, List.append_assoc, calcuChecksum_append] at hchecksum
        rw [hchecksum.1, hchecksum.2]
        exact ((checksumBytes_eq m.body _ _).mpr (by simp)).symm

theorem dropWhile_junk {junk : List UInt8} (hjunk : protocolHeader ∉ junk) (rest : List UInt8) :
    (junk ++ protocolHeader :: rest).dropWhile (· ≠ protocolHeader) = protocolHeader :: rest := by
  rw [List.dropWhile_append_of_pos]
  · simp
  · intro byte hbyte
    simp only [ne_eq, decide_not, Bool.not_eq_true', decide_eq_false_iff_not]
    rintro rfl
    exact hjunk hbyte

theorem parsePacket2_error {inBuffer : List UInt8} {pdu : PDU} {f : Fault}
    (h : parsePacket2 inBuffer pdu = .error f) :
    frameLook pdu.data.length (inBuffer.dropWhile (· ≠ protocolHeader)) = .halt f := by
  by_cases hheader : protocolHeader ∈ inBuffer
  · obtain ⟨junk, rest, rfl, hjunk⟩ := List.eq_append_cons_of_mem hheader
    have hparsed := parsePacket2_header hjunk pdu rest
    rw [h] at hparsed
    rw [dropWhile_junk hjunk]
    generalize frameLook pdu.data.length (protocolHeader :: rest) = look at hparsed ⊢
    cases hparsed
    rfl
  · rw [parsePacket2_junk pdu hheader] at h
    cases h

end CccUpgrade
