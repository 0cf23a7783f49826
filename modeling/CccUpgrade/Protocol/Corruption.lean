import Mathlib.Algebra.BigOperators.Group.List.Basic
import CccUpgrade.Protocol.Parse

/-! What the additive checksum detects. A frame with one byte replaced behind the header
and outside of the length field is refused, and only its header is dropped. -/
namespace CccUpgrade

open Lib

theorem sum_set {bytes : List UInt8} {pos : Nat} {old : UInt8} (hold : bytes[pos]? = some old)
    (byte : UInt8) :
    ((bytes.set pos byte).map UInt8.toNat).sum + old.toNat =
      (bytes.map UInt8.toNat).sum + byte.toNat := by
  induction bytes generalizing pos with
  | nil => cases hold
  | cons first bytes ih =>
      cases pos with
      | zero =>
          cases hold
          simp only [List.set_cons_zero, List.map_cons, List.sum_cons]
          omega
      | succ pos =>
          have hrest := ih hold
          simp only [List.set_cons_succ, List.map_cons, List.sum_cons]
          omega

theorem checksumBytes_inj {body body' : List UInt8}
    (h : checksumBytes body = checksumBytes body') :
    (body.map UInt8.toNat).sum % 2 ^ 16 = (body'.map UInt8.toNat).sum % 2 ^ 16 := by
  simp only [checksumBytes, List.cons.injEq, and_true, ← UInt8.toNat_inj, UInt8.toNat_ofNat'] at h
  omega

theorem checksumBytes_set {body : List UInt8} {pos : Nat} {old byte : UInt8}
    (hold : body[pos]? = some old) (hbyte : byte ≠ old) :
    checksumBytes (body.set pos byte) ≠ checksumBytes body := by
  intro hsame
  have hsum := sum_set hold byte
  have hmod := checksumBytes_inj hsame
  have hne : byte.toNat ≠ old.toNat := fun h => hbyte (UInt8.toNat_inj.mp h)
  have hlt := byte.toNat_lt
  have hlt' := old.toNat_lt
  omega

section Refused

variable {capacity : Nat} {cmd cmdEx b0 b1 b2 b3 : UInt8} {data trailer : List UInt8}

theorem frameLook_refused (hfield : asInt32 (bigEndian32 b0 b1 b2 b3) = data.length)
    (hcapacity : data.length ≤ capacity) (hlong : data.length ≤ 0xFFFFF)
    (htrailer : trailer.length = 2)
    (hsum : trailer ≠ checksumBytes (frameHead cmd cmdEx b0 b1 b2 b3 ++ data)) (rest : List UInt8) :
    frameLook capacity (frameHead cmd cmdEx b0 b1 b2 b3 ++ (data ++ (trailer ++ rest))) =
      .take 1 none := by
  have hpayload : data ++ (trailer ++ rest) ≠ [] := by
    intro hnil
    have hlength := congrArg List.length hnil
    simp only [List.length_append, List.length_nil] at hlength
    omega
  have hlength : ((data ++ (trailer ++ rest)).length : Int) = data.length + 2 + rest.length := by
    simp only [List.length_append, htrailer]
    omega
  rw [frameLook_head]
  simp only [payloadLook, hfield, hpayload, ↓reduceIte, hlength, Int.toNat_natCast, List.take_left,
    List.drop_left]
  rw [if_neg (by omega), if_neg (by omega), if_neg (by omega), if_neg (by omega), if_neg]
  rw [List.take_left' htrailer]
  exact hsum

end Refused

/-- A frame altered in one place is a head with the same length field, as much data and a
trailer that is not its checksum. -/
theorem Message.frame_set {m : Message} {pos : Nat} {old byte : UInt8}
    (hlong : m.data.length < 2 ^ 31)
    (hpos : pos = 1 ∨ pos = 2 ∨ 7 ≤ pos ∧ pos < 9 + m.data.length)
    (hold : m.frame[pos]? = some old) (hbyte : byte ≠ old) :
    ∃ cmd cmdEx b0 b1 b2 b3 data trailer,
      m.frame.set pos byte = frameHead cmd cmdEx b0 b1 b2 b3 ++ (data ++ trailer) ∧
      asInt32 (bigEndian32 b0 b1 b2 b3) = m.data.length ∧
      data.length = m.data.length ∧ trailer.length = 2 ∧
      trailer ≠ checksumBytes (frameHead cmd cmdEx b0 b1 b2 b3 ++ data) := by
  have hfield : asInt32 (bigEndian32 (UInt8.ofNat (m.data.length / 2 ^ 24))
      (UInt8.ofNat (m.data.length / 2 ^ 16)) (UInt8.ofNat (m.data.length / 2 ^ 8))
      (UInt8.ofNat m.data.length)) = m.data.length := fourBytesToInt_toBigEndian32 hlong []
  by_cases hbody : pos < m.body.length
  case pos =>
    rw [Message.frame, List.getElem?_append_left hbody] at hold
    have hsum := (checksumBytes_set hold hbyte).symm
    rw [Message.frame, List.set_append_left _ _ hbody]
    rcases hpos with rfl | rfl | ⟨hdata, -⟩
    · exact ⟨byte, m.cmdEx, _, _, _, _, m.data, checksumBytes m.body, rfl, hfield, rfl, rfl, hsum⟩
    · exact ⟨m.cmd, byte, _, _, _, _, m.data, checksumBytes m.body, rfl, hfield, rfl, rfl, hsum⟩
    · have hset : m.body.set pos byte = frameHead m.cmd m.cmdEx
          (UInt8.ofNat (m.data.length / 2 ^ 24)) (UInt8.ofNat (m.data.length / 2 ^ 16))
          (UInt8.ofNat (m.data.length / 2 ^ 8)) (UInt8.ofNat m.data.length) ++
            m.data.set (pos - 7) byte := by
        rw [Message.body_eq, List.set_append_right _ _ hdata]
        rfl
      rw [hset] at hsum ⊢
      exact ⟨m.cmd, m.cmdEx, _, _, _, _, m.data.set (pos - 7) byte, checksumBytes m.body,
        List.append_assoc _ _ _, hfield, List.length_set, rfl, hsum⟩
  case neg =>
    have hle : m.body.length ≤ pos := by omega
    rw [Message.frame, List.getElem?_append_right hle] at hold
    refine ⟨m.cmd, m.cmdEx, _, _, _, _, m.data, (checksumBytes m.body).set (pos - m.body.length) byte,
      ?_, hfield, rfl, List.length_set, ?_⟩
    · rw [Message.frame, List.set_append_right _ _ hle, ← List.append_assoc, ← Message.body_eq]
    · rw [← Message.body_eq]
      intro hsame
      have hat : (checksumBytes m.body)[pos - m.body.length]? = some byte := by
        rw [← hsame]
        exact List.getElem?_set_self (List.getElem?_eq_some_iff.mp hold).1
      rw [hold] at hat
      exact hbyte (Option.some.inj hat).symm

/-- One byte of an encoded message replaced, other than the header and the length field:
the parser drops the header byte and enables nothing, whatever follows. -/
theorem corruption_detected {m : Message} {pdu : PDU} {bufferSize pos : Nat} {byte : UInt8}
    (hlong : m.data.length ≤ 0xFFFFF) (hroom : m.data.length ≤ pdu.data.length)
    (hbuffer : 9 + m.data.length ≤ bufferSize)
    (hpos : pos = 1 ∨ pos = 2 ∨ 7 ≤ pos ∧ pos < 9 + m.data.length)
    (hbyte : (createProtocolPacket m.cmd m.cmdEx (some m.data) m.data.length true
      bufferSize).packet[pos]? ≠ some byte) (rest : List UInt8) :
    ∃ pdu', parsePacket2 ((createProtocolPacket m.cmd m.cmdEx (some m.data) m.data.length true
        bufferSize).packet.set pos byte ++ rest) pdu = .ok (1, pdu') ∧
      pdu'.bEnable = pdu.bEnable := by
  rw [createProtocolPacket_packet m (by omega) (by omega)] at hbyte ⊢
  have hinside : pos < m.frame.length := by
    rw [Message.frame_length]
    omega
  have hold : m.frame[pos]? = some m.frame[pos] := List.getElem?_eq_getElem hinside
  have hchanged : byte ≠ m.frame[pos] := by
    rintro rfl
    exact hbyte hold
  obtain ⟨cmd, cmdEx, b0, b1, b2, b3, data, trailer, haltered, hfield, hdata, htrailer, hsum⟩ :=
    Message.frame_set (by omega) hpos hold hchanged
  have hlook : frameLook pdu.data.length (frameHead cmd cmdEx b0 b1 b2 b3 ++
      (data ++ (trailer ++ rest))) = .take 1 none :=
    frameLook_refused (by rw [hfield, hdata]) (by omega) (by omega) htrailer hsum rest
  have hparsed : Parsed 0 pdu (frameLook pdu.data.length (frameHead cmd cmdEx b0 b1 b2 b3 ++
      (data ++ (trailer ++ rest)))) (parsePacket2 (frameHead cmd cmdEx b0 b1 b2 b3 ++
        (data ++ (trailer ++ rest))) pdu) := parsePacket2_start pdu _
  rw [hlook] at hparsed
  rw [haltered, List.append_assoc, List.append_assoc]
  generalize parsePacket2 (frameHead cmd cmdEx b0 b1 b2 b3 ++ (data ++ (trailer ++ rest))) pdu =
    call at hparsed
  cases hparsed with
  | @drop pdu' hkept => exact ⟨pdu', rfl, hkept.bEnable⟩

/-- The first data byte of a two-byte message replaced by a header byte. -/
theorem corruption_detected_header :
    ∃ pdu', parsePacket2 ((createProtocolPacket pcsUploadFile pcsEx01 (some [0x41, 0x42]) 2 true
        16).packet.set 7 protocolHeader ++ [0x7e]) ⟨0, 0, [0, 0], 0, 0, 0, false⟩ =
          .ok (1, pdu') ∧ pdu'.bEnable = false :=
  corruption_detected (m := ⟨pcsUploadFile, pcsEx01, [0x41, 0x42]⟩) (by decide) (by decide) (by decide)
    (by decide) (by decide +kernel) [0x7e]

end CccUpgrade
