import CccUpgrade.Protocol.Parse
import Mathlib.Data.List.TakeWhile

/-! The accesses of `parse_packet2` to its input. The parser is written once more so
that it notes each range of bytes before it reads it; the ranges stay inside the input
as long as no length field it acts on has its top bit set. It acts on a length field
only once a byte follows it. -/
namespace CccUpgrade

open Lib

structure Access where
  start : Int
  count : Int
deriving DecidableEq, Repr

def Access.Within (size : Nat) (a : Access) : Prop :=
  0 ≤ a.start ∧ 0 ≤ a.count ∧ a.start + a.count ≤ size

abbrev Noted := ExceptT Fault (StateM (List Access))

namespace Noted

variable {α β : Type}

def access (start count : Int) : Noted Unit := modify fun seen => seen ++ [⟨start, count⟩]

def Stays (size : Nat) (m : Noted α) : Prop :=
  ∀ seen, (∀ a ∈ seen, a.Within size) → ∀ a ∈ (m.run.run seen).2, a.Within size

def Returns (m : Noted α) (r : Except Fault α) : Prop := ∀ seen, (m.run.run seen).1 = r

variable {size : Nat}

theorem stays_pure (a : α) : Stays size (pure a : Noted α) := fun _ h => h

theorem stays_lift (r : Except Fault α) : Stays size (liftM r : Noted α) := by
  intro seen h
  cases r <;> exact h

theorem stays_access {start count : Int} (hstart : 0 ≤ start) (hcount : 0 ≤ count)
    (hend : start + count ≤ size) : Stays size (access start count) := by
  intro seen hseen a ha
  rcases List.mem_append.mp ha with hbefore | hhere
  · exact hseen a hbefore
  · rw [List.mem_singleton.mp hhere]
    exact ⟨hstart, hcount, hend⟩

theorem Stays.bind {m : Noted α} {f : α → Noted β} (hm : Stays size m)
    (hf : ∀ a, Stays size (f a)) : Stays size (m >>= f) := by
  intro seen hseen
  have hfirst := hm seen hseen
  simp only [ExceptT.run_bind, StateT.run_bind]
  cases hrun : m.run.run seen with
  | mk r later =>
      rw [hrun] at hfirst
      cases r with
      | ok a => exact hf a later hfirst
      | error f => exact hfirst

theorem Stays.unless {p : Prop} [Decidable p] {a : α} {m : Noted α} (h : ¬ p → Stays size m) :
    Stays size (if p then pure a else m) := by
  split
  · exact stays_pure a
  · rename_i hnot
    exact h hnot

theorem returns_pure (a : α) : Returns (pure a : Noted α) (.ok a) := fun _ => rfl

theorem Returns.access {start count : Int} {m : Noted α} {r : Except Fault α} (h : Returns m r) :
    Returns (access start count >>= fun _ => m) r := fun _ => h _

theorem Returns.lift {r : Except Fault α} {f : α → Noted β} {g : α → Except Fault β}
    (h : ∀ a, Returns (f a) (g a)) : Returns (liftM r >>= f) (r >>= g) := by
  intro seen
  cases r with
  | ok a => exact h a seen
  | error e => rfl

theorem Returns.ite {p : Prop} [Decidable p] {m m' : Noted α} {r r' : Except Fault α}
    (h : Returns m r) (h' : Returns m' r') : Returns (if p then m else m') (if p then r else r') := by
  split
  · exact h
  · exact h'

end Noted

open Noted

/-- `parse_packet2` with the ranges it reads noted, the lines it prints included. -/
def parsePacket2Noted (inBuffer : List UInt8) (lpPdu : PDU) : Noted (Int × PDU) := do
  let dataLen : Int := inBuffer.length
  if dataLen ≤ 0 then return (0, lpPdu)
  -- find header
  access 0 dataLen
  let some pStart := inBuffer.idxOf? protocolHeader | return (dataLen, lpPdu)
  let discardLen : Int := pStart
  access 0 discardLen
  let remainLen := dataLen - discardLen
  -- header
  if remainLen ≤ 1 then return (discardLen, lpPdu)
  let p := pStart + 1
  let remainLen := remainLen - 1
  -- cmd
  if remainLen ≤ 2 then return (discardLen, lpPdu)
  access p 1
  let cmd ← readByte inBuffer p
  access (p + 1 : Nat) 1
  let cmdEx ← readByte inBuffer (p + 1)
  let lpPdu := { lpPdu with cmd := cmd, cmdEx := cmdEx }
  let p := p + 2
  let remainLen := remainLen - 2
  -- length (valid data)
  if remainLen ≤ protocolSegDataLen then return (discardLen, lpPdu)
  access p protocolSegDataLen
  let validDataLen := calcuDataLength (inBuffer.drop p) protocolSegDataLen
  if validDataLen > 0xFFFFF then return (discardLen + 1, lpPdu)
  let lpPdu := { lpPdu with dataLen := validDataLen }
  let p := p + 4
  let remainLen := remainLen - protocolSegDataLen
  -- valid data
  if remainLen ≤ validDataLen then return (discardLen, lpPdu)
  access p validDataLen
  let data ← memcpy lpPdu.data (inBuffer.drop p) validDataLen
  let lpPdu := { lpPdu with data := data }
  let p := p + validDataLen.toNat
  let remainLen := remainLen - validDataLen
  -- checksum
  if remainLen < protocolSegChecksumLen then return (discardLen, lpPdu)
  access pStart (1 + 2 + protocolSegDataLen + validDataLen)
  let checksum := calcuChecksum (inBuffer.drop pStart)
    (1 + 2 + protocolSegDataLen + validDataLen)
  let lpPdu := { lpPdu with
    checksum1 := UInt8.ofNat (checksum / 2 ^ 8), checksum2 := UInt8.ofNat checksum }
  access p 1
  let p0 ← readByte inBuffer p
  access (p + 1 : Nat) 1
  let p1 ← readByte inBuffer (p + 1)
  if lpPdu.checksum1 ≠ p0 ∨ lpPdu.checksum2 ≠ p1 then return (discardLen + 1, lpPdu)
  let remainLen := remainLen - protocolSegChecksumLen
  return (dataLen - remainLen, { lpPdu with bEnable := true })

def parsePacket2Accesses (inBuffer : List UInt8) (lpPdu : PDU) : List Access :=
  ((parsePacket2Noted inBuffer lpPdu).run.run []).2

/-- Noting the accesses changes nothing else. -/
theorem parsePacket2Noted_returns (inBuffer : List UInt8) (lpPdu : PDU) :
    Returns (parsePacket2Noted inBuffer lpPdu) (parsePacket2 inBuffer lpPdu) := by
  unfold parsePacket2Noted parsePacket2
  apply Returns.ite (returns_pure _)
  apply Returns.access
  cases inBuffer.idxOf? protocolHeader with
  | none => exact returns_pure _
  | some pStart =>
      apply Returns.access
      apply Returns.ite (returns_pure _)
      apply Returns.ite (returns_pure _)
      apply Returns.access
      apply Returns.lift
      intro cmd
      apply Returns.access
      apply Returns.lift
      intro cmdEx
      apply Returns.ite (returns_pure _)
      apply Returns.access
      apply Returns.ite (returns_pure _)
      apply Returns.ite (returns_pure _)
      apply Returns.access
      apply Returns.lift
      intro data
      apply Returns.ite (returns_pure _)
      apply Returns.access
      apply Returns.access
      apply Returns.lift
      intro p0
      apply Returns.access
      apply Returns.lift
      intro p1
      apply Returns.ite (returns_pure _)
      exact returns_pure _

/-- The length field of the first frame, read as an unsigned number, once its four bytes
are there. -/
def lengthAtHeader (inBuffer : List UInt8) : Option Nat :=
  match inBuffer.dropWhile (· ≠ protocolHeader) with
  | _ :: _ :: _ :: b0 :: b1 :: b2 :: b3 :: _ => some (bigEndian32 b0 b1 b2 b3)
  | _ => none

/-- The first frame ends with its length field. -/
def BareHead (inBuffer : List UInt8) : Prop :=
  (inBuffer.dropWhile (· ≠ protocolHeader)).length = 7

def junkLength (inBuffer : List UInt8) : Nat := (inBuffer.takeWhile (· ≠ protocolHeader)).length

section Junk

variable {junk : List UInt8} (hjunk : protocolHeader ∉ junk) (rest : List UInt8)
include hjunk

theorem junkLength_junk : junkLength (junk ++ protocolHeader :: rest) = junk.length := by
  have hsplit := congrArg List.length
    (List.takeWhile_append_dropWhile (p := (· ≠ protocolHeader)) (l := junk ++ protocolHeader :: rest))
  rw [List.length_append, dropWhile_junk hjunk, List.length_append] at hsplit
  unfold junkLength
  omega

theorem lengthAtHeader_short (hrest : rest.length ≤ 5) :
    lengthAtHeader (junk ++ protocolHeader :: rest) = none := by
  unfold lengthAtHeader
  rw [dropWhile_junk hjunk]
  split
  · rename_i heq
    rw [List.cons.injEq] at heq
    rw [heq.2] at hrest
    simp only [List.length_cons] at hrest
    omega
  · rfl

theorem lengthAtHeader_head (cmd cmdEx b0 b1 b2 b3 : UInt8) (payload : List UInt8) :
    lengthAtHeader (junk ++ (frameHead cmd cmdEx b0 b1 b2 b3 ++ payload)) =
      some (bigEndian32 b0 b1 b2 b3) := by
  unfold lengthAtHeader frameHead
  rw [List.cons_append, dropWhile_junk hjunk]
  rfl

theorem bareHead_head (cmd cmdEx b0 b1 b2 b3 : UInt8) (payload : List UInt8) :
    BareHead (junk ++ (frameHead cmd cmdEx b0 b1 b2 b3 ++ payload)) ↔ payload = [] := by
  unfold BareHead frameHead
  rw [List.cons_append, dropWhile_junk hjunk, ← List.length_eq_zero_iff]
  simp only [List.cons_append, List.nil_append, List.length_cons]
  omega

end Junk

theorem lengthAtHeader_junk {inBuffer : List UInt8} (hjunk : protocolHeader ∉ inBuffer) :
    lengthAtHeader inBuffer = none := by
  unfold lengthAtHeader
  rw [List.dropWhile_eq_nil_iff.mpr]
  intro byte hbyte
  simp only [ne_eq, decide_not, Bool.not_eq_true', decide_eq_false_iff_not]
  rintro rfl
  exact hjunk hbyte

/-- The length field is one that the code reads as a negative number, or too large a one
that it does not look at yet. -/
def LengthMissed (inBuffer : List UInt8) : Prop :=
  ∃ len, lengthAtHeader inBuffer = some len ∧
    (2 ^ 31 ≤ len ∨ 0xFFFFF < len ∧ BareHead inBuffer)

theorem lengthMissed_iff {inBuffer : List UInt8} {len : Nat}
    (h : lengthAtHeader inBuffer = some len) :
    LengthMissed inBuffer ↔ 2 ^ 31 ≤ len ∨ 0xFFFFF < len ∧ BareHead inBuffer := by
  unfold LengthMissed
  simp [h]

theorem not_lengthMissed {inBuffer : List UInt8} (h : lengthAtHeader inBuffer = none) :
    ¬ LengthMissed inBuffer := by
  unfold LengthMissed
  simp [h]

theorem asInt32_neg {n : Nat} (h : 2 ^ 31 ≤ n) (hlt : n < 2 ^ 32) : asInt32 n < 0 := by
  unfold asInt32
  rw [Int.bmod_def]
  omega

/-- The walk through the code: every range read ends before the bytes that the
remaining length has been checked for. -/
theorem parsePacket2Noted_stays (inBuffer : List UInt8) (lpPdu : PDU)
    (hfield : ∀ junk rest, inBuffer = junk ++ protocolHeader :: rest → protocolHeader ∉ junk →
      7 ≤ rest.length → 0 ≤ calcuDataLength (inBuffer.drop (junk.length + 1 + 2)) protocolSegDataLen) :
    Stays inBuffer.length (parsePacket2Noted inBuffer lpPdu) := by
  unfold parsePacket2Noted
  apply Stays.unless
  intro _
  apply Stays.bind (stays_access (by omega) (by omega) (by omega))
  intro _
  by_cases hheader : protocolHeader ∈ inBuffer
  · obtain ⟨junk, rest, hsplit, hjunk⟩ := List.eq_append_cons_of_mem hheader
    have hidx : inBuffer.idxOf? protocolHeader = some junk.length := by
      rw [hsplit]
      exact idxOf?_header junk rest hjunk
    have hlength : inBuffer.length = junk.length + (rest.length + 1) := by
      rw [hsplit, List.length_append, List.length_cons]
    have hnonneg := hfield junk rest hsplit hjunk
    have hread : ∀ index : Nat, index < inBuffer.length → Stays inBuffer.length (access index 1) := by
      intro index hindex
      exact stays_access (by omega) (by omega) (by omega)
    simp only [hidx]
    apply Stays.bind (stays_access (by omega) (by omega) (by omega))
    intro _
    apply Stays.unless
    intro hone
    apply Stays.unless
    intro htwo
    apply Stays.bind (hread _ (by omega))
    intro _
    apply Stays.bind (stays_lift _)
    intro cmd
    apply Stays.bind (hread _ (by omega))
    intro _
    apply Stays.bind (stays_lift _)
    intro cmdEx
    unfold protocolSegDataLen protocolSegChecksumLen at *
    apply Stays.unless
    intro hfour
    apply Stays.bind (stays_access (by omega) (by omega) (by omega))
    intro _
    generalize calcuDataLength (inBuffer.drop (junk.length + 1 + 2)) 4 = len at hnonneg ⊢
    apply Stays.unless
    intro hlong
    apply Stays.unless
    intro hpayload
    have hlen : 0 ≤ len := hnonneg (by omega)
    apply Stays.bind (stays_access (by omega) hlen (by omega))
    intro _
    apply Stays.bind (stays_lift _)
    intro data
    apply Stays.unless
    intro htrailer
    apply Stays.bind (stays_access (by omega) (by omega) (by omega))
    intro _
    apply Stays.bind (hread _ (by omega))
    intro _
    apply Stays.bind (stays_lift _)
    intro p0
    apply Stays.bind (hread _ (by omega))
    intro _
    apply Stays.bind (stays_lift _)
    intro p1
    exact Stays.unless fun _ => stays_pure _
  · simp only [List.idxOf?_eq_none_iff.mpr hheader]
    exact stays_pure _

theorem exists_field {rest : List UInt8} (h : ¬ rest.length ≤ 5) :
    ∃ cmd cmdEx b0 b1 b2 b3 payload, rest = cmd :: cmdEx :: b0 :: b1 :: b2 :: b3 :: payload := by
  rcases rest with _ | ⟨cmd, _ | ⟨cmdEx, _ | ⟨b0, _ | ⟨b1, _ | ⟨b2, _ | ⟨b3, payload⟩⟩⟩⟩⟩⟩
  case cons.cons.cons.cons.cons.cons => exact ⟨cmd, cmdEx, b0, b1, b2, b3, payload, rfl⟩
  all_goals
    simp only [List.length_cons, List.length_nil] at h
    omega

structure ParseSafe (inBuffer : List UInt8) (lpPdu : PDU) : Prop where
  accesses : ∀ a ∈ parsePacket2Accesses inBuffer lpPdu, a.Within inBuffer.length
  result : ∃ r pdu, parsePacket2 inBuffer lpPdu = .ok (r, pdu) ∧ 0 ≤ r ∧ r ≤ inBuffer.length ∧
    ∀ len, lengthAtHeader inBuffer = some len → 0xFFFFF < len → r = junkLength inBuffer + 1

theorem Parsed.error_of_halt {discarded : Nat} {pdu : PDU} {f : Fault}
    {call : Except Fault (Int × PDU)} (h : Parsed discarded pdu (.halt f) call) :
    call = .error f := by
  cases h
  rfl

theorem parsePacket2_used {junk : List UInt8} (hjunk : protocolHeader ∉ junk) (rest : List UInt8)
    (lpPdu : PDU)
    (hhalt : ∀ f, frameLook lpPdu.data.length (protocolHeader :: rest) ≠ .halt f) :
    ∃ r pdu, parsePacket2 (junk ++ protocolHeader :: rest) lpPdu = .ok (r, pdu) ∧ 0 ≤ r ∧
      r ≤ (junk ++ protocolHeader :: rest).length ∧
      (frameLook lpPdu.data.length (protocolHeader :: rest) = .take 1 none → r = junk.length + 1) ∧
      (frameLook lpPdu.data.length (protocolHeader :: rest) = .wait → r = junk.length) := by
  have hparsed := parsePacket2_header hjunk lpPdu rest
  have hlength : (junk ++ protocolHeader :: rest).length = junk.length + (rest.length + 1) := by
    rw [List.length_append, List.length_cons]
  have htake := @frameLook_take lpPdu.data.length (protocolHeader :: rest)
  generalize frameLook lpPdu.data.length (protocolHeader :: rest) = look at hparsed hhalt htake ⊢
  generalize parsePacket2 (junk ++ protocolHeader :: rest) lpPdu = call at hparsed ⊢
  cases hparsed with
  | wait hkept => exact ⟨_, _, rfl, by omega, by omega, nofun, fun _ => rfl⟩
  | drop hkept => exact ⟨_, _, rfl, by omega, by omega, fun _ => rfl, nofun⟩
  | frame hcarries hcapacity henable =>
      have hcount := (htake rfl).2
      rw [List.length_cons] at hcount
      exact ⟨_, _, rfl, by omega, by omega, nofun, nofun⟩
  | halt => exact absurd rfl (hhalt _)

theorem parseSafe_of_nonneg {junk : List UInt8} (hjunk : protocolHeader ∉ junk)
    (rest : List UInt8) {lpPdu : PDU}
    (hfield : 7 ≤ rest.length → 0 ≤ calcuDataLength
      ((junk ++ protocolHeader :: rest).drop (junk.length + 1 + 2)) protocolSegDataLen)
    (hhalt : ∀ f, frameLook lpPdu.data.length (protocolHeader :: rest) ≠ .halt f)
    (hlong : ∀ len, lengthAtHeader (junk ++ protocolHeader :: rest) = some len → 0xFFFFF < len →
      frameLook lpPdu.data.length (protocolHeader :: rest) = .take 1 none) :
    ParseSafe (junk ++ protocolHeader :: rest) lpPdu where
  accesses := by
    apply parsePacket2Noted_stays _ _ _ [] (by simp)
    intro junk' rest' hsplit hjunk' hrest
    have hjunks : junk' = junk := by
      have hidx := idxOf?_header junk rest hjunk
      rw [hsplit, idxOf?_header junk' rest' hjunk'] at hidx
      exact (List.append_inj hsplit (Option.some.inj hidx).symm).1.symm
    subst hjunks
    rw [List.append_cancel_left_eq, List.cons.injEq] at hsplit
    rw [hsplit.2] at hfield ⊢
    exact hfield hrest
  result := by
    obtain ⟨r, pdu, hrun, hnonneg, hle, hdrop, -⟩ := parsePacket2_used hjunk rest lpPdu hhalt
    refine ⟨r, pdu, hrun, hnonneg, hle, fun len hlen hbig => ?_⟩
    rw [junkLength_junk hjunk]
    exact hdrop (hlong len hlen hbig)

section Cases

variable {junk rest : List UInt8} {lpPdu : PDU}

theorem parseSafe_short (hjunk : protocolHeader ∉ junk) (hshort : rest.length ≤ 6)
    (hlong : ∀ len, lengthAtHeader (junk ++ protocolHeader :: rest) = some len → len ≤ 0xFFFFF) :
    ParseSafe (junk ++ protocolHeader :: rest) lpPdu := by
  have hwait : frameLook lpPdu.data.length (protocolHeader :: rest) = .wait := by
    rw [frameLook_header, headLook_short _ hshort]
  apply parseSafe_of_nonneg hjunk rest
  · omega
  · simp [hwait]
  · exact fun len hlen hbig => absurd (hlong len hlen) (Nat.not_le.mpr hbig)

/-- So a head that is all there, and whose length field is too large, is kept. -/
theorem parseSafe_bare (hjunk : protocolHeader ∉ junk) (cmd cmdEx b0 b1 b2 b3 : UInt8) :
    ParseSafe (junk ++ frameHead cmd cmdEx b0 b1 b2 b3) lpPdu ↔ bigEndian32 b0 b1 b2 b3 ≤ 0xFFFFF := by
  have hfield := lengthAtHeader_head hjunk cmd cmdEx b0 b1 b2 b3 []
  rw [List.append_nil] at hfield
  constructor
  · intro hsafe
    have hwait : frameLook lpPdu.data.length (frameHead cmd cmdEx b0 b1 b2 b3) = .wait := by
      rw [frameHead, frameLook_header]
      exact headLook_short _ (Nat.le_refl 6)
    have hhalt : ∀ f, frameLook lpPdu.data.length (frameHead cmd cmdEx b0 b1 b2 b3) ≠ .halt f := by
      intro f hhalt
      cases hwait.symm.trans hhalt
    obtain ⟨r, pdu, hrun, -, -, hdrop⟩ := hsafe.result
    obtain ⟨r', pdu', hrun', -, -, -, hkept⟩ := parsePacket2_used hjunk
      [cmd, cmdEx, b0, b1, b2, b3] lpPdu hhalt
    change parsePacket2 (junk ++ frameHead cmd cmdEx b0 b1 b2 b3) lpPdu = _ at hrun'
    obtain ⟨rfl, rfl⟩ : r = r' ∧ pdu = pdu' := by simpa [hrun] using hrun'
    by_contra hbig
    have hdropped := hdrop _ hfield (Nat.lt_of_not_le hbig)
    rw [hkept hwait, frameHead, junkLength_junk hjunk] at hdropped
    omega
  · intro hsmall
    refine parseSafe_short hjunk (show [cmd, cmdEx, b0, b1, b2, b3].length ≤ 6 from Nat.le_refl 6) ?_
    intro len hlen
    exact Option.some.inj (hfield.symm.trans hlen) ▸ hsmall

theorem parseSafe_junk {inBuffer : List UInt8} (hjunk : protocolHeader ∉ inBuffer) :
    ParseSafe inBuffer lpPdu where
  accesses := by
    apply parsePacket2Noted_stays _ _ _ [] (by simp)
    rintro junk rest rfl - -
    simp at hjunk
  result :=
    ⟨_, _, parsePacket2_junk lpPdu hjunk, by omega, by omega, by simp [lengthAtHeader_junk hjunk]⟩

variable (hjunk : protocolHeader ∉ junk) (hdata : 0xFFFFF ≤ lpPdu.data.length)
  (cmd cmdEx b0 b1 b2 b3 : UInt8) {payload : List UInt8} (hpayload : payload ≠ [])

include hjunk hpayload

variable (lpPdu) in
theorem parsePacket2_negative (hneg : 2 ^ 31 ≤ bigEndian32 b0 b1 b2 b3) :
    ∃ f, parsePacket2 (junk ++ (frameHead cmd cmdEx b0 b1 b2 b3 ++ payload)) lpPdu =
      .error f := by
  have hlen := asInt32_neg hneg (bigEndian32_lt b0 b1 b2 b3)
  have hpos := List.length_pos_iff.mpr hpayload
  have hhalt : payloadLook lpPdu.data.length cmd cmdEx b0 b1 b2 b3 payload = .halt _ :=
    (payloadLook_halt_iff rfl).mpr ⟨hpayload, by omega, by omega, .inl hlen, rfl⟩
  have hparsed := parsePacket2_head hjunk lpPdu cmd cmdEx b0 b1 b2 b3 hpayload
  rw [hhalt] at hparsed
  exact ⟨_, hparsed.error_of_halt⟩

include hdata

theorem parseSafe_head (hsmall : bigEndian32 b0 b1 b2 b3 < 2 ^ 31) :
    ParseSafe (junk ++ (frameHead cmd cmdEx b0 b1 b2 b3 ++ payload)) lpPdu := by
  have hlen := asInt32_of_lt hsmall
  have hlook : frameLook lpPdu.data.length
      (protocolHeader :: cmd :: cmdEx :: b0 :: b1 :: b2 :: b3 :: payload) =
      payloadLook lpPdu.data.length cmd cmdEx b0 b1 b2 b3 payload := frameLook_header _ _
  apply parseSafe_of_nonneg hjunk (cmd :: cmdEx :: b0 :: b1 :: b2 :: b3 :: payload)
  · intro _
    rw [show junk ++ protocolHeader :: cmd :: cmdEx :: b0 :: b1 :: b2 :: b3 :: payload =
      junk ++ (frameHead cmd cmdEx b0 b1 b2 b3 ++ payload) from rfl, head_field, hlen]
    omega
  · intro f hhalt
    rw [hlook] at hhalt
    obtain ⟨-, hle, -, hunfit, -⟩ := (payloadLook_halt_iff hlen).mp hhalt
    omega
  · intro len hlen' hbig
    have hfield := lengthAtHeader_head hjunk cmd cmdEx b0 b1 b2 b3 payload
    rw [← Option.some.inj (hfield.symm.trans hlen')] at hbig
    rw [hlook]
    simp only [payloadLook, hlen]
    rw [if_neg hpayload, if_pos (by omega)]

end Cases

/-- A call reads only its input, copies and sums up non-negative numbers of bytes and
uses at most the whole input, dropping the header of a frame that announces more than
0xFFFFF bytes, if and only if the length it acts on is not negative and a too large one
is followed by a byte. -/
theorem parsePacket2_safe (inBuffer : List UInt8) {lpPdu : PDU}
    (hdata : 0xFFFFF ≤ lpPdu.data.length) :
    ParseSafe inBuffer lpPdu ↔ ¬ LengthMissed inBuffer := by
  by_cases hheader : protocolHeader ∈ inBuffer
  · obtain ⟨junk, rest, rfl, hjunk⟩ := List.eq_append_cons_of_mem hheader
    by_cases hshort : rest.length ≤ 5
    · have hnone := lengthAtHeader_short hjunk rest hshort
      refine iff_of_true (parseSafe_short hjunk (by omega) ?_) (not_lengthMissed hnone)
      rw [hnone]
      exact nofun
    obtain ⟨cmd, cmdEx, b0, b1, b2, b3, payload, rfl⟩ := exists_field hshort
    have hfield := lengthAtHeader_head hjunk cmd cmdEx b0 b1 b2 b3 payload
    have hbare := bareHead_head hjunk cmd cmdEx b0 b1 b2 b3 payload
    change ParseSafe (junk ++ (frameHead cmd cmdEx b0 b1 b2 b3 ++ payload)) lpPdu ↔
      ¬ LengthMissed (junk ++ (frameHead cmd cmdEx b0 b1 b2 b3 ++ payload))
    rw [lengthMissed_iff hfield, hbare]
    by_cases hpayload : payload = []
    · subst hpayload
      rw [List.append_nil, parseSafe_bare hjunk]
      simp only [and_true]
      omega
    · simp only [hpayload, and_false, or_false, Nat.not_le]
      constructor
      · intro hsafe
        by_contra hneg
        obtain ⟨r, pdu, hrun, -⟩ := hsafe.result
        obtain ⟨f, herror⟩ := parsePacket2_negative lpPdu hjunk cmd cmdEx b0 b1 b2 b3 hpayload
          (Nat.le_of_not_lt hneg)
        cases hrun.symm.trans herror
      · exact parseSafe_head hjunk hdata cmd cmdEx b0 b1 b2 b3 hpayload
  · exact iff_of_true (parseSafe_junk hheader) (not_lengthMissed (lengthAtHeader_junk hheader))

def roomyPdu : PDU := ⟨0, 0, List.replicate 0xFFFFF 0, 0, 0, 0, false⟩

theorem roomyPdu_length : 0xFFFFF ≤ roomyPdu.data.length := Nat.le_of_eq List.length_replicate.symm

/-- A frame that announces 0x100000 bytes is dropped. -/
theorem parsePacket2_safe_oversize :
    ParseSafe [0x7e, 0xE2, 0x03, 0x00, 0x10, 0x00, 0x00, 0x00] roomyPdu := by
  apply (parsePacket2_safe _ roomyPdu_length).mpr
  rintro ⟨len, hlen, hbig⟩
  have hfield : lengthAtHeader [0x7e, 0xE2, 0x03, 0x00, 0x10, 0x00, 0x00, 0x00] =
      some 0x100000 := by decide
  rw [← Option.some.inj (hfield.symm.trans hlen)] at hbig
  rcases hbig with hneg | ⟨-, hbare⟩
  · omega
  · cases hbare

/-- One that announces 0xFFFFFFFF bytes has -1 bytes copied. -/
theorem parsePacket2_safe_negative : ¬ ∀ (inBuffer : List UInt8) (lpPdu : PDU),
    1 ≤ inBuffer.length → 0xFFFFF ≤ lpPdu.data.length → ParseSafe inBuffer lpPdu := by
  intro hall
  have hsafe := hall [0x7e, 0xE2, 0x03, 0xFF, 0xFF, 0xFF, 0xFF, 0x00] roomyPdu (by decide)
    roomyPdu_length
  obtain ⟨r, pdu, hrun, -⟩ := hsafe.result
  have hlen : asInt32 (bigEndian32 0xFF 0xFF 0xFF 0xFF) = -1 := by decide
  have hhalt : payloadLook roomyPdu.data.length 0xE2 0x03 0xFF 0xFF 0xFF 0xFF [0x00] =
      .halt (.payloadCopy (-1)) :=
    (payloadLook_halt_iff hlen).mpr ⟨by simp, by omega, by simp, .inl (by omega), rfl⟩
  have hparsed := parsePacket2_head List.not_mem_nil roomyPdu 0xE2 0x03 0xFF 0xFF 0xFF 0xFF
    (List.cons_ne_nil 0x00 [])
  rw [hhalt] at hparsed
  have herror := hparsed.error_of_halt
  rw [List.nil_append] at herror
  cases herror.symm.trans hrun

end CccUpgrade
