import CccUpgrade.Protocol.ParseSafety

/-! The stores of `create_protocol_packet`. The encoder is written once more so that it
notes each range of its output buffer that it stores to. It compares the buffer's size
with that of the head only, and counts in a signed `int`. -/
namespace CccUpgrade

def addInt (a b : Int) : Option Int :=
  if -2 ^ 31 ≤ a + b ∧ a + b < 2 ^ 31 then some (a + b) else none

theorem addInt_eq_some {a b c : Int} (h : addInt a b = some c) : a + b = c ∧ c < 2 ^ 31 := by
  unfold addInt at h
  split at h
  · rename_i hrange
    cases h
    exact ⟨rfl, hrange.2⟩
  · cases h

theorem addInt_eq {a b c : Int} (hsum : a + b = c) (hlow : -2 ^ 31 ≤ c) (hhigh : c < 2 ^ 31) :
    addInt a b = some c := by
  subst hsum
  exact if_pos ⟨hlow, hhigh⟩

def payloadLen (data : Option (List UInt8)) (dataLen : Nat) : Nat :=
  if 0 < dataLen ∧ data.isSome then dataLen else 0

theorem payloadLen_le (data : Option (List UInt8)) (dataLen : Nat) :
    payloadLen data dataLen ≤ dataLen := by
  unfold payloadLen
  split
  · exact Nat.le_refl dataLen
  · exact Nat.zero_le dataLen

/-- `create_protocol_packet` with its result and the ranges it stores to, in order. -/
def createProtocolPacketNoted (data : Option (List UInt8)) (dataLen : Nat) (outBuffer : Bool)
    (bufferSize : Nat) : Option (Nat × List Access) :=
  if outBuffer = false ∨ bufferSize ≤ 1 + 2 + 4 then some (0, [])
  else do
    let head : List Access := [⟨0, 1⟩, ⟨1, 1⟩, ⟨2, 1⟩]
    -- valid data length
    let dataLen := payloadLen data dataLen
    let field : List Access := [⟨3, 1⟩, ⟨4, 1⟩, ⟨5, 1⟩, ⟨6, 1⟩]
    let payload : List Access := if 0 < dataLen then [⟨1 + 2 + 4, dataLen⟩] else []
    let result : Int := ((1 + 2 + 4 + dataLen : Nat) : Int).bmod (2 ^ 32)
    -- checksum
    let low ← addInt result 1
    let checksum : List Access := [⟨result, 1⟩, ⟨low, 1⟩]
    let result ← addInt result 2
    return ((result % 2 ^ 32).toNat, head ++ field ++ payload ++ checksum)

theorem createProtocolPacketNoted_returns {data : Option (List UInt8)} {dataLen bufferSize n : Nat}
    {outBuffer : Bool} {stores : List Access}
    (h : createProtocolPacketNoted data dataLen outBuffer bufferSize = some (n, stores))
    (cmd cmdEx : UInt8) :
    (createProtocolPacket cmd cmdEx data dataLen outBuffer bufferSize).result = n := by
  unfold createProtocolPacketNoted payloadLen at h
  unfold createProtocolPacket
  split at h
  · rename_i hrefused
    cases h
    rw [if_pos hrefused]
  · rename_i hroom
    rw [if_neg hroom]
    obtain ⟨low, -, h⟩ := Option.bind_eq_some_iff.mp h
    obtain ⟨result, hresult, h⟩ := Option.bind_eq_some_iff.mp h
    obtain ⟨rfl, -⟩ := addInt_eq_some hresult
    simp only [Option.pure_def, Option.some.injEq, Prod.mk.injEq, Int.reducePow, Nat.reducePow] at h ⊢
    exact h.1

def EncodesWithin (cmd cmdEx : UInt8) (data : Option (List UInt8)) (dataLen bufferSize : Nat) :
    Prop :=
  ∃ stores, createProtocolPacketNoted data dataLen true bufferSize =
      some ((createProtocolPacket cmd cmdEx data dataLen true bufferSize).result, stores) ∧
    ((createProtocolPacket cmd cmdEx data dataLen true bufferSize).result = 0 ∧ stores = [] ∨
      (createProtocolPacket cmd cmdEx data dataLen true bufferSize).result ≤ bufferSize ∧
        ∀ s ∈ stores, s.Within (createProtocolPacket cmd cmdEx data dataLen true bufferSize).result) ∧
    (bufferSize < 9 + payloadLen data dataLen →
      (createProtocolPacket cmd cmdEx data dataLen true bufferSize).result = 0)

theorem createProtocolPacketNoted_refused (data : Option (List UInt8)) (dataLen : Nat)
    {bufferSize : Nat} (h : bufferSize ≤ 7) :
    createProtocolPacketNoted data dataLen true bufferSize = some (0, []) :=
  if_pos (.inr h)

section Cases

variable {data : Option (List UInt8)} {dataLen bufferSize : Nat}

theorem createProtocolPacketNoted_fits (hroom : 7 < bufferSize)
    (hint : 9 + payloadLen data dataLen < 2 ^ 31) :
    ∃ stores, createProtocolPacketNoted data dataLen true bufferSize =
        some (9 + payloadLen data dataLen, stores) ∧
      (∀ s ∈ stores, s.Within (9 + payloadLen data dataLen)) ∧ stores ≠ [] := by
  unfold createProtocolPacketNoted
  rw [if_neg (by simp; omega)]
  generalize payloadLen data dataLen = len at hint ⊢
  have hresult : ((1 + 2 + 4 + len : Nat) : Int).bmod (2 ^ 32) = 7 + len := by
    rw [Int.bmod_def]
    omega
  have hlow : addInt (7 + len) 1 = some (8 + len) := addInt_eq (by omega) (by omega) (by omega)
  have hend : addInt (7 + len) 2 = some (9 + len) := addInt_eq (by omega) (by omega) (by omega)
  dsimp only
  rw [hresult, hlow, hend]
  refine ⟨_, congrArg some (Prod.ext ?_ rfl), ?_, by simp⟩
  · change (((9 : Int) + len) % 2 ^ 32).toNat = 9 + len
    omega
  · unfold Access.Within
    intro s hs
    simp only [List.mem_append, List.mem_cons, List.not_mem_nil, or_false] at hs
    rcases hs with (((rfl | rfl | rfl) | (rfl | rfl | rfl | rfl)) | hpayload) | (rfl | rfl)
    case inl.inr =>
      split at hpayload
      · rw [List.mem_singleton.mp hpayload]
        dsimp only
        omega
      · cases hpayload
    all_goals
      dsimp only
      omega

/-- A frame of 2^31 bytes or more overflows the count, has its checksum stored below the
buffer, or is reported far shorter than it is. -/
theorem createProtocolPacketNoted_overflows (hroom : 7 < bufferSize)
    (hint : 2 ^ 31 ≤ 9 + payloadLen data dataLen) (hlen : payloadLen data dataLen < 2 ^ 32)
    {n : Nat} {stores : List Access}
    (h : createProtocolPacketNoted data dataLen true bufferSize = some (n, stores)) :
    ∃ s ∈ stores, ¬ s.Within n := by
  unfold createProtocolPacketNoted at h
  rw [if_neg (by simp; omega)] at h
  generalize payloadLen data dataLen = len at hint hlen h
  have hwrapped : ((1 + 2 + 4 + len : Nat) : Int).bmod (2 ^ 32) < 0 ∨
      ((1 + 2 + 4 + len : Nat) : Int).bmod (2 ^ 32) < 7 ∧ 2 ^ 32 - 7 ≤ len ∨
      2 ^ 31 - 3 < ((1 + 2 + 4 + len : Nat) : Int).bmod (2 ^ 32) := by
    rw [Int.bmod_def]
    omega
  dsimp only at h
  generalize ((1 + 2 + 4 + len : Nat) : Int).bmod (2 ^ 32) = at' at hwrapped h
  obtain ⟨low, hlow, h⟩ := Option.bind_eq_some_iff.mp h
  obtain ⟨result, hresult, h⟩ := Option.bind_eq_some_iff.mp h
  obtain ⟨hsum, hlt⟩ := addInt_eq_some hresult
  simp only [Option.pure_def, Option.some.injEq, Prod.mk.injEq] at h
  obtain ⟨hn, rfl⟩ := h
  rcases hwrapped with hneg | ⟨hsmall, hbig⟩ | htop
  case inl =>
    refine ⟨⟨at', 1⟩, List.mem_append_right _ List.mem_cons_self, fun hw => ?_⟩
    have hlow := hw.1
    dsimp only at hlow
    omega
  case inr.inl =>
    refine ⟨⟨7, len⟩, ?_, fun hw => ?_⟩
    · rw [if_pos (by omega)]
      simp
    · have hhigh := hw.2.2
      dsimp only at hhigh
      omega
  case inr.inr => omega

end Cases

/-- The encoder stays within its output buffer exactly when it refuses the call for want of
eight bytes, or the whole frame fits and its length is an `int`. -/
theorem create_protocol_packet_safe (cmd cmdEx : UInt8) (data : Option (List UInt8))
    (dataLen bufferSize : UInt32) :
    EncodesWithin cmd cmdEx data dataLen.toNat bufferSize.toNat ↔
      bufferSize.toNat ≤ 7 ∨ 9 + payloadLen data dataLen.toNat ≤ bufferSize.toNat ∧
        9 + payloadLen data dataLen.toNat < 2 ^ 31 := by
  have hlen : payloadLen data dataLen.toNat < 2 ^ 32 :=
    (payloadLen_le data dataLen.toNat).trans_lt dataLen.toNat_lt
  by_cases hroom : bufferSize.toNat ≤ 7
  · refine iff_of_true ?_ (.inl hroom)
    have hnoted := createProtocolPacketNoted_refused data dataLen.toNat hroom
    have hresult := createProtocolPacketNoted_returns hnoted cmd cmdEx
    exact ⟨[], by rw [hresult]; exact hnoted, .inl ⟨hresult, rfl⟩, fun _ => hresult⟩
  have hroom : 7 < bufferSize.toNat := by omega
  by_cases hint : 9 + payloadLen data dataLen.toNat < 2 ^ 31
  · obtain ⟨stores, hnoted, hwithin, hstores⟩ := createProtocolPacketNoted_fits hroom hint
    have hresult := createProtocolPacketNoted_returns hnoted cmd cmdEx
    unfold EncodesWithin
    rw [hresult, hnoted]
    constructor
    · rintro ⟨_, -, -, hfit⟩
      by_cases hshort : bufferSize.toNat < 9 + payloadLen data dataLen.toNat
      · have hzero := hfit hshort
        omega
      · exact .inr ⟨by omega, hint⟩
    · rintro (hsmall | ⟨hfit, -⟩)
      · omega
      · exact ⟨stores, rfl, .inr ⟨hfit, hwithin⟩, fun hshort => by omega⟩
  · refine iff_of_false ?_ (by omega)
    rintro ⟨stores, hnoted, hstores, -⟩
    obtain ⟨s, hs, hout⟩ :=
      createProtocolPacketNoted_overflows hroom (by omega) hlen hnoted
    rcases hstores with ⟨-, rfl⟩ | ⟨-, hwithin⟩
    · cases hs
    · exact hout (hwithin s hs)

/-- An empty frame does not fit in eight bytes, but is stored and reported all the same. -/
theorem create_protocol_packet_nine : ¬ EncodesWithin 0xE2 0x01 none 0 8 := by
  rintro ⟨_, -, -, hfit⟩
  exact absurd (hfit (by decide)) (by decide)

end CccUpgrade
