import CccUpgrade.Lib.Scanner
import CccUpgrade.Protocol.Core

/-! The wire format as the parser understands it. A message has one frame; a
stream is read by looking at its first byte only, which skips it, waits, drops
a refused header or takes a whole frame. The decision does not change when more
bytes arrive, and `parse_packet2` is shown to take exactly these decisions. -/
namespace CccUpgrade

open Lib

structure Message where
  cmd : UInt8
  cmdEx : UInt8
  data : List UInt8
deriving DecidableEq, Repr

def checksumBytes (body : List UInt8) : List UInt8 :=
  let sum := (body.map UInt8.toNat).sum % 2 ^ 16
  [UInt8.ofNat (sum / 2 ^ 8), UInt8.ofNat sum]

@[simp] theorem checksumBytes_length (body : List UInt8) : (checksumBytes body).length = 2 := rfl

def frameHead (cmd cmdEx b0 b1 b2 b3 : UInt8) : List UInt8 :=
  [protocolHeader, cmd, cmdEx, b0, b1, b2, b3]

@[simp] theorem frameHead_length (cmd cmdEx b0 b1 b2 b3 : UInt8) :
    (frameHead cmd cmdEx b0 b1 b2 b3).length = 7 := rfl

def Message.body (m : Message) : List UInt8 :=
  protocolHeader :: m.cmd :: m.cmdEx :: (toBigEndian32 m.data.length ++ m.data)

def Message.frame (m : Message) : List UInt8 := m.body ++ checksumBytes m.body

@[simp] theorem Message.body_length (m : Message) : m.body.length = 7 + m.data.length := by
  simp only [Message.body, List.length_cons, List.length_append, toBigEndian32_length]
  omega

@[simp] theorem Message.frame_length (m : Message) : m.frame.length = 9 + m.data.length := by
  simp only [Message.frame, List.length_append, Message.body_length, checksumBytes_length]
  omega

/-- The decision on a frame whose head is complete and is followed by `payload`.
A payload is copied into a buffer of `capacity` bytes before its checksum has
arrived, so an unfit length halts as soon as more than that many bytes are there. -/
def payloadLook (capacity : Nat) (cmd cmdEx b0 b1 b2 b3 : UInt8) (payload : List UInt8) :
    Look Message Fault :=
  let len := asInt32 (bigEndian32 b0 b1 b2 b3)
  if payload = [] then .wait
  else if 0xFFFFF < len then .take 1 none
  else if (payload.length : Int) ≤ len then .wait
  else if len < 0 ∨ (capacity : Int) < len then .halt (.payloadCopy len)
  else if (payload.length : Int) < len + 2 then .wait
  else
    let data := payload.take len.toNat
    if (payload.drop len.toNat).take 2 =
        checksumBytes (frameHead cmd cmdEx b0 b1 b2 b3 ++ data) then
      .take (9 + len.toNat) (some ⟨cmd, cmdEx, data⟩)
    else .take 1 none

def headLook (capacity : Nat) : List UInt8 → Look Message Fault
  | cmd :: cmdEx :: b0 :: b1 :: b2 :: b3 :: payload =>
      payloadLook capacity cmd cmdEx b0 b1 b2 b3 payload
  | _ => .wait

def frameLook (capacity : Nat) : List UInt8 → Look Message Fault
  | [] => .wait
  | byte :: rest => if byte ≠ protocolHeader then .take 1 none else headLook capacity rest

@[simp] theorem frameLook_header (capacity : Nat) (rest : List UInt8) :
    frameLook capacity (protocolHeader :: rest) = headLook capacity rest := by
  simp [frameLook]

theorem headLook_short (capacity : Nat) {rest : List UInt8} (h : rest.length ≤ 6) :
    headLook capacity rest = .wait := by
  unfold headLook
  split
  · rename_i payload
    have hnil : payload = [] := by
      simp only [List.length_cons] at h
      exact List.length_eq_zero_iff.mp (by omega)
    simp [payloadLook, hnil]
  · rfl

theorem exists_head {rest : List UInt8} (h : ¬ rest.length ≤ 6) :
    ∃ cmd cmdEx b0 b1 b2 b3 payload, payload ≠ [] ∧
      rest = cmd :: cmdEx :: b0 :: b1 :: b2 :: b3 :: payload := by
  rcases rest with _ | ⟨cmd, _ | ⟨cmdEx, _ | ⟨b0, _ | ⟨b1, _ | ⟨b2, _ | ⟨b3, payload⟩⟩⟩⟩⟩⟩
  all_goals simp only [List.length_cons, List.length_nil] at h
  case cons.cons.cons.cons.cons.cons =>
    refine ⟨cmd, cmdEx, b0, b1, b2, b3, payload, ?_, rfl⟩
    rintro rfl
    simp at h
  all_goals omega

section PayloadLook

variable {capacity : Nat} {cmd cmdEx b0 b1 b2 b3 : UInt8} {payload : List UInt8}

theorem payloadLook_take {count : Nat} {event : Option Message}
    (h : payloadLook capacity cmd cmdEx b0 b1 b2 b3 payload = .take count event) :
    0 < count ∧ count ≤ 7 + payload.length := by
  simp only [payloadLook] at h
  repeat' split at h
  all_goals simp only [Look.take.injEq, reduceCtorEq] at h
  all_goals omega

theorem payloadLook_stable (more : List UInt8)
    (h : payloadLook capacity cmd cmdEx b0 b1 b2 b3 payload ≠ .wait) :
    payloadLook capacity cmd cmdEx b0 b1 b2 b3 (payload ++ more) =
      payloadLook capacity cmd cmdEx b0 b1 b2 b3 payload := by
  simp only [payloadLook] at h ⊢
  by_cases hnil : payload = []
  · simp [hnil] at h
  have hnil' : payload ++ more ≠ [] := by simp [hnil]
  simp only [hnil, hnil', ↓reduceIte, List.length_append, Int.natCast_add] at h ⊢
  by_cases hlong : 0xFFFFF < asInt32 (bigEndian32 b0 b1 b2 b3)
  · simp only [hlong, ↓reduceIte]
  simp only [hlong, ↓reduceIte] at h ⊢
  by_cases hshort : (payload.length : Int) ≤ asInt32 (bigEndian32 b0 b1 b2 b3)
  · simp [hshort] at h
  simp only [hshort, ↓reduceIte] at h
  rw [if_neg hshort, if_neg (by omega)]
  by_cases hunfit : asInt32 (bigEndian32 b0 b1 b2 b3) < 0 ∨
      (capacity : Int) < asInt32 (bigEndian32 b0 b1 b2 b3)
  · simp only [hunfit, ↓reduceIte]
  simp only [hunfit, ↓reduceIte] at h ⊢
  by_cases hsum : (payload.length : Int) < asInt32 (bigEndian32 b0 b1 b2 b3) + 2
  · simp [hsum] at h
  rw [if_neg hsum, if_neg (by omega), List.take_append_of_le_length (by omega),
    List.drop_append_of_le_length (by omega), List.take_append_of_le_length]
  rw [List.length_drop]
  omega

theorem payloadLook_halt_iff {len : Int} (hlen : asInt32 (bigEndian32 b0 b1 b2 b3) = len)
    {f : Fault} :
    payloadLook capacity cmd cmdEx b0 b1 b2 b3 payload = .halt f ↔
      payload ≠ [] ∧ len ≤ 0xFFFFF ∧ len < payload.length ∧ (len < 0 ∨ (capacity : Int) < len) ∧
        f = .payloadCopy len := by
  simp only [payloadLook, hlen]
  split_ifs with hnil hlong hshort hunfit hsum hbytes
  · simp [hnil]
  · simp only [false_iff]
    omega
  · simp only [false_iff]
    omega
  · simp only [Look.halt.injEq]
    constructor
    · rintro rfl
      exact ⟨hnil, by omega, by omega, hunfit, rfl⟩
    · rintro ⟨-, -, -, -, rfl⟩
      rfl
  all_goals
    simp only [false_iff]
    omega

theorem payloadLook_larger {larger : Nat} (hle : capacity ≤ larger)
    (h : ∀ f, payloadLook capacity cmd cmdEx b0 b1 b2 b3 payload ≠ .halt f) :
    payloadLook larger cmd cmdEx b0 b1 b2 b3 payload =
      payloadLook capacity cmd cmdEx b0 b1 b2 b3 payload := by
  simp only [payloadLook] at h ⊢
  generalize asInt32 (bigEndian32 b0 b1 b2 b3) = len at h ⊢
  split_ifs at h ⊢ with hnil hlong hshort hunfit hunfit'
  all_goals first | rfl | exact absurd rfl (h _) | omega

theorem payloadLook_wait_iff {len : Int} (hlen : asInt32 (bigEndian32 b0 b1 b2 b3) = len) :
    payloadLook capacity cmd cmdEx b0 b1 b2 b3 payload = .wait ↔
      payload = [] ∨ len ≤ 0xFFFFF ∧ ((payload.length : Int) ≤ len ∨
        0 ≤ len ∧ len ≤ capacity ∧ (payload.length : Int) < len + 2) := by
  simp only [payloadLook, hlen]
  split_ifs with hnil hlong hshort hunfit hsum hbytes
  · simp [hnil]
  all_goals
    simp only [hnil, false_iff, true_iff, false_or]
    omega

end PayloadLook

theorem frameLook_take {capacity : Nat} {input : List UInt8} {count : Nat}
    {event : Option Message} (h : frameLook capacity input = .take count event) :
    0 < count ∧ count ≤ input.length := by
  cases input with
  | nil => simp [frameLook] at h
  | cons byte rest =>
      simp only [frameLook] at h
      split at h
      · cases h
        simp
      · unfold headLook at h
        split at h
        · have := payloadLook_take h
          simp only [List.length_cons]
          omega
        · cases h

theorem frameLook_stable {capacity : Nat} {input : List UInt8}
    (h : frameLook capacity input ≠ .wait) (more : List UInt8) :
    frameLook capacity (input ++ more) = frameLook capacity input := by
  cases input with
  | nil => simp [frameLook] at h
  | cons byte rest =>
      by_cases hbyte : byte ≠ protocolHeader
      · simp only [List.cons_append, frameLook, if_pos hbyte]
      · simp only [List.cons_append, frameLook, hbyte, ↓reduceIte, headLook] at h ⊢
        split at h
        · simp only [List.cons_append]
          exact payloadLook_stable more h
        · exact absurd rfl h

theorem frameLook_larger {capacity larger : Nat} (hle : capacity ≤ larger) {input : List UInt8}
    (h : ∀ f, frameLook capacity input ≠ .halt f) :
    frameLook larger input = frameLook capacity input := by
  cases input with
  | nil => rfl
  | cons byte rest =>
      simp only [frameLook] at h ⊢
      split
      · rfl
      · rename_i hbyte
        simp only [hbyte, ↓reduceIte] at h
        unfold headLook at h ⊢
        split at h
        · exact payloadLook_larger hle h
        · rfl

def lengthField : List UInt8 → Option Int
  | byte :: _ :: _ :: b0 :: b1 :: b2 :: b3 :: _ =>
      if byte = protocolHeader then some (asInt32 (bigEndian32 b0 b1 b2 b3)) else none
  | _ => none

theorem frameLook_head (capacity : Nat) (cmd cmdEx b0 b1 b2 b3 : UInt8) (payload : List UInt8) :
    frameLook capacity (frameHead cmd cmdEx b0 b1 b2 b3 ++ payload) =
      payloadLook capacity cmd cmdEx b0 b1 b2 b3 payload :=
  frameLook_header capacity _

@[simp] theorem lengthField_head (cmd cmdEx b0 b1 b2 b3 : UInt8) (payload : List UInt8) :
    lengthField (frameHead cmd cmdEx b0 b1 b2 b3 ++ payload) =
      some (asInt32 (bigEndian32 b0 b1 b2 b3)) := by
  simp [lengthField, frameHead]

theorem lengthField_eq_some {input : List UInt8} {len : Int} (h : lengthField input = some len) :
    ∃ cmd cmdEx b0 b1 b2 b3 payload, input = frameHead cmd cmdEx b0 b1 b2 b3 ++ payload ∧
      asInt32 (bigEndian32 b0 b1 b2 b3) = len := by
  unfold lengthField at h
  split at h
  · rename_i byte cmd cmdEx b0 b1 b2 b3 payload
    split at h
    · rename_i hbyte
      exact ⟨cmd, cmdEx, b0, b1, b2, b3, payload, by rw [hbyte]; rfl, Option.some.inj h⟩
    · simp at h
  · simp at h

theorem frameLook_of_not_head {capacity : Nat} {input : List UInt8}
    (h : lengthField input = none ∨ input.length ≤ 7) :
    frameLook capacity input = .take 1 none ∨
      frameLook capacity input = .wait ∧ input.length ≤ 7 := by
  cases input with
  | nil => exact .inr ⟨rfl, by simp⟩
  | cons byte rest =>
      by_cases hbyte : byte = protocolHeader
      · subst hbyte
        right
        rw [frameLook_header]
        by_cases hshort : rest.length ≤ 6
        · exact ⟨headLook_short _ hshort, Nat.succ_le_succ hshort⟩
        · obtain ⟨cmd, cmdEx, b0, b1, b2, b3, payload, hpayload, rfl⟩ := exists_head hshort
          rcases h with hfield | hlength
          · simp [lengthField] at hfield
          · simp only [List.length_cons] at hlength hshort
            omega
      · left
        simp [frameLook, hbyte]

theorem frameLook_halt_iff {capacity : Nat} {input : List UInt8} {f : Fault} :
    frameLook capacity input = .halt f ↔
      ∃ len, lengthField input = some len ∧ 7 < input.length ∧ len + 7 < input.length ∧
        len ≤ 0xFFFFF ∧ (len < 0 ∨ (capacity : Int) < len) ∧ f = .payloadCopy len := by
  by_cases hhead : lengthField input = none ∨ input.length ≤ 7
  · constructor
    · intro h
      rcases frameLook_of_not_head hhead with htake | hwait
      · rw [htake] at h
        cases h
      · rw [hwait.1] at h
        cases h
    · rintro ⟨len, hfield, hlong, -⟩
      rcases hhead with hnone | hshort
      · rw [hnone] at hfield
        cases hfield
      · omega
  · rw [not_or] at hhead
    obtain ⟨len, hfield⟩ := Option.ne_none_iff_exists'.mp hhead.1
    obtain ⟨cmd, cmdEx, b0, b1, b2, b3, payload, rfl, hlen⟩ := lengthField_eq_some hfield
    have hpayload : payload ≠ [] := by
      rintro rfl
      exact hhead.2 le_rfl
    have hlength := hhead.2
    simp only [List.length_append, frameHead_length] at hlength
    rw [frameLook_head, hfield, payloadLook_halt_iff hlen]
    simp only [List.length_append, frameHead_length, Option.some.injEq, exists_eq_left', hpayload,
      ne_eq, not_false_eq_true, true_and]
    constructor
    · rintro ⟨hfield, hshort, hunfit, hf⟩
      exact ⟨by omega, by omega, hfield, hunfit, hf⟩
    · rintro ⟨-, hshort, hfield, hunfit, hf⟩
      exact ⟨hfield, by omega, hunfit, hf⟩

/-- What is waited on is a short head or a frame some of whose announced bytes are
still missing. -/
theorem frameLook_wait {capacity : Nat} {input : List UInt8}
    (h : frameLook capacity input = .wait) :
    input.length ≤ 7 ∨ ∃ len, lengthField input = some len ∧ len ≤ 0xFFFFF ∧
      (input.length : Int) ≤ len + 8 := by
  by_cases hhead : lengthField input = none ∨ input.length ≤ 7
  · left
    rcases frameLook_of_not_head hhead with htake | hwait
    · rw [htake] at h
      cases h
    · exact hwait.2
  · rw [not_or] at hhead
    obtain ⟨len, hfield⟩ := Option.ne_none_iff_exists'.mp hhead.1
    obtain ⟨cmd, cmdEx, b0, b1, b2, b3, payload, rfl, hlen⟩ := lengthField_eq_some hfield
    rw [frameLook_head, payloadLook_wait_iff hlen] at h
    right
    refine ⟨len, hfield, ?_⟩
    rcases h with rfl | ⟨hlong, hshort⟩
    · exact absurd le_rfl hhead.2
    · rw [List.length_append, frameHead_length]
      omega

/-- Reading a byte stream with a payload buffer of `capacity` bytes. -/
def frameScanner (capacity : Nat) : Scanner UInt8 Message Fault where
  look := frameLook capacity
  take_pos h := (frameLook_take h).1
  take_le h := (frameLook_take h).2
  stable h more := frameLook_stable h more

/-- Reading with room for every payload that is waited for. -/
def roomyScanner : Scanner UInt8 Message Fault := frameScanner 0xFFFFF

theorem roomyScanner_look {capacity : Nat} (input : List UInt8)
    (h : ∀ f, (frameScanner capacity).look input ≠ .halt f) :
    roomyScanner.look input = (frameScanner capacity).look input := by
  by_cases hle : capacity ≤ 0xFFFFF
  · exact frameLook_larger hle h
  · refine (frameLook_larger (Nat.le_of_not_le hle) fun f hhalt => ?_).symm
    obtain ⟨len, hfield, hlong, hshort, hbounded, hunfit, hf⟩ := frameLook_halt_iff.mp hhalt
    exact h f (frameLook_halt_iff.mpr ⟨len, hfield, hlong, hshort, hbounded, .inl (by omega), hf⟩)

theorem Message.body_eq (m : Message) :
    m.body = frameHead m.cmd m.cmdEx (UInt8.ofNat (m.data.length / 2 ^ 24))
      (UInt8.ofNat (m.data.length / 2 ^ 16)) (UInt8.ofNat (m.data.length / 2 ^ 8))
      (UInt8.ofNat m.data.length) ++ m.data := rfl

theorem frameHead_eq (cmd cmdEx b0 b1 b2 b3 : UInt8) :
    frameHead cmd cmdEx b0 b1 b2 b3 =
      protocolHeader :: cmd :: cmdEx :: toBigEndian32 (bigEndian32 b0 b1 b2 b3) := by
  rw [toBigEndian32_fourBytes]
  rfl

theorem bigEndian32_of_nonneg {b0 b1 b2 b3 : UInt8} {len : Int}
    (hlen : asInt32 (bigEndian32 b0 b1 b2 b3) = len) (hnonneg : 0 ≤ len) :
    bigEndian32 b0 b1 b2 b3 = len.toNat := by
  have hlt := bigEndian32_lt b0 b1 b2 b3
  generalize bigEndian32 b0 b1 b2 b3 = n at hlen hlt ⊢
  unfold asInt32 at hlen
  rw [Int.bmod_def] at hlen
  omega

theorem payloadLook_event {capacity count : Nat} {cmd cmdEx b0 b1 b2 b3 : UInt8}
    {payload : List UInt8} {m : Message}
    (h : payloadLook capacity cmd cmdEx b0 b1 b2 b3 payload = .take count (some m)) :
    m.frame <+: frameHead cmd cmdEx b0 b1 b2 b3 ++ payload := by
  obtain ⟨len, hlen⟩ : ∃ len, asInt32 (bigEndian32 b0 b1 b2 b3) = len := ⟨_, rfl⟩
  simp only [payloadLook, hlen] at h
  repeat' split at h
  all_goals simp only [Look.take.injEq, reduceCtorEq, and_false, Option.some.injEq] at h
  rename_i hshort hunfit hsum hchecksum
  obtain ⟨-, rfl⟩ := h
  have hdata : (payload.take len.toNat).length = len.toNat := by
    rw [List.length_take]
    omega
  have hbody : Message.body ⟨cmd, cmdEx, payload.take len.toNat⟩ =
      frameHead cmd cmdEx b0 b1 b2 b3 ++ payload.take len.toNat := by
    unfold Message.body
    rw [hdata, ← bigEndian32_of_nonneg hlen (by omega), frameHead_eq]
    rfl
  refine ⟨(payload.drop len.toNat).drop 2, ?_⟩
  rw [Message.frame, hbody, ← hchecksum, List.append_assoc, List.append_assoc,
    List.take_append_drop, List.take_append_drop]

theorem frameLook_event {capacity count : Nat} {input : List UInt8} {m : Message}
    (h : frameLook capacity input = .take count (some m)) : m.frame <+: input := by
  by_cases hhead : lengthField input = none ∨ input.length ≤ 7
  · have hcases : frameLook capacity input = .take 1 none ∨
        frameLook capacity input = .wait ∧ input.length ≤ 7 := frameLook_of_not_head hhead
    rcases hcases with htake | hwait
    · rw [htake] at h
      cases h
    · rw [hwait.1] at h
      cases h
  · rw [not_or] at hhead
    obtain ⟨len, hfield⟩ := Option.ne_none_iff_exists'.mp hhead.1
    obtain ⟨cmd, cmdEx, b0, b1, b2, b3, payload, rfl, -⟩ := lengthField_eq_some hfield
    rw [frameLook_head] at h
    exact payloadLook_event h

/-- What a decision takes: a byte that is dropped, or a whole frame. -/
def TakesFrame (count : Nat) : Option Message → Prop
  | none => count = 1
  | some m => count = 9 + m.data.length ∧ m.data.length ≤ 0xFFFFF

theorem payloadLook_count {capacity count : Nat} {cmd cmdEx b0 b1 b2 b3 : UInt8}
    {payload : List UInt8} {event : Option Message}
    (h : payloadLook capacity cmd cmdEx b0 b1 b2 b3 payload = .take count event) :
    TakesFrame count event := by
  simp only [payloadLook] at h
  repeat' split at h
  all_goals simp only [Look.take.injEq, reduceCtorEq] at h
  all_goals obtain ⟨rfl, rfl⟩ := h
  · rfl
  · rename_i hshort hunfit hsum hchecksum
    unfold TakesFrame
    simp only [List.length_take]
    omega
  · rfl

theorem frameLook_count {capacity count : Nat} {input : List UInt8} {event : Option Message}
    (h : frameLook capacity input = .take count event) : TakesFrame count event := by
  cases input with
  | nil => cases h
  | cons byte rest =>
      simp only [frameLook] at h
      split at h
      · cases h
        rfl
      · unfold headLook at h
        split at h
        · exact payloadLook_count h
        · cases h

theorem frameLook_frame {capacity : Nat} {m : Message} (hcapacity : m.data.length ≤ capacity)
    (hlong : m.data.length ≤ 0xFFFFF) (rest : List UInt8) :
    frameLook capacity (m.frame ++ rest) = .take (9 + m.data.length) (some m) := by
  have hfield : asInt32 (bigEndian32 (UInt8.ofNat (m.data.length / 2 ^ 24))
      (UInt8.ofNat (m.data.length / 2 ^ 16)) (UInt8.ofNat (m.data.length / 2 ^ 8))
      (UInt8.ofNat m.data.length)) = m.data.length :=
    fourBytesToInt_toBigEndian32 (n := m.data.length) (by omega) []
  have hpayload : m.data ++ (checksumBytes m.body ++ rest) ≠ [] := by
    simp [checksumBytes]
  have hlength : ((m.data ++ (checksumBytes m.body ++ rest)).length : Int) =
      m.data.length + 2 + rest.length := by
    simp only [List.length_append, checksumBytes_length]
    omega
  rw [Message.frame]
  nth_rewrite 1 [Message.body_eq]
  rw [List.append_assoc, List.append_assoc, frameLook_head]
  simp only [payloadLook, hfield, hpayload, ↓reduceIte, hlength, Int.toNat_natCast, List.take_left,
    List.drop_left]
  rw [if_neg (by omega), if_neg (by omega), if_neg (by omega), if_neg (by omega)]
  rw [if_pos]
  rw [← Message.body_eq]
  exact List.take_left' (checksumBytes_length _)

theorem createProtocolPacket_eq (m : Message) {bufferSize : Nat} (hbuffer : 7 < bufferSize)
    (hlong : 9 + m.data.length < 2 ^ 31) :
    createProtocolPacket m.cmd m.cmdEx (some m.data) m.data.length true bufferSize =
      ⟨9 + m.data.length, m.body, 7 + m.data.length, checksumBytes m.body⟩ := by
  have hdataLen : (if 0 < m.data.length ∧ (some m.data).isSome then m.data.length else 0) =
      m.data.length := by
    split <;> simp_all
  have hresult : ((1 + 2 + 4 + m.data.length : Nat) : Int).bmod (2 ^ 32) = m.body.length := by
    rw [Int.bmod_def, Message.body_length]
    omega
  have hsum : calcuChecksum m.body m.body.length = (m.body.map UInt8.toNat).sum % 2 ^ 16 := by
    unfold calcuChecksum
    rw [if_neg (by rw [Message.body_length]; omega), Int.toNat_natCast, List.take_length]
  have hbody : protocolHeader :: m.cmd :: m.cmdEx :: (toBigEndian32 m.data.length ++
      ((some m.data).getD []).take m.data.length) = m.body := by
    simp [Message.body]
  unfold createProtocolPacket
  rw [if_neg (by simp; omega)]
  simp only [hdataLen, hbody, hresult, hsum, PacketOut.mk.injEq]
  rw [Message.body_length]
  exact ⟨by omega, trivial, by omega, rfl⟩

theorem createProtocolPacket_packet (m : Message) {bufferSize : Nat} (hbuffer : 7 < bufferSize)
    (hlong : 9 + m.data.length < 2 ^ 31) :
    (createProtocolPacket m.cmd m.cmdEx (some m.data) m.data.length true bufferSize).packet =
      m.frame := by
  have hat : (7 + (m.data.length : Int)).toNat = m.body.length := by
    rw [Message.body_length]
    omega
  rw [createProtocolPacket_eq m hbuffer hlong, PacketOut.packet]
  simp only [hat, List.take_length]
  rw [List.drop_eq_nil_of_le (by omega), List.append_nil, List.take_of_length_le]
  · rfl
  · simp only [List.length_append, Message.body_length, checksumBytes_length]
    omega

/-- What `create_protocol_packet` makes of a message, with a buffer that just holds it. -/
def Message.encoding (m : Message) : List UInt8 :=
  (createProtocolPacket m.cmd m.cmdEx (some m.data) m.data.length true (9 + m.data.length)).packet

theorem Message.encoding_eq (m : Message) (hlong : 9 + m.data.length < 2 ^ 31) :
    m.encoding = m.frame :=
  createProtocolPacket_packet m (by omega) hlong

end CccUpgrade
