import Mathlib.Algebra.GroupWithZero.Nat
import Mathlib.Data.List.Basic
import Mathlib.Data.List.TakeWhile
import Mathlib.Tactic.Common

/-! Memory and integer primitives of the C code: checked byte reads, `memcpy`
into a buffer of known capacity, 32-bit conversions and NUL-terminated
strings. A buffer is the list of all its bytes, so its length is its capacity. -/
namespace CccUpgrade

/-- Undefined behaviour the model makes explicit; it ends the run. -/
inductive Fault
  | read (index : Nat)
  /-- A payload copy of `count` bytes that is negative or larger than the target. -/
  | payloadCopy (count : Int)
  /-- A store that would leave `main_buf` holding `count` bytes, beyond its end. -/
  | mainBuf (count : Nat)
  | null
  /-- A store of the MD5 padding up to byte `count`, beyond the end of the read buffer. -/
  | md5Buf (count : Nat)
  /-- A read of the string `token` after it was freed. -/
  | useAfterFree (token : Nat)
  /-- A second `free` of the string `token`. -/
  | doubleFree (token : Nat)
  /-- A read of a variable that was never written. -/
  | uninitialised
deriving DecidableEq, Repr

theorem bind_eq_ok {ε α β : Type} {x : Except ε α} {f : α → Except ε β} {b : β}
    (h : (x >>= f) = .ok b) : ∃ a, x = .ok a ∧ f a = .ok b := by
  cases x with
  | error e => cases h
  | ok a => exact ⟨a, rfl, h⟩

def readByte (buffer : List UInt8) (index : Nat) : Except Fault UInt8 :=
  match buffer[index]? with
  | some byte => .ok byte
  | none => .error (.read index)

theorem readByte_append (before : List UInt8) {buffer : List UInt8} (index : Nat) {byte : UInt8}
    (h : buffer[index]? = some byte) :
    readByte (before ++ buffer) (before.length + index) = .ok byte := by
  have hat : (before ++ buffer)[before.length + index]? = some byte := by
    rw [List.getElem?_append_right (by omega), Nat.add_sub_cancel_left, h]
  simp only [readByte, hat]

/-- `memcpy(dst, src, n)`. The count is converted to `size_t`, so a negative
one is a copy no buffer holds. -/
def memcpy (dst src : List UInt8) (n : Int) : Except Fault (List UInt8) :=
  if n < 0 ∨ (dst.length : Int) < n then .error (.payloadCopy n)
  else if (src.length : Int) < n then .error (.read src.length)
  else .ok (src.take n.toNat ++ dst.drop n.toNat)

theorem memcpy_ok {dst src : List UInt8} {n : Nat} (hdst : n ≤ dst.length)
    (hsrc : n ≤ src.length) : memcpy dst src n = .ok (src.take n ++ dst.drop n) := by
  unfold memcpy
  rw [if_neg (by omega), if_neg (by omega)]
  simp

/-- The value of a 32-bit pattern read as a signed `int`. -/
def asInt32 (n : Nat) : Int := (n : Int).bmod (2 ^ 32)

theorem asInt32_of_lt {n : Nat} (h : n < 2 ^ 31) : asInt32 n = n := by
  unfold asInt32
  rw [Int.bmod_def]
  omega

/-- `(data[0] << 24) | (data[1] << 16) | (data[2] << 8) | data[3]`; the four
shifted bytes do not overlap. -/
def bigEndian32 (b0 b1 b2 b3 : UInt8) : Nat :=
  b0.toNat * 2 ^ 24 + b1.toNat * 2 ^ 16 + b2.toNat * 2 ^ 8 + b3.toNat

theorem bigEndian32_lt (b0 b1 b2 b3 : UInt8) : bigEndian32 b0 b1 b2 b3 < 2 ^ 32 := by
  have h0 := b0.toNat_lt
  have h1 := b1.toNat_lt
  have h2 := b2.toNat_lt
  have h3 := b3.toNat_lt
  unfold bigEndian32
  omega

/-- `four_bytes_to_uint` of util_func.c; 0 when fewer than four bytes are there. -/
def fourBytesToUint : List UInt8 → Nat
  | b0 :: b1 :: b2 :: b3 :: _ => bigEndian32 b0 b1 b2 b3
  | _ => 0

/-- `four_bytes_to_int` of util_func.c: the same four bytes as a signed `int`. -/
def fourBytesToInt (data : List UInt8) : Int := asInt32 (fourBytesToUint data)

def toBigEndian32 (n : Nat) : List UInt8 :=
  [UInt8.ofNat (n / 2 ^ 24), UInt8.ofNat (n / 2 ^ 16), UInt8.ofNat (n / 2 ^ 8), UInt8.ofNat n]

@[simp] theorem toBigEndian32_length (n : Nat) : (toBigEndian32 n).length = 4 := rfl

theorem fourBytesToUint_toBigEndian32 {n : Nat} (h : n < 2 ^ 32) (rest : List UInt8) :
    fourBytesToUint (toBigEndian32 n ++ rest) = n := by
  simp only [toBigEndian32, List.cons_append, fourBytesToUint, bigEndian32,
    UInt8.toNat_ofNat']
  omega

theorem fourBytesToInt_toBigEndian32 {n : Nat} (h : n < 2 ^ 31) (rest : List UInt8) :
    fourBytesToInt (toBigEndian32 n ++ rest) = n := by
  rw [fourBytesToInt, fourBytesToUint_toBigEndian32 (by omega), asInt32_of_lt h]

theorem toBigEndian32_fourBytes (b0 b1 b2 b3 : UInt8) :
    toBigEndian32 (bigEndian32 b0 b1 b2 b3) = [b0, b1, b2, b3] := by
  have h0 := b0.toNat_lt
  have h1 := b1.toNat_lt
  have h2 := b2.toNat_lt
  have h3 := b3.toNat_lt
  unfold toBigEndian32 bigEndian32
  simp only [List.cons.injEq, and_true, ← UInt8.toNat_inj, UInt8.toNat_ofNat']
  omega

/-- The string a NUL-terminated buffer holds: its bytes before the first NUL. -/
def cString (bytes : List UInt8) : List UInt8 := bytes.takeWhile (· ≠ 0)

theorem cString_append {text : List UInt8} (h : 0 ∉ text) (rest : List UInt8) :
    cString (text ++ rest) = text ++ cString rest := by
  apply List.takeWhile_append_of_pos
  intro byte hbyte
  apply decide_eq_true
  rintro rfl
  exact h hbyte

theorem cString_eq {text : List UInt8} (h : 0 ∉ text) : cString text = text := by
  have happend : cString (text ++ []) = text ++ [] := cString_append h []
  rwa [List.append_nil] at happend

theorem zero_not_mem_cString (bytes : List UInt8) : 0 ∉ cString bytes := by
  intro hmem
  simpa using List.mem_takeWhile_imp hmem

theorem cString_cut (bytes : List UInt8) :
    bytes = cString bytes ∨ ∃ rest, bytes = cString bytes ++ 0 :: rest := by
  induction bytes with
  | nil => exact .inl rfl
  | cons byte bytes ih =>
      by_cases hbyte : byte = 0
      · exact .inr ⟨bytes, by simp [cString, hbyte]⟩
      · have hcons : cString (byte :: bytes) = byte :: cString bytes := by simp [cString, hbyte]
        rw [hcons]
        rcases ih with hall | ⟨rest, hcut⟩
        · exact .inl (congrArg (byte :: ·) hall)
        · exact .inr ⟨rest, congrArg (byte :: ·) hcut⟩

theorem cString_eq_iff {text : List UInt8} (h : 0 ∉ text) {bytes : List UInt8} :
    cString bytes = text ↔ bytes = text ∨ ∃ rest, bytes = text ++ 0 :: rest := by
  constructor
  · rintro rfl
    exact cString_cut bytes
  · rintro (rfl | ⟨rest, rfl⟩)
    · exact cString_eq h
    · rw [cString_append h]
      exact List.append_nil text

theorem cString_self_iff (bytes : List UInt8) : cString bytes = bytes ↔ 0 ∉ bytes := by
  constructor
  · intro hself
    rw [← hself]
    exact zero_not_mem_cString bytes
  · exact cString_eq

end CccUpgrade
