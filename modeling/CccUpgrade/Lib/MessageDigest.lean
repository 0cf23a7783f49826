import Mathlib.Algebra.Group.Nat.Defs
import Mathlib.Data.List.Basic

/-! MD5 as RFC 1321 gives it: the padded message is absorbed in blocks of 64 bytes. -/
namespace CccUpgrade.Lib.MessageDigest

structure Chain where
  a : UInt32
  b : UInt32
  c : UInt32
  d : UInt32
deriving DecidableEq, Repr

def start : Chain := ⟨0x67452301, 0xefcdab89, 0x98badcfe, 0x10325476⟩

def auxF (x y z : UInt32) : UInt32 := (x &&& y) ||| (~~~x &&& z)

def auxG (x y z : UInt32) : UInt32 := (x &&& z) ||| (y &&& ~~~z)

def auxH (x y z : UInt32) : UInt32 := x ^^^ y ^^^ z

def auxI (x y z : UInt32) : UInt32 := y ^^^ (x ||| ~~~z)

def mix (n : Nat) : UInt32 → UInt32 → UInt32 → UInt32 :=
  match n / 16 with
  | 0 => auxF
  | 1 => auxG
  | 2 => auxH
  | _ => auxI

def index (n : Nat) : Nat :=
  match n / 16 with
  | 0 => n % 16
  | 1 => (5 * n + 1) % 16
  | 2 => (3 * n + 5) % 16
  | _ => 7 * n % 16

def shift (n : Nat) : UInt32 :=
  let amounts : List UInt32 := match n / 16 with
    | 0 => [7, 12, 17, 22]
    | 1 => [5, 9, 14, 20]
    | 2 => [4, 11, 16, 23]
    | _ => [6, 10, 15, 21]
  amounts.getD (n % 4) 0

/-- The integer parts of 4294967296 times the absolute values of the sines of 1 to 64. -/
def sines : List UInt32 :=
  [ 0xd76aa478, 0xe8c7b756, 0x242070db, 0xc1bdceee, 0xf57c0faf, 0x4787c62a, 0xa8304613, 0xfd469501,
    0x698098d8, 0x8b44f7af, 0xffff5bb1, 0x895cd7be, 0x6b901122, 0xfd987193, 0xa679438e, 0x49b40821,
    0xf61e2562, 0xc040b340, 0x265e5a51, 0xe9b6c7aa, 0xd62f105d, 0x02441453, 0xd8a1e681, 0xe7d3fbc8,
    0x21e1cde6, 0xc33707d6, 0xf4d50d87, 0x455a14ed, 0xa9e3e905, 0xfcefa3f8, 0x676f02d9, 0x8d2a4c8a,
    0xfffa3942, 0x8771f681, 0x6d9d6122, 0xfde5380c, 0xa4beea44, 0x4bdecfa9, 0xf6bb4b60, 0xbebfbc70,
    0x289b7ec6, 0xeaa127fa, 0xd4ef3085, 0x04881d05, 0xd9d4d039, 0xe6db99e5, 0x1fa27cf8, 0xc4ac5665,
    0xf4292244, 0x432aff97, 0xab9423a7, 0xfc93a039, 0x655b59c3, 0x8f0ccc92, 0xffeff47d, 0x85845dd1,
    0x6fa87e4f, 0xfe2ce6e0, 0xa3014314, 0x4e0811a1, 0xf7537e82, 0xbd3af235, 0x2ad7d2bb, 0xeb86d391 ]

def rotateLeft (x n : UInt32) : UInt32 := x <<< n ||| x >>> (32 - n)

def operation (x : List UInt32) (v : Chain) (n : Nat) : Chain :=
  let sum := v.a + mix n v.b v.c v.d + x.getD (index n) 0 + sines.getD n 0
  ⟨v.d, v.b + rotateLeft sum (shift n), v.b, v.c⟩

def compress (v : Chain) (x : List UInt32) : Chain :=
  let r := (List.range 64).foldl (operation x) v
  ⟨v.a + r.a, v.b + r.b, v.c + r.c, v.d + r.d⟩

/-- The words of a block, low-order byte first. -/
def words : List UInt8 → List UInt32
  | b0 :: b1 :: b2 :: b3 :: bytes =>
      (b0.toUInt32 ||| b1.toUInt32 <<< 8 ||| b2.toUInt32 <<< 16 ||| b3.toUInt32 <<< 24) ::
        words bytes
  | _ => []

def bytes (x : UInt32) : List UInt8 :=
  [x.toUInt8, (x >>> 8).toUInt8, (x >>> 16).toUInt8, (x >>> 24).toUInt8]

def absorb : Nat → Chain → List UInt8 → Chain
  | 0, v, _ => v
  | n + 1, v, message => absorb n (compress v (words (message.take 64))) (message.drop 64)

def zeros (length : Nat) : Nat := (119 - length % 64) % 64

/-- The number of bits, in two words. -/
def count (length : Nat) : List UInt8 :=
  bytes (UInt32.ofNat (8 * length)) ++ bytes (UInt32.ofNat (8 * length / 2 ^ 32))

def pad (message : List UInt8) : List UInt8 :=
  message ++ 0x80 :: List.replicate (zeros message.length) 0 ++ count message.length

def digest (message : List UInt8) : List UInt8 :=
  let v := absorb ((pad message).length / 64) start (pad message)
  bytes v.a ++ bytes v.b ++ bytes v.c ++ bytes v.d

def hexDigit (n : Nat) : UInt8 := UInt8.ofNat (if n < 10 then 0x30 + n else 0x61 + (n - 10))

def hex (bytes : List UInt8) : List UInt8 :=
  bytes.flatMap fun byte => [hexDigit (byte.toNat / 16), hexDigit (byte.toNat % 16)]

def upperDigits : List UInt8 :=
  [0x30, 0x31, 0x32, 0x33, 0x34, 0x35, 0x36, 0x37, 0x38, 0x39, 0x41, 0x42, 0x43, 0x44, 0x45, 0x46]

def upperHex (bytes : List UInt8) : List UInt8 :=
  bytes.flatMap fun byte => [upperDigits.getD (byte.toNat / 16) 0, upperDigits.getD (byte.toNat % 16) 0]

theorem digest_length (message : List UInt8) : (digest message).length = 16 := rfl

theorem hex_length (bytes : List UInt8) : (hex bytes).length = 2 * bytes.length := by
  induction bytes with
  | nil => rfl
  | cons byte bytes ih =>
      change (hex bytes).length + 2 = 2 * (bytes.length + 1)
      omega

theorem notMem_digits {digit : Nat → UInt8} {c : UInt8} (hdigit : ∀ n < 16, digit n ≠ c)
    (bytes : List UInt8) :
    c ∉ bytes.flatMap fun byte => [digit (byte.toNat / 16), digit (byte.toNat % 16)] := by
  intro hmem
  obtain ⟨byte, -, hbyte⟩ := List.mem_flatMap.mp hmem
  have hlt : byte.toNat < 256 := byte.toNat_lt
  simp only [List.mem_cons, List.not_mem_nil, or_false] at hbyte
  rcases hbyte with hhigh | hlow
  · exact hdigit _ (by omega) hhigh.symm
  · exact hdigit _ (by omega) hlow.symm

theorem zero_notMem_hex (bytes : List UInt8) : 0 ∉ hex bytes :=
  notMem_digits (by decide) bytes

theorem zero_notMem_upperHex (bytes : List UInt8) : 0 ∉ upperHex bytes := by
  have hdigit : ∀ n < 16, (fun n => upperDigits.getD n 0) n ≠ 0 := by decide
  exact notMem_digits hdigit bytes

theorem upperHex_injective : Function.Injective upperHex := by
  have hdigit : ∀ m < 16, ∀ n < 16, upperDigits.getD m 0 = upperDigits.getD n 0 → m = n := by decide
  intro bytes bytes' h
  induction bytes generalizing bytes' with
  | nil =>
      cases bytes' with
      | nil => rfl
      | cons => cases h
  | cons byte bytes ih =>
      cases bytes' with
      | nil => cases h
      | cons byte' bytes' =>
          have hbyte := byte.toNat_lt
          have hbyte' := byte'.toNat_lt
          obtain ⟨hhigh, hrest⟩ := List.cons.inj h
          obtain ⟨hlow, hrest⟩ := List.cons.inj hrest
          have hhigh := hdigit _ (by omega) _ (by omega) hhigh
          have hlow := hdigit _ (by omega) _ (by omega) hlow
          have hsame : byte.toNat = byte'.toNat := by omega
          rw [UInt8.toNat_inj.mp hsame, ih hrest]

theorem absorb_append (n m : Nat) (v : Chain) {p : List UInt8} (q : List UInt8)
    (hp : p.length = 64 * n) : absorb (n + m) v (p ++ q) = absorb m (absorb n v p) q := by
  induction n generalizing v p with
  | zero =>
      obtain rfl : p = [] := List.eq_nil_of_length_eq_zero hp
      rw [Nat.zero_add]
      rfl
  | succ n ih =>
      rw [Nat.succ_add, absorb, absorb, List.take_append_of_le_length (by omega),
        List.drop_append_of_le_length (by omega)]
      apply ih
      rw [List.length_drop, hp]
      omega

example : digest [] =
    [0xd4, 0x1d, 0x8c, 0xd9, 0x8f, 0x00, 0xb2, 0x04, 0xe9, 0x80, 0x09, 0x98, 0xec, 0xf8, 0x42, 0x7e] := by
  decide +kernel

/-- Of `abc`. -/
example : digest [0x61, 0x62, 0x63] =
    [0x90, 0x01, 0x50, 0x98, 0x3c, 0xd2, 0x4f, 0xb0, 0xd6, 0x96, 0x3f, 0x7d, 0x28, 0xe1, 0x7f, 0x72] := by
  decide +kernel

end CccUpgrade.Lib.MessageDigest
