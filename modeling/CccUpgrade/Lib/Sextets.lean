import Mathlib.Data.List.Basic
import Mathlib.Tactic.Common

/-! Bytes as digits of six bits, and an alphabet to write the digits in. Three bytes are four
digits; one or two bytes left over at the end are two or three. -/
namespace CccUpgrade.Lib

def sextets : List UInt8 → List Nat
  | a :: b :: c :: rest =>
      a.toNat / 4 :: (a.toNat % 4 * 16 + b.toNat / 16) :: (b.toNat % 16 * 4 + c.toNat / 64) ::
        c.toNat % 64 :: sextets rest
  | [a, b] => [a.toNat / 4, a.toNat % 4 * 16 + b.toNat / 16, b.toNat % 16 * 4]
  | [a] => [a.toNat / 4, a.toNat % 4 * 16]
  | [] => []

/-- A single digit at the end is not enough for a byte. -/
def octets : List Nat → List UInt8
  | w :: x :: y :: z :: rest =>
      UInt8.ofNat (w * 4 + x / 16) :: UInt8.ofNat (x * 16 + y / 4) :: UInt8.ofNat (y * 64 + z) ::
        octets rest
  | [w, x, y] => [UInt8.ofNat (w * 4 + x / 16), UInt8.ofNat (x * 16 + y / 4)]
  | [w, x] => [UInt8.ofNat (w * 4 + x / 16)]
  | [_] => []
  | [] => []

theorem octet_eq {n : Nat} {b : UInt8} (h : n % 256 = b.toNat) : UInt8.ofNat n = b := by
  rw [← UInt8.toNat_inj, UInt8.toNat_ofNat']
  exact h

theorem octets_sextets (bytes : List UInt8) : octets (sextets bytes) = bytes := by
  induction bytes using sextets.induct with
  | case1 a b c rest ih =>
      have ha := a.toNat_lt
      have hb := b.toNat_lt
      have hc := c.toNat_lt
      have hfirst : UInt8.ofNat (a.toNat / 4 * 4 + (a.toNat % 4 * 16 + b.toNat / 16) / 16) = a :=
        octet_eq (by omega)
      have hsecond : UInt8.ofNat ((a.toNat % 4 * 16 + b.toNat / 16) * 16 +
          (b.toNat % 16 * 4 + c.toNat / 64) / 4) = b := octet_eq (by omega)
      have hthird : UInt8.ofNat ((b.toNat % 16 * 4 + c.toNat / 64) * 64 + c.toNat % 64) = c :=
        octet_eq (by omega)
      rw [sextets, octets, hfirst, hsecond, hthird, ih]
  | case2 a b =>
      have ha := a.toNat_lt
      have hb := b.toNat_lt
      have hfirst : UInt8.ofNat (a.toNat / 4 * 4 + (a.toNat % 4 * 16 + b.toNat / 16) / 16) = a :=
        octet_eq (by omega)
      have hsecond : UInt8.ofNat ((a.toNat % 4 * 16 + b.toNat / 16) * 16 + b.toNat % 16 * 4 / 4) = b :=
        octet_eq (by omega)
      rw [sextets, octets, hfirst, hsecond]
  | case3 a =>
      have ha := a.toNat_lt
      have hfirst : UInt8.ofNat (a.toNat / 4 * 4 + a.toNat % 4 * 16 / 16) = a := octet_eq (by omega)
      rw [sextets, octets, hfirst]
  | case4 => rfl

theorem sextets_lt {bytes : List UInt8} {d : Nat} (hd : d ∈ sextets bytes) : d < 64 := by
  induction bytes using sextets.induct with
  | case1 a b c rest ih =>
      have ha := a.toNat_lt
      have hb := b.toNat_lt
      have hc := c.toNat_lt
      simp only [sextets, List.mem_cons] at hd
      rcases hd with rfl | rfl | rfl | rfl | hd
      · omega
      · omega
      · omega
      · omega
      · exact ih hd
  | case2 a b =>
      have ha := a.toNat_lt
      have hb := b.toNat_lt
      simp only [sextets, List.mem_cons, List.not_mem_nil, or_false] at hd
      omega
  | case3 a =>
      have ha := a.toNat_lt
      simp only [sextets, List.mem_cons, List.not_mem_nil, or_false] at hd
      omega
  | case4 => cases hd

theorem sextets_length (bytes : List UInt8) :
    (sextets bytes).length = (bytes.length * 4 + 2) / 3 := by
  induction bytes using sextets.induct with
  | case1 a b c rest ih =>
      simp only [sextets, List.length_cons, ih]
      omega
  | case2 | case3 => simp only [sextets, List.length_cons, List.length_nil]
  | case4 => rfl

theorem sextets_append {first : List UInt8} (h : first.length % 3 = 0) (second : List UInt8) :
    sextets (first ++ second) = sextets first ++ sextets second := by
  induction first using sextets.induct with
  | case1 a b c rest ih =>
      simp only [List.length_cons] at h
      simp only [List.cons_append, sextets, ih (by omega)]
  | case2 | case3 => cases h
  | case4 => rfl

/-- A symbol for each digit, and the digit that a character stands for, if any. -/
structure Alphabet where
  symbol : Nat → UInt8
  value : UInt8 → Option Nat
  value_symbol : ∀ n < 64, value (symbol n) = some n

namespace Alphabet

variable (alphabet : Alphabet) {text : List UInt8}

def write (bytes : List UInt8) : List UInt8 := (sextets bytes).map alphabet.symbol

/-- Characters that stand for nothing are passed over. -/
def digits (text : List UInt8) : List Nat := text.filterMap alphabet.value

theorem digits_write (bytes : List UInt8) :
    alphabet.digits (alphabet.write bytes) = sextets bytes := by
  rw [digits, write, List.filterMap_map]
  refine (List.filterMap_congr ?_).trans (List.filterMap_some)
  intro d hd
  exact alphabet.value_symbol d (sextets_lt hd)

theorem filter_write (bytes : List UInt8) :
    (alphabet.write bytes).filter (fun c => (alphabet.value c).isSome) = alphabet.write bytes := by
  rw [List.filter_eq_self]
  intro c hc
  obtain ⟨d, hd, rfl⟩ := List.mem_map.mp hc
  rw [alphabet.value_symbol d (sextets_lt hd), Option.isSome_some]

theorem digits_filter (text : List UInt8) :
    alphabet.digits (text.filter fun c => (alphabet.value c).isSome) = alphabet.digits text := by
  rw [digits, digits, List.filterMap_filter]
  apply List.filterMap_congr
  intro c _
  cases alphabet.value c <;> rfl

theorem octets_digits {bytes : List UInt8}
    (htext : (text.filter fun c => (alphabet.value c).isSome) = alphabet.write bytes) :
    octets (alphabet.digits text) = bytes := by
  rw [← alphabet.digits_filter, htext, alphabet.digits_write, octets_sextets]

end Alphabet

end CccUpgrade.Lib
