import CccUpgrade.FileManager.Md5Buffer
import CccUpgrade.Lib.Sextets

/-! The base64 code of md5sum.c, which `sum` prints a digest with while `hex` is not set. -/
namespace CccUpgrade.InPlace

open Lib Md5

structure Tables where
  t64d : List UInt8
  t64e : List UInt8
deriving DecidableEq

namespace Tables

def zero : Tables := ⟨List.replicate 256 0, List.replicate 64 0⟩

/-- `t64e[i] = c` and `t64d[c] = i`. -/
def enter (t : Tables) (entry : UInt8 × Nat) : Tables :=
  ⟨t.t64d.set entry.1.toNat (UInt8.ofNat entry.2), t.t64e.set entry.2 entry.1⟩

def range (first : UInt8) (count : Nat) : List UInt8 :=
  (List.range count).map fun k => first + UInt8.ofNat k

def init64 : Tables :=
  let t : Tables := ⟨List.replicate 256 255, List.replicate 64 0x3d⟩
  (range 0x41 26 ++ range 0x61 26 ++ range 0x30 10 ++ [0x2b, 0x2f]).zipIdx.foldl enter t

/-- `if(t64e[0] == 0) init64()`. -/
def ready (t : Tables) : Tables := if t.t64e.getD 0 0 = 0 then init64 else t

/-- The tables before the first call, or after one. -/
def Static (t : Tables) : Prop := t = zero ∨ t = init64

theorem Static.ready {t : Tables} (h : t.Static) : t.ready = init64 := by
  rcases h with rfl | rfl
  · rfl
  · decide +kernel

end Tables

/-- `enc64` over the groups of three bytes: `out` and how much of it is written. -/
def encGroups (t : Tables) : Nat → List UInt8 → List UInt8 → Nat → Except Fault (List UInt8 × Nat)
  | 0, _, out, pos => return (out, pos)
  | i + 1, input, out, pos => do
      let a ← readByte input 0
      let b ← readByte input 1
      let c ← readByte input 2
      let b24 := a.toNat <<< 16 ||| b.toNat <<< 8 ||| c.toNat
      let w ← readByte t.t64e (b24 >>> 18)
      let x ← readByte t.t64e (b24 >>> 12 &&& 0x3f)
      let y ← readByte t.t64e (b24 >>> 6 &&& 0x3f)
      let z ← readByte t.t64e (b24 &&& 0x3f)
      let out ← store out pos [w, x, y, z]
      encGroups t i (input.drop 3) out (pos + 4)

def encRest (t : Tables) (n : Nat) (input out : List UInt8) (pos : Nat) :
    Except Fault (List UInt8 × Nat) := do
  if n % 3 = 2 then
    let a ← readByte input 0
    let b ← readByte input 1
    let b24 := a.toNat <<< 16 ||| b.toNat <<< 8
    let w ← readByte t.t64e (b24 >>> 18)
    let x ← readByte t.t64e (b24 >>> 12 &&& 0x3f)
    let y ← readByte t.t64e (b24 >>> 6 &&& 0x3f)
    return (← store out pos [w, x, y], pos + 3)
  else if n % 3 = 1 then
    let a ← readByte input 0
    let b24 := a.toNat <<< 16
    let w ← readByte t.t64e (b24 >>> 18)
    let x ← readByte t.t64e (b24 >>> 12 &&& 0x3f)
    return (← store out pos [w, x, 0x3d], pos + 3)
  else return (out, pos)

/-- `enc64`: `out` as it is afterwards, what the call returns, and the tables. -/
def enc64 (t : Tables) (out input : List UInt8) (n : Nat) :
    Except Fault (List UInt8 × Nat × Tables) := do
  let t := t.ready
  let (out, pos) ← encGroups t (n / 3) input out 0
  let (out, pos) ← encRest t n (input.drop (3 * (n / 3))) out pos
  let out ← store out pos [0x3d]
  let out ← store out (pos + 1) [0]
  return (out, pos + 1, t)

/-- `t64d[*in]`. Where `char` is signed, a character from 0x80 on indexes in front of the
table. -/
def t64dAt (t : Tables) (c : UInt8) : Except Fault UInt8 :=
  if 0x80 ≤ c then .error (.read c.toNat) else readByte t.t64d c.toNat

/-- The loop of `dec64`: the digits of the group so far, `b24`, `out` and how much of it is
written. -/
def decLoop (t : Tables) : Nat → List UInt8 → Nat → Nat → List UInt8 → Nat →
    Except Fault (Nat × Nat × List UInt8 × Nat)
  | 0, _, i, b24, out, pos => return (i, b24, out, pos)
  | n + 1, input, i, b24, out, pos => do
      let c ← t64dAt t (← readByte input 0)
      if c = 255 then decLoop t n (input.drop 1) i b24 out pos
      else match i with
        | 0 => decLoop t n (input.drop 1) 1 (c.toNat <<< 18) out pos
        | 1 => decLoop t n (input.drop 1) 2 (b24 ||| c.toNat <<< 12) out pos
        | 2 => decLoop t n (input.drop 1) 3 (b24 ||| c.toNat <<< 6) out pos
        | _ =>
            let b24 := b24 ||| c.toNat
            let out ← store out pos
              [UInt8.ofNat (b24 >>> 16), UInt8.ofNat (b24 >>> 8), UInt8.ofNat b24]
            decLoop t n (input.drop 1) 0 b24 out (pos + 3)

def decRest (i b24 : Nat) (out : List UInt8) (pos : Nat) : Except Fault (List UInt8 × Nat) := do
  let (out, pos) ←
    if i = 2 then pure (← store out pos [UInt8.ofNat (b24 >>> 16)], pos + 1)
    else if i = 3 then
      pure (← store out pos [UInt8.ofNat (b24 >>> 16), UInt8.ofNat (b24 >>> 8)], pos + 2)
    else pure (out, pos)
  return (← store out pos [0], pos)

/-- `dec64`: `out` as it is afterwards, what the call returns, and the tables. -/
def dec64 (t : Tables) (out input : List UInt8) (n : Nat) :
    Except Fault (List UInt8 × Nat × Tables) := do
  let t := t.ready
  let (i, b24, out, pos) ← decLoop t n input 0 0 out 0
  let (out, pos) ← decRest i b24 out pos
  return (out, pos, t)

def base64 : Alphabet where
  symbol n := Tables.init64.t64e.getD n 0
  value c :=
    let d := Tables.init64.t64d.getD c.toNat 255
    if d = 255 then none else some d.toNat
  value_symbol := by decide +kernel

section Digits

theorem readByte_getD {buffer : List UInt8} {index : Nat} (h : index < buffer.length) (d : UInt8) :
    readByte buffer index = .ok (buffer.getD index d) := by
  unfold readByte
  rw [List.getD_eq_getElem?_getD, List.getElem?_eq_getElem h]
  rfl

theorem readByte_t64e {d : Nat} (hd : d < 64) :
    readByte Tables.init64.t64e d = .ok (base64.symbol d) := by
  have hlength : Tables.init64.t64e.length = 64 := by decide +kernel
  exact readByte_getD (hlength ▸ hd) 0

theorem t64dAt_eq {c : UInt8} (hc : c < 0x80) :
    t64dAt Tables.init64 c = .ok (Tables.init64.t64d.getD c.toNat 255) := by
  have hlength : Tables.init64.t64d.length = 256 := by decide +kernel
  unfold t64dAt
  rw [if_neg (UInt8.not_le.mpr hc)]
  exact readByte_getD (hlength ▸ c.toNat_lt) 255

theorem base64_value (c : UInt8) :
    Tables.init64.t64d.getD c.toNat 255 = 255 ∧ base64.value c = none ∨
      ∃ v < 64, Tables.init64.t64d.getD c.toNat 255 ≠ 255 ∧
        (Tables.init64.t64d.getD c.toNat 255).toNat = v ∧ base64.value c = some v := by
  have hall : ∀ n < 256, Tables.init64.t64d.getD n 255 = 255 ∨
      (Tables.init64.t64d.getD n 255).toNat < 64 := by decide +kernel
  have hlt := hall c.toNat c.toNat_lt
  dsimp only [base64]
  generalize Tables.init64.t64d.getD c.toNat 255 = v at hlt ⊢
  by_cases hnone : v = 255
  · exact .inl ⟨hnone, if_pos hnone⟩
  · exact .inr ⟨v.toNat, hlt.resolve_left hnone, hnone, rfl, if_neg hnone⟩

theorem shift_or (v : Nat) {d m : Nat} (hd : d < 2 ^ m) (k : Nat) :
    v <<< (k + m) ||| d <<< k = (v * 2 ^ m + d) <<< k := by
  rw [Nat.add_comm k m, Nat.shiftLeft_add, ← Nat.shiftLeft_or_distrib,
    ← Nat.shiftLeft_add_eq_or_of_lt hd, Nat.shiftLeft_eq v]

theorem and_sextet (n : Nat) : n &&& 0x3f = n % 64 := Nat.and_two_pow_sub_one_eq_mod n 6

end Digits

section Encode

variable {input done out old : List UInt8}

theorem ok_bind {α β : Type} (a : α) (f : α → Except Fault β) : (Except.ok a >>= f) = f a := rfl

theorem store_at {data : List UInt8} (hroom : data.length ≤ old.length) :
    store (done ++ old) done.length data = .ok ((done ++ data) ++ old.drop data.length) := by
  have hsplit : done ++ old = done ++ (old.take data.length ++ old.drop data.length) := by
    rw [List.take_append_drop]
  have hlength : data.length = (old.take data.length).length := by
    rw [List.length_take, Nat.min_eq_left hroom]
  rw [hsplit, store_append hlength, List.append_assoc]

theorem pack_two (a b : UInt8) : a.toNat <<< 16 ||| b.toNat <<< 8 = (a.toNat * 256 + b.toNat) <<< 8 :=
  shift_or a.toNat (m := 8) b.toNat_lt 8

theorem pack_three (a b c : UInt8) :
    a.toNat <<< 16 ||| b.toNat <<< 8 ||| c.toNat = (a.toNat * 256 + b.toNat) * 256 + c.toNat := by
  rw [pack_two]
  exact shift_or (a.toNat * 256 + b.toNat) (m := 8) c.toNat_lt 0

theorem encGroups_eq (i : Nat) (hinput : 3 * i ≤ input.length) (hroom : 4 * i ≤ old.length) :
    encGroups Tables.init64 i input (done ++ old) done.length =
      .ok ((done ++ base64.write (input.take (3 * i))) ++ old.drop (4 * i), done.length + 4 * i) := by
  induction i generalizing input done old with
  | zero =>
      change Except.ok (done ++ old, done.length) = Except.ok ((done ++ []) ++ old, done.length + 0)
      rw [List.append_nil, Nat.add_zero]
  | succ i ih =>
      obtain ⟨a, b, c, rest, rfl⟩ : ∃ a b c rest, input = a :: b :: c :: rest := by
        match input, hinput with
        | a :: b :: c :: rest, _ => exact ⟨a, b, c, rest, rfl⟩
      have ha := a.toNat_lt
      have hb := b.toNat_lt
      have hc := c.toNat_lt
      have hfirst : readByte (a :: b :: c :: rest) 0 = .ok a := rfl
      have hsecond : readByte (a :: b :: c :: rest) 1 = .ok b := rfl
      have hthird : readByte (a :: b :: c :: rest) 2 = .ok c := rfl
      have hw : ((a.toNat * 256 + b.toNat) * 256 + c.toNat) >>> 18 = a.toNat / 4 := by
        rw [Nat.shiftRight_eq_div_pow]
        omega
      have hx : ((a.toNat * 256 + b.toNat) * 256 + c.toNat) >>> 12 % 64 =
          a.toNat % 4 * 16 + b.toNat / 16 := by
        rw [Nat.shiftRight_eq_div_pow]
        omega
      have hy : ((a.toNat * 256 + b.toNat) * 256 + c.toNat) >>> 6 % 64 =
          b.toNat % 16 * 4 + c.toNat / 64 := by
        rw [Nat.shiftRight_eq_div_pow]
        omega
      have hz : ((a.toNat * 256 + b.toNat) * 256 + c.toNat) % 64 = c.toNat % 64 := by omega
      rw [encGroups, hfirst, hsecond, hthird]
      simp only [ok_bind, pack_three, and_sextet]
      rw [hw, hx, hy, hz]
      rw [readByte_t64e (by omega), readByte_t64e (by omega), readByte_t64e (by omega),
        readByte_t64e (by omega)]
      simp only [ok_bind]
      have hroom' : (base64.write [a, b, c]).length ≤ old.length := by
        change 4 ≤ _
        omega
      change (store (done ++ old) done.length (base64.write [a, b, c]) >>=
        fun out => encGroups Tables.init64 i rest out (done.length + 4)) = _
      have hrest := @ih rest (done ++ base64.write [a, b, c]) (old.drop 4)
        (by simp only [List.length_cons] at hinput; omega) (by rw [List.length_drop]; omega)
      rw [List.length_append] at hrest
      rw [store_at hroom', ok_bind]
      refine hrest.trans ?_
      have hpos : done.length + (base64.write [a, b, c]).length + 4 * i = done.length + 4 * (i + 1) := by
        change done.length + 4 + 4 * i = _
        omega
      have hdrop : 4 + 4 * i = 4 * (i + 1) := by omega
      rw [hpos, List.drop_drop, List.append_assoc done, hdrop]
      rfl

/-- What `enc64` writes between the last group and the `=` of its last line. -/
def restText (n : Nat) (input : List UInt8) : List UInt8 :=
  base64.write (input.take (n % 3)) ++ if n % 3 = 1 then [0x3d] else []

theorem encRest_eq {n : Nat} (hinput : n % 3 ≤ input.length)
    (hroom : (restText n input).length ≤ old.length) :
    encRest Tables.init64 n input (done ++ old) done.length =
      .ok ((done ++ restText n input) ++ old.drop (restText n input).length,
        done.length + (restText n input).length) := by
  have hcases : n % 3 = 0 ∨ n % 3 = 1 ∨ n % 3 = 2 := by omega
  unfold encRest
  rcases hcases with hn | hn | hn
  · have htext : restText n input = [] := by
      unfold restText
      rw [hn, List.take_zero]
      rfl
    rw [hn, if_neg (by decide), if_neg (by decide), htext, List.append_nil]
    rfl
  · obtain ⟨a, rest, rfl⟩ : ∃ a rest, input = a :: rest := by
      match input, hn ▸ hinput with
      | a :: rest, _ => exact ⟨a, rest, rfl⟩
    have ha := a.toNat_lt
    have htext : restText n (a :: rest) = base64.write [a] ++ [0x3d] := by
      unfold restText
      rw [hn]
      rfl
    have hfirst : readByte (a :: rest) 0 = .ok a := rfl
    have hw : a.toNat <<< 16 >>> 18 = a.toNat / 4 := by
      rw [Nat.shiftLeft_eq, Nat.shiftRight_eq_div_pow]
      omega
    have hx : a.toNat <<< 16 >>> 12 % 64 = a.toNat % 4 * 16 := by
      rw [Nat.shiftLeft_eq, Nat.shiftRight_eq_div_pow]
      omega
    rw [hn, if_neg (by decide), if_pos rfl, hfirst]
    simp only [ok_bind, and_sextet]
    rw [hw, hx, readByte_t64e (by omega), readByte_t64e (by omega)]
    simp only [ok_bind]
    rw [htext] at hroom ⊢
    change (store (done ++ old) done.length (base64.write [a] ++ [0x3d]) >>= fun out => _) = _
    rw [store_at hroom]
    rfl
  · obtain ⟨a, b, rest, rfl⟩ : ∃ a b rest, input = a :: b :: rest := by
      match input, hn ▸ hinput with
      | a :: b :: rest, _ => exact ⟨a, b, rest, rfl⟩
    have ha := a.toNat_lt
    have hb := b.toNat_lt
    have htext : restText n (a :: b :: rest) = base64.write [a, b] := by
      unfold restText
      rw [hn]
      rfl
    have hfirst : readByte (a :: b :: rest) 0 = .ok a := rfl
    have hsecond : readByte (a :: b :: rest) 1 = .ok b := rfl
    have hw : (a.toNat * 256 + b.toNat) <<< 8 >>> 18 = a.toNat / 4 := by
      rw [Nat.shiftLeft_eq, Nat.shiftRight_eq_div_pow]
      omega
    have hx : (a.toNat * 256 + b.toNat) <<< 8 >>> 12 % 64 = a.toNat % 4 * 16 + b.toNat / 16 := by
      rw [Nat.shiftLeft_eq, Nat.shiftRight_eq_div_pow]
      omega
    have hy : (a.toNat * 256 + b.toNat) <<< 8 >>> 6 % 64 = b.toNat % 16 * 4 := by
      rw [Nat.shiftLeft_eq, Nat.shiftRight_eq_div_pow]
      omega
    rw [hn, if_pos rfl, hfirst, hsecond]
    simp only [ok_bind, pack_two, and_sextet]
    rw [hw, hx, hy, readByte_t64e (by omega), readByte_t64e (by omega), readByte_t64e (by omega)]
    simp only [ok_bind]
    rw [htext] at hroom ⊢
    change (store (done ++ old) done.length (base64.write [a, b]) >>= fun out => _) = _
    rw [store_at hroom]
    rfl

/-- What `enc64` writes for the first `n` bytes, before the NUL. -/
def encText (n : Nat) (input : List UInt8) : List UInt8 :=
  base64.write (input.take n) ++ if n % 3 = 1 then [0x3d, 0x3d] else [0x3d]

theorem encText_split {n : Nat} (hinput : n ≤ input.length) :
    encText n input = base64.write (input.take (3 * (n / 3))) ++
      restText n (input.drop (3 * (n / 3))) ++ [0x3d] := by
  have htake : input.take n = input.take (3 * (n / 3)) ++ (input.drop (3 * (n / 3))).take (n % 3) := by
    rw [← List.take_add, Nat.div_add_mod]
  have hgroups : (input.take (3 * (n / 3))).length % 3 = 0 := by
    rw [List.length_take]
    omega
  have hwrite : base64.write (input.take n) = base64.write (input.take (3 * (n / 3))) ++
      base64.write ((input.drop (3 * (n / 3))).take (n % 3)) := by
    rw [htake, Alphabet.write, sextets_append hgroups, List.map_append]
    rfl
  unfold encText restText
  rw [hwrite, List.append_assoc, List.append_assoc, List.append_assoc]
  split <;> rfl

theorem write_length (bytes : List UInt8) : (base64.write bytes).length = (bytes.length * 4 + 2) / 3 := by
  rw [Alphabet.write, List.length_map, sextets_length]

theorem enc64_eq {t : Tables} (ht : t.Static) {n : Nat} (hinput : n ≤ input.length)
    (out : List UInt8) (hroom : (encText n input).length < out.length) :
    enc64 t out input n = .ok (encText n input ++ 0 :: out.drop ((encText n input).length + 1),
      (encText n input).length, Tables.init64) := by
  rw [encText_split hinput] at hroom ⊢
  have hgroups : (base64.write (input.take (3 * (n / 3)))).length = 4 * (n / 3) := by
    rw [write_length, List.length_take]
    omega
  generalize hrest : input.drop (3 * (n / 3)) = rest at hroom ⊢
  generalize hfront : base64.write (input.take (3 * (n / 3))) = front at hroom hgroups ⊢
  simp only [List.length_append, List.length_cons, List.length_nil] at hroom ⊢
  have hlen : n % 3 ≤ rest.length := by
    rw [← hrest, List.length_drop]
    omega
  have hfirst : encGroups Tables.init64 (n / 3) input out 0 =
      .ok (front ++ out.drop front.length, front.length) := by
    have h := @encGroups_eq input [] out (n / 3) (by omega) (by omega)
    rw [hfront, ← hgroups] at h
    refine h.trans ?_
    rw [List.length_nil, Nat.zero_add]
    rfl
  have hsecond := @encRest_eq rest front (out.drop front.length) n hlen
    (by rw [List.length_drop]; omega)
  generalize restText n rest = back at hroom hsecond ⊢
  generalize hold : (out.drop front.length).drop back.length = old at hsecond
  have hsize : old.length = out.length - front.length - back.length := by
    rw [← hold, List.length_drop, List.length_drop]
  have hthird : store ((front ++ back) ++ old) (front ++ back).length [0x3d] =
      .ok (((front ++ back) ++ [0x3d]) ++ old.drop 1) := by
    apply store_at
    rw [List.length_singleton]
    omega
  have hlast : store (((front ++ back) ++ [0x3d]) ++ old.drop 1) ((front ++ back) ++ [0x3d]).length [0] =
      .ok ((((front ++ back) ++ [0x3d]) ++ [0]) ++ (old.drop 1).drop 1) := by
    apply store_at
    rw [List.length_singleton, List.length_drop]
    omega
  have hpos : ((front ++ back) ++ [0x3d]).length = front.length + back.length + 1 := by
    rw [List.length_append, List.length_append, List.length_singleton]
  rw [hpos] at hlast
  rw [List.length_append] at hthird
  unfold enc64
  rw [ht.ready]
  dsimp only
  rw [hfirst, ok_bind]
  dsimp only
  rw [hrest, hsecond, ok_bind]
  dsimp only
  rw [hthird, ok_bind, hlast, ok_bind]
  have htail : (old.drop 1).drop 1 = out.drop (front.length + back.length + (0 + 1) + 1) := by
    rw [← hold, List.drop_drop, List.drop_drop, List.drop_drop]
    rfl
  rw [htail, List.append_assoc _ [0]]
  rfl

theorem store_ok {buf data buf' : List UInt8} {pos : Nat} (h : store buf pos data = .ok buf') :
    pos + data.length ≤ buf.length ∧ buf'.length = buf.length := by
  unfold store at h
  split at h
  · cases h
  · cases h
    refine ⟨by omega, ?_⟩
    simp only [List.length_append, List.length_take, List.length_drop]
    omega

theorem encGroups_ok {t : Tables} {i pos pos' : Nat} {out' : List UInt8}
    (h : encGroups t i input out pos = .ok (out', pos')) :
    out'.length = out.length ∧ pos' = pos + 4 * i := by
  induction i generalizing input out pos with
  | zero =>
      cases h
      exact ⟨rfl, rfl⟩
  | succ i ih =>
      rw [encGroups] at h
      obtain ⟨a, -, h⟩ := bind_eq_ok h
      obtain ⟨b, -, h⟩ := bind_eq_ok h
      obtain ⟨c, -, h⟩ := bind_eq_ok h
      obtain ⟨w, -, h⟩ := bind_eq_ok h
      obtain ⟨x, -, h⟩ := bind_eq_ok h
      obtain ⟨y, -, h⟩ := bind_eq_ok h
      obtain ⟨z, -, h⟩ := bind_eq_ok h
      obtain ⟨buf, hstore, h⟩ := bind_eq_ok h
      obtain ⟨hlength, rfl⟩ := ih h
      exact ⟨hlength.trans (store_ok hstore).2, by omega⟩

theorem encRest_ok {t : Tables} {n pos pos' : Nat} {out' : List UInt8}
    (h : encRest t n input out pos = .ok (out', pos')) :
    out'.length = out.length ∧ pos' = pos + if n % 3 = 0 then 0 else 3 := by
  unfold encRest at h
  split at h
  next htwo =>
    obtain ⟨a, -, h⟩ := bind_eq_ok h
    obtain ⟨b, -, h⟩ := bind_eq_ok h
    obtain ⟨w, -, h⟩ := bind_eq_ok h
    obtain ⟨x, -, h⟩ := bind_eq_ok h
    obtain ⟨y, -, h⟩ := bind_eq_ok h
    obtain ⟨buf, hstore, h⟩ := bind_eq_ok h
    cases h
    rw [if_neg (by omega)]
    exact ⟨(store_ok hstore).2, rfl⟩
  next htwo =>
    split at h
    next hone =>
      obtain ⟨a, -, h⟩ := bind_eq_ok h
      obtain ⟨w, -, h⟩ := bind_eq_ok h
      obtain ⟨x, -, h⟩ := bind_eq_ok h
      obtain ⟨buf, hstore, h⟩ := bind_eq_ok h
      cases h
      rw [if_neg (by omega)]
      exact ⟨(store_ok hstore).2, rfl⟩
    next hone =>
      cases h
      rw [if_pos (by omega)]
      exact ⟨rfl, rfl⟩

theorem encText_length {n : Nat} (hinput : n ≤ input.length) :
    (encText n input).length = 4 * (n / 3) + if n % 3 = 0 then 1 else 4 := by
  unfold encText
  rw [List.length_append, write_length, List.length_take, Nat.min_eq_left hinput]
  have hcases : n % 3 = 0 ∨ n % 3 = 1 ∨ n % 3 = 2 := by omega
  rcases hcases with hn | hn | hn
  · rw [if_neg (by omega), if_pos hn, List.length_singleton]
    omega
  · rw [if_pos hn, if_neg (by omega)]
    change (n * 4 + 2) / 3 + 2 = _
    omega
  · rw [if_neg (by omega), if_neg (by omega), List.length_singleton]
    omega

theorem enc64_room {t : Tables} {n : Nat} {r : List UInt8 × Nat × Tables}
    (h : enc64 t out input n = .ok r) : 4 * (n / 3) + (if n % 3 = 0 then 1 else 4) < out.length := by
  unfold enc64 at h
  obtain ⟨⟨out₁, pos₁⟩, hgroups, h⟩ := bind_eq_ok h
  obtain ⟨⟨out₂, pos₂⟩, hrest, h⟩ := bind_eq_ok h
  obtain ⟨out₃, hpad, h⟩ := bind_eq_ok h
  obtain ⟨out₄, hnul, h⟩ := bind_eq_ok h
  obtain ⟨hfirst, rfl⟩ := encGroups_ok hgroups
  obtain ⟨hsecond, rfl⟩ := encRest_ok hrest
  have hthird := (store_ok hpad).2
  have hroom := (store_ok hnul).1
  rw [List.length_singleton] at hroom
  split at hroom <;> rename_i hn
  · rw [if_pos hn]
    omega
  · rw [if_neg hn]
    omega

end Encode

section Decode

variable {text done old : List UInt8} {part : List Nat} {b24 : Nat}

/-- The digits of a group that is not complete, and `b24` with them in it. Before the first of
them `b24` is what an earlier group left. -/
inductive Gathered : List Nat → Nat → Prop
  | none (b24 : Nat) : Gathered [] b24
  | one {w : Nat} (hw : w < 64) : Gathered [w] (w <<< 18)
  | two {w x : Nat} (hw : w < 64) (hx : x < 64) : Gathered [w, x] (w <<< 18 ||| x <<< 12)
  | three {w x y : Nat} (hw : w < 64) (hx : x < 64) (hy : y < 64) :
      Gathered [w, x, y] (w <<< 18 ||| x <<< 12 ||| y <<< 6)

theorem gather_two (w : Nat) {x : Nat} (hx : x < 64) : w <<< 18 ||| x <<< 12 = (w * 64 + x) * 4096 :=
  (shift_or w (m := 6) hx 12).trans (Nat.shiftLeft_eq _ _)

theorem gather_three (w : Nat) {x y : Nat} (hx : x < 64) (hy : y < 64) :
    w <<< 18 ||| x <<< 12 ||| y <<< 6 = ((w * 64 + x) * 64 + y) * 64 := by
  have hwx : w <<< 18 ||| x <<< 12 = (w * 64 + x) <<< 12 := shift_or w (m := 6) hx 12
  rw [hwx]
  exact (shift_or (w * 64 + x) (m := 6) hy 6).trans (Nat.shiftLeft_eq _ _)

theorem gather_four (w : Nat) {x y z : Nat} (hx : x < 64) (hy : y < 64) (hz : z < 64) :
    w <<< 18 ||| x <<< 12 ||| y <<< 6 ||| z = ((w * 64 + x) * 64 + y) * 64 + z := by
  rw [gather_three w hx hy]
  have hlast := shift_or ((w * 64 + x) * 64 + y) (m := 6) hz 0
  rw [Nat.shiftLeft_eq, Nat.shiftLeft_zero, Nat.shiftLeft_zero] at hlast
  exact hlast

theorem octet_congr {m n : Nat} (h : m % 256 = n % 256) : UInt8.ofNat m = UInt8.ofNat n := by
  rw [← UInt8.toNat_inj, UInt8.toNat_ofNat', UInt8.toNat_ofNat']
  exact h

theorem store_last {bytes : List UInt8} (hroom : bytes.length < old.length) :
    store (done ++ old) done.length bytes = .ok ((done ++ bytes) ++ old.drop bytes.length) ∧
      store ((done ++ bytes) ++ old.drop bytes.length) (done.length + bytes.length) [0] =
        .ok ((done ++ bytes) ++ 0 :: old.drop (bytes.length + 1)) := by
  refine ⟨store_at (by omega), ?_⟩
  rw [← List.length_append, store_at, List.append_assoc, List.drop_drop]
  · rfl
  · rw [List.length_singleton, List.length_drop]
    omega

theorem decRest_eq (hpart : Gathered part b24) (hroom : (octets part).length < old.length) :
    decRest part.length b24 (done ++ old) done.length =
      .ok ((done ++ octets part) ++ 0 :: old.drop ((octets part).length + 1),
        done.length + (octets part).length) := by
  obtain ⟨hbytes, hnul⟩ := @store_last done old _ hroom
  generalize hlast : octets part = bytes at hroom hbytes hnul ⊢
  unfold decRest
  cases hpart with
  | none | one =>
      obtain rfl : bytes = [] := hlast.symm
      rw [List.append_nil] at hnul ⊢
      change store (done ++ old) done.length [0] = _ at hnul
      change (store (done ++ old) done.length [0] >>= fun out => _) = _
      rw [hnul]
      rfl
  | @two w x hw hx =>
      obtain rfl : bytes = [UInt8.ofNat (w * 4 + x / 16)] := hlast.symm
      have hfirst : UInt8.ofNat ((w <<< 18 ||| x <<< 12) >>> 16) = UInt8.ofNat (w * 4 + x / 16) := by
        rw [gather_two w hx, Nat.shiftRight_eq_div_pow]
        apply octet_congr
        omega
      have htwo : [w, x].length = 2 := rfl
      rw [if_pos htwo, hfirst, hbytes]
      exact congrArg (fun r => r >>= fun out => pure (out, done.length + 1)) hnul
  | @three w x y hw hx hy =>
      obtain rfl : bytes = [UInt8.ofNat (w * 4 + x / 16), UInt8.ofNat (x * 16 + y / 4)] := hlast.symm
      have hfirst : UInt8.ofNat ((w <<< 18 ||| x <<< 12 ||| y <<< 6) >>> 16) =
          UInt8.ofNat (w * 4 + x / 16) := by
        rw [gather_three w hx hy, Nat.shiftRight_eq_div_pow]
        apply octet_congr
        omega
      have hsecond : UInt8.ofNat ((w <<< 18 ||| x <<< 12 ||| y <<< 6) >>> 8) =
          UInt8.ofNat (x * 16 + y / 4) := by
        rw [gather_three w hx hy, Nat.shiftRight_eq_div_pow]
        apply octet_congr
        omega
      have htwo : [w, x, y].length ≠ 2 := nofun
      have hthree : [w, x, y].length = 3 := rfl
      rw [if_neg htwo, if_pos hthree, hfirst, hsecond, hbytes]
      exact congrArg (fun r => r >>= fun out => pure (out, done.length + 2)) hnul

theorem dec_eq {part : List Nat} {b24 : Nat} (hpart : Gathered part b24) (htext : ∀ c ∈ text, c < 0x80)
    (hroom : (octets (part ++ base64.digits text)).length < old.length) :
    (decLoop Tables.init64 text.length text part.length b24 (done ++ old) done.length >>= fun r =>
      decRest r.1 r.2.1 r.2.2.1 r.2.2.2) =
      .ok ((done ++ octets (part ++ base64.digits text)) ++
        0 :: old.drop ((octets (part ++ base64.digits text)).length + 1),
        done.length + (octets (part ++ base64.digits text)).length) := by
  induction text generalizing part b24 done old with
  | nil =>
      have hdigits : base64.digits [] = [] := rfl
      rw [hdigits, List.append_nil] at hroom ⊢
      exact decRest_eq hpart hroom
  | cons c text ih =>
      have hrest : ∀ c ∈ text, c < 0x80 := fun c' hc => htext c' (List.mem_cons_of_mem _ hc)
      have hread : readByte (c :: text) 0 = .ok c := rfl
      rw [List.length_cons, decLoop, hread, ok_bind, t64dAt_eq (htext c List.mem_cons_self), ok_bind]
      rcases base64_value c with ⟨hnone, hvalue⟩ | ⟨v, hv, hsome, heq, hvalue⟩
      · have hdigits : base64.digits (c :: text) = base64.digits text := List.filterMap_cons_none hvalue
        rw [hdigits] at hroom ⊢
        rw [if_pos hnone]
        exact ih hpart hrest hroom
      · have hdigits : base64.digits (c :: text) = v :: base64.digits text := List.filterMap_cons_some hvalue
        rw [hdigits] at hroom ⊢
        rw [if_neg hsome, heq]
        cases hpart with
        | none => exact ih (.one hv) hrest hroom
        | one hw => exact ih (.two hw hv) hrest hroom
        | two hw hx => exact ih (.three hw hx hv) hrest hroom
        | @three w x y hw hx hy =>
            generalize hb24 : w <<< 18 ||| x <<< 12 ||| y <<< 6 ||| v = b24
            rw [gather_four w hx hy hv] at hb24
            have hfirst : UInt8.ofNat (b24 >>> 16) = UInt8.ofNat (w * 4 + x / 16) := by
              rw [Nat.shiftRight_eq_div_pow]
              apply octet_congr
              omega
            have hsecond : UInt8.ofNat (b24 >>> 8) = UInt8.ofNat (x * 16 + y / 4) := by
              rw [Nat.shiftRight_eq_div_pow]
              apply octet_congr
              omega
            have hthird : UInt8.ofNat b24 = UInt8.ofNat (y * 64 + v) := by
              apply octet_congr
              omega
            generalize hbytes : [UInt8.ofNat (w * 4 + x / 16), UInt8.ofNat (x * 16 + y / 4),
              UInt8.ofNat (y * 64 + v)] = bytes
            have hlength : bytes.length = 3 := hbytes ▸ rfl
            have hgroup : octets ([w, x, y] ++ v :: base64.digits text) =
                bytes ++ octets (base64.digits text) := hbytes ▸ rfl
            rw [hgroup, List.length_append] at hroom ⊢
            have hstore : store (done ++ old) done.length bytes = .ok ((done ++ bytes) ++ old.drop 3) := by
              rw [store_at (by omega), hlength]
            have hnext := @ih (done ++ bytes) (old.drop 3) [] b24 (.none b24) hrest
              (by rw [List.nil_append, List.length_drop]; omega)
            rw [List.length_append, hlength] at hnext
            change ((store (done ++ old) done.length
              [UInt8.ofNat (b24 >>> 16), UInt8.ofNat (b24 >>> 8), UInt8.ofNat b24] >>= fun out =>
                decLoop Tables.init64 text.length text 0 b24 out (done.length + 3)) >>= fun r => _) = _
            rw [hfirst, hsecond, hthird, hbytes, hstore, ok_bind]
            refine hnext.trans ?_
            have hdrop : 3 + ((octets (base64.digits text)).length + 1) =
                bytes.length + (octets (base64.digits text)).length + 1 := by omega
            rw [List.nil_append, List.append_assoc done, List.drop_drop, hdrop, hlength, Nat.add_assoc done.length]

theorem dec64_eq {t : Tables} (ht : t.Static) (out : List UInt8) (htext : ∀ c ∈ text, c < 0x80)
    (hroom : (octets (base64.digits text)).length < out.length) :
    dec64 t out text text.length =
      .ok (octets (base64.digits text) ++ 0 :: out.drop ((octets (base64.digits text)).length + 1),
        (octets (base64.digits text)).length, Tables.init64) := by
  have hboth := @dec_eq text [] out [] 0 (.none 0) htext hroom
  obtain ⟨r, hloop, hrest⟩ := bind_eq_ok hboth
  change decLoop Tables.init64 text.length text 0 0 out 0 = _ at hloop
  rw [List.length_nil, Nat.zero_add] at hrest
  unfold dec64
  rw [ht.ready]
  dsimp only
  rw [hloop, ok_bind, hrest]
  rfl

end Decode

section RoundTrip

variable {t : Tables} {n : Nat} {input : List UInt8}

def Tables.known (t : Tables) (c : UInt8) : Bool := t.t64d.getD c.toNat 255 ≠ 255

theorem known_init64 (c : UInt8) : Tables.init64.known c = (base64.value c).isSome := by
  unfold Tables.known
  rcases base64_value c with ⟨hnone, hvalue⟩ | ⟨v, -, hsome, -, hvalue⟩
  · rw [hvalue, hnone]
    rfl
  · rw [hvalue]
    exact decide_eq_true hsome

theorem filter_encText : (encText n input).filter Tables.init64.known = base64.write (input.take n) := by
  have hknown : Tables.init64.known = fun c => (base64.value c).isSome := funext known_init64
  have hwrite : (base64.write (input.take n)).filter Tables.init64.known =
      base64.write (input.take n) := hknown ▸ base64.filter_write (input.take n)
  have hpads : (if n % 3 = 1 then [(0x3d : UInt8), 0x3d] else [0x3d]).filter Tables.init64.known = [] := by
    split <;> decide +kernel
  rw [encText, List.filter_append, hwrite, hpads, List.append_nil]

/-- `enc64` keeps to a buffer exactly if it has room for the text and the NUL. What it writes
comes back from `dec64`, whatever 7-bit characters are put between the symbols or taken away. -/
theorem base64_round_trip (ht : t.Static) (hinput : n ≤ input.length) (out : List UInt8) :
    ((∃ r, enc64 t out input n = .ok r) ↔
      4 * (n / 3) + (if n % 3 = 0 then 1 else 4) < out.length) ∧
    ∀ out' k t', enc64 t out input n = .ok (out', k, t') →
      ∃ text, text.length = k ∧ out' = text ++ 0 :: out.drop (k + 1) ∧
        ∀ text' back : List UInt8, (∀ c ∈ text', c < 0x80) →
          text'.filter t'.known = text.filter t'.known → n < back.length →
            dec64 t' back text' text'.length = .ok (input.take n ++ 0 :: back.drop (n + 1), n, t') := by
  have hwhole := enc64_eq ht hinput out
  rw [encText_length hinput] at hwhole
  constructor
  · constructor
    · rintro ⟨r, hrun⟩
      exact enc64_room hrun
    · intro hroom
      exact ⟨_, hwhole hroom⟩
  · intro out' k t' hrun
    obtain ⟨rfl, rfl, rfl⟩ : _ ∧ _ ∧ _ := by
      simpa using (hwhole (enc64_room hrun)).symm.trans hrun
    refine ⟨encText n input, encText_length hinput, rfl, ?_⟩
    intro text' back htext' hsame hback
    have hlength : (input.take n).length = n := by
      rw [List.length_take, Nat.min_eq_left hinput]
    have hread : octets (base64.digits text') = input.take n := by
      apply base64.octets_digits
      rw [← funext known_init64, hsame, filter_encText]
    have hdec := dec64_eq (.inr rfl : Tables.init64.Static) back htext'
      (by rw [hread, hlength]; exact hback)
    rwa [hread, hlength] at hdec

/-- `hello` in a buffer of nine bytes, and back from two lines without the `=`. -/
theorem base64_round_trip_hello :
    enc64 .zero (List.replicate 9 0xff) (literal "hello") 5 =
        .ok (literal "aGVsbG8=" ++ [0], 8, .init64) ∧
      dec64 .init64 (List.replicate 6 0xff) (literal "aGVs\nbG8") 8 =
        .ok (literal "hello" ++ [0], 5, .init64) := by
  have hinput : 5 ≤ (literal "hello").length := by decide
  have hrun : enc64 .zero (List.replicate 9 0xff) (literal "hello") 5 =
      .ok (literal "aGVsbG8=" ++ [0], 8, .init64) := by decide +kernel
  obtain ⟨text, -, htext, hback⟩ := (base64_round_trip (.inl rfl) hinput _).2 _ _ _ hrun
  obtain rfl : literal "aGVsbG8=" = text := List.append_cancel_right htext
  have hascii : ∀ c ∈ literal "aGVs\nbG8", c < 0x80 := by decide +kernel
  have hsame : (literal "aGVs\nbG8").filter Tables.init64.known =
      (literal "aGVsbG8=").filter Tables.init64.known := by decide +kernel
  exact ⟨hrun, hback (literal "aGVs\nbG8") (List.replicate 6 0xff) hascii hsame (by decide)⟩

end RoundTrip

end CccUpgrade.InPlace
