import CccUpgrade.FileManager.Base64
import CccUpgrade.FileManager.SumBuffer

/-! The checksum as `sum` prints it while `hex` is not set. -/
namespace CccUpgrade.InPlace

open Lib Md5

/-- `sum` after the digest is there, with `hex` not set. -/
def printBase64 (t : Tables) (pr64 digest sumBuffer : List UInt8) (size : Nat) :
    Except Fault (List UInt8) := do
  let sumBuffer ← memcpy sumBuffer (List.replicate size 0) size
  let (pr64, _, _) ← enc64 t pr64 digest 16
  let pr64 ← store pr64 22 [0]
  let text := cString pr64
  memcpy sumBuffer (text ++ [0]) (text.length + 1 : Nat)

section Sum

variable {φ : Type} (libc : Libc φ)

def sumDigest (fd : Nat) : Run φ (List UInt8) := do
  if !(← Run.call (libc.malloc · bufSize)) then Run.fault .null
  else
    let chunks ← Run.call (libc.freads · fd)
    let (buf, n, s) ← sumLoop libc chunks (List.replicate bufSize 0) 0 none
    match (← md5 libc buf n true s).2.1 with
    | some digest => return digest
    | none => Run.fault .uninitialised

/-- `sum` with the variable `hex`, the tables and the 25 bytes for the text as it finds them. -/
def sumPrinting (hex : Bool) (t : Tables) (pr64 : List UInt8) (fd : Nat) (sumBuffer : List UInt8)
    (size : Nat) : Run φ (List UInt8) := do
  let digest ← sumDigest libc fd
  Run.checked (if hex then printHex digest sumBuffer size else printBase64 t pr64 digest sumBuffer size)

end Sum

section Printing

theorem zero_notMem_write (bytes : List UInt8) : 0 ∉ base64.write bytes := by
  have hsymbol : ∀ d < 64, base64.symbol d ≠ 0 := by decide +kernel
  intro hmem
  obtain ⟨d, hd, heq⟩ := List.mem_map.mp hmem
  exact hsymbol d (sextets_lt hd) heq

theorem write_ascii (bytes : List UInt8) : ∀ c ∈ base64.write bytes, c < 0x80 := by
  have hsymbol : ∀ d < 64, base64.symbol d < 0x80 := by decide +kernel
  intro c hc
  obtain ⟨d, hd, rfl⟩ := List.mem_map.mp hc
  exact hsymbol d (sextets_lt hd)

variable {t : Tables} {digest pr64 sumBuffer : List UInt8} {size : Nat}

theorem printBase64_eq (ht : t.Static) (hdigest : digest.length = 16) (hpr64 : pr64.length = 25)
    (hsize : 22 < size) (hroom : size ≤ sumBuffer.length) :
    printBase64 t pr64 digest sumBuffer size =
      .ok (base64.write digest ++ (List.replicate (size - 22) 0 ++ sumBuffer.drop size)) := by
  have htext : encText 16 digest = base64.write digest ++ [0x3d, 0x3d] := by
    rw [encText, List.take_of_length_le (by omega)]
    rfl
  have hlength : (base64.write digest).length = 22 := by
    rw [write_length, hdigest]
  have hset : memcpy sumBuffer (List.replicate size 0) size =
      .ok (List.replicate size 0 ++ sumBuffer.drop size) := by
    rw [memcpy_ok hroom (List.length_replicate ..).ge, List.take_replicate, Nat.min_self]
  have henc : enc64 t pr64 digest 16 =
      .ok (base64.write digest ++ ([0x3d] ++ [0x3d, 0]), 24, Tables.init64) := by
    have hcount : (encText 16 digest).length = 24 := encText_length hdigest.ge
    have hrun := enc64_eq ht hdigest.ge pr64 (by omega)
    rw [hcount, htext] at hrun
    refine hrun.trans ?_
    rw [List.drop_eq_nil_of_le hpr64.le, List.append_assoc]
    rfl
  have hchop : store (base64.write digest ++ ([0x3d] ++ [0x3d, 0])) 22 [0] =
      .ok (base64.write digest ++ ([0] ++ [0x3d, 0])) := hlength ▸ store_append rfl
  have hstring : cString (base64.write digest ++ ([0] ++ [0x3d, 0])) = base64.write digest := by
    rw [cString_append (zero_notMem_write digest)]
    exact List.append_nil _
  have hcopy : memcpy (List.replicate size 0 ++ sumBuffer.drop size) (base64.write digest ++ [0])
      ((base64.write digest).length + 1 : Nat) =
        .ok (base64.write digest ++ (List.replicate (size - 22) 0 ++ sumBuffer.drop size)) := by
    obtain ⟨k, rfl⟩ : ∃ k, size = k + 23 := ⟨size - 23, by omega⟩
    have hdrop : (List.replicate (k + 23) (0 : UInt8) ++ sumBuffer.drop (k + 23)).drop 23 =
        List.replicate k 0 ++ sumBuffer.drop (k + 23) := by
      have hlong : 23 ≤ (List.replicate (k + 23) (0 : UInt8)).length := by
        rw [List.length_replicate]
        omega
      rw [List.drop_append_of_le_length hlong, List.drop_replicate, Nat.add_sub_cancel]
    have hwhole : (base64.write digest ++ [0]).length = 23 := by
      rw [List.length_append, hlength]
      rfl
    have hzeros : k + 23 - 22 = k + 1 := by omega
    have hfit : 23 ≤ (List.replicate (k + 23) (0 : UInt8) ++ sumBuffer.drop (k + 23)).length := by
      rw [List.length_append, List.length_replicate]
      omega
    rw [hlength, memcpy_ok hfit hwhole.ge, List.take_of_length_le hwhole.le, hdrop, hzeros,
      List.append_assoc]
    rfl
  unfold printBase64
  rw [hset, ok_bind, henc, ok_bind]
  dsimp only
  rw [hchop, ok_bind, hstring]
  exact hcopy

end Printing

section SumDigest

variable {φ : Type} {libc : Libc φ} {fd : Nat} {content : List UInt8} {st : Machine φ}

theorem sumPrinting_hex (t : Tables) (pr64 sumBuffer : List UInt8) (size : Nat) :
    sumPrinting libc true t pr64 fd sumBuffer size = sum libc fd sumBuffer size := by
  funext st
  unfold sumPrinting sumDigest sum
  rw [bind_assoc, Run.call_bind, Run.call_bind]
  cases (libc.malloc st.env bufSize).1 with
  | false => rfl
  | true =>
      simp only [Bool.not_true, Bool.false_eq_true, if_false]
      rw [bind_assoc, Run.call_bind, Run.call_bind]
      simp only [bind_assoc]
      refine congrFun (bind_congr fun r => bind_congr fun r' => ?_) _
      cases r'.2.1 <;> rfl

theorem sumDigest_alike
    (hreads : Delivery 0 content (libc.freads (libc.malloc st.env bufSize).2 fd).1) :
    Alike (fun digits digest => digits = MessageDigest.upperHex digest ∧ digest.length = 16)
      (CccUpgrade.sum libc fd st) (sumDigest libc fd st) := by
  unfold CccUpgrade.sum sumDigest
  rw [Run.call_bind, Run.call_bind]
  cases (libc.malloc st.env bufSize).1 with
  | false => exact .error
  | true =>
      simp only [Bool.not_true, Bool.false_eq_true, if_false]
      rw [Run.call_bind, Run.call_bind]
      have hbuf : ([] ++ List.replicate bufSize (0 : UInt8)).length = bufSize := List.length_replicate
      apply (simulates_sumLoop hreads rfl (Nat.zero_le _) hbuf _).bind
      rintro r ⟨_, _, _⟩ ⟨⟨back, rfl⟩, hlength, rfl, rfl, hlive⟩
      apply (simulates_md5 hlength hlive (.inl rfl)).bind
      rintro ⟨digest, s'⟩ ⟨buf, _⟩ ⟨rfl, -, hshort⟩
      cases digest with
      | none => exact .throw
      | some digest => exact .pure ⟨hex_upper digest, hshort digest rfl⟩

/-- Without `hex`, and however the reads cut a file of less than 4 GiB, `sum` writes 22 symbols
from which `dec64` makes the file's MD5. With any allocations it keeps to its buffers. -/
theorem sum_prints_base64 (hreads : Delivery 0 content (libc.freads (libc.malloc st.env bufSize).2 fd).1)
    (hlength : content.length < 2 ^ 32) {t : Tables} (ht : t.Static) {pr64 sumBuffer : List UInt8}
    {size : Nat} (hpr64 : pr64.length = 25) (hsize : 22 < size) (hroom : size ≤ sumBuffer.length) :
    sumPrinting libc true t pr64 fd sumBuffer size = sum libc fd sumBuffer size ∧
    (∀ f, sumPrinting libc false t pr64 fd sumBuffer size st = .error f →
      f = .null ∨ f = .uninitialised) ∧
    ((∀ env n, (libc.malloc env n).1 = true) →
      ∃ text st', sumPrinting libc false t pr64 fd sumBuffer size st =
          .ok (text ++ (List.replicate (size - 22) 0 ++ sumBuffer.drop size), st') ∧
        text.length = 22 ∧ 0 ∉ text ∧ ∀ back : List UInt8, 16 < back.length →
          dec64 t back text 22 =
            .ok (MessageDigest.digest content ++ 0 :: back.drop 17, 16, .init64)) := by
  have halike := sumDigest_alike hreads
  have hprint : ∀ digest st', sumDigest libc fd st = .ok (digest, st') → digest.length = 16 →
      sumPrinting libc false t pr64 fd sumBuffer size st =
        .ok (base64.write digest ++ (List.replicate (size - 22) 0 ++ sumBuffer.drop size), st') := by
    intro digest st' hrun hdigest
    unfold sumPrinting
    rw [Run.bind_ok hrun, if_neg Bool.false_ne_true, printBase64_eq ht hdigest hpr64 hsize hroom]
    rfl
  refine ⟨sumPrinting_hex .., ?_, ?_⟩
  · intro f hrun
    apply sum_fault hreads
    generalize CccUpgrade.sum libc fd st = r at halike ⊢
    generalize hdigest : sumDigest libc fd st = r' at halike
    cases halike with
    | ok hsame =>
        rw [hprint _ _ hdigest hsame.2] at hrun
        cases hrun
    | error =>
        unfold sumPrinting at hrun
        rw [Run.bind_error hdigest] at hrun
        rw [Except.error.inj hrun]
  · intro halloc
    obtain ⟨st', hrun⟩ := sum_delivered hreads halloc
    rw [hrun, fileDigest_eq hlength, hex_upper] at halike
    generalize hdigest : sumDigest libc fd st = r' at halike
    cases halike with
    | @ok _ digest _ hsame =>
        obtain ⟨hhex, hsixteen⟩ := hsame
        obtain rfl := MessageDigest.upperHex_injective hhex
        have hwritten : (base64.write (MessageDigest.digest content)).length = 22 := by
          rw [write_length, hsixteen]
        refine ⟨_, st', hprint _ _ hdigest hsixteen, hwritten, zero_notMem_write _, ?_⟩
        intro back hback
        have hread : octets (base64.digits (base64.write (MessageDigest.digest content))) =
            MessageDigest.digest content := by
          rw [base64.digits_write, octets_sextets]
        have hdec := dec64_eq ht back (write_ascii _) (by rwa [hread, hsixteen])
        rwa [hread, hsixteen, hwritten] at hdec

theorem sum_prints_base64_short :
    ∃ text st', sumPrinting shortLibc false .zero (List.replicate 25 0xff) 0 (List.replicate 256 0) 255
        shortMachine = .ok (text ++ (List.replicate 233 0 ++ [0]), st') ∧
      dec64 .zero (List.replicate 17 0xff) text 22 =
        .ok ([0x36, 0xa9, 0x2c, 0xc9, 0x4a, 0x9e, 0x0f, 0xa2, 0x1f, 0x62, 0x5f, 0x8b, 0xfb, 0x00, 0x7a,
          0xdf, 0x00], 16, .init64) := by
  have hdelivery : Delivery 0 (List.replicate 63 0x61 ++ (List.replicate 37 0x61 ++ []))
      (shortLibc.freads (shortLibc.malloc shortMachine.env bufSize).2 0).1 :=
    .piece (by decide) (by decide) (.piece (by decide) (by decide) .done)
  have hroom : 255 ≤ (List.replicate 256 (0 : UInt8)).length := by
    rw [List.length_replicate]
    omega
  have hdigest : MessageDigest.digest (List.replicate 63 0x61 ++ (List.replicate 37 0x61 ++ [])) =
      [0x36, 0xa9, 0x2c, 0xc9, 0x4a, 0x9e, 0x0f, 0xa2, 0x1f, 0x62, 0x5f, 0x8b, 0xfb, 0x00, 0x7a,
        0xdf] := by decide +kernel
  obtain ⟨text, st', hrun, -, -, hback⟩ := (sum_prints_base64 hdelivery (by decide) (.inl rfl)
    (List.length_replicate (a := (0xff : UInt8))) (by omega) hroom).2.2 fun _ _ => rfl
  refine ⟨text, st', hrun, ?_⟩
  have hdec := hback (List.replicate 17 0xff) (by decide)
  rwa [hdigest] at hdec

end SumDigest

end CccUpgrade.InPlace
