import CccUpgrade.FileManager.FileManager
import CccUpgrade.FileManager.Md5Buffer

/-! What the checksum of md5sum.c leaves in `sum_buffer`, whatever pieces the file is read
in, and the check of an uploaded file that goes by it. -/
namespace CccUpgrade.InPlace

open Lib Md5

section Hex

theorem hexByte_upper (byte : UInt8) : hexByte byte = MessageDigest.upperHex [byte] := by
  have hdigit : ∀ n < 16, UInt8.ofNat (if n < 10 then 0x30 + n else 0x41 + (n - 10)) =
      MessageDigest.upperDigits.getD n 0 := by decide
  have hbyte : byte.toNat < 256 := byte.toNat_lt
  have hhigh := hdigit (byte.toNat / 16) (by omega)
  have hlow := hdigit (byte.toNat % 16) (by omega)
  simp only [hexByte, MessageDigest.upperHex, List.flatMap_cons, List.flatMap_nil, List.append_nil,
    hhigh, hlow]

theorem hex_upper (digest : List UInt8) : digest.flatMap hexByte = MessageDigest.upperHex digest := by
  unfold MessageDigest.upperHex
  apply List.flatMap_congr
  intro byte _
  rw [hexByte_upper]
  exact List.append_nil _

theorem sprintfByte_eq {text tail : List UInt8} (htext : 0 ∉ text) (n : Nat) (byte : UInt8) :
    sprintfByte (text ++ (List.replicate (n + 3) 0 ++ tail)) byte =
      .ok (text ++ hexByte byte ++ (List.replicate (n + 1) 0 ++ tail)) := by
  have hix : (cString (text ++ (List.replicate (n + 3) 0 ++ tail))).length = text.length := by
    rw [cString_append htext]
    change (text ++ []).length = _
    rw [List.append_nil]
  have hcopy : memcpy (List.replicate (n + 3) 0 ++ tail) (hexByte byte ++ [0]) ((3 : Nat) : Int) =
      .ok (hexByte byte ++ (List.replicate (n + 1) 0 ++ tail)) := by
    rw [memcpy_ok]
    · rfl
    · rw [List.length_append, List.length_replicate]
      omega
    · exact Nat.le_refl 3
  unfold sprintfByte
  dsimp only
  rw [hix, List.drop_left, List.take_left]
  change (memcpy _ _ ((3 : Nat) : Int) >>= fun rest => _) = _
  rw [hcopy, List.append_assoc]
  rfl

theorem foldlM_sprintfByte {digest text tail : List UInt8} (htext : 0 ∉ text) {n : Nat}
    (hn : 2 * digest.length < n) :
    digest.foldlM sprintfByte (text ++ (List.replicate n 0 ++ tail)) =
      .ok (text ++ MessageDigest.upperHex digest ++
        (List.replicate (n - 2 * digest.length) 0 ++ tail)) := by
  induction digest generalizing text n with
  | nil =>
      change Except.ok _ = _
      rw [MessageDigest.upperHex, List.flatMap_nil, List.append_nil]
      rfl
  | cons byte digest ih =>
      rw [List.length_cons] at hn
      obtain ⟨k, rfl⟩ := Nat.exists_eq_add_of_le' (show 3 ≤ n by omega)
      have hgrown : 0 ∉ text ++ hexByte byte := by
        rw [hexByte_upper]
        exact List.not_mem_append htext (MessageDigest.zero_notMem_upperHex _)
      have hrest := ih hgrown (n := k + 1) (by omega)
      rw [List.foldlM_cons, sprintfByte_eq htext]
      change digest.foldlM sprintfByte _ = _
      rw [hrest, hexByte_upper, List.length_cons]
      have hcount : k + 1 - 2 * digest.length = k + 3 - 2 * (digest.length + 1) := by omega
      rw [hcount, List.append_assoc text]
      rfl

theorem printHex_eq {digest sumBuffer : List UInt8} {size : Nat} (hsize : 2 * digest.length < size)
    (hroom : size ≤ sumBuffer.length) :
    printHex digest sumBuffer size = .ok (MessageDigest.upperHex digest ++
      (List.replicate (size - 2 * digest.length) 0 ++ sumBuffer.drop size)) := by
  have hset : memcpy sumBuffer (List.replicate size 0) size =
      .ok ([] ++ (List.replicate size 0 ++ sumBuffer.drop size)) := by
    rw [memcpy_ok hroom (List.length_replicate ..).ge]
    rw [List.take_replicate, Nat.min_self]
    rfl
  unfold printHex
  rw [hset]
  exact foldlM_sprintfByte List.not_mem_nil hsize

end Hex

structure Printed (sumBuffer : List UInt8) (size : Nat) (digits buffer : List UInt8) : Prop where
  text : 0 ∉ digits
  buffer : buffer = digits ++ (List.replicate (size - 32) 0 ++ sumBuffer.drop size)

section Sum

variable {φ : Type} {libc : Libc φ} {fd : Nat} {content : List UInt8} {st : Machine φ}

theorem bounded_md5 {live : List UInt8} (hlive : live.length ≤ readSize) (s : Option Md5.State) :
    Triple (fun _ : Machine φ => True) (CccUpgrade.md5 libc live s) (fun _ _ => True) noFault := by
  have hsize : bufSize = 16384 := rfl
  have hread : readSize = 8192 := rfl
  have hbuf : (live ++ List.replicate (bufSize - live.length) 0).length = bufSize := by
    rw [List.length_append, List.length_replicate]
    omega
  have hdigest : ∀ s : Md5.State, Triple (fun _ : Machine φ => True) (CccUpgrade.md5Digest live s)
      (fun _ _ => True) noFault := by
    intro s
    obtain ⟨-, r, -, -, -, hlist⟩ := md5Digest_eq (φ := φ) hbuf hlive s (.inl (Eq.refl true))
    rw [hlist]
    exact Triple.pure fun _ hs => hs
  cases s with
  | some s => exact hdigest s
  | none =>
      apply Triple.bind (Q := fun _ _ => True) (fun _ _ => trivial)
      intro allocated
      split
      · exact Triple.pure fun _ hs => hs
      · exact hdigest seed

theorem bounded_sumLoop {pieces : List (List UInt8)} (hdelivery : Delivery 0 content pieces) :
    Triple (fun _ : Machine φ => True) (CccUpgrade.sumLoop libc pieces [] none)
      (fun r _ => r.1.length ≤ readSize) noFault := by
  have hempty : ([] : List UInt8).length = 0 := rfl
  have hmd5 : ∀ (_ live : List UInt8) (s : Option Md5.State), True → live.length % 64 = 0 →
      live ≠ [] → live.length ≤ readSize → Triple (fun _ : Machine φ => True)
        (CccUpgrade.md5 libc live s) (fun _ _ => True ∧ True) noFault :=
    fun _ _ s _ _ _ hlive =>
      (bounded_md5 hlive s).mono (fun _ hs => hs) fun _ _ _ => ⟨trivial, trivial⟩
  have hloop : Triple (fun _ : Machine φ => True) (CccUpgrade.sumLoop libc pieces [] none)
      (fun r _ => ((∃ front, True ∧ front ++ r.1 = [] ++ ([] ++ content)) ∧
        (r.1.length % 64 ≠ 0 ∨ r.1.length = 0) ∧ r.1.length ≤ readSize) ∧ True) noFault :=
    sumLoop_rule (fun _ => ()) (fun _ => True) (fun _ _ => True) hmd5 hdelivery hempty (.inr hempty)
      (Nat.zero_le _) trivial
  exact hloop.mono (fun _ hs => hs) fun _ _ hr => hr.1.2.2

variable (hreads : Delivery 0 content (libc.freads (libc.malloc st.env bufSize).2 fd).1)
include hreads

theorem sum_fault {f : Fault} (hrun : CccUpgrade.sum libc fd st = .error f) :
    f = .null ∨ f = .uninitialised := by
  unfold CccUpgrade.sum at hrun
  rw [Run.call_bind] at hrun
  cases hmalloc : (libc.malloc st.env bufSize).1 with
  | false =>
      rw [hmalloc] at hrun
      cases hrun
      exact .inl rfl
  | true =>
      rw [hmalloc] at hrun
      simp only [Bool.not_true, Bool.false_eq_true, if_false] at hrun
      obtain ⟨⟨buf, s⟩, st₁, hloop, hlive⟩ :=
        (bounded_sumLoop hreads).returns (fun _ h => h) trivial
      obtain ⟨⟨digest, s'⟩, st₂, hlast, -⟩ := (bounded_md5 hlive s).returns (fun _ h => h) trivial
      rw [Run.call_bind, Run.bind_ok hloop, Run.bind_ok hlast] at hrun
      cases digest with
      | none =>
          cases hrun
          exact .inr rfl
      | some digest => cases hrun

theorem sum_delivered (halloc : ∀ env n, (libc.malloc env n).1 = true) :
    ∃ st', CccUpgrade.sum libc fd st = .ok ((fileDigest content).flatMap hexByte, st') := by
  have hview : libc.Allocates fun _ : Machine φ => () := ⟨halloc, fun _ _ => rfl⟩
  have hempty : ([] : List UInt8).length = 0 := rfl
  unfold CccUpgrade.sum
  rw [Run.call_bind, halloc]
  simp only [Bool.not_true, Bool.false_eq_true, if_false]
  rw [Run.call_bind]
  obtain ⟨⟨buf, s⟩, st₁, hloop, ⟨⟨before, hbefore, hcontent⟩, hodd, hroom⟩, -⟩ :=
    (triple_sumLoop hview (fun _ => True) hreads hempty (.inr hempty) (Nat.zero_le _) .nothing).returns
      (fun _ h => h) trivial
  obtain ⟨⟨_, s'⟩, st₂, hlast, rfl, -⟩ :=
    (triple_md5_last hview (fun _ => True) hbefore hodd hroom).returns (fun _ h => h) trivial
  refine ⟨st₂, ?_⟩
  rw [Run.bind_ok hloop, Run.bind_ok hlast]
  have hwhole : before ++ buf = content := hcontent
  rw [hwhole]
  rfl

theorem sum_alike {sumBuffer : List UInt8} {size : Nat} (hsize : 32 < size)
    (hroom : size ≤ sumBuffer.length) :
    Alike (Printed sumBuffer size) (CccUpgrade.sum libc fd st) (sum libc fd sumBuffer size st) := by
  unfold CccUpgrade.sum sum
  rw [Run.call_bind, Run.call_bind]
  cases (libc.malloc st.env bufSize).1 with
  | false => exact .error
  | true =>
      simp only [Bool.not_true, Bool.false_eq_true, if_false]
      rw [Run.call_bind, Run.call_bind]
      have hbuf : ([] ++ List.replicate bufSize (0 : UInt8)).length = bufSize := List.length_replicate
      apply (simulates_sumLoop hreads rfl (Nat.zero_le _) hbuf _).bind
      rintro r ⟨_, _, _⟩ ⟨⟨back, rfl⟩, hlength, rfl, rfl, hlive⟩
      apply (simulates_md5 hlength hlive (.inl rfl)).bind
      rintro ⟨digest, s'⟩ ⟨buf, _⟩ ⟨rfl, -, hshort⟩
      cases digest with
      | none => exact .throw
      | some digest =>
          have hshort := hshort digest rfl
          have hlt : 2 * digest.length < size := by omega
          dsimp only
          rw [printHex_eq hlt hroom, checked_ok, hex_upper, hshort]
          exact .pure ⟨MessageDigest.zero_notMem_upperHex digest, rfl⟩

/-- However the reads cut a file of less than 4 GiB, `sum` writes the upper-case digits of
its MD5, and with any allocations it keeps to its buffers. -/
theorem sum_writes_digest (hlength : content.length < 2 ^ 32) {sumBuffer : List UInt8} {size : Nat}
    (hsize : 32 < size) (hroom : size ≤ sumBuffer.length) :
    (∀ f, sum libc fd sumBuffer size st = .error f → f = .null ∨ f = .uninitialised) ∧
      ((∀ env n, (libc.malloc env n).1 = true) →
        ∃ st', sum libc fd sumBuffer size st =
          .ok (MessageDigest.upperHex (MessageDigest.digest content) ++
            (List.replicate (size - 32) 0 ++ sumBuffer.drop size), st')) := by
  have halike := sum_alike hreads hsize hroom
  constructor
  · intro f hrun
    rw [hrun] at halike
    apply sum_fault hreads
    cases hfunctional : CccUpgrade.sum libc fd st with
    | ok r =>
        rw [hfunctional] at halike
        cases halike
    | error e =>
        rw [hfunctional] at halike
        cases halike
        rfl
  · intro halloc
    obtain ⟨st', hrun⟩ := sum_delivered hreads halloc
    rw [hrun, fileDigest_eq hlength, hex_upper] at halike
    generalize sum libc fd sumBuffer size st = r at halike
    cases halike with
    | ok hprinted => exact ⟨st', congrArg (fun buffer => Except.ok (buffer, st')) hprinted.buffer⟩

end Sum

/-- Reads that stop short of what they are asked for. -/
def shortLibc : Libc Store :=
  { storeLibc with freads := fun s _ => ([List.replicate 63 0x61, List.replicate 37 0x61], s) }

def shortMachine : Machine Store :=
  ⟨⟨⟨fun _ => none, fun _ => none⟩, 0⟩, .empty, ⟨none, none, none⟩, none, []⟩

theorem sum_writes_digest_short :
    ∃ st', sum shortLibc 0 (List.replicate 256 0) 255 shortMachine =
      .ok (literal "36A92CC94A9E0FA21F625F8BFB007ADF" ++ List.replicate 224 0, st') := by
  have hdelivery : Delivery 0 (List.replicate 63 0x61 ++ (List.replicate 37 0x61 ++ []))
      (shortLibc.freads (shortLibc.malloc shortMachine.env bufSize).2 0).1 :=
    .piece (by decide) (by decide) (.piece (by decide) (by decide) .done)
  have hroom : 255 ≤ (List.replicate 256 (0 : UInt8)).length := by
    rw [List.length_replicate]
    omega
  obtain ⟨st', hrun⟩ := (sum_writes_digest hdelivery (by decide) (by omega) hroom).2 fun _ _ => rfl
  have hdigest : MessageDigest.upperHex (MessageDigest.digest
      (List.replicate 63 0x61 ++ (List.replicate 37 0x61 ++ []))) =
        literal "36A92CC94A9E0FA21F625F8BFB007ADF" := by decide +kernel
  rw [hdigest, List.drop_replicate, List.replicate_append_replicate] at hrun
  exact ⟨st', hrun⟩

section Check

variable {φ : Type} {libc : Libc φ}
  (hreads : ∀ env fd, ∃ content, Delivery 0 content (libc.freads env fd).1)
include hreads

theorem simulates_calcuMd5Checksum (filename : Option Nat) {sumBuffer : List UInt8} {size : Nat}
    (hsize : 32 < size) (hroom : size ≤ sumBuffer.length) :
    Simulates (fun digits r => r.1 = digits.isSome ∧ ∀ d, digits = some d → Printed sumBuffer size d r.2)
      (CccUpgrade.calcuMd5Checksum libc filename)
      (calcuMd5Checksum libc filename sumBuffer size) := by
  unfold CccUpgrade.calcuMd5Checksum calcuMd5Checksum
  cases filename with
  | none => exact .pure ⟨rfl, nofun⟩
  | some token =>
      apply Simulates.refl.bind
      rintro name _ rfl
      split
      · exact .pure ⟨rfl, nofun⟩
      · apply Simulates.refl.bind
        rintro fd _ rfl
        cases fd with
        | none => exact .pure ⟨rfl, nofun⟩
        | some fd =>
            have hsum : Simulates (Printed sumBuffer size) (CccUpgrade.sum libc fd)
                (sum libc fd sumBuffer size) := by
              intro st
              obtain ⟨content, hcontent⟩ := hreads (libc.malloc st.env bufSize).2 fd
              exact sum_alike hcontent hsize hroom
            apply hsum.bind
            intro digits buffer hprinted
            apply Simulates.refl.bind
            rintro _ _ rfl
            refine .pure ⟨rfl, ?_⟩
            rintro d ⟨⟩
            exact hprinted

/-- What holds of the check on lists holds of the check on its buffers. -/
theorem simulates_checkFileByMd5 (checkFilename : Option Nat) (md5sum : List UInt8) :
    Simulates Eq (CccUpgrade.checkFileByMd5 libc checkFilename md5sum)
      (checkFileByMd5 libc checkFilename md5sum) := by
  have hsize : 255 ≤ (List.replicate 256 (0 : UInt8)).length := by
    rw [List.length_replicate]
    omega
  unfold CccUpgrade.checkFileByMd5 checkFileByMd5
  apply (simulates_calcuMd5Checksum hreads checkFilename (by omega) hsize).bind
  rintro digits ⟨_, buffer⟩ ⟨rfl, hprinted⟩
  cases digits with
  | none => exact .pure rfl
  | some digits =>
      obtain ⟨htext, hbuffer⟩ := hprinted digits rfl
      have hstring : cString buffer = digits := by
        have hbuffer : buffer = _ := hbuffer
        rw [hbuffer, cString_append htext]
        exact List.append_nil digits
      dsimp only
      rw [hstring]
      exact .pure rfl

end Check

end CccUpgrade.InPlace
