import CccUpgrade.FileManager.Md5Sum
import CccUpgrade.FileManager.Posix
import CccUpgrade.Lib.MessageDigest

/-! The checksum of md5sum.c is the MD5 of the file's content, in whatever pieces the
content is read. -/
namespace CccUpgrade

open Lib

namespace Md5

def Words.chain (w : Words) : MessageDigest.Chain := ⟨w.a, w.b, w.c, w.d⟩

def entry (n : Nat) : Table :=
  ⟨MessageDigest.sines.getD n 0, MessageDigest.index n, MessageDigest.shift n⟩

theorem tab_zipIdx : tab.zipIdx = (List.range 64).map fun n => (entry n, n) := by decide +kernel

theorem decode_eq (p : List UInt8) : decode p = MessageDigest.words p := by
  induction p using decode.induct with
  | case1 b0 b1 b2 b3 input ih => rw [decode, MessageDigest.words, ih]
  | case2 p hshort =>
      rw [decode, MessageDigest.words]
      · exact hshort
      · exact hshort

theorem round_chain (x : List UInt32) (w : Words) (n : Nat) :
    (round x w n (entry n)).chain = MessageDigest.operation x w.chain n := by
  unfold round MessageDigest.operation MessageDigest.mix MessageDigest.rotateLeft
  generalize n / 16 = stage
  have hsum : ∀ f : UInt32, w.a + f + (x.getD (entry n).x 0 + (entry n).sin) =
      w.a + f + x.getD (MessageDigest.index n) 0 + MessageDigest.sines.getD n 0 :=
    fun f => (UInt32.add_assoc _ _ _).symm
  match stage with
  | 0 | 1 | 2 | _ + 3 =>
      dsimp only [Words.chain, MessageDigest.auxF, MessageDigest.auxG, MessageDigest.auxH,
        MessageDigest.auxI]
      rw [hsum, UInt32.add_comm _ w.b]
      rfl

theorem block_chain (w : Words) (p : List UInt8) :
    (block w p).chain = MessageDigest.compress w.chain (MessageDigest.words (p.take 64)) := by
  have hrounds : (tab.zipIdx.foldl (fun v ti => round (decode (p.take 64)) v ti.2 ti.1) w).chain =
      (List.range 64).foldl (MessageDigest.operation (MessageDigest.words (p.take 64))) w.chain := by
    rw [tab_zipIdx, List.foldl_map, decode_eq]
    apply (List.foldl_hom Words.chain _).symm
    exact fun w n => (round_chain _ w n).symm
  unfold MessageDigest.compress
  rw [← hrounds]
  rfl

theorem blocks_chain (n : Nat) (w : Words) (p : List UInt8) :
    (blocks n w p).chain = MessageDigest.absorb n w.chain p := by
  induction n generalizing w p with
  | zero => rfl
  | succ n ih => rw [blocks, MessageDigest.absorb, ih, block_chain]

theorem count_eq (length : Nat) :
    encode [UInt32.ofNat length <<< (3 : UInt32), UInt32.ofNat length >>> (29 : UInt32)] =
      MessageDigest.count (length % 2 ^ 32) := by
  have hlow : UInt32.ofNat length <<< (3 : UInt32) = UInt32.ofNat (8 * (length % 2 ^ 32)) := by
    apply UInt32.toNat_inj.mp
    simp only [UInt32.toNat_shiftLeft, UInt32.toNat_ofNat', Nat.shiftLeft_eq]
    change length % 2 ^ 32 * 2 ^ 3 % 2 ^ 32 = 8 * (length % 2 ^ 32) % 2 ^ 32
    omega
  have hhigh : UInt32.ofNat length >>> (29 : UInt32) =
      UInt32.ofNat (8 * (length % 2 ^ 32) / 2 ^ 32) := by
    apply UInt32.toNat_inj.mp
    simp only [UInt32.toNat_shiftRight, UInt32.toNat_ofNat', Nat.shiftRight_eq_div_pow]
    change length % 2 ^ 32 / 2 ^ 29 = 8 * (length % 2 ^ 32) / 2 ^ 32 % 2 ^ 32
    omega
  rw [hlow, hhigh]
  rfl

/-- The padding of md5sum.c, which counts the bytes of a file in 32 bits. -/
def filePad (content : List UInt8) : List UInt8 :=
  content ++ 0x80 :: List.replicate (MessageDigest.zeros content.length) 0 ++
    MessageDigest.count (content.length % 2 ^ 32)

/-- The digest of md5sum.c. It is the MD5 of the content unless that has 4 GiB or more. -/
def fileDigest (content : List UInt8) : List UInt8 :=
  let v := MessageDigest.absorb ((filePad content).length / 64) MessageDigest.start (filePad content)
  MessageDigest.bytes v.a ++ MessageDigest.bytes v.b ++ MessageDigest.bytes v.c ++ MessageDigest.bytes v.d

theorem fileDigest_eq {content : List UInt8} (hlength : content.length < 2 ^ 32) :
    fileDigest content = MessageDigest.digest content := by
  have hpad : filePad content = MessageDigest.pad content := by
    rw [filePad, Nat.mod_eq_of_lt hlength]
    rfl
  rw [fileDigest, hpad]
  rfl

/-- The state after the bytes `before`, where the first call has none yet. -/
structure Absorbed (before : List UInt8) (s : Option State) : Prop where
  aligned : before.length % 64 = 0
  len : (s.getD seed).len = UInt32.ofNat before.length
  state : (s.getD seed).state.chain =
    MessageDigest.absorb (before.length / 64) MessageDigest.start before

theorem Absorbed.nothing : Absorbed [] none := ⟨rfl, rfl, rfl⟩

theorem Absorbed.seeded {before : List UInt8} (h : Absorbed before none) :
    Absorbed before (some seed) :=
  ⟨h.aligned, h.len, h.state⟩

section Digest

variable {φ : Type} {before p : List UInt8} {s : State}

theorem Absorbed.len_append (h : Absorbed before (some s)) :
    s.len + UInt32.ofNat p.length = UInt32.ofNat (before ++ p).length := by
  have hlen : s.len = UInt32.ofNat before.length := h.len
  rw [hlen, List.length_append, UInt32.ofNat_add]

theorem Absorbed.blocks_append (h : Absorbed before (some s)) {n : Nat} :
    (blocks n s.state p).chain =
      MessageDigest.absorb (before.length / 64 + n) MessageDigest.start (before ++ p) := by
  have hstate : s.state.chain = MessageDigest.absorb (before.length / 64) MessageDigest.start before :=
    h.state
  have haligned := h.aligned
  rw [blocks_chain, hstate, MessageDigest.absorb_append _ _ _ _ (by omega)]

theorem md5Digest_more (h : Absorbed before (some s)) (hp : p.length % 64 = 0) (hne : p ≠ []) :
    ∃ s', (md5Digest p s : Run φ _) = pure (none, some s') ∧ Absorbed (before ++ p) (some s') := by
  have hpos : p.length ≠ 0 := fun hzero => hne (List.eq_nil_of_length_eq_zero hzero)
  have haligned := h.aligned
  refine ⟨⟨s.len + UInt32.ofNat p.length, blocks (p.length / 64) s.state p⟩, ?_, ?_, h.len_append, ?_⟩
  · unfold md5Digest
    rw [if_neg (by omega)]
  · rw [List.length_append]
    omega
  · have hblocks : (before ++ p).length / 64 = before.length / 64 + p.length / 64 := by
      rw [List.length_append]
      omega
    rw [hblocks]
    exact h.blocks_append

theorem zeros_eq (haligned : before.length % 64 = 0) :
    MessageDigest.zeros (before ++ p).length = padding p.length - 1 := by
  rw [List.length_append]
  unfold MessageDigest.zeros padding
  split <;> omega

theorem md5Digest_last (h : Absorbed before (some s)) (hp : p.length % 64 ≠ 0 ∨ p.length = 0)
    (hroom : p.length ≤ 8192) :
    (md5Digest p s : Run φ _) = pure (some (fileDigest (before ++ p)), none) := by
  have haligned := h.aligned
  have hpadding : padding p.length ≤ 64 := by
    unfold padding
    split <;> omega
  have hbuf : ¬ bufSize < p.length + padding p.length + 8 := by
    have hsize : bufSize = 16384 := rfl
    omega
  have hpad : filePad (before ++ p) =
      before ++ (p ++ (0x80 :: List.replicate (padding p.length - 1) 0) ++
        encode [(s.len + UInt32.ofNat p.length) <<< (3 : UInt32),
          (s.len + UInt32.ofNat p.length) >>> (29 : UInt32)]) := by
    rw [h.len_append, count_eq]
    unfold filePad
    rw [zeros_eq haligned]
    simp only [List.append_assoc]
  unfold md5Digest
  rw [if_pos hp]
  dsimp only
  rw [if_neg hbuf]
  generalize p ++ (0x80 :: List.replicate (padding p.length - 1) 0) ++ _ = padded at hpad ⊢
  have hlast : (blocks (padded.length / 64) s.state padded).chain =
      MessageDigest.absorb ((before ++ padded).length / 64) MessageDigest.start (before ++ padded) := by
    rw [h.blocks_append, List.length_append]
    congr 1
    omega
  unfold fileDigest
  dsimp only
  rw [hpad, ← hlast]
  rfl

end Digest

end Md5

open Md5

section Rule

variable {φ γ : Type} {libc : Libc φ} {s : Option Md5.State}

theorem sumLoop_piece {piece : List UInt8} (hne : piece ≠ []) (pieces : List (List UInt8))
    (live : List UInt8) :
    sumLoop libc (piece :: pieces) live s =
      if (live ++ piece).length % 64 ≠ 0 then sumLoop libc pieces (live ++ piece) s
      else md5 libc (live ++ piece) s >>= fun r => sumLoop libc pieces [] r.2 := by
  cases piece with
  | nil => exact absurd rfl hne
  | cons byte piece =>
      rw [sumLoop]
      exact hne

/-- The rule for the loop of `sum`, however the file is cut. What holds of the bytes behind
the state is kept by every call of `md5` on whole blocks; fewer than a buffer of bytes, and
no whole number of blocks, wait for the last call. -/
theorem sumLoop_rule (view : Machine φ → γ) (p : γ → Prop)
    (absorbed : List UInt8 → Option Md5.State → Prop)
    (hmd5 : ∀ before live s, absorbed before s → live.length % 64 = 0 → live ≠ [] →
      live.length ≤ readSize → Triple (fun st => p (view st)) (md5 libc live s)
        (fun r st => absorbed (before ++ live) r.2 ∧ p (view st)) noFault)
    {n : Nat} {content live before : List UInt8} {pieces : List (List UInt8)}
    (hdelivery : Delivery n content pieces) (hn : live.length = n)
    (hlive : live.length % 64 ≠ 0 ∨ live.length = 0) (hroom : live.length ≤ readSize)
    (h : absorbed before s) :
    Triple (fun st => p (view st)) (sumLoop libc pieces live s)
      (fun r st => ((∃ front, absorbed front r.2 ∧ front ++ r.1 = before ++ (live ++ content)) ∧
        (r.1.length % 64 ≠ 0 ∨ r.1.length = 0) ∧ r.1.length ≤ readSize) ∧ p (view st)) noFault := by
  induction hdelivery generalizing before live s with
  | done =>
      rw [List.append_nil]
      exact Triple.pure fun _ hs => ⟨⟨⟨before, h, rfl⟩, hlive, hroom⟩, hs⟩
  | @piece n piece content pieces hne hfit hrest ih =>
      subst hn
      rw [← List.length_append] at hfit ih
      rw [sumLoop_piece hne, ← List.append_assoc live]
      split
      next hodd =>
        rw [if_neg hodd] at ih
        exact ih rfl (.inl hodd) hfit h
      next heven =>
        rw [if_pos (not_ne_iff.mp heven)] at ih
        have hlong : live ++ piece ≠ [] := List.append_ne_nil_of_right_ne_nil _ hne
        apply Triple.bind (hmd5 before _ s h (not_ne_iff.mp heven) hlong hfit)
        rintro ⟨digest, s'⟩
        apply Triple.assume
        intro hafter
        rw [← List.append_assoc before]
        exact ih rfl (.inr rfl) (Nat.zero_le _) hafter

end Rule

section Loop

variable {φ γ : Type} {libc : Libc φ} {view : Machine φ → γ} (halloc : libc.Allocates view)
  (p : γ → Prop) {before : List UInt8} {s : Option Md5.State}
include halloc

theorem triple_md5_more (h : Absorbed before s) {piece : List UInt8} (hpiece : piece.length % 64 = 0)
    (hne : piece ≠ []) : Triple (fun st => p (view st)) (md5 libc piece s)
      (fun r st => Absorbed (before ++ piece) r.2 ∧ p (view st)) noFault := by
  cases s with
  | some s =>
      obtain ⟨s', hdigest, hafter⟩ := md5Digest_more (φ := φ) h hpiece hne
      rw [md5, hdigest]
      exact Triple.pure fun _ hs => ⟨hafter, hs⟩
  | none =>
      obtain ⟨s', hdigest, hafter⟩ := md5Digest_more (φ := φ) h.seeded hpiece hne
      apply Triple.bind (halloc.triple_malloc 20 p)
      intro allocated
      apply Triple.assume
      rintro rfl
      rw [hdigest]
      exact Triple.pure fun _ hs => ⟨hafter, hs⟩

theorem triple_md5_last (h : Absorbed before s) {rest : List UInt8}
    (hrest : rest.length % 64 ≠ 0 ∨ rest.length = 0) (hroom : rest.length ≤ readSize) :
    Triple (fun st => p (view st)) (md5 libc rest s)
      (fun r st => r.1 = some (fileDigest (before ++ rest)) ∧ p (view st)) noFault := by
  cases s with
  | some s =>
      rw [md5, md5Digest_last h hrest hroom]
      exact Triple.pure fun _ hs => ⟨rfl, hs⟩
  | none =>
      apply Triple.bind (halloc.triple_malloc 20 p)
      intro allocated
      apply Triple.assume
      rintro rfl
      rw [md5Digest_last h.seeded hrest hroom]
      exact Triple.pure fun _ hs => ⟨rfl, hs⟩

/-- What the loop leaves to the last call of `md5`. -/
structure Rest (content : List UInt8) (r : List UInt8 × Option Md5.State) : Prop where
  absorbed : ∃ before, Absorbed before r.2 ∧ before ++ r.1 = content
  odd : r.1.length % 64 ≠ 0 ∨ r.1.length = 0
  room : r.1.length ≤ readSize

theorem triple_sumLoop {n : Nat} {content live : List UInt8} {pieces : List (List UInt8)}
    (hdelivery : Delivery n content pieces) (hn : live.length = n)
    (hlive : live.length % 64 ≠ 0 ∨ live.length = 0) (hroom : live.length ≤ readSize)
    (h : Absorbed before s) :
    Triple (fun st => p (view st)) (sumLoop libc pieces live s)
      (fun r st => Rest (before ++ (live ++ content)) r ∧ p (view st)) noFault := by
  have hmd5 : ∀ before live s, Absorbed before s → live.length % 64 = 0 → live ≠ [] →
      live.length ≤ readSize → Triple (fun st => p (view st)) (md5 libc live s)
        (fun r st => Absorbed (before ++ live) r.2 ∧ p (view st)) noFault :=
    fun _ _ _ h heven hne _ => triple_md5_more halloc p h heven hne
  refine (sumLoop_rule view p Absorbed hmd5 hdelivery hn hlive hroom h).mono (fun _ hs => hs) ?_
  rintro r st ⟨⟨habsorbed, hodd, hroom⟩, hs⟩
  exact ⟨⟨habsorbed, hodd, hroom⟩, hs⟩

end Loop

section Sum

variable {φ : Type} {libc : Libc φ} {disk : φ → Disk} (hposix : libc.Posix disk)
include hposix

theorem triple_sum {path content : List UInt8} {fd : Nat} (q : Seen → Prop)
    (hq : ∀ s disk, q s → q { s with disk := disk }) :
    Triple (fun st => q (st.seen disk) ∧ (disk st.env).stream fd = some ⟨path, content, 0⟩) (sum libc fd)
      (fun digits st => digits = (fileDigest content).flatMap hexByte ∧
        q (st.seen disk) ∧ (disk st.env).stream fd = some ⟨path, content, content.length⟩) noFault := by
  unfold sum
  apply Triple.bind (hposix.triple_malloc bufSize
    fun s => q s ∧ s.disk.stream fd = some ⟨path, content, 0⟩)
  intro allocated
  apply Triple.assume
  rintro rfl
  have hread : Triple (fun st => q (st.seen disk) ∧ (disk st.env).stream fd = some ⟨path, content, 0⟩)
      (Run.call (libc.freads · fd)) (fun pieces st => Reads readSize content pieces ∧
        q (st.seen disk) ∧ (disk st.env).stream fd = some ⟨path, content, content.length⟩) noFault := by
    rintro st ⟨hs, hstream⟩
    obtain ⟨hreads, hafter⟩ := hposix.freads st.env fd path content hstream
    exact ⟨hreads, hq _ _ hs, hafter⟩
  apply Triple.bind hread
  intro pieces
  apply Triple.assume
  intro hreads
  apply Triple.bind (triple_sumLoop hposix.allocates
    (fun s => q s ∧ s.disk.stream fd = some ⟨path, content, content.length⟩) hreads.delivery rfl
    (.inr rfl) (Nat.zero_le _) .nothing)
  rintro ⟨buf, s⟩
  apply Triple.assume
  rintro ⟨⟨before, hbefore, hcontent⟩, hodd, hroom⟩
  have hwhole : before ++ buf = content := hcontent
  apply Triple.bind (triple_md5_last hposix.allocates
    (fun s => q s ∧ s.disk.stream fd = some ⟨path, content, content.length⟩) hbefore hodd hroom)
  rintro ⟨digest, s'⟩
  apply Triple.assume
  rintro rfl
  rw [hwhole]
  exact Triple.pure fun _ hs => ⟨rfl, hs⟩

theorem triple_calcuMd5Checksum_posix {path content : List UInt8} {token : Nat}
    (hpath : path ≠ []) (q : Seen → Prop)
    (hq : ∀ s disk, q s → q { s with disk := disk }) (hload : ∀ s, q s → s.heap.read token = some path) :
    Triple (fun st => q (st.seen disk) ∧ (disk st.env).file path = some content)
      (calcuMd5Checksum libc (some token))
      (fun sumBuffer st => sumBuffer = some ((fileDigest content).flatMap hexByte) ∧
        q (st.seen disk) ∧ (disk st.env).file path = some content) noFault := by
  unfold calcuMd5Checksum
  apply Triple.bind (Q := fun name st => name = path ∧ q (st.seen disk) ∧
    (disk st.env).file path = some content)
  · intro st hs
    have hread : st.heap.read token = some path := hload _ hs.1
    unfold Run.load
    rw [hread]
    exact ⟨rfl, hs⟩
  intro name
  apply Triple.assume
  rintro rfl
  have hlong : ¬ name.length ≤ 0 := fun h => hpath (List.eq_nil_of_length_eq_zero (by omega))
  rw [if_neg hlong]
  apply Triple.bind (Q := fun fd st => ∃ handle, fd = some handle ∧ q (st.seen disk) ∧
    (disk st.env).stream handle = some ⟨name, content, 0⟩)
  · rintro st ⟨hs, hfile⟩
    obtain ⟨handle, hopened, hstream⟩ := hposix.fopenRead st.env name content hfile
    exact ⟨handle, hopened, hq _ _ hs, hstream⟩
  intro fd
  cases fd with
  | none =>
      rintro st ⟨handle, hnone, -⟩
      cases hnone
  | some fd =>
      apply Triple.weaken (P := fun st => q (st.seen disk) ∧
        (disk st.env).stream fd = some ⟨name, content, 0⟩)
      · apply Triple.bind (triple_sum hposix q hq)
        intro sumBuffer
        apply Triple.assume
        rintro rfl
        apply Triple.bind (Q := fun _ st => q (st.seen disk) ∧ (disk st.env).file name = some content)
        · rintro st ⟨hs, hstream⟩
          exact ⟨hq _ _ hs, hposix.fclose st.env fd _ hstream⟩
        · exact fun _ => Triple.pure fun _ hs => ⟨rfl, hs⟩
      · rintro st ⟨handle, ⟨⟩, hs⟩
        exact hs

omit hposix in
theorem hexByte_lower (byte : UInt8) : (hexByte byte).map toLowerByte = MessageDigest.hex [byte] := by
  have hdigit : ∀ n < 16, toLowerByte (UInt8.ofNat (if n < 10 then 0x30 + n else 0x41 + (n - 10))) =
      MessageDigest.hexDigit n := by decide
  have hbyte : byte.toNat < 256 := byte.toNat_lt
  have hhigh := hdigit (byte.toNat / 16) (by omega)
  have hlow := hdigit (byte.toNat % 16) (by omega)
  simp only [hexByte, MessageDigest.hex, List.map_cons, List.map_nil, List.flatMap_cons,
    List.flatMap_nil, List.append_nil, hhigh, hlow]

omit hposix in
theorem hex_lower (digest : List UInt8) :
    (digest.flatMap hexByte).map toLowerByte = MessageDigest.hex digest := by
  rw [List.map_flatMap]
  apply List.flatMap_congr
  intro byte _
  rw [hexByte_lower]
  exact List.append_nil _

omit hposix in
theorem hexBytes_length (digest : List UInt8) : (digest.flatMap hexByte).length = 2 * digest.length := by
  have hlength := congrArg List.length (hex_lower digest)
  rwa [List.length_map, MessageDigest.hex_length] at hlength

omit hposix in
/-- The comparison with a checksum goes up to the end of the checksum, in letters of either
case. -/
theorem strncaseEq_hex (digest md5sum : List UInt8) :
    strncaseEq md5sum (digest.flatMap hexByte) (digest.flatMap hexByte).length = true ↔
      (md5sum.take (2 * digest.length)).map toLowerByte = MessageDigest.hex digest := by
  unfold strncaseEq
  rw [List.take_length, hex_lower, hexBytes_length, decide_eq_true_iff]

end Sum

end CccUpgrade
