import CccUpgrade.FileManager.Digest
import CccUpgrade.Lib.Simulation

/-! The same part of md5sum.c over the memory it works on: `fread` fills the read buffer
behind the bytes that wait in it, and `md5` pads the last of them where they stand. -/
namespace CccUpgrade.InPlace

open Lib Md5

def store (buf : List UInt8) (pos : Nat) (data : List UInt8) : Except Fault (List UInt8) :=
  if buf.length < pos + data.length then .error (.md5Buf (pos + data.length))
  else .ok (buf.take pos ++ data ++ buf.drop (pos + data.length))

def loadBlock (buf : List UInt8) (p : Nat) : Except Fault (List UInt8) :=
  if buf.length < p + 64 then .error (.read buf.length) else .ok ((buf.drop p).take 64)

/-- The loop of `md5` over the blocks that start before `stop`. -/
def blocks (buf : List UInt8) (stop p : Nat) (w : Words) : Except Fault Words :=
  if p < stop then do
    let bytes ← loadBlock buf p
    blocks buf stop (p + 64) (block w bytes)
  else return w
termination_by stop - p

/-- The padding of the last call and the count behind it. The length it comes to leaves
out the count, which the last block takes in all the same. -/
def pad (buf : List UInt8) (len : Nat) (count : UInt32) : Except Fault (List UInt8 × Nat) := do
  let i := if len % 64 < 56 then 56 - len % 64 else 120 - len % 64
  let buf ← if 0 < i then do
      let buf ← store buf len (List.replicate i 0)
      store buf len [0x80]
    else pure buf
  let buf ← store buf (len + i) (encode [count <<< (3 : UInt32), count >>> (29 : UInt32)])
  return (buf, len + i)

/-- `md5` behind its first lines. `digest` says whether there is a buffer for the digest. -/
def md5Digest (buf : List UInt8) (len : Nat) (digest : Bool) (s : Md5.State) :
    Except Fault (List UInt8 × Option (List UInt8) × Option Md5.State) := do
  let s := { s with len := s.len + UInt32.ofNat len }
  if len % 64 ≠ 0 ∨ len = 0 then
    let (buf, stop) ← pad buf len s.len
    let w ← blocks buf stop 0 s.state
    if digest then return (buf, some (encode [w.a, w.b, w.c, w.d]), none)
    else throw .null
  else
    let w ← blocks buf len 0 s.state
    return (buf, none, some { s with state := w })

variable {φ : Type} (libc : Libc φ)

def md5 (buf : List UInt8) (len : Nat) (digest : Bool) (s : Option Md5.State) :
    Run φ (List UInt8 × Option (List UInt8) × Option Md5.State) :=
  match s with
  | some s => Run.checked (md5Digest buf len digest s)
  | none => do
      if !(← Run.call (libc.malloc · 20)) then return (buf, none, none)
      Run.checked (md5Digest buf len digest seed)

/-- `fread(buf+n, 1, 128*64-n, fd)` delivers `chunk`. All that it asks for has to fit. -/
def fread (buf : List UInt8) (n : Nat) (chunk : List UInt8) : Except Fault (List UInt8) :=
  if readSize < n ∨ buf.length < readSize then .error (.md5Buf readSize) else store buf n chunk

def sumLoop : List (List UInt8) → List UInt8 → Nat → Option Md5.State →
    Run φ (List UInt8 × Nat × Option Md5.State)
  | [], buf, n, s => return (buf, n, s)
  | [] :: _, buf, n, s => return (buf, n, s)
  | chunk :: chunks, buf, n, s => do
      let buf ← Run.checked (fread buf n chunk)
      let n := n + chunk.length
      if n % 64 ≠ 0 then sumLoop chunks buf n s
      else
        let (buf, _, s) ← md5 libc buf n false s
        sumLoop chunks buf 0 s

/-- `sprintf(sum_buffer+ix, "%.2X", byte)` with `ix` the length of the string so far. -/
def sprintfByte (sumBuffer : List UInt8) (byte : UInt8) : Except Fault (List UInt8) := do
  let ix := (cString sumBuffer).length
  let rest ← memcpy (sumBuffer.drop ix) (hexByte byte ++ [0]) 3
  return sumBuffer.take ix ++ rest

def printHex (digest sumBuffer : List UInt8) (size : Nat) : Except Fault (List UInt8) := do
  let sumBuffer ← memcpy sumBuffer (List.replicate size 0) size
  digest.foldlM sprintfByte sumBuffer

/-- `sum` with `hex` set: `sum_buffer` as it is afterwards. -/
def sum (fd : Nat) (sumBuffer : List UInt8) (size : Nat) : Run φ (List UInt8) := do
  if !(← Run.call (libc.malloc · bufSize)) then Run.fault .null
  else
    let chunks ← Run.call (libc.freads · fd)
    let (buf, n, s) ← sumLoop libc chunks (List.replicate bufSize 0) 0 none
    match (← md5 libc buf n true s).2.1 with
    | some digest => Run.checked (printHex digest sumBuffer size)
    | none => Run.fault .uninitialised

/-- `calcu_md5_checksum`: what it returns and `sum_buffer` as it is afterwards. -/
def calcuMd5Checksum (filename : Option Nat) (sumBuffer : List UInt8) (size : Nat) :
    Run φ (Bool × List UInt8) := do
  let some filename := filename | return (false, sumBuffer)
  let filename ← Run.load filename
  if filename.length ≤ 0 then return (false, sumBuffer)
  let some fd ← Run.call (libc.fopenRead · filename) | return (false, sumBuffer)
  let sumBuffer ← sum libc fd sumBuffer size
  Run.call (libc.fclose · fd)
  return (true, sumBuffer)

def checkFileByMd5 (checkFilename : Option Nat) (md5sum : List UInt8) : Run φ Bool := do
  let (done, sumBuffer) ← calcuMd5Checksum libc checkFilename (List.replicate 256 0) 255
  if !done then return false
  return strncaseEq md5sum (cString sumBuffer) (cString sumBuffer).length

section Store

variable {front old data back : List UInt8}

theorem store_append (hlength : data.length = old.length) :
    store (front ++ (old ++ back)) front.length data = .ok (front ++ (data ++ back)) := by
  have hroom : ¬ (front ++ (old ++ back)).length < front.length + data.length := by
    simp only [List.length_append]
    omega
  rw [store, if_neg hroom, List.take_left, hlength, ← List.drop_drop, List.drop_left,
    List.drop_left, List.append_assoc]

end Store

section Blocks

variable {w : Words} {p q : List UInt8}

theorem block_take : block w (p.take 64) = block w p := by
  unfold block
  rw [List.take_take, Nat.min_self]

theorem blocks_append (n : Nat) (hp : 64 * n ≤ p.length) : Md5.blocks n w (p ++ q) = Md5.blocks n w p := by
  induction n generalizing w p with
  | zero => rfl
  | succ n ih =>
      rw [Md5.blocks, Md5.blocks, List.drop_append_of_le_length (by omega), ← block_take,
        List.take_append_of_le_length (by omega), block_take]
      apply ih
      rw [List.length_drop]
      omega

theorem loadBlock_append (hq : 64 ≤ q.length) : loadBlock (p ++ q) p.length = .ok (q.take 64) := by
  have hroom : ¬ (p ++ q).length < p.length + 64 := by
    rw [List.length_append]
    omega
  rw [loadBlock, if_neg hroom, List.drop_left]

/-- The loop takes the blocks that start before `stop`, whether or not they end there. -/
theorem blocks_eq (n : Nat) {stop : Nat} (hstop : stop ≤ p.length + 64 * n)
    (hlast : p.length + 64 * n < stop + 64) (hq : 64 * n ≤ q.length) :
    blocks (p ++ q) stop p.length w = .ok (Md5.blocks n w q) := by
  induction n generalizing w p q with
  | zero =>
      rw [blocks, if_neg (by omega)]
      rfl
  | succ n ih =>
      have hnext : (p ++ q.take 64).length = p.length + 64 := by
        rw [List.length_append, List.length_take]
        omega
      have hrest : blocks (p ++ q.take 64 ++ q.drop 64) stop (p ++ q.take 64).length
          (block w (q.take 64)) = .ok (Md5.blocks n (block w (q.take 64)) (q.drop 64)) := by
        apply ih
        · omega
        · omega
        · rw [List.length_drop]
          omega
      rw [List.append_assoc, List.take_append_drop, hnext] at hrest
      rw [blocks, if_pos (by omega), loadBlock_append (by omega)]
      change blocks (p ++ q) stop (p.length + 64) (block w (q.take 64)) = _
      rw [hrest, block_take]
      rfl

theorem blocks_start (n : Nat) {stop : Nat} (hstop : stop ≤ 64 * n) (hlast : 64 * n < stop + 64)
    (hp : 64 * n ≤ p.length) : blocks (p ++ q) stop 0 w = .ok (Md5.blocks n w p) := by
  have hall : blocks ([] ++ (p ++ q)) stop ([] : List UInt8).length w =
      .ok (Md5.blocks n w (p ++ q)) := by
    apply blocks_eq
    · rwa [List.length_nil, Nat.zero_add]
    · rwa [List.length_nil, Nat.zero_add]
    · rw [List.length_append]
      omega
  rwa [blocks_append n hp] at hall

end Blocks

section Digest

variable {live back : List UInt8}

theorem exists_split {n : Nat} {l : List UInt8} (h : n ≤ l.length) :
    ∃ front rest, l = front ++ rest ∧ front.length = n :=
  ⟨l.take n, l.drop n, (List.take_append_drop n l).symm, List.length_take_of_le h⟩

theorem padding_pos {len : Nat} : 0 < padding len := by
  unfold padding
  split <;> omega

theorem pad_eq (hroom : padding live.length + 8 ≤ back.length) (count : UInt32) :
    ∃ rest, rest.length = back.length - (padding live.length + 8) ∧
      pad (live ++ back) live.length count =
        .ok (live ++ (0x80 :: List.replicate (padding live.length - 1) 0) ++
          (encode [count <<< (3 : UInt32), count >>> (29 : UInt32)] ++ rest),
          live.length + padding live.length) := by
  have hpos : 0 < padding live.length := padding_pos
  obtain ⟨old, rest, rfl, hold⟩ := exists_split (Nat.le_of_add_right_le hroom)
  rw [List.length_append, hold] at hroom
  obtain ⟨count', rest, rfl, hcount⟩ := exists_split (Nat.le_of_add_le_add_left hroom)
  refine ⟨rest, ?_, ?_⟩
  · simp only [List.length_append]
    omega
  have hset : store (live ++ (old ++ (count' ++ rest))) live.length
      (List.replicate (padding live.length) 0) =
        .ok (live ++ ([0] ++ (List.replicate (padding live.length - 1) 0 ++ (count' ++ rest)))) := by
    rw [store_append (by rw [List.length_replicate, hold])]
    obtain ⟨i, hi⟩ := Nat.exists_eq_succ_of_ne_zero (Nat.ne_of_gt hpos)
    rw [hi]
    rfl
  have hmark : store (live ++ ([0] ++ (List.replicate (padding live.length - 1) 0 ++ (count' ++ rest))))
      live.length [0x80] = .ok (live ++ ([0x80] ++
        (List.replicate (padding live.length - 1) 0 ++ (count' ++ rest)))) :=
    store_append rfl
  have hlength : (live ++ (0x80 :: List.replicate (padding live.length - 1) 0)).length =
      live.length + padding live.length := by
    rw [List.length_append, List.length_cons, List.length_replicate]
    omega
  have hcounted : store (live ++ ([0x80] ++
        (List.replicate (padding live.length - 1) 0 ++ (count' ++ rest))))
      (live.length + padding live.length) (encode [count <<< (3 : UInt32), count >>> (29 : UInt32)]) =
        .ok (live ++ (0x80 :: List.replicate (padding live.length - 1) 0) ++
          (encode [count <<< (3 : UInt32), count >>> (29 : UInt32)] ++ rest)) := by
    have hcode : (encode [count <<< (3 : UInt32), count >>> (29 : UInt32)]).length = count'.length :=
      hcount.symm
    rw [← hlength, ← store_append hcode]
    simp only [List.append_assoc, List.cons_append, List.nil_append]
  unfold pad
  rw [← padding, if_pos hpos, hset]
  change (store _ _ _ >>= fun buf => _) = _
  rw [hmark]
  change (store _ _ _ >>= fun buf => _) = _
  rw [hcounted]
  rfl

section Calls

variable {φ : Type} (hbuf : (live ++ back).length = bufSize) (hlive : live.length ≤ readSize)
  (s : Md5.State)
include hbuf hlive

theorem md5Digest_done (hlast : live.length % 64 ≠ 0 ∨ live.length = 0) :
    ∃ buf d, buf.length = bufSize ∧ d.length = 16 ∧
      md5Digest (live ++ back) live.length true s = .ok (buf, some d, none) ∧
      (CccUpgrade.md5Digest live s : Run φ _) = pure (some d, none) := by
  have hsize : bufSize = 16384 := rfl
  have hread : readSize = 8192 := rfl
  have hpos : 0 < padding live.length := padding_pos
  have hpadding : (live.length + padding live.length + 8) % 64 = 0 ∧ padding live.length ≤ 64 := by
    unfold padding
    split <;> omega
  rw [List.length_append] at hbuf
  have hfits : padding live.length + 8 ≤ back.length := by omega
  have hroom : ¬ bufSize < live.length + padding live.length + 8 := by omega
  obtain ⟨rest, hrest, hpad⟩ := pad_eq hfits (s.len + UInt32.ofNat live.length)
  rw [← List.append_assoc] at hpad
  generalize hpadded : live ++ (0x80 :: List.replicate (padding live.length - 1) 0) ++
    encode [(s.len + UInt32.ofNat live.length) <<< (3 : UInt32),
      (s.len + UInt32.ofNat live.length) >>> (29 : UInt32)] = padded at hpad
  have hlength : padded.length = live.length + padding live.length + 8 := by
    rw [← hpadded, List.length_append, List.length_append, List.length_cons, List.length_replicate]
    change live.length + (padding live.length - 1 + 1) + 8 = _
    omega
  obtain ⟨w, hw⟩ : ∃ w, Md5.blocks (padded.length / 64) s.state padded = w := ⟨_, rfl⟩
  -- the count is no part of the length up to which blocks start, but of the last of them
  have hblocks : blocks (padded ++ rest) (live.length + padding live.length) 0 s.state = .ok w := by
    rw [← hw]
    exact blocks_start _ (by omega) (by omega) (by omega)
  refine ⟨padded ++ rest, encode [w.a, w.b, w.c, w.d], ?_, rfl, ?_, ?_⟩
  · rw [List.length_append]
    omega
  · unfold md5Digest
    dsimp only
    rw [if_pos hlast, hpad]
    change (blocks _ _ 0 s.state >>= fun w => _) = _
    rw [hblocks]
    rfl
  · unfold CccUpgrade.md5Digest
    dsimp only
    rw [if_pos hlast, if_neg hroom, hpadded, hw]

omit hbuf hlive in
theorem md5Digest_going (back : List UInt8) (hlast : ¬ (live.length % 64 ≠ 0 ∨ live.length = 0)) (digest : Bool) :
    ∃ s', md5Digest (live ++ back) live.length digest s = .ok (live ++ back, none, some s') ∧
      (CccUpgrade.md5Digest live s : Run φ _) = pure (none, some s') := by
  have hblocks : blocks (live ++ back) live.length 0 s.state =
      .ok (Md5.blocks (live.length / 64) s.state live) :=
    blocks_start _ (by omega) (by omega) (by omega)
  refine ⟨⟨s.len + UInt32.ofNat live.length, Md5.blocks (live.length / 64) s.state live⟩, ?_, ?_⟩
  · unfold md5Digest
    dsimp only
    rw [if_neg hlast, hblocks]
    rfl
  · unfold CccUpgrade.md5Digest
    dsimp only
    rw [if_neg hlast]

theorem md5Digest_eq {digest : Bool}
    (hdigest : digest = true ∨ live.length % 64 = 0 ∧ live.length ≠ 0) :
    ∃ buf r, buf.length = bufSize ∧ (∀ d, r.1 = some d → d.length = 16) ∧
      md5Digest (live ++ back) live.length digest s = .ok (buf, r) ∧
      (CccUpgrade.md5Digest live s : Run φ _) = pure r := by
  by_cases hlast : live.length % 64 ≠ 0 ∨ live.length = 0
  · obtain rfl : digest = true := hdigest.resolve_right fun h => by omega
    obtain ⟨buf, d, hlength, hd, hplace, hlist⟩ := md5Digest_done (φ := φ) hbuf hlive s hlast
    refine ⟨buf, (some d, none), hlength, ?_, hplace, hlist⟩
    rintro d ⟨⟩
    exact hd
  · obtain ⟨s', hplace, hlist⟩ := md5Digest_going (φ := φ) s back hlast digest
    refine ⟨live ++ back, (none, some s'), hbuf, ?_, hplace, hlist⟩
    rintro d ⟨⟩

end Calls

end Digest

section Refinement

variable {φ : Type} {libc : Libc φ} {live back : List UInt8} {s : Option Md5.State}

theorem checked_ok {α : Type} (a : α) : (Run.checked (.ok a) : Run φ α) = pure a := rfl

structure Digested (r : Option (List UInt8) × Option Md5.State)
    (r' : List UInt8 × Option (List UInt8) × Option Md5.State) : Prop where
  same : r'.2 = r
  length : r'.1.length = bufSize
  digest : ∀ d, r.1 = some d → d.length = 16

theorem simulates_md5 (hbuf : (live ++ back).length = bufSize) (hlive : live.length ≤ readSize)
    {digest : Bool} (hdigest : digest = true ∨ live.length % 64 = 0 ∧ live.length ≠ 0) :
    Simulates Digested (CccUpgrade.md5 libc live s)
      (md5 libc (live ++ back) live.length digest s) := by
  have hrun : ∀ s : Md5.State, Simulates Digested (CccUpgrade.md5Digest live s : Run φ _)
      (Run.checked (md5Digest (live ++ back) live.length digest s)) := by
    intro s
    obtain ⟨buf, r, hlength, hshort, hplace, hlist⟩ := md5Digest_eq (φ := φ) hbuf hlive s hdigest
    rw [hplace, hlist, checked_ok]
    exact .pure ⟨rfl, hlength, hshort⟩
  cases s with
  | some s => exact hrun s
  | none =>
      apply Simulates.refl.bind
      rintro allocated _ rfl
      cases allocated with
      | true => exact hrun seed
      | false => exact .pure ⟨rfl, hbuf, nofun⟩

theorem fread_append {chunk : List UInt8} (hbuf : (live ++ back).length = bufSize)
    (hfit : live.length + chunk.length ≤ readSize) :
    ∃ rest, (live ++ chunk ++ rest).length = bufSize ∧
      fread (live ++ back) live.length chunk = .ok (live ++ chunk ++ rest) := by
  have hsize : bufSize = 16384 := rfl
  have hread : readSize = 8192 := rfl
  rw [List.length_append] at hbuf
  have hchunk : chunk.length ≤ back.length := by omega
  obtain ⟨old, rest, rfl, hold⟩ := exists_split hchunk
  refine ⟨rest, ?_, ?_⟩
  · simp only [List.length_append] at hbuf ⊢
    omega
  · have hroom : ¬ (readSize < live.length ∨ (live ++ (old ++ rest)).length < readSize) := by
      rw [List.length_append]
      omega
    rw [fread, if_neg hroom, store_append hold.symm, List.append_assoc]

structure Waiting (r : List UInt8 × Option Md5.State)
    (r' : List UInt8 × Nat × Option Md5.State) : Prop where
  buffer : ∃ back, r'.1 = r.1 ++ back
  length : r'.1.length = bufSize
  count : r'.2.1 = r.1.length
  state : r'.2.2 = r.2
  room : r.1.length ≤ readSize

theorem sumLoop_piece {piece : List UInt8} (hne : piece ≠ []) (pieces : List (List UInt8))
    (buf : List UInt8) (n : Nat) :
    sumLoop libc (piece :: pieces) buf n s = Run.checked (fread buf n piece) >>= fun buf =>
      if (n + piece.length) % 64 ≠ 0 then sumLoop libc pieces buf (n + piece.length) s
      else md5 libc buf (n + piece.length) false s >>= fun r => sumLoop libc pieces r.1 0 r.2.2 := by
  cases piece with
  | nil => exact absurd rfl hne
  | cons byte piece =>
      rw [sumLoop]
      exact hne

theorem simulates_sumLoop {n : Nat} {content : List UInt8} {pieces : List (List UInt8)}
    (hdelivery : Delivery n content pieces) (hn : live.length = n)
    (hlive : live.length ≤ readSize) (hbuf : (live ++ back).length = bufSize) :
    Simulates Waiting (CccUpgrade.sumLoop libc pieces live s)
      (sumLoop libc pieces (live ++ back) live.length s) := by
  induction hdelivery generalizing live back s with
  | done => exact .pure ⟨⟨back, rfl⟩, hbuf, rfl, rfl, hlive⟩
  | @piece n piece content pieces hne hfit hrest ih =>
      subst hn
      obtain ⟨rest, hlength, hread⟩ := fread_append hbuf hfit
      rw [CccUpgrade.sumLoop_piece hne, sumLoop_piece hne, hread, checked_ok, pure_bind]
      rw [← List.length_append] at hfit ih ⊢
      split
      next hodd =>
        rw [if_neg hodd] at ih
        exact ih rfl hfit hlength
      next heven =>
        rw [if_pos (not_ne_iff.mp heven)] at ih
        have hpos : (live ++ piece).length ≠ 0 := fun hzero =>
          hne (List.append_eq_nil_iff.mp (List.eq_nil_of_length_eq_zero hzero)).2
        apply (simulates_md5 hlength hfit (.inr ⟨not_ne_iff.mp heven, hpos⟩)).bind
        rintro r ⟨buf, _⟩ ⟨rfl, hbuf', -⟩
        have hempty : ([] ++ buf).length = bufSize := hbuf'
        exact ih rfl (Nat.zero_le _) hempty

end Refinement

end CccUpgrade.InPlace
