import CccUpgrade.Utils.UtilFunc

/-! md5sum.c as `calcu_md5_checksum` uses it: the digest of a file, read in pieces,
in upper-case hex digits. The base64 output, which needs `hex` to be 0, is not
used. -/
namespace CccUpgrade

namespace Md5

def s11 : UInt32 := 7
def s12 : UInt32 := 12
def s13 : UInt32 := 17
def s14 : UInt32 := 22
def s21 : UInt32 := 5
def s22 : UInt32 := 9
def s23 : UInt32 := 14
def s24 : UInt32 := 20
def s31 : UInt32 := 4
def s32 : UInt32 := 11
def s33 : UInt32 := 16
def s34 : UInt32 := 23
def s41 : UInt32 := 6
def s42 : UInt32 := 10
def s43 : UInt32 := 15
def s44 : UInt32 := 21

structure Table where
  sin : UInt32
  x : Nat
  rot : UInt32
deriving DecidableEq, Repr

def tab : List Table :=
  [ ⟨0xd76aa478, 0, s11⟩, ⟨0xe8c7b756, 1, s12⟩, ⟨0x242070db, 2, s13⟩, ⟨0xc1bdceee, 3, s14⟩,
    ⟨0xf57c0faf, 4, s11⟩, ⟨0x4787c62a, 5, s12⟩, ⟨0xa8304613, 6, s13⟩, ⟨0xfd469501, 7, s14⟩,
    ⟨0x698098d8, 8, s11⟩, ⟨0x8b44f7af, 9, s12⟩, ⟨0xffff5bb1, 10, s13⟩, ⟨0x895cd7be, 11, s14⟩,
    ⟨0x6b901122, 12, s11⟩, ⟨0xfd987193, 13, s12⟩, ⟨0xa679438e, 14, s13⟩, ⟨0x49b40821, 15, s14⟩,
    ⟨0xf61e2562, 1, s21⟩, ⟨0xc040b340, 6, s22⟩, ⟨0x265e5a51, 11, s23⟩, ⟨0xe9b6c7aa, 0, s24⟩,
    ⟨0xd62f105d, 5, s21⟩, ⟨0x2441453, 10, s22⟩, ⟨0xd8a1e681, 15, s23⟩, ⟨0xe7d3fbc8, 4, s24⟩,
    ⟨0x21e1cde6, 9, s21⟩, ⟨0xc33707d6, 14, s22⟩, ⟨0xf4d50d87, 3, s23⟩, ⟨0x455a14ed, 8, s24⟩,
    ⟨0xa9e3e905, 13, s21⟩, ⟨0xfcefa3f8, 2, s22⟩, ⟨0x676f02d9, 7, s23⟩, ⟨0x8d2a4c8a, 12, s24⟩,
    ⟨0xfffa3942, 5, s31⟩, ⟨0x8771f681, 8, s32⟩, ⟨0x6d9d6122, 11, s33⟩, ⟨0xfde5380c, 14, s34⟩,
    ⟨0xa4beea44, 1, s31⟩, ⟨0x4bdecfa9, 4, s32⟩, ⟨0xf6bb4b60, 7, s33⟩, ⟨0xbebfbc70, 10, s34⟩,
    ⟨0x289b7ec6, 13, s31⟩, ⟨0xeaa127fa, 0, s32⟩, ⟨0xd4ef3085, 3, s33⟩, ⟨0x4881d05, 6, s34⟩,
    ⟨0xd9d4d039, 9, s31⟩, ⟨0xe6db99e5, 12, s32⟩, ⟨0x1fa27cf8, 15, s33⟩, ⟨0xc4ac5665, 2, s34⟩,
    ⟨0xf4292244, 0, s41⟩, ⟨0x432aff97, 7, s42⟩, ⟨0xab9423a7, 14, s43⟩, ⟨0xfc93a039, 5, s44⟩,
    ⟨0x655b59c3, 12, s41⟩, ⟨0x8f0ccc92, 3, s42⟩, ⟨0xffeff47d, 10, s43⟩, ⟨0x85845dd1, 1, s44⟩,
    ⟨0x6fa87e4f, 8, s41⟩, ⟨0xfe2ce6e0, 15, s42⟩, ⟨0xa3014314, 6, s43⟩, ⟨0x4e0811a1, 13, s44⟩,
    ⟨0xf7537e82, 4, s41⟩, ⟨0xbd3af235, 11, s42⟩, ⟨0x2ad7d2bb, 2, s43⟩, ⟨0xeb86d391, 9, s44⟩ ]

structure Words where
  a : UInt32
  b : UInt32
  c : UInt32
  d : UInt32
deriving DecidableEq, Repr

structure State where
  len : UInt32
  state : Words
deriving DecidableEq, Repr

def seed : State := ⟨0, ⟨0x67452301, 0xefcdab89, 0x98badcfe, 0x10325476⟩⟩

def encode (input : List UInt32) : List UInt8 :=
  input.flatMap fun (x : UInt32) => [x.toUInt8, (x >>> 8).toUInt8, (x >>> 16).toUInt8, (x >>> 24).toUInt8]

def decode : List UInt8 → List UInt32
  | b0 :: b1 :: b2 :: b3 :: input =>
      (b0.toUInt32 ||| b1.toUInt32 <<< 8 ||| b2.toUInt32 <<< 16 ||| b3.toUInt32 <<< 24) ::
        decode input
  | _ => []

def round (x : List UInt32) (w : Words) (i : Nat) (t : Table) : Words :=
  let f := match i / 16 with
    | 0 => (w.b &&& w.c) ||| (~~~w.b &&& w.d)
    | 1 => (w.b &&& w.d) ||| (w.c &&& ~~~w.d)
    | 2 => w.b ^^^ w.c ^^^ w.d
    | _ => w.c ^^^ (w.b ||| ~~~w.d)
  let a := w.a + f + (x.getD t.x 0 + t.sin)
  let a := a <<< t.rot ||| a >>> (32 - t.rot)
  ⟨w.d, a + w.b, w.b, w.c⟩

def block (w : Words) (p : List UInt8) : Words :=
  let x := decode (p.take 64)
  let r := tab.zipIdx.foldl (fun v ti => round x v ti.2 ti.1) w
  ⟨w.a + r.a, w.b + r.b, w.c + r.c, w.d + r.d⟩

def blocks : Nat → Words → List UInt8 → Words
  | 0, w, _ => w
  | n + 1, w, p => blocks n (block w p) (p.drop 64)

/-- How many bytes of padding go before the count. -/
def padding (len : Nat) : Nat := if len % 64 < 56 then 56 - len % 64 else 120 - len % 64

def bufSize : Nat := 256 * 64

end Md5

open Md5

variable {φ : Type} (libc : Libc φ)

/-- `md5` behind its first lines, on a state that is there. -/
def md5Digest (p : List UInt8) (s : Md5.State) :
    Run φ (Option (List UInt8) × Option Md5.State) :=
  let s := { s with len := s.len + UInt32.ofNat p.length }
  if p.length % 64 ≠ 0 ∨ p.length = 0 then
    let i := padding p.length
    -- The source assumes that there is room.
    if bufSize < p.length + i + 8 then Run.fault (.md5Buf (p.length + i + 8))
    else
      let count : List UInt32 := [s.len <<< (3 : UInt32), s.len >>> (29 : UInt32)]
      let padded := p ++ (0x80 :: List.replicate (i - 1) 0) ++ encode count
      let w := blocks (padded.length / 64) s.state padded
      return (some (encode [w.a, w.b, w.c, w.d]), none)
  else
    return (none, some { s with state := blocks (p.length / 64) s.state p })

/-- `md5` on the first bytes `p` of the read buffer. The last call, on a length that
is no positive multiple of 64, returns the digest; the others return the state. A
failed allocation of the first state returns neither. -/
def md5 (p : List UInt8) (s : Option Md5.State) :
    Run φ (Option (List UInt8) × Option Md5.State) :=
  match s with
  | some s => md5Digest p s
  | none => do
      if !(← Run.call (libc.malloc · 20)) then return (none, none)
      md5Digest p seed

/-- The loop of `sum` over what `fread` delivers. `buf` is the part of the read buffer
in use. -/
def sumLoop : List (List UInt8) → List UInt8 → Option Md5.State →
    Run φ (List UInt8 × Option Md5.State)
  | [], buf, s => return (buf, s)
  | [] :: _, buf, s => return (buf, s)
  | chunk :: chunks, buf, s => do
      let buf := buf ++ chunk
      if buf.length % 64 ≠ 0 then sumLoop chunks buf s
      else
        let (_, s) ← md5 libc buf s
        sumLoop chunks [] s

def hexByte (byte : UInt8) : List UInt8 :=
  let digit := fun n : Nat => UInt8.ofNat (if n < 10 then 0x30 + n else 0x41 + (n - 10))
  [digit (byte.toNat / 16), digit (byte.toNat % 16)]

/-- `sum` with `hex` set: what `sum_buffer` holds afterwards. -/
def sum (fd : Nat) : Run φ (List UInt8) := do
  if !(← Run.call (libc.malloc · bufSize)) then Run.fault .null
  else
    let chunks ← Run.call (libc.freads · fd)
    let (buf, s) ← sumLoop libc chunks [] none
    match (← md5 libc buf s).1 with
    | some digest => return digest.flatMap hexByte
    | none => Run.fault .uninitialised

section Keeps

open Lib

variable {libc} {γ : Type} {view : Machine φ → γ} (hview : libc.Silent view) {E : Fault → Prop}
  (hE : ∀ f, f.NotOfHeap → E f)

include hview hE

omit hview in
theorem keeps_md5Digest (p : List UInt8) (s : Md5.State) :
    Keeps view E (md5Digest p s : Run φ _) := by
  unfold md5Digest
  split
  · dsimp only
    split
    · exact Run.keeps_fault (hE _ rfl)
    · exact Keeps.pure
  · exact Keeps.pure

theorem keeps_md5 (p : List UInt8) (s : Option Md5.State) :
    Keeps view E (md5 libc p s) := by
  cases s with
  | some s => exact keeps_md5Digest hE p s
  | none =>
      apply Keeps.bind (Run.keeps_call (hview.malloc _))
      intro allocated
      split
      · exact Keeps.pure
      · exact keeps_md5Digest hE p seed

theorem keeps_sumLoop (chunks : List (List UInt8)) (buf : List UInt8) (s : Option Md5.State) :
    Keeps view E (sumLoop libc chunks buf s) := by
  induction chunks generalizing buf s with
  | nil => exact Keeps.pure
  | cons chunk chunks ih =>
      cases chunk with
      | nil => exact Keeps.pure
      | cons byte chunk =>
          rw [sumLoop]
          split
          · exact ih _ _
          · apply Keeps.bind (keeps_md5 hview hE _ _)
            intro r
            exact ih _ _
          · simp

theorem keeps_sum (fd : Nat) : Keeps view E (sum libc fd) := by
  unfold sum
  apply Keeps.bind (Run.keeps_call (hview.malloc _))
  intro allocated
  split
  · exact Run.keeps_fault (hE _ rfl)
  · apply Keeps.bind (Run.keeps_call (hview.freads _))
    intro chunks
    apply Keeps.bind (keeps_sumLoop hview hE _ _ _)
    intro r
    apply Keeps.bind (keeps_md5 hview hE _ _)
    intro digest
    split
    · exact Keeps.pure
    · exact Run.keeps_fault (hE _ rfl)

end Keeps

/-- `calcu_md5_checksum`: the digest string, `none` when 0 is returned. `filename` is
a heap string. -/
def calcuMd5Checksum (filename : Option Nat) : Run φ (Option (List UInt8)) := do
  let some filename := filename | return none
  let filename ← Run.load filename
  if filename.length ≤ 0 then return none
  let some fd ← Run.call (libc.fopenRead · filename) | return none
  let sumBuffer ← sum libc fd
  Run.call (libc.fclose · fd)
  return some sumBuffer

theorem keeps_calcuMd5Checksum {libc : Libc φ} {γ : Type} {view : Machine φ → γ} (hview : EnvFree view)
    (filename : Option Nat) : Lib.Keeps view anyFault (calcuMd5Checksum libc filename) := by
  unfold calcuMd5Checksum
  split
  · apply Lib.Keeps.bind (Run.keeps_load _ trivial)
    intro name
    split
    · exact Lib.Keeps.pure
    · apply Lib.Keeps.bind (Run.keeps_call (hview.blind _))
      intro fd
      split
      · apply Lib.Keeps.bind (keeps_sum (hview.silent libc) (fun _ _ => trivial) _)
        intro sumBuffer
        exact Lib.Keeps.bind (Run.keeps_call (hview.blind _)) fun _ => Lib.Keeps.pure
      · exact Lib.Keeps.pure
  · exact Lib.Keeps.pure

theorem triple_calcuMd5Checksum {libc : Libc φ} {filename : Option Nat} {v : Files}
    (hlive : ∀ token, filename = some token → v.1.Live token) :
    Lib.Triple (fun st => st.files = v) (calcuMd5Checksum libc filename)
      (fun _ st => st.files = v) Fault.NotOfHeap := by
  unfold calcuMd5Checksum
  cases filename with
  | none => exact Lib.Triple.pure fun _ hs => hs
  | some token =>
      apply Lib.Triple.bind (Run.triple_load (hlive token rfl))
      intro name
      split
      · exact Lib.Triple.pure fun _ hs => hs
      · apply Lib.Triple.bind (Run.keeps_call (envFree_files.blind _) v)
        intro fd
        cases fd with
        | none => exact Lib.Triple.pure fun _ hs => hs
        | some fd =>
            apply Lib.Triple.bind (keeps_sum (envFree_files.silent libc) (fun _ h => h) fd v)
            intro sumBuffer
            exact Lib.Triple.bind (Run.keeps_call (envFree_files.blind _) v) fun _ => Lib.Triple.pure fun _ hs => hs

end CccUpgrade
