import CccUpgrade.Lib.Patch
import CccUpgrade.Machine

/-! The calls on files as POSIX has them, for calls that succeed. What they do is said of
a disk that the environment is seen as: of the content that stands at each path, and of
the streams that are open. -/
namespace CccUpgrade

open Lib

structure Stream where
  path : List UInt8
  content : List UInt8
  pos : Nat
deriving DecidableEq, Repr

namespace Stream

def create (path : List UInt8) : Stream := ⟨path, [], 0⟩

def seek (s : Stream) (offset : Nat) : Stream := { s with pos := offset }

def write (s : Stream) (data : List UInt8) : Stream :=
  { s with content := patch 0 s.content s.pos data, pos := s.pos + data.length }

end Stream

structure Disk where
  file : List UInt8 → Option (List UInt8)
  stream : Nat → Option Stream

/-- What reads of `size` bytes each deliver: what they ask for, and the last one the rest. -/
inductive Reads (size : Nat) : List UInt8 → List (List UInt8) → Prop
  | nothing : Reads size [] []
  | rest {piece : List UInt8} (hne : piece ≠ []) (hlt : piece.length < size) :
      Reads size piece [piece]
  | full {piece content : List UInt8} {pieces : List (List UInt8)} (hfull : piece.length = size)
      (hrest : Reads size content pieces) : Reads size (piece ++ content) (piece :: pieces)

/-- The size of the reads of `sum`, which have used up the bytes of the read before
unless that was the last. -/
def readSize : Nat := 128 * 64

/-- What the reads of `sum` may deliver of a file with `n` bytes waiting in the buffer: at
least one byte and at most what there is asked for, up to the end of the file. A whole
number of blocks does not wait. -/
inductive Delivery : Nat → List UInt8 → List (List UInt8) → Prop
  | done {n : Nat} : Delivery n [] []
  | piece {n : Nat} {piece content : List UInt8} {pieces : List (List UInt8)} (hne : piece ≠ [])
      (hfit : n + piece.length ≤ readSize)
      (hrest : Delivery (if (n + piece.length) % 64 = 0 then 0 else n + piece.length) content pieces) :
      Delivery n (piece ++ content) (piece :: pieces)

theorem Reads.delivery {content : List UInt8} {pieces : List (List UInt8)}
    (h : Reads readSize content pieces) : Delivery 0 content pieces := by
  induction h with
  | nothing => exact .done
  | @rest piece hne hlt =>
      have hfit : 0 + piece.length ≤ readSize := by omega
      have hdelivery := Delivery.piece hne hfit .done
      rwa [List.append_nil] at hdelivery
  | @full piece content pieces hfull hrest ih =>
      have hsize : readSize = 8192 := rfl
      apply Delivery.piece
      · rintro rfl
        rw [List.length_nil] at hfull
        omega
      · omega
      · rwa [if_pos (by omega)]

/-- Every allocation succeeds, and a view of the state does not see it. -/
structure Libc.Allocates {φ γ : Type} (libc : Libc φ) (view : Machine φ → γ) : Prop where
  succeeds : ∀ env n, (libc.malloc env n).1 = true
  blind : ∀ n, Blind view (libc.malloc · n)

theorem Libc.Allocates.triple_malloc {φ γ : Type} {libc : Libc φ} {view : Machine φ → γ}
    (h : libc.Allocates view) (n : Nat) (p : γ → Prop) {E : Fault → Prop} :
    Triple (fun st => p (view st)) (Run.call (libc.malloc · n))
      (fun allocated st => allocated = true ∧ p (view st)) E := by
  intro st hs
  refine ⟨h.succeeds st.env n, ?_⟩
  rwa [h.blind n st]

/-- A C library whose calls on memory and on open files succeed. -/
structure Libc.Posix {φ : Type} (libc : Libc φ) (disk : φ → Disk) : Prop where
  longBits : 32 ≤ libc.longBits
  malloc : ∀ env n, (libc.malloc env n).1 = true ∧ disk (libc.malloc env n).2 = disk env
  fopenWrite : ∀ env path handle, (libc.fopenWrite env path).1 = some handle →
    (disk (libc.fopenWrite env path).2).stream handle = some (.create path)
  fseek : ∀ env handle s (offset : Nat), (disk env).stream handle = some s →
    (libc.fseek env handle offset).1 = true ∧
      (disk (libc.fseek env handle offset).2).stream handle = some (s.seek offset)
  fwrite : ∀ env handle s dataBuf, (disk env).stream handle = some s → dataBuf ≠ [] →
    (libc.fwrite env handle dataBuf).1 = dataBuf.length ∧
      (disk (libc.fwrite env handle dataBuf).2).stream handle = some (s.write dataBuf)
  fclose : ∀ env handle s, (disk env).stream handle = some s →
    (disk (libc.fclose env handle).2).file s.path = some s.content
  fopenRead : ∀ env path content, (disk env).file path = some content →
    ∃ handle, (libc.fopenRead env path).1 = some handle ∧
      (disk (libc.fopenRead env path).2).stream handle = some ⟨path, content, 0⟩
  freads : ∀ env handle path content, (disk env).stream handle = some ⟨path, content, 0⟩ →
    Reads readSize content (libc.freads env handle).1 ∧
      (disk (libc.freads env handle).2).stream handle = some ⟨path, content, content.length⟩

structure Seen where
  heap : Heap (List UInt8)
  upload : UploadFile
  effects : List Effect
  disk : Disk

def Machine.seen {φ : Type} (disk : φ → Disk) (st : Machine φ) : Seen :=
  ⟨st.heap, st.upload, st.effects, disk st.env⟩

section Malloc

variable {φ : Type} {libc : Libc φ} {disk : φ → Disk} (h : libc.Posix disk) (n : Nat)
include h

theorem Libc.Posix.blind_malloc : Blind (Machine.seen disk) (libc.malloc · n) := by
  intro st
  unfold Machine.seen
  rw [(h.malloc st.env n).2]

theorem Libc.Posix.not_malloc {p : Prop} (env : φ) (hmalloc : (libc.malloc env n).1 ≠ true) : p :=
  absurd (h.malloc env n).1 hmalloc

omit n in
theorem Libc.Posix.allocates : libc.Allocates (Machine.seen disk) :=
  ⟨fun env n => (h.malloc env n).1, h.blind_malloc⟩

theorem Libc.Posix.triple_malloc (p : Seen → Prop) {E : Fault → Prop} :
    Triple (fun st => p (st.seen disk)) (Run.call (libc.malloc · n))
      (fun allocated st => allocated = true ∧ p (st.seen disk)) E :=
  h.allocates.triple_malloc n p

end Malloc

def readPieces (size : Nat) : Nat → List UInt8 → List (List UInt8)
  | 0, _ => []
  | _ + 1, [] => []
  | n + 1, content => content.take size :: readPieces size n (content.drop size)

theorem reads_readPieces {size : Nat} (hsize : 0 < size) (n : Nat) {content : List UInt8}
    (hn : content.length ≤ n) : Reads size content (readPieces size n content) := by
  induction n generalizing content with
  | zero =>
      obtain rfl : content = [] := List.eq_nil_of_length_eq_zero (by omega)
      exact .nothing
  | succ n ih =>
      cases content with
      | nil => exact .nothing
      | cons byte content =>
          rw [readPieces]
          · have hrest : ((byte :: content).drop size).length ≤ n := by
              rw [List.length_drop]
              omega
            by_cases hlt : (byte :: content).length < size
            · rw [List.take_of_length_le (Nat.le_of_lt hlt), List.drop_of_length_le (Nat.le_of_lt hlt)]
              have hnone : readPieces size n [] = [] := by cases n <;> rfl
              rw [hnone]
              exact .rest (List.cons_ne_nil _ _) hlt
            · have hfull : ((byte :: content).take size).length = size := by
                rw [List.length_take]
                omega
              have hreads := Reads.full hfull (ih hrest)
              rwa [List.take_append_drop] at hreads
          · exact nofun

structure Store where
  disk : Disk
  next : Nat

namespace Store

def put (s : Store) (handle : Nat) (stream : Option Stream) : Store :=
  { s with disk := { s.disk with stream := Function.update s.disk.stream handle stream } }

def keep (s : Store) (path content : List UInt8) : Store :=
  { s with disk := { s.disk with file := Function.update s.disk.file path (some content) } }

def opened (s : Store) (stream : Stream) : Option Nat × Store :=
  (some s.next, { s.put s.next (some stream) with next := s.next + 1 })

def onStream {α : Type} (s : Store) (handle : Nat) (closed : α) (call : Stream → α × Store) : α × Store :=
  match s.disk.stream handle with
  | none => (closed, s)
  | some stream => call stream

end Store

def storeLibc : Libc Store where
  malloc s _ := (true, s)
  access s _ := (true, s)
  mkdir s _ := (true, s)
  fopenWrite s path := (s.keep path []).opened (.create path)
  fopenRead s path := match s.disk.file path with
    | none => (none, s)
    | some content => s.opened ⟨path, content, 0⟩
  fseek s handle offset := s.onStream handle false fun stream =>
    if 0 ≤ offset then (true, s.put handle (some (stream.seek offset.toNat))) else (false, s)
  fwrite s handle dataBuf := s.onStream handle 0 fun stream =>
    (dataBuf.length, s.put handle (some (stream.write dataBuf)))
  freads s handle := s.onStream handle [] fun stream =>
    let rest := stream.content.drop stream.pos
    (readPieces readSize rest.length rest, s.put handle (some (stream.seek stream.content.length)))
  fclose s handle := s.onStream handle () fun stream =>
    ((), (s.keep stream.path stream.content).put handle none)
  chmod s _ := (true, s)
  system s _ := ((), s)
  getifaddrs s := (some [], s)
  gethostname s := (some [], s)
  longBits := 32

theorem storeLibc_posix : storeLibc.Posix Store.disk where
  longBits := Nat.le_refl _
  malloc _ _ := ⟨rfl, rfl⟩
  fopenWrite := by
    rintro s path handle ⟨⟩
    exact Function.update_self ..
  fseek := by
    intro s handle stream offset hstream
    simp only [storeLibc, Store.onStream, hstream]
    rw [if_pos (Int.natCast_nonneg offset)]
    exact ⟨rfl, Function.update_self ..⟩
  fwrite := by
    intro s handle stream dataBuf hstream _
    simp only [storeLibc, Store.onStream, hstream]
    exact ⟨trivial, Function.update_self ..⟩
  fclose := by
    intro s handle stream hstream
    simp only [storeLibc, Store.onStream, hstream]
    exact Function.update_self ..
  fopenRead := by
    intro s path content hfile
    refine ⟨s.next, ?_⟩
    simp only [storeLibc, hfile]
    exact ⟨rfl, Function.update_self ..⟩
  freads := by
    intro s handle path content hstream
    simp only [storeLibc, Store.onStream, hstream]
    exact ⟨reads_readPieces (by decide) _ (Nat.le_refl _), Function.update_self ..⟩

end CccUpgrade
