import CccUpgrade.Lib.Heap
import CccUpgrade.Lib.Triple
import CccUpgrade.Utils.Memory

/-! The state the request handlers work on: the C library as it answers them, the
heap strings that outlive a request, the globals of upload_file.c and
protocol_adapter.c, and what the handlers pass on to the network. -/
namespace CccUpgrade

open Lib

/-- One entry of `getifaddrs`; `addr` is the address in dotted form for `AF_INET`,
empty for another family, and `none` for a NULL pointer. -/
structure IfAddr where
  name : List UInt8
  running : Bool
  addr : Option (Option (List UInt8))
deriving DecidableEq, Repr

/-- The operations of the C library and the system, over any environment. Paths and
other strings are given without their NUL, `true` is the return value for success
and `none` is NULL or failure. -/
structure Libc (φ : Type) where
  malloc : φ → Nat → Bool × φ
  access : φ → List UInt8 → Bool × φ
  mkdir : φ → List UInt8 → Bool × φ
  /-- `fopen(path, "w+")`. -/
  fopenWrite : φ → List UInt8 → Option Nat × φ
  /-- `fopen(path, "r")`. -/
  fopenRead : φ → List UInt8 → Option Nat × φ
  fseek : φ → Nat → Int → Bool × φ
  fwrite : φ → Nat → List UInt8 → Nat × φ
  /-- What the calls of `fread` deliver, one after the other, until one delivers nothing. -/
  freads : φ → Nat → List (List UInt8) × φ
  fclose : φ → Nat → Unit × φ
  chmod : φ → List UInt8 → Bool × φ
  system : φ → List UInt8 → Unit × φ
  getifaddrs : φ → Option (List IfAddr) × φ
  gethostname : φ → Option (List UInt8) × φ
  /-- The width of `long int`. -/
  longBits : Nat

structure UploadFile where
  filename : Option Nat
  filenameTx : Option Nat
  fileHandle : Option Nat
deriving DecidableEq, Repr

/-- A call into the network modules. The handle is that of the request. -/
inductive Effect
  /-- `network_manager_client_set_login`. -/
  | setLogin
  | replyToClient (cmd cmdEx : UInt8) (data : List UInt8)
  | replyToUdp (cmd cmdEx : UInt8) (data : List UInt8)
deriving DecidableEq, Repr

structure Machine (φ : Type) where
  env : φ
  heap : Heap (List UInt8)
  /-- `l_upload_current`. -/
  upload : UploadFile
  upgradeTempDir : Option (List UInt8)
  /-- The calls made while the current PDU is processed. -/
  effects : List Effect

abbrev Run (φ : Type) := StateT (Machine φ) (Except Fault)

namespace Run

variable {φ : Type}

def fault {α : Type} (f : Fault) : Run φ α := throw f

def call {α : Type} (op : φ → α × φ) : Run φ α := fun st =>
  .ok ((op st.env).1, { st with env := (op st.env).2 })

def store (content : List UInt8) : Run φ Nat := fun st =>
  .ok ((st.heap.alloc content).1, { st with heap := (st.heap.alloc content).2 })

def load (token : Nat) : Run φ (List UInt8) := fun st =>
  match st.heap.read token with
  | some content => .ok (content, st)
  | none => .error (.useAfterFree token)

def free (token : Option Nat) : Run φ Unit := fun st =>
  match token with
  | none => .ok ((), st)
  | some token =>
      match st.heap.free token with
      | some heap => .ok ((), { st with heap := heap })
      | none => .error (.doubleFree token)

def getUpload : Run φ UploadFile := fun st => .ok (st.upload, st)

def setUpload (upload : UploadFile) : Run φ Unit := fun st =>
  .ok ((), { st with upload := upload })

def upgradeTempDir : Run φ (Option (List UInt8)) := fun st => .ok (st.upgradeTempDir, st)

def emit (effect : Effect) : Run φ Unit := fun st =>
  .ok ((), { st with effects := st.effects ++ [effect] })

/-- A read or write that is undefined when it leaves its buffer. -/
def checked {α : Type} (result : Except Fault α) : Run φ α := fun st =>
  match result with
  | .ok a => .ok (a, st)
  | .error f => .error f

end Run

def Fault.ofHeap : Fault → Bool
  | useAfterFree _ | doubleFree _ => true
  | _ => false

def Fault.NotOfHeap (f : Fault) : Prop := f.ofHeap = false

abbrev anyFault (_ : Fault) : Prop := True

abbrev noFault (_ : Fault) : Prop := False

/-- The part of the state that says which strings are live and which of them the
upload globals hold. -/
abbrev Files := Heap (List UInt8) × UploadFile

def Machine.files {φ : Type} (st : Machine φ) : Files :=
  (st.heap, st.upload)

/-- A view of the state that calls of the C library do not change. -/
def EnvFree {φ γ : Type} (view : Machine φ → γ) : Prop :=
  ∀ st env, view { st with env := env } = view st

/-- A view of the state that one operation of the C library does not change. -/
def Blind {φ γ α : Type} (view : Machine φ → γ) (op : φ → α × φ) : Prop :=
  ∀ st, view { st with env := (op st.env).2 } = view st

/-- A view that the operations do not change that neither open, write nor run a file. -/
structure Libc.Silent {φ γ : Type} (libc : Libc φ) (view : Machine φ → γ) : Prop where
  malloc : ∀ n, Blind view (libc.malloc · n)
  access : ∀ path, Blind view (libc.access · path)
  mkdir : ∀ path, Blind view (libc.mkdir · path)
  freads : ∀ fd, Blind view (libc.freads · fd)
  getifaddrs : Blind view libc.getifaddrs
  gethostname : Blind view libc.gethostname

theorem EnvFree.blind {φ γ α : Type} {view : Machine φ → γ} (h : EnvFree view) (op : φ → α × φ) :
    Blind view op := fun st => h st _

theorem EnvFree.silent {φ γ : Type} {view : Machine φ → γ} (h : EnvFree view) (libc : Libc φ) :
    libc.Silent view :=
  ⟨fun _ => h.blind _, fun _ => h.blind _, fun _ => h.blind _, fun _ => h.blind _, h.blind _, h.blind _⟩

def HeapFree {φ γ : Type} (view : Machine φ → γ) : Prop :=
  ∀ st heap, view { st with heap := heap } = view st

def EffectFree {φ γ : Type} (view : Machine φ → γ) : Prop :=
  ∀ st effects, view { st with effects := effects } = view st

structure Outer {φ γ : Type} (view : Machine φ → γ) : Prop where
  heap : HeapFree view
  upload : ∀ st upload, view { st with upload := upload } = view st

theorem outer_effects {φ : Type} : Outer (Machine.effects : Machine φ → List Effect) :=
  ⟨fun _ _ => rfl, fun _ _ => rfl⟩

theorem Libc.silent_unit {φ : Type} (libc : Libc φ) : libc.Silent fun _ => () :=
  ⟨fun _ _ => rfl, fun _ _ => rfl, fun _ _ => rfl, fun _ _ => rfl, fun _ => rfl, fun _ => rfl⟩

theorem outer_unit {φ : Type} : Outer fun _ : Machine φ => () := ⟨fun _ _ => rfl, fun _ _ => rfl⟩

theorem envFree_files {φ : Type} : EnvFree (Machine.files : Machine φ → Files) := fun _ _ => rfl

theorem effectFree_files {φ : Type} : EffectFree (Machine.files : Machine φ → Files) := fun _ _ => rfl

theorem envFree_effects {φ : Type} : EnvFree (Machine.effects : Machine φ → List Effect) := fun _ _ => rfl

namespace Run

variable {φ α : Type} {E : Fault → Prop} {P : Machine φ → Prop}

theorem bind_ok {β : Type} {m : Run φ α} {f : α → Run φ β} {st st' : Machine φ} {a : α}
    (h : m st = .ok (a, st')) : (m >>= f) st = f a st' := by
  change (m st >>= fun r => f r.1 r.2) = _
  rw [h]
  rfl

theorem call_bind {β : Type} {op : φ → α × φ} {f : α → Run φ β} {st : Machine φ} :
    (call op >>= f) st = f (op st.env).1 { st with env := (op st.env).2 } :=
  bind_ok rfl

theorem bind_error {β : Type} {m : Run φ α} {f : α → Run φ β} {st : Machine φ} {e : Fault}
    (h : m st = .error e) : (m >>= f) st = .error e := by
  change (m st >>= fun r => f r.1 r.2) = _
  rw [h]
  rfl

section Keeps

variable {γ : Type} {view : Machine φ → γ}

theorem keeps_fault {f : Fault} (h : E f) : Keeps view E (fault f : Run φ α) :=
  Keeps.throw h

theorem keeps_call {op : φ → α × φ} (hop : Blind view op) : Keeps view E (call op) := by
  rintro v st rfl
  exact hop st

theorem keeps_upgradeTempDir : Keeps view E (upgradeTempDir : Run φ (Option (List UInt8))) :=
  fun _ _ hs => hs

theorem keeps_getUpload : Keeps view E (getUpload : Run φ UploadFile) :=
  fun _ _ hs => hs

theorem keeps_store (hview : HeapFree view) (content : List UInt8) :
    Keeps view E (store content : Run φ Nat) := by
  rintro v st rfl
  exact hview st _

theorem keeps_setUpload (hview : Outer view) (upload : UploadFile) :
    Keeps view E (setUpload upload : Run φ Unit) := by
  rintro v st rfl
  exact hview.upload st _

theorem keeps_load (token : Nat) (hE : E (.useAfterFree token)) :
    Keeps view E (load token : Run φ (List UInt8)) := by
  intro v st hs
  unfold load
  cases st.heap.read token with
  | some content => exact hs
  | none => exact hE

theorem keeps_free (hview : HeapFree view) (token : Option Nat)
    (hE : ∀ t, token = some t → E (.doubleFree t)) : Keeps view E (free token : Run φ Unit) := by
  rintro v st rfl
  unfold free
  cases token with
  | none => rfl
  | some token =>
      cases hfree : st.heap.free token with
      | some heap =>
          simp only [hfree]
          exact hview st heap
      | none =>
          simp only [hfree]
          exact hE token rfl

theorem keeps_emit (hview : EffectFree view) (effect : Effect) :
    Keeps view E (emit effect : Run φ Unit) := by
  rintro v st rfl
  exact hview st _

theorem keeps_checked {result : Except Fault α} (herror : ∀ f, result = .error f → E f) :
    Keeps view E (checked result : Run φ α) := by
  intro v st hs
  cases result with
  | ok a => exact hs
  | error f => exact herror f rfl

end Keeps

theorem triple_checked {result : Except Fault α} (herror : ∀ f, result = .error f → E f) :
    Triple P (checked result : Run φ α) (fun a st => result = .ok a ∧ P st) E := by
  intro st hs
  cases result with
  | ok a => exact ⟨rfl, hs⟩
  | error f => exact herror f rfl

theorem triple_checked_ok {β : Type} {a : α} {f : α → Run φ β} {Q : β → Machine φ → Prop}
    (h : Triple P (f a) Q E) : Triple P (checked (.ok a) >>= f) Q E := h

theorem triple_getUpload :
    Triple P getUpload (fun upload st => P st ∧ upload = st.upload) E :=
  fun _ hs => ⟨hs, rfl⟩

theorem triple_setUpload (upload : UploadFile) :
    Triple (fun st => P { st with upload := upload }) (setUpload upload) (fun _ => P) E :=
  fun _ hs => hs

theorem triple_store (content : List UInt8) {Q : Nat → Machine φ → Prop} :
    Triple (fun st => Q (st.heap.alloc content).1 { st with heap := (st.heap.alloc content).2 })
      (store content) Q E :=
  fun _ hs => hs

theorem triple_load {v : Files} {token : Nat} (hlive : v.1.Live token) :
    Triple (fun st => st.files = v) (load token : Run φ (List UInt8)) (fun _ st => st.files = v)
      E := by
  rintro st rfl
  obtain ⟨content, hread⟩ := hlive
  change st.heap.read token = some content at hread
  simp only [load, hread]

theorem triple_free_none : Triple P (free none : Run φ Unit) (fun _ => P) E := fun _ hs => hs

theorem triple_free (token : Nat) :
    Triple (fun st => st.heap.Live token ∧
        ∀ heap, st.heap.free token = some heap → P { st with heap := heap })
      (free (some token)) (fun _ => P) E := by
  rintro st ⟨hlive, hs⟩
  obtain ⟨heap, hfree, -⟩ := hlive.free
  simp only [free, hfree]
  exact hs heap hfree

end Run

end CccUpgrade
