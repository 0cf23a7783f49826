import CccUpgrade.Machine

/-! The calls a run makes to open, write, close or run files. Any C library can be
watched: it answers as before, but handles are numbered in the order they are given
out, so that each opened file has an identity of its own, and the calls are noted. -/
namespace CccUpgrade

inductive SysCall
  | fopenWrite (path : List UInt8) (handle : Option Nat)
  | fopenRead (path : List UInt8) (handle : Option Nat)
  | fseek (handle : Nat) (offset : Int)
  | fwrite (handle : Nat) (dataBuf : List UInt8)
  | fclose (handle : Nat)
  | chmod (path : List UInt8)
  | system (command : List UInt8)
deriving DecidableEq, Repr

structure Traced (φ : Type) where
  env : φ
  /-- What stands in `env` for each handle given out so far. -/
  handles : List Nat
  calls : List SysCall

namespace Traced

variable {φ : Type}

def start (env : φ) : Traced φ := ⟨env, [], []⟩

def pass {α : Type} (t : Traced φ) (r : α × φ) : α × Traced φ := (r.1, { t with env := r.2 })

def note {α : Type} (t : Traced φ) (call : SysCall) (r : α × φ) : α × Traced φ :=
  (r.1, { t with env := r.2, calls := t.calls ++ [call] })

def opened (t : Traced φ) (call : Option Nat → SysCall) (r : Option Nat × φ) :
    Option Nat × Traced φ :=
  match r.1 with
  | none => (none, { t with env := r.2, calls := t.calls ++ [call none] })
  | some handle =>
      (some t.handles.length,
        ⟨r.2, t.handles ++ [handle], t.calls ++ [call (some t.handles.length)]⟩)

def handle (t : Traced φ) (n : Nat) : Nat := t.handles.getD n 0

end Traced

def Libc.traced {φ : Type} (libc : Libc φ) : Libc (Traced φ) where
  malloc t n := t.pass (libc.malloc t.env n)
  access t path := t.pass (libc.access t.env path)
  mkdir t path := t.pass (libc.mkdir t.env path)
  fopenWrite t path := t.opened (.fopenWrite path) (libc.fopenWrite t.env path)
  fopenRead t path := t.opened (.fopenRead path) (libc.fopenRead t.env path)
  fseek t n offset := t.note (.fseek n offset) (libc.fseek t.env (t.handle n) offset)
  fwrite t n dataBuf := t.note (.fwrite n dataBuf) (libc.fwrite t.env (t.handle n) dataBuf)
  freads t n := t.pass (libc.freads t.env (t.handle n))
  fclose t n := t.note (.fclose n) (libc.fclose t.env (t.handle n))
  chmod t path := t.note (.chmod path) (libc.chmod t.env path)
  system t command := t.note (.system command) (libc.system t.env command)
  getifaddrs t := t.pass (libc.getifaddrs t.env)
  gethostname t := t.pass (libc.gethostname t.env)
  longBits := libc.longBits

theorem Libc.traced_silent {φ γ : Type} (libc : Libc φ) {view : Machine (Traced φ) → γ}
    (hview : ∀ st env, view { st with env := { st.env with env := env } } = view st) :
    libc.traced.Silent view :=
  ⟨fun _ _ => hview _ _, fun _ _ => hview _ _, fun _ _ => hview _ _, fun _ _ => hview _ _,
    fun _ => hview _ _, fun _ => hview _ _⟩

def Machine.calls {φ : Type} (st : Machine (Traced φ)) : List SysCall := st.env.calls

theorem outer_calls {φ : Type} : Outer (Machine.calls : Machine (Traced φ) → List SysCall) :=
  ⟨fun _ _ => rfl, fun _ _ => rfl⟩

theorem silent_calls {φ : Type} {libc : Libc φ} : libc.traced.Silent Machine.calls :=
  libc.traced_silent fun _ _ => rfl

def tracedMachine (dir : Option (List UInt8)) : Machine (Traced Unit) :=
  ⟨.start (), .empty, ⟨none, none, none⟩, dir, []⟩

end CccUpgrade
