import CccUpgrade.Lib.TransitionSystem
import CccUpgrade.Network.TcpSocket
import Mathlib.Logic.Function.Basic
import Mathlib.Data.Fintype.Pi

/-! The connection table `l_connect_info` of client_manager.c and the operations
that run under its mutex. -/
namespace CccUpgrade

open Lib

abbrev clientCountMax : Nat := 2

def clientIpLengthMax : Nat := 64

structure ConnectInfo where
  bValid : Bool
  bLogin : Bool
  ix : Int
  sock : Int
  ipAddress : List UInt8
  ipPort : Int
deriving DecidableEq, Repr

abbrev ConnectTable := Fin clientCountMax → ConnectInfo

namespace ConnectTable

def set (conns : ConnectTable) (slot : Fin clientCountMax) (info : ConnectInfo) : ConnectTable :=
  Function.update conns slot info

@[simp] theorem set_self (conns : ConnectTable) (slot : Fin clientCountMax) (info : ConnectInfo) :
    conns.set slot info slot = info :=
  Function.update_self ..

@[simp] theorem set_of_ne (conns : ConnectTable) {slot i : Fin clientCountMax} (h : i ≠ slot)
    (info : ConnectInfo) : conns.set slot info i = conns i :=
  Function.update_of_ne h ..

def slot? (ix : Int) : Option (Fin clientCountMax) :=
  if h : 0 ≤ ix ∧ ix < clientCountMax then some ⟨ix.toNat, by omega⟩ else none

@[simp] theorem slot?_slot (slot : Fin clientCountMax) : slot? slot.val = some slot := by
  unfold slot?
  rw [dif_pos (by omega)]
  simp

theorem slot?_eq_some {ix : Int} {slot : Fin clientCountMax} (h : slot? ix = some slot) :
    ix = slot.val := by
  unfold slot? at h
  split at h
  · cases h
    simp
    omega
  · cases h

def other (slot : Fin clientCountMax) : Fin clientCountMax := if slot = 0 then 1 else 0

@[simp] theorem other_ne (slot : Fin clientCountMax) : other slot ≠ slot := by
  revert slot
  decide

theorem eq_other {slot i : Fin clientCountMax} (h : i ≠ slot) : i = other slot := by
  revert slot i
  decide

end ConnectTable

open ConnectTable

structure TableCall where
  result : Bool
  conns : ConnectTable
  closed : Option Int
deriving DecidableEq

def internalClientManagerClose (conns : ConnectTable) (ix : Int) : TableCall :=
  match slot? ix with
  | none => ⟨false, conns, none⟩
  | some slot =>
      ⟨true, conns.set slot { conns slot with bValid := false, bLogin := false, sock := -1 },
        tcpClose (conns slot).sock⟩

/-- The slot of a new connection: if the first slot holds a logged-in connection
the second is assumed to hold none. -/
def newSlot (conns : ConnectTable) : Fin clientCountMax :=
  if (conns 0).bValid ∧ (conns 0).bLogin then 1 else 0

/-- `internal_client_manager_new`: the slot returned, `none` for NULL. The string
`ipAddr` is given without its NUL. -/
def internalClientManagerNew (conns : ConnectTable) (sock : Int) (ipAddr : Option (List UInt8))
    (ipPort : Int) : Option (Fin clientCountMax) × ConnectTable :=
  match ipAddr with
  | none => (none, conns)
  | some ipAddr =>
      if ipAddr.length ≤ 0 then (none, conns)
      else if clientIpLengthMax < ipAddr.length then (none, conns)
      else
        let slot := newSlot conns
        (some slot, conns.set slot
          { conns slot with ipAddress := ipAddr, sock := sock, ipPort := ipPort, bValid := true })

/-- `internal_client_manager_login`: a connection that logs in closes the other. -/
def internalClientManagerLogin (conns : ConnectTable) (ix : Int) : TableCall :=
  match slot? ix with
  | none => ⟨false, conns, none⟩
  | some slot =>
      if (conns slot).bValid = false then ⟨false, conns, none⟩
      else
        let call := internalClientManagerClose conns (other slot).val
        if call.result = false then ⟨false, call.conns, call.closed⟩
        else ⟨true, call.conns.set slot { call.conns slot with bLogin := true }, call.closed⟩

/-- `internal_client_manager_send`. It does not write to the table. -/
def internalClientManagerSend (kernel : Nat → Int) (conns : ConnectTable) (ix : Int)
    (buffer : Option (List UInt8)) (dataLen : Int) : TcpSend :=
  match slot? ix with
  | none => ⟨false, []⟩
  | some slot =>
      if (conns slot).bValid = false then ⟨false, []⟩
      else tcpSend kernel (conns slot).sock buffer dataLen

/-- `client_manager_reg`: whether it returns 1, and the table it leaves. -/
def clientManagerReg (conns : ConnectTable) (sock : Int) (ipAddr : Option (List UInt8))
    (ipPort : Int) (threadCreated : Bool) : Bool × ConnectTable :=
  match internalClientManagerNew conns sock ipAddr ipPort with
  | (none, conns) => (false, conns)
  | (some _, conns) =>
      if threadCreated = false then (false, conns)
      else (true, conns)

def clientManagerInit (conns : ConnectTable) : ConnectTable := fun k =>
  { conns k with ix := k.val, bValid := false, bLogin := false, sock := -1 }

def ConnectInfo.closed (info : ConnectInfo) : ConnectInfo :=
  { info with bValid := false, bLogin := false, sock := -1 }

theorem close_slot (conns : ConnectTable) (slot : Fin clientCountMax) :
    internalClientManagerClose conns slot.val =
      ⟨true, conns.set slot (conns slot).closed, tcpClose (conns slot).sock⟩ := by
  simp only [internalClientManagerClose, slot?_slot]
  rfl

theorem close_cases (conns : ConnectTable) (ix : Int) :
    internalClientManagerClose conns ix = ⟨false, conns, none⟩ ∨
      ∃ slot : Fin clientCountMax, ix = slot.val ∧ internalClientManagerClose conns ix =
        ⟨true, conns.set slot (conns slot).closed, tcpClose (conns slot).sock⟩ := by
  cases hslot : slot? ix with
  | none =>
      left
      simp only [internalClientManagerClose, hslot]
  | some slot =>
      right
      rw [slot?_eq_some hslot]
      exact ⟨slot, rfl, close_slot conns slot⟩

def ConnectInfo.connected (info : ConnectInfo) (sock : Int) (ipAddr : List UInt8) (ipPort : Int) :
    ConnectInfo :=
  { info with ipAddress := ipAddr, sock := sock, ipPort := ipPort, bValid := true }

theorem new_cases (conns : ConnectTable) (sock : Int) (ipAddr : Option (List UInt8))
    (ipPort : Int) :
    internalClientManagerNew conns sock ipAddr ipPort = (none, conns) ∨
      ∃ addr, internalClientManagerNew conns sock ipAddr ipPort = (some (newSlot conns),
        conns.set (newSlot conns) ((conns (newSlot conns)).connected sock addr ipPort)) := by
  cases ipAddr with
  | none => exact .inl rfl
  | some addr =>
      simp only [internalClientManagerNew]
      split
      · exact .inl rfl
      split
      · exact .inl rfl
      exact .inr ⟨addr, rfl⟩

def loggedIn (conns : ConnectTable) (slot : Fin clientCountMax) : ConnectTable :=
  (conns.set (other slot) (conns (other slot)).closed).set slot { conns slot with bLogin := true }

theorem loggedIn_self (conns : ConnectTable) (slot : Fin clientCountMax) :
    loggedIn conns slot slot = { conns slot with bLogin := true } :=
  set_self ..

theorem loggedIn_of_ne (conns : ConnectTable) {slot i : Fin clientCountMax} (hi : i ≠ slot) :
    loggedIn conns slot i = (conns i).closed := by
  obtain rfl := eq_other hi
  rw [loggedIn, set_of_ne _ hi, set_self]

theorem login_cases (conns : ConnectTable) (ix : Int) :
    internalClientManagerLogin conns ix = ⟨false, conns, none⟩ ∨
      ∃ slot : Fin clientCountMax, ix = slot.val ∧ (conns slot).bValid = true ∧
        internalClientManagerLogin conns ix =
          ⟨true, loggedIn conns slot, tcpClose (conns (other slot)).sock⟩ := by
  cases hslot : slot? ix with
  | none =>
      left
      simp only [internalClientManagerLogin, hslot]
  | some slot =>
      simp only [internalClientManagerLogin, hslot]
      by_cases hvalid : (conns slot).bValid = false
      · rw [if_pos hvalid]
        exact .inl rfl
      · rw [if_neg hvalid, close_slot]
        refine .inr ⟨slot, slot?_eq_some hslot, by simpa using hvalid, ?_⟩
        simp [loggedIn, (other_ne slot).symm]

structure ConnectTable.Ok (conns : ConnectTable) : Prop where
  single : ∀ i j, (conns i).bLogin = true → (conns j).bLogin = true → i = j
  valid : ∀ i, (conns i).bLogin = true → (conns i).bValid = true
  sock : ∀ i, (conns i).bValid = false → (conns i).sock = -1
  ix : ∀ i, (conns i).ix = i.val

namespace ConnectTable.Ok

variable {conns : ConnectTable}

theorem init (conns : ConnectTable) : (clientManagerInit conns).Ok where
  single _ _ h := by cases h
  valid _ h := by cases h
  sock _ _ := rfl
  ix _ := rfl

theorem newSlot_bLogin (h : conns.Ok) : (conns (newSlot conns)).bLogin = false := by
  unfold newSlot
  by_cases hfirst : (conns 0).bLogin = true
  · rw [if_pos ⟨h.valid 0 hfirst, hfirst⟩]
    by_contra hsecond
    have := h.single 0 1 hfirst (by simpa using hsecond)
    cases this
  · rw [if_neg fun hboth => hfirst hboth.2]
    simpa using hfirst

theorem set_of_not_login (h : conns.Ok) {slot : Fin clientCountMax} {info : ConnectInfo}
    (hlogin : info.bLogin = false) (hsock : info.bValid = false → info.sock = -1)
    (hix : info.ix = slot.val) : (conns.set slot info).Ok := by
  have hcase : ∀ i, i = slot ∧ conns.set slot info i = info ∨
      i ≠ slot ∧ conns.set slot info i = conns i := by
    intro i
    by_cases hi : i = slot
    · subst hi
      exact .inl ⟨rfl, set_self ..⟩
    · exact .inr ⟨hi, set_of_ne conns hi info⟩
  constructor
  case single =>
    intro i j hi hj
    rcases hcase i with ⟨rfl, heq⟩ | ⟨-, heq⟩
    · rw [heq, hlogin] at hi
      cases hi
    · rcases hcase j with ⟨rfl, heq'⟩ | ⟨-, heq'⟩
      · rw [heq', hlogin] at hj
        cases hj
      · rw [heq] at hi
        rw [heq'] at hj
        exact h.single i j hi hj
  case valid =>
    intro i hi
    rcases hcase i with ⟨rfl, heq⟩ | ⟨-, heq⟩ <;> rw [heq] at hi ⊢
    · rw [hlogin] at hi
      cases hi
    · exact h.valid i hi
  case sock =>
    intro i hi
    rcases hcase i with ⟨rfl, heq⟩ | ⟨-, heq⟩ <;> rw [heq] at hi ⊢
    · exact hsock hi
    · exact h.sock i hi
  case ix =>
    intro i
    rcases hcase i with ⟨rfl, heq⟩ | ⟨-, heq⟩ <;> rw [heq]
    · exact hix
    · exact h.ix i

theorem close (h : conns.Ok) (ix : Int) : (internalClientManagerClose conns ix).conns.Ok := by
  rcases close_cases conns ix with heq | ⟨slot, -, heq⟩ <;> rw [heq]
  · exact h
  · exact h.set_of_not_login rfl (fun _ => rfl) (h.ix slot)

theorem new (h : conns.Ok) (sock : Int) (ipAddr : Option (List UInt8)) (ipPort : Int) :
    (internalClientManagerNew conns sock ipAddr ipPort).2.Ok := by
  rcases new_cases conns sock ipAddr ipPort with heq | ⟨addr, heq⟩ <;> rw [heq]
  · exact h
  · exact h.set_of_not_login h.newSlot_bLogin (by simp [ConnectInfo.connected])
      (h.ix (newSlot conns))

theorem loggedIn (h : conns.Ok) {slot : Fin clientCountMax} (hvalid : (conns slot).bValid = true) :
    (loggedIn conns slot).Ok := by
  have hlogin : ∀ i, (CccUpgrade.loggedIn conns slot i).bLogin = true → i = slot := by
    intro i hi
    by_contra hne
    rw [loggedIn_of_ne conns hne] at hi
    cases hi
  constructor
  case single =>
    intro i j hi hj
    rw [hlogin i hi, hlogin j hj]
  case valid =>
    intro i hi
    rw [hlogin i hi, loggedIn_self]
    exact hvalid
  case sock =>
    intro i hi
    by_cases hne : i = slot
    · rw [hne, loggedIn_self] at hi
      exact absurd hvalid (by simpa using hi)
    · rw [loggedIn_of_ne conns hne]
      rfl
  case ix =>
    intro i
    by_cases hne : i = slot
    · rw [hne, loggedIn_self]
      exact h.ix slot
    · rw [loggedIn_of_ne conns hne]
      exact h.ix i

theorem login (h : conns.Ok) (ix : Int) : (internalClientManagerLogin conns ix).conns.Ok := by
  rcases login_cases conns ix with heq | ⟨slot, -, hvalid, heq⟩ <;> rw [heq]
  · exact h
  · exact h.loggedIn hvalid

end ConnectTable.Ok

inductive TableOp
  | new (sock : Int) (ipAddr : Option (List UInt8)) (ipPort : Int)
  | login (ix : Int)
  | close (ix : Int)
  | send (kernel : Nat → Int) (ix : Int) (buffer : Option (List UInt8)) (dataLen : Int)

def TableOp.run (conns : ConnectTable) : TableOp → Bool × ConnectTable
  | .new sock ipAddr ipPort =>
      let r := internalClientManagerNew conns sock ipAddr ipPort
      (r.1.isSome, r.2)
  | .login ix =>
      let r := internalClientManagerLogin conns ix
      (r.result, r.conns)
  | .close ix =>
      let r := internalClientManagerClose conns ix
      (r.result, r.conns)
  | .send kernel ix buffer dataLen =>
      ((internalClientManagerSend kernel conns ix buffer dataLen).result, conns)

def connectTable (prior : ConnectTable) : TransitionSystem ConnectTable TableOp where
  init := clientManagerInit prior
  step conns op := some (op.run conns).2

/-- Sockets come from `accept` and are positive. -/
def TableOp.Accepted (_ : ConnectTable) : TableOp → Prop
  | .new sock _ _ => 0 < sock
  | _ => True

theorem TableOp.run_failed {conns : ConnectTable} {op : TableOp} (h : (op.run conns).1 = false) :
    (op.run conns).2 = conns := by
  cases op with
  | new sock ipAddr ipPort =>
      simp only [TableOp.run] at h ⊢
      rcases new_cases conns sock ipAddr ipPort with heq | ⟨addr, heq⟩ <;> rw [heq] at h ⊢
      cases h
  | login ix =>
      simp only [TableOp.run] at h ⊢
      rcases login_cases conns ix with heq | ⟨slot, -, -, heq⟩ <;> rw [heq] at h ⊢
      cases h
  | close ix =>
      simp only [TableOp.run] at h ⊢
      rcases close_cases conns ix with heq | ⟨slot, -, heq⟩ <;> rw [heq] at h ⊢
      cases h
  | send => rfl

theorem TableOp.run_ok {conns : ConnectTable} (h : conns.Ok) (op : TableOp) :
    (op.run conns).2.Ok := by
  cases op with
  | new sock ipAddr ipPort => exact h.new sock ipAddr ipPort
  | login ix => exact h.login ix
  | close ix => exact h.close ix
  | send => exact h

/-- In every table reached from `client_manager_init` at most one slot is logged in
and only valid slots are; invalid slots hold no socket and every slot knows its
position. A new connection gets a slot that is not logged in and changes none that
is, a login leaves the other slot invalid, and what fails changes nothing. -/
theorem connect_table {prior conns : ConnectTable}
    (hreach : (connectTable prior).ReachableBy TableOp.Accepted conns) :
    conns.Ok ∧
      (∀ sock ipAddr ipPort slot conns', 0 < sock →
        internalClientManagerNew conns sock ipAddr ipPort = (some slot, conns') →
        (conns' slot).bLogin = false ∧ ∀ i, (conns i).bLogin = true → conns' i = conns i) ∧
      (∀ ix, (internalClientManagerLogin conns ix).result = true →
        ∃ slot : Fin clientCountMax, ix = slot.val ∧
          ∀ i, i ≠ slot → ((internalClientManagerLogin conns ix).conns i).bValid = false) ∧
      ∀ op : TableOp, (op.run conns).1 = false → (op.run conns).2 = conns := by
  have hok : conns.Ok := by
    apply hreach.invariant (.init prior)
    intro s op s' _ hs _ hstep
    cases hstep
    exact TableOp.run_ok hs op
  refine ⟨hok, ?_, ?_, fun op => TableOp.run_failed⟩
  · intro sock ipAddr ipPort slot conns' _ hnew
    rcases new_cases conns sock ipAddr ipPort with heq | ⟨addr, heq⟩
    · rw [heq] at hnew
      cases hnew
    · rw [heq] at hnew
      cases hnew
      refine ⟨?_, fun i hi => set_of_ne conns ?_ _⟩
      · rw [set_self]
        exact hok.newSlot_bLogin
      · rintro rfl
        rw [hok.newSlot_bLogin] at hi
        cases hi
  · intro ix hresult
    rcases login_cases conns ix with heq | ⟨slot, hix, -, heq⟩
    · rw [heq] at hresult
      cases hresult
    · refine ⟨slot, hix, fun i hi => ?_⟩
      rw [heq]
      change (CccUpgrade.loggedIn conns slot i).bValid = false
      rw [loggedIn_of_ne conns hi]
      rfl

def ConnectTable.zero : ConnectTable := fun _ => ⟨false, false, 0, 0, [], 0⟩

/-- One client has connected and logged in, and another connects. -/
theorem connect_table_second :
    let conns := loggedIn (internalClientManagerNew (clientManagerInit .zero) 5
      (some [0x31]) 4000).2 0
    conns.Ok ∧ (((internalClientManagerNew conns 6 (some [0x32]) 4001).2 1).bLogin = false) ∧
      (internalClientManagerNew conns 6 (some [0x32]) 4001).2 0 = conns 0 := by
  intro conns
  have hreach : (connectTable .zero).ReachableBy TableOp.Accepted conns :=
    .step (a := .login 0) (.step (a := .new 5 (some [0x31]) 4000) .init
      (show (0 : Int) < 5 by decide) rfl)
      trivial rfl
  obtain ⟨hok, hnew, -, -⟩ := connect_table hreach
  obtain ⟨hlogin, hkept⟩ := hnew 6 (some [0x32]) 4001 1 _ (by decide) rfl
  exact ⟨hok, hlogin, hkept 0 rfl⟩

end CccUpgrade
