import CccUpgrade.Server.Ledger

/-! When an upload or upgrade request is let through. The login mark is read once for
each chunk, when it is handed to the callback, and every request of that chunk goes by
what was read then, in every run. -/
namespace CccUpgrade

open Lib ConnectTable

variable {φ : Type}

/-- A request that `process_protocol_pdu_after_login` is there for. -/
def PDU.NeedsLogin (pdu : PDU) : Prop := pdu.cmd = pcsUploadFile ∨ pdu.cmd = pcsUpgrade

theorem PDU.NeedsLogin.process {pdu : PDU} (h : pdu.NeedsLogin) (libc : Libc φ) (bLogin : Bool) :
    processProtocolPdu libc pdu bLogin =
      if bLogin = true then processProtocolPduAfterLogin libc pdu else pure () := by
  have hbranch : pdu.branch bLogin = if bLogin = true then .afterLogin else .notLogin := by
    unfold PDU.branch
    rcases h with h | h <;> rw [h] <;> cases bLogin <;> decide
  unfold processProtocolPdu
  rw [hbranch]
  cases bLogin <;> rfl

/-- The `b_login` that a thread read when it handed over its latest chunk. -/
def loginRead (thread : Nat) : List Event → Option Bool
  | [] => none
  | .handed thread' _ _ info :: log =>
      if thread' = thread then some info.bLogin else loginRead thread log
  | .registered _ :: log => loginRead thread log
  | .processed .. :: log => loginRead thread log
  | .replied .. :: log => loginRead thread log
  | .closed .. :: log => loginRead thread log

def Phase.GoesBy (read : Option Bool) : Phase → Prop
  | .callback cb => read = some cb.bLogin
  | _ => True

theorem Phase.GoesBy.callback {read : Option Bool} {phase : Phase} (h : phase.GoesBy read)
    {cb : Callback} (hphase : phase = .callback cb) (todo : List PDU) (effects : List Effect) :
    (Phase.callback { cb with todo := todo, effects := effects }).GoesBy read := by
  rwa [hphase] at h

namespace Server

variable {s s' : Server φ}

def GoesByReads (threads : Nat → Option Thread) (log : List Event) : Prop :=
  ∀ c t, threads c = some t → t.phase.GoesBy (loginRead c log)

theorem GoesByReads.advance {threads : Nat → Option Thread} {log : List Event}
    (h : GoesByReads threads log) (c : Nat) {t : Option Thread}
    (ht : ∀ u, t = some u → u.phase.GoesBy (loginRead c log)) :
    GoesByReads (Function.update threads c t) log := by
  intro d u hu
  rcases update_eq_some.mp hu with ⟨rfl, hnew⟩ | ⟨-, hold⟩
  · exact ht u hnew
  · exact h d u hold

theorem goesByReads_closeSlot (h : GoesByReads s.threads s.log) (slot : Fin clientCountMax)
    (cause : Cause) : GoesByReads (s.closeSlot slot cause).threads (s.closeSlot slot cause).log := by
  rw [closeSlot_threads]
  rcases s.closeSlot_log slot cause with heq | ⟨c, heq⟩ <;> rw [heq] <;> exact h

theorem goesByReads_moved (h : GoesByReads s.threads s.log) {libc : Libc φ} {a : Action}
    (hmoved : s.Moved libc a s') : GoesByReads s'.threads s'.log := by
  cases hmoved with
  | registered =>
      apply GoesByReads.advance h
      rintro _ ⟨⟩
      trivial
  | recv ht hphase =>
      apply GoesByReads.advance h
      rintro _ ⟨⟩
      trivial
  | @chunk thread t bytes packet src ht hphase =>
      intro d u hu
      rcases update_eq_some.mp hu with ⟨rfl, ⟨⟩⟩ | ⟨hd, hu⟩
      · exact if_pos rfl
      · have hsame : loginRead d (.handed thread src bytes (s.conns t.slot) :: s.log) =
            loginRead d s.log := if_neg (Ne.symm hd)
        have hold := h d u hu
        rwa [← hsame] at hold
  | process ht hphase heffects htodo hrun =>
      apply GoesByReads.advance h
      rintro _ ⟨⟩
      exact (h _ _ ht).callback hphase _ _
  | setLogin ht hphase heffects hslot hvalid =>
      apply GoesByReads.advance (goesByReads_closeSlot h _ _)
      rintro _ ⟨⟩
      apply (goesByReads_closeSlot h _ _ _ _ _).callback hphase
      rwa [closeSlot_threads]
  | reply ht hphase heffects hslot hvalid hfd =>
      apply GoesByReads.advance h
      rintro _ ⟨⟩
      exact (h _ _ ht).callback hphase _ _
  | effect ht hphase heffects =>
      apply GoesByReads.advance h
      rintro _ ⟨⟩
      exact (h _ _ ht).callback hphase _ _
  | done ht hphase =>
      apply GoesByReads.advance h
      rintro _ ⟨⟩
      trivial
  | endOfStream =>
      apply GoesByReads.advance (goesByReads_closeSlot h _ _)
      rintro _ ⟨⟩
  | outOfRange =>
      apply GoesByReads.advance h
      rintro _ ⟨⟩
  | rejected | unstarted | processFault | halted => exact h

theorem goesByReads_of_reachable {libc : Libc φ} {machine : Machine φ}
    (h : (server libc machine).Reachable s) : GoesByReads s.threads s.log := by
  induction h with
  | init => exact fun _ _ ht => (by cases ht)
  | step _ _ hstep ih => exact goesByReads_moved ih (step_moved hstep)

def next? (s : Server φ) (thread : Nat) : Option PDU :=
  (s.threads thread).bind fun t => match t.phase with
    | .callback cb => if cb.effects = [] then cb.todo.head? else none
    | _ => none

theorem next?_eq_some {thread : Nat} {pdu : PDU} (h : s.next? thread = some pdu) :
    ∃ t cb todo, s.threads thread = some t ∧ t.phase = .callback cb ∧ cb.effects = [] ∧
      cb.todo = pdu :: todo := by
  obtain ⟨t, ht, h⟩ := Option.bind_eq_some_iff.mp h
  split at h
  next cb hphase =>
    split at h
    next heffects =>
      obtain ⟨todo, htodo⟩ := List.head?_eq_some_iff.mp h
      exact ⟨t, cb, todo, ht, hphase, heffects, htodo⟩
    next => cases h
  · cases h

def effectsOf (s : Server φ) (thread : Nat) : Option (List Effect) :=
  (s.threads thread).bind fun t => match t.phase with
    | .callback cb => some cb.effects
    | _ => none

def Ran (s s' : Server φ) (thread : Nat) (code : Run φ Unit) : Prop :=
  match code { s.machine with effects := [] } with
  | .ok ((), machine) =>
      s'.machine = machine ∧ s'.effectsOf thread = some machine.effects ∧ s'.halted = none
  | .error f => s'.halted = some f

structure PassedOver (s s' : Server φ) (thread : Nat) : Prop where
  machine : s'.machine = { s.machine with effects := [] }
  effects : s'.effectsOf thread = some []
  halted : s'.halted = none

theorem ran_process {libc : Libc φ} {thread : Nat} {t : Thread} {cb : Callback} {pdu : PDU}
    {todo : List PDU} (ht : s.threads thread = some t) (hphase : t.phase = .callback cb)
    (heffects : cb.effects = []) (htodo : cb.todo = pdu :: todo)
    (hstep : s.step libc (.process thread) = some s') :
    s.Ran s' thread (processProtocolPdu libc pdu cb.bLogin) := by
  unfold step at hstep
  split at hstep
  · cases hstep
  next hrunning =>
    have hhalted : s.halted = none := Option.not_isSome_iff_eq_none.mp hrunning
    dsimp only at hstep
    rw [ht, Option.bind_some, process] at hstep
    simp only [hphase, heffects, htodo] at hstep
    unfold Ran
    cases hrun : processProtocolPdu libc pdu cb.bLogin { s.machine with effects := [] } with
    | error f =>
        rw [hrun] at hstep
        cases hstep
        rfl
    | ok r =>
        rw [hrun] at hstep
        cases hstep
        refine ⟨rfl, ?_, hhalted⟩
        simp only [effectsOf, setThread, Function.update_self, Option.bind_some]

/-- In every run, an upload or upgrade request is given to the code behind the login if the
mark that its thread read when it handed over the chunk was set, and passed over if not. -/
theorem upload_authorised {libc : Libc φ} {machine : Machine φ}
    (h : (server libc machine).Reachable s) {thread : Nat} {pdu : PDU}
    (hnext : s.next? thread = some pdu) (hneeds : pdu.NeedsLogin)
    (hstep : s.step libc (.process thread) = some s') :
    ∃ bLogin, loginRead thread s.log = some bLogin ∧
      (bLogin = true → s.Ran s' thread (processProtocolPduAfterLogin libc pdu)) ∧
      (bLogin = false → s.PassedOver s' thread) := by
  obtain ⟨t, cb, todo, ht, hphase, heffects, htodo⟩ := next?_eq_some hnext
  have hread := goesByReads_of_reachable h thread t ht
  have hran := ran_process ht hphase heffects htodo hstep
  rw [hphase] at hread
  rw [hneeds.process] at hran
  refine ⟨cb.bLogin, hread, ?_, ?_⟩
  · intro hlogin
    rwa [if_pos hlogin] at hran
  · intro hlogin
    rw [hlogin, if_neg Bool.false_ne_true] at hran
    exact ⟨hran.1, hran.2.1, hran.2.2⟩

def openUpload : Message := ⟨pcsUploadFile, pcsEx02, literal "fw"⟩

/-- A login and an upload request in one chunk, handled as far as the login. -/
def loginThenUpload : List Action :=
  [firstClient, .recv 0,
    .chunk 0 ((loginRequest "jikongupgrade").frame ++ openUpload.frame) (some freshPdu),
    .process 0, .effect 0 true fun _ => 10, .effect 0 true fun _ => 10]

/-- The upload request of that chunk is passed over, and taken up when it comes again. -/
def uploadAgain : List Action :=
  [.process 0, .done 0, .recv 0, .chunk 0 openUpload.frame (some freshPdu)]

/-- What is at hand, the mark read for it, and the calls it leads to. -/
def outlook (libc : Libc φ) (s : Server φ) : Option (UInt8 × Option Bool × Option (List Effect)) :=
  (s.next? 0).bind fun pdu => (s.step libc (.process 0)).map fun s' =>
    (pdu.cmd, loginRead 0 s.log, s'.effectsOf 0)

theorem outlook_eq_some {libc : Libc φ} {cmd : UInt8} {read : Option Bool}
    {effects : Option (List Effect)} (h : s.outlook libc = some (cmd, read, effects)) :
    ∃ pdu s', s.next? 0 = some pdu ∧ pdu.cmd = cmd ∧ loginRead 0 s.log = read ∧
      s.step libc (.process 0) = some s' ∧ s'.effectsOf 0 = effects := by
  obtain ⟨pdu, hnext, h⟩ := Option.bind_eq_some_iff.mp h
  obtain ⟨s', hstep, h⟩ := Option.map_eq_some_iff.mp h
  cases h
  exact ⟨pdu, s', hnext, rfl, rfl, hstep, rfl⟩

/-- The request that comes again, in a chunk of its own, opens the file. -/
theorem upload_authorised_opens :
    ∃ (s s' : Server Unit) (pdu : PDU), s.next? 0 = some pdu ∧
      s'.effectsOf 0 = some [.replyToClient pcsUploadFile pcsEx02 [pcsExOk]] ∧
      s.Ran s' 0 (processProtocolPduAfterLogin obligingLibc pdu) := by
  have hinit : (server obligingLibc idleMachine).Reachable (Server.init idleMachine) := .init
  obtain ⟨s, hreach, hlook⟩ := hinit.exec (loginThenUpload ++ uploadAgain) (fun _ _ _ => trivial)
    (outlook obligingLibc)
    (b := some (pcsUploadFile, some true, some [.replyToClient pcsUploadFile pcsEx02 [pcsExOk]]))
    (by decide +kernel)
  obtain ⟨pdu, s', hnext, hcmd, hread, hstep, heffects⟩ := outlook_eq_some hlook
  obtain ⟨bLogin, hbLogin, hran, -⟩ := upload_authorised hreach hnext (.inl hcmd) hstep
  obtain rfl : true = bLogin := Option.some.inj (hread.symm.trans hbLogin)
  exact ⟨s, s', pdu, hnext, heffects, hran rfl⟩

def behindLogin (libc : Libc φ) (s : Server φ) : Option (List Effect) :=
  (s.next? 0).bind fun pdu =>
    match processProtocolPduAfterLogin libc pdu { s.machine with effects := [] } with
    | .ok ((), machine) => some machine.effects
    | .error _ => none

theorem Ran.effects {libc : Libc φ} {pdu : PDU} {effects : List Effect} (hnext : s.next? 0 = some pdu)
    (h : s.Ran s' 0 (processProtocolPduAfterLogin libc pdu))
    (hbehind : s.behindLogin libc = some effects) : s'.effectsOf 0 = some effects := by
  unfold behindLogin at hbehind
  rw [hnext, Option.bind_some] at hbehind
  unfold Ran at h
  cases hrun : processProtocolPduAfterLogin libc pdu { s.machine with effects := [] } with
  | error f =>
      rw [hrun] at hbehind
      cases hbehind
  | ok r =>
      rw [hrun] at h hbehind
      cases hbehind
      exact h.2.1

def slotMarks (s : Server φ) : Option (Bool × Bool) :=
  (s.threads 0).map fun t => ((s.conns t.slot).bValid, (s.conns t.slot).bLogin)

/-- An upload request that follows a login in the same chunk goes by the mark from
before the login: it is passed over while its slot is valid and logged in. -/
theorem upload_authorised_stale : ¬ ∀ s s' : Server Unit,
    (server obligingLibc idleMachine).Reachable s → ∀ thread pdu t,
      s.next? thread = some pdu → pdu.NeedsLogin → s.threads thread = some t →
      s.step obligingLibc (.process thread) = some s' →
      (s.Ran s' thread (processProtocolPduAfterLogin obligingLibc pdu) ↔
        (s.conns t.slot).bValid = true ∧ (s.conns t.slot).bLogin = true) := by
  intro hall
  have hinit : (server obligingLibc idleMachine).Reachable (Server.init idleMachine) := .init
  obtain ⟨s, hreach, hs⟩ := hinit.exec loginThenUpload (fun _ _ _ => trivial)
    (fun s => decide (s.outlook obligingLibc = some (pcsUploadFile, some false, some []) ∧
      s.behindLogin obligingLibc = some [.replyToClient pcsUploadFile pcsEx02 [pcsExOk]] ∧
      s.slotMarks = some (true, true)))
    (b := true) (by decide +kernel)
  obtain ⟨hlook, hbehind, hmarks⟩ := of_decide_eq_true hs
  obtain ⟨pdu, s', hnext, hcmd, -, hstep, heffects⟩ := outlook_eq_some hlook
  obtain ⟨t, ht, hmarks⟩ := Option.map_eq_some_iff.mp hmarks
  have hran := (hall s s' hreach 0 pdu t hnext (.inl hcmd) ht hstep).mpr (Prod.mk.inj hmarks)
  cases heffects.symm.trans (hran.effects hnext hbehind)

end Server

end CccUpgrade
