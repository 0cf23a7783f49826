import CccUpgrade.Adapter.UploadTrail
import CccUpgrade.Server.Authentication

/-! Uploads over whole runs of the server. The file kept for the upload is the one opened
by the latest open request that was answered with success, on whichever connection that
request came; it is what a later write request writes to and a finish closes. -/
namespace CccUpgrade

open Lib

structure Handled where
  conn : Nat
  pdu : PDU
  bLogin : Bool
  effects : List Effect
  calls : List SysCall
deriving DecidableEq

namespace Handled

def AnsweredOk (e : Handled) (cmdEx : UInt8) : Prop := RepliesOk cmdEx e.effects

def Finishes (e : Handled) : Prop := e.pdu.FinishesUpload e.bLogin

def Opened (e : Handled) (n : Nat) : Prop := ∃ path, .fopenWrite path (some n) ∈ e.calls

end Handled

def LatestOpen (earlier : List Handled) (o : Handled) : Prop :=
  ∃ since before, earlier = since ++ o :: before ∧ o.AnsweredOk pcsEx02 ∧
    ∀ x ∈ since, ¬ x.AnsweredOk pcsEx02 ∧ ¬ x.Finishes

/-- A write request succeeds only after an open request, writes only to the file which
that request opened, and no other file than this is closed, unless it is one that was
opened to be read. -/
structure Handled.Attributed (earlier : List Handled) (e : Handled) : Prop where
  write : e.AnsweredOk pcsEx03 → ∃ o, LatestOpen earlier o
  written : ∀ n dataBuf, .fwrite n dataBuf ∈ e.calls → ∃ o, LatestOpen earlier o ∧ o.Opened n
  closed : ∀ n, .fclose n ∈ e.calls →
    (∃ o, LatestOpen earlier o ∧ o.Opened n) ∨ ∃ path, .fopenRead path (some n) ∈ e.calls

def Trail.Held (t : Trail) (history : List Handled) : Prop :=
  ∀ n, t.handle = some n → ∃ o, LatestOpen history o ∧ o.Opened n

theorem LatestOpen.later {earlier : List Handled} {o e : Handled} (h : LatestOpen earlier o)
    (hopen : ¬ e.AnsweredOk pcsEx02) (hnot : ¬ e.Finishes) : LatestOpen (e :: earlier) o := by
  obtain ⟨since, before, rfl, ho, hsince⟩ := h
  refine ⟨e :: since, before, rfl, ho, ?_⟩
  intro x hx
  cases hx with
  | head => exact ⟨hopen, hnot⟩
  | tail _ hx => exact hsince x hx

theorem LatestOpen.here {earlier : List Handled} {e : Handled} (h : e.AnsweredOk pcsEx02) :
    LatestOpen (e :: earlier) e :=
  ⟨[], earlier, rfl, h, nofun⟩

section Step

variable {t t' : Trail} {calls : List SysCall} {effects : List Effect}
  {history : List Handled} {e : Handled}

theorem Trail.Held.later (h : t.Held history)
    (hopen : ¬ e.AnsweredOk pcsEx02) (hnot : ¬ e.Finishes) :
    (t.call calls).Held (e :: history) := by
  intro n hn
  obtain ⟨o, ho, hopened⟩ := h n hn
  exact ⟨o, ho.later hopen hnot, hopened⟩

theorem Trail.Checked.reads (h : t.Checked t') : ∃ calls, t'.calls = t.calls ++ calls ∧
    (∀ n dataBuf, .fwrite n dataBuf ∉ calls) ∧
    ∀ n, .fclose n ∈ calls → ∃ path, .fopenRead path (some n) ∈ calls := by
  cases h with
  | unread => exact ⟨[], (List.append_nil _).symm, by simp, by simp⟩
  | missing path => exact ⟨_, rfl, by simp, by simp⟩
  | read path =>
      refine ⟨[.fopenRead path (some t.next), .fclose t.next], ?_, by simp, ?_⟩
      · exact List.append_assoc ..
      · intro n hmem
        obtain rfl : n = t.next := by simpa using hmem
        exact ⟨path, List.mem_cons_self⟩

theorem Trail.Step.extends {finishes : Prop} (h : t.Step finishes effects t') :
    t.calls <+: t'.calls := by
  cases h with
  | apart => exact List.prefix_append ..
  | opened => exact List.prefix_append ..
  | wrote => exact List.prefix_append ..
  | finished hchecked =>
      obtain ⟨calls, hchecks, -⟩ := hchecked.reads
      have hclose : t.calls <+: t.close.calls := List.prefix_append ..
      exact hclose.trans ⟨calls, hchecks.symm⟩

/-- What one PDU does to the file kept, and what is known of it then. -/
theorem Trail.Step.held (h : t.Step e.Finishes effects t') (heffects : e.effects = effects)
    (hcalls : t'.calls = t.calls ++ e.calls) (hheld : t.Held history) :
    t'.Held (e :: history) ∧ e.Attributed history := by
  cases h with
  | @apart _ calls hapart hopen hwrite hnot =>
      rw [← heffects] at hopen hwrite
      obtain rfl : calls = e.calls := List.append_cancel_left hcalls
      refine ⟨hheld.later hopen hnot, fun h => absurd h hwrite, ?_, ?_⟩
      · exact fun n dataBuf hmem => (hapart _ hmem).elim
      · exact fun n hmem => (hapart _ hmem).elim
  | @opened path hnot =>
      have hopened : e.calls = [.fopenWrite path (some t.next)] := (List.append_cancel_left hcalls).symm
      refine ⟨?_, ?_, ?_, ?_⟩
      · rintro n ⟨⟩
        refine ⟨e, .here ?_, path, ?_⟩
        · simp [Handled.AnsweredOk, RepliesOk, heffects]
        · simp [hopened]
      · rintro ⟨rest, hmem⟩
        simp [heffects, pcsEx02, pcsEx03] at hmem
      · simp [hopened]
      · simp [hopened]
  | @wrote _ handle calls hhandle hon hopen hnot =>
      rw [← heffects] at hopen
      obtain rfl : calls = e.calls := List.append_cancel_left hcalls
      obtain ⟨o, ho, hopened⟩ := hheld handle hhandle
      refine ⟨hheld.later hopen hnot, fun _ => ⟨o, ho⟩, ?_, ?_⟩
      · intro n dataBuf hmem
        obtain rfl : n = handle := hon _ hmem
        exact ⟨o, ho, hopened⟩
      · exact fun n hmem => (hon _ hmem).elim
  | @finished _ t₁ hchecked hopen hwrite hfinishes =>
      rw [← heffects] at hwrite
      obtain ⟨calls, hchecks, hnowrite, hreads⟩ := hchecked.reads
      have hall : e.calls = (t.handle.map SysCall.fclose).toList ++ calls := by
        have hsplit : t.calls ++ e.calls =
            t.calls ++ ((t.handle.map SysCall.fclose).toList ++ calls) := by
          rw [← hcalls, ← List.append_assoc]
          exact hchecks
        exact List.append_cancel_left hsplit
      refine ⟨?_, fun h => absurd h hwrite, ?_, ?_⟩
      · rintro n ⟨⟩
      · intro n dataBuf hmem
        rw [hall] at hmem
        rcases List.mem_append.mp hmem with hclose | hnew
        · cases hhandle : t.handle <;> simp [hhandle] at hclose
        · exact absurd hnew (hnowrite n dataBuf)
      · intro n hmem
        rw [hall] at hmem
        rcases List.mem_append.mp hmem with hclose | hnew
        · left
          apply hheld n
          cases hhandle : t.handle with
          | none => simp [hhandle] at hclose
          | some handle =>
              rw [hhandle] at hclose
              obtain rfl : n = handle := by simpa using hclose
              rfl
        · obtain ⟨path, hopened⟩ := hreads n hnew
          exact .inr ⟨path, by simp [hall, hopened]⟩

end Step

def Thread.next (t : Thread) : Option (Nat × PDU × Bool) :=
  match t.phase with
  | .callback cb => cb.todo.head?.map fun pdu => (cb.src, pdu, cb.bLogin)
  | _ => none

namespace Server

variable {φ : Type} {libc : Libc φ} {s s' : Server (Traced φ)}

def handled (s : Server (Traced φ)) (a : Action) (s' : Server (Traced φ)) : List Handled :=
  match a with
  | .process thread =>
      if s'.halted.isSome then []
      else ((s.threads thread).bind Thread.next).toList.map fun (conn, pdu, bLogin) =>
        ⟨conn, pdu, bLogin, s'.machine.effects, s'.machine.calls.drop s.machine.calls.length⟩
  | _ => []

theorem handled_cases {a : Action} (h : s.step libc.traced a = some s') :
    s'.machine = s.machine ∧ handled s a s' = [] ∨ ∃ e : Handled, handled s a s' = [e] ∧
      s.machine.trail.Step e.Finishes e.effects s'.machine.trail ∧
      s'.machine.calls = s.machine.calls ++ e.calls := by
  have hrunning : s.halted = none := by
    unfold step at h
    split at h
    · cases h
    · simp_all
  cases step_moved h with
  | @process thread t cb pdu todo machine ht hphase heffects htodo hrun =>
      right
      have hnext : (s.threads thread).bind Thread.next = some (cb.src, pdu, cb.bLogin) := by
        simp [ht, Thread.next, hphase, htodo]
      have hstep := trail_of_run hrun
      let calls := machine.calls.drop s.machine.calls.length
      refine ⟨⟨cb.src, pdu, cb.bLogin, machine.effects, calls⟩, ?_, hstep, ?_⟩
      · simp only [handled, setCallback, setThread, hrunning, hnext]
        rfl
      · exact (List.prefix_iff_eq_append.mp hstep.extends).symm
  | setLogin => exact .inl ⟨closeSlot_machine .., rfl⟩
  | endOfStream => exact .inl ⟨closeSlot_machine .., rfl⟩
  | @halted a fault =>
      left
      cases a <;> exact ⟨rfl, rfl⟩
  | processFault => exact .inl ⟨rfl, rfl⟩
  | registered | rejected | unstarted | recv | chunk | reply | effect | done | outOfRange =>
      exact .inl ⟨rfl, rfl⟩

end Server

def recordedServer {φ : Type} (libc : Libc φ) (machine : Machine (Traced φ)) :
    TransitionSystem (Server (Traced φ) × List Handled) Action :=
  (server libc.traced machine).recorded Server.handled

/-- In every run of the server, from when no file is kept: a write request is answered
with success only if an open request was before, on whichever connection, and the upload
has not been finished since the latest such. It writes only to the file which that open
request opened, and no other file is closed than this, and those opened to be read. -/
theorem upload_attributed {φ : Type} {libc : Libc φ} {machine : Machine (Traced φ)}
    (hidle : machine.upload.fileHandle = none) {s : Server (Traced φ)} {history : List Handled}
    (h : (recordedServer libc machine).Reachable (s, history)) :
    Throughout Handled.Attributed history := by
  have hboth : s.machine.trail.Held history ∧ Throughout Handled.Attributed history := by
    apply h.record_invariant (Q := fun (s : Server (Traced φ)) history =>
      s.machine.trail.Held history ∧ Throughout Handled.Attributed history)
    · refine ⟨?_, .nil⟩
      intro n hn
      change machine.upload.fileHandle = some n at hn
      rw [hidle] at hn
      cases hn
    · rintro s history a s' ⟨hheld, hall⟩ hs
      rcases Server.handled_cases hs with ⟨hmachine, hnothing⟩ | ⟨e, hone, hstep, hcalls⟩
      · rw [hmachine, hnothing]
        exact ⟨hheld, hall⟩
      · obtain ⟨hheld', hlast⟩ := hstep.held rfl hcalls hheld
        rw [hone]
        exact ⟨hheld', hall.cons hlast⟩
  exact hboth.2

/-- A finish request with the status for success, and with or without a checksum. -/
def Handled.CarriesOk (e : Handled) : Prop :=
  e.pdu.cmd = pcsUploadFile ∧ e.pdu.cmdEx = pcsEx04 ∧ 1 ≤ e.pdu.dataLen ∧
    e.pdu.data.head? = some pcsExOk

instance : DecidablePred Handled.CarriesOk := fun _ => inferInstanceAs (Decidable (_ ∧ _))

/-- A write request succeeds only after an open request with no such finish since. -/
def Handled.WritesOpen (earlier : List Handled) (e : Handled) : Prop :=
  e.AnsweredOk pcsEx03 → ∃ since o before, earlier = since ++ o :: before ∧
    o.AnsweredOk pcsEx02 ∧ ∀ x ∈ since, ¬ x.CarriesOk

/-- What it takes for the uploads of clients to be apart: a write request succeeds only
after an open request of the same login, and a client uses only files of its own. -/
structure Handled.Isolated (earlier : List Handled) (e : Handled) : Prop where
  write : e.AnsweredOk pcsEx03 → ∃ since o before, earlier = since ++ o :: before ∧
    o.conn = e.conn ∧ o.AnsweredOk pcsEx02 ∧
    ∀ x ∈ since, ¬ (x.conn = e.conn ∧ .setLogin ∈ x.effects) ∧ ¬ x.CarriesOk
  files : ∀ n, ((∃ dataBuf, .fwrite n dataBuf ∈ e.calls) ∨ .fclose n ∈ e.calls) →
    ∀ o ∈ earlier, o.Opened n → o.conn = e.conn

def openRequest : Message := ⟨pcsUploadFile, pcsEx02, literal "fw"⟩

def writeRequest : Message := ⟨pcsUploadFile, pcsEx03, [0, 0, 0, 0] ++ literal "x"⟩

def bareFinish : Message := ⟨pcsUploadFile, pcsEx04, [pcsExOk]⟩

def requestSchedule (thread : Nat) (m : Message) : List Action :=
  [.recv thread, .chunk thread m.frame (some freshPdu), .process thread,
    .effect thread true fun _ => 10, .done thread]

/-- A client opens a file and leaves; the next one writes without opening one. -/
def leftOpen : List Action :=
  [Server.firstClient, .recv 0] ++ Server.loginComplete 0 ++ requestSchedule 0 openRequest ++
    [.recv 0, .endOfStream 0, Server.secondClient, .recv 1] ++ Server.loginComplete 1 ++
    requestSchedule 1 bareFinish ++ requestSchedule 1 writeRequest

def Handled.summary (e : Handled) : Nat × List Effect × Bool :=
  (e.conn, e.effects, decide e.CarriesOk)

/-- Who was told what in that run, the latest first. -/
def leftOpenReplies : List (Nat × List Effect × Bool) :=
  [(1, [.replyToClient pcsUploadFile pcsEx03 [pcsExOk, 0, 0, 0, 0]], false),
    (1, [.replyToClient pcsUploadFile pcsEx04 [pcsExErr]], true),
    (1, [.setLogin, .replyToClient pcsClientLogin pcsEx01 [pcsExOk]], false),
    (0, [.replyToClient pcsUploadFile pcsEx02 [pcsExOk]], false),
    (0, [.setLogin, .replyToClient pcsClientLogin pcsEx01 [pcsExOk]], false)]

theorem leftOpen_handled : ∃ s history,
    (recordedServer obligingLibc (tracedMachine (some (literal "up")))).Reachable (s, history) ∧
      history.map Handled.summary = leftOpenReplies := by
  have hinit : (recordedServer obligingLibc (tracedMachine (some (literal "up")))).Reachable
    (Server.init (tracedMachine (some (literal "up"))), []) := .init
  obtain ⟨⟨s, history⟩, hreach, hhandled⟩ := hinit.exec leftOpen (fun _ _ _ => trivial)
    (fun p => p.2.map Handled.summary) (b := leftOpenReplies) (by decide +kernel)
  exact ⟨s, history, hreach, hhandled⟩

theorem upload_attributed_leftOpen : ∃ s history,
    (recordedServer obligingLibc (tracedMachine (some (literal "up")))).Reachable (s, history) ∧
      history.length = 5 ∧ Throughout Handled.Attributed history := by
  obtain ⟨s, history, hreach, hhandled⟩ := leftOpen_handled
  refine ⟨s, history, hreach, ?_, upload_attributed rfl hreach⟩
  have hlength := congrArg List.length hhandled
  rwa [List.length_map] at hlength

/-- The file a client has left open is written to by the next one, and that although a
finish with the status for success came before. -/
theorem upload_attributed_shared :
    (¬ ∀ s history,
      (recordedServer obligingLibc (tracedMachine (some (literal "up")))).Reachable (s, history) →
      Throughout Handled.Isolated history) ∧
    ¬ ∀ s history,
      (recordedServer obligingLibc (tracedMachine (some (literal "up")))).Reachable (s, history) →
      Throughout Handled.WritesOpen history := by
  obtain ⟨s, history, hreach, hhandled⟩ := leftOpen_handled
  unfold leftOpenReplies at hhandled
  obtain ⟨e, earlier, rfl, he, hearlier⟩ := List.map_eq_cons_iff.mp hhandled
  have hconn : e.conn = 1 := congrArg Prod.fst he
  have heffects : e.effects = _ := congrArg (fun r => r.2.1) he
  have hok : e.AnsweredOk pcsEx03 := ⟨[0, 0, 0, 0], by simp [heffects]⟩
  constructor
  · intro hall
    obtain ⟨since, o, before, rfl, hsame, ⟨rest, hopen⟩, -⟩ :=
      (hall s _ hreach [] e earlier rfl).write hok
    have hmem : o.summary ∈ (since ++ o :: before).map Handled.summary :=
      List.mem_map_of_mem (by simp)
    rw [hearlier, Handled.summary, hsame, hconn] at hmem
    simp only [List.mem_cons, Prod.mk.injEq, List.not_mem_nil, or_false] at hmem
    rcases hmem with ⟨-, hfinish, -⟩ | ⟨-, hlogin, -⟩ | ⟨⟨⟩, -⟩ | ⟨⟨⟩, -⟩
    · simp [hfinish, pcsEx02, pcsEx04] at hopen
    · simp [hlogin, pcsUploadFile, pcsClientLogin] at hopen
  · intro hall
    obtain ⟨since, o, before, rfl, ⟨rest, hopen⟩, hsince⟩ := hall s _ hreach [] e earlier rfl hok
    cases since with
    | nil =>
        have hfinish : o.effects = _ := congrArg (fun r => r.2.1) (List.cons.inj hearlier).1
        simp [hfinish, pcsEx02, pcsEx04] at hopen
    | cons x since =>
        have hcarries : decide x.CarriesOk = true :=
          congrArg (fun r => r.2.2) (List.cons.inj hearlier).1
        exact hsince x List.mem_cons_self (of_decide_eq_true hcarries)

end CccUpgrade
