import CccUpgrade.Adapter.PathConfinement

/-! What a run-script request is answered, and whether a script was run for it. The
handler reports success for the error code 0, which `file_execute_script` also returns
when it was given no directory or no name. -/
namespace CccUpgrade

open Lib

inductive ScriptCall
  | access (path : List UInt8) (exist : Bool)
  | chmod (path : List UInt8) (changed : Bool)
  | system (command : List UInt8)
deriving DecidableEq, Repr

structure Watched (φ : Type) where
  env : φ
  calls : List ScriptCall

variable {φ : Type}

namespace Watched

def pass {α : Type} (w : Watched φ) (r : α × φ) : α × Watched φ := (r.1, { w with env := r.2 })

def note {α : Type} (w : Watched φ) (call : α → ScriptCall) (r : α × φ) : α × Watched φ :=
  (r.1, ⟨r.2, w.calls ++ [call r.1]⟩)

end Watched

def Libc.watched (libc : Libc φ) : Libc (Watched φ) where
  malloc w n := w.pass (libc.malloc w.env n)
  access w path := w.note (.access path) (libc.access w.env path)
  mkdir w path := w.pass (libc.mkdir w.env path)
  fopenWrite w path := w.pass (libc.fopenWrite w.env path)
  fopenRead w path := w.pass (libc.fopenRead w.env path)
  fseek w handle offset := w.pass (libc.fseek w.env handle offset)
  fwrite w handle dataBuf := w.pass (libc.fwrite w.env handle dataBuf)
  freads w handle := w.pass (libc.freads w.env handle)
  fclose w handle := w.pass (libc.fclose w.env handle)
  chmod w path := w.note (.chmod path) (libc.chmod w.env path)
  system w command := w.note (fun _ => .system command) (libc.system w.env command)
  getifaddrs w := w.pass (libc.getifaddrs w.env)
  gethostname w := w.pass (libc.gethostname w.env)
  longBits := libc.longBits

def Machine.watch (st : Machine (Watched φ)) : List ScriptCall × List Effect :=
  (st.env.calls, st.effects)

/-- The file exists, its mode was set, and it was run once. -/
def Executed (path : List UInt8) (calls : List ScriptCall) : Prop :=
  calls = [.access path true, .chmod path true, .system path]

def RunsNothing (calls : List ScriptCall) : Prop := ∀ command, .system command ∉ calls

theorem Executed.runs {path : List UInt8} {calls : List ScriptCall} (h : Executed path calls) :
    ¬ RunsNothing calls := by
  rw [h]
  intro hnothing
  exact hnothing path (by simp)

/-- The error code says whether the script was run. -/
def Executes (path : List UInt8) (errorCode : Int) (calls : List ScriptCall) : Prop :=
  if errorCode = 0 then Executed path calls else RunsNothing calls

/-- The reply is a status and an error code, and says success if and only if the script
was run; otherwise nothing was run. -/
def RepliesTruly (path : List UInt8) (st : Machine (Watched φ)) : Prop :=
  ∃ status code, st.effects = [.replyToClient pcsUpgrade pcsEx01 [status, code]] ∧
    (status = pcsExOk ↔ Executed path st.env.calls) ∧
    (¬ Executed path st.env.calls → status = pcsExErr ∧ RunsNothing st.env.calls)

section Handler

variable {libc : Libc φ}

theorem triple_noted {α : Type} (op : Watched φ → α × φ) (call : α → ScriptCall)
    (calls : List ScriptCall) (effects : List Effect) :
    Triple (fun st => st.watch = (calls, effects)) (Run.call fun w => w.note call (op w))
      (fun a st => st.watch = (calls ++ [call a], effects)) noFault := by
  intro st hs
  obtain ⟨hcalls, heffects⟩ := Prod.mk.inj hs
  change (st.env.calls ++ [call _], st.effects) = _
  rw [hcalls, heffects]
  rfl

theorem triple_fileExecuteScript_watched {dir title : List UInt8} (hdir : dir ≠ [])
    (htitle : title ≠ []) :
    Triple (fun st => st.watch = ([], [])) (fileExecuteScript libc.watched (some dir) (some title))
      (fun errorCode st => st.effects = [] ∧ Executes (withSlash dir ++ title) errorCode st.env.calls)
      noFault := by
  have hstopped : ∀ {calls : List ScriptCall} (errorCode : Int), errorCode ≠ 0 →
      RunsNothing calls →
      Triple (fun st => st.watch = (calls, [])) (pure errorCode : Run (Watched φ) Int)
        (fun errorCode st => st.effects = [] ∧
          Executes (withSlash dir ++ title) errorCode st.env.calls) noFault := by
    intro calls errorCode hcode hnothing
    refine Triple.pure fun st hs => ?_
    obtain ⟨hcalls, heffects⟩ := Prod.mk.inj hs
    refine ⟨heffects, ?_⟩
    rw [Executes, if_neg hcode, hcalls]
    exact hnothing
  apply fileExecuteScript_rule (p := (· = ([], []))) fun _ _ => rfl
  · exact fun hunnamed => absurd hunnamed (by simp [hdir, htitle])
  · exact hstopped 2 (by decide) (by simp [RunsNothing])
  rintro _ _ ⟨⟩ ⟨⟩ - -
  apply Triple.bind (triple_noted _ (.access (withSlash dir ++ title)) [] [])
  intro exist
  cases exist with
  | false => exact hstopped 1 (by decide) (by simp [RunsNothing])
  | true =>
      apply Triple.bind (triple_noted _ (.chmod (withSlash dir ++ title))
        [.access (withSlash dir ++ title) true] [])
      intro changed
      cases changed with
      | false => exact hstopped 3 (by decide) (by simp [RunsNothing])
      | true =>
          apply Triple.bind (triple_noted _ (fun _ => .system (withSlash dir ++ title)) _ [])
          intro _
          refine Triple.pure fun st hs => ?_
          obtain ⟨hcalls, heffects⟩ := Prod.mk.inj hs
          exact ⟨heffects, hcalls⟩

theorem fileExecuteScript_unnamed {dir title : List UInt8} {odir : Option (List UInt8)}
    (hodir : odir.getD [] = dir) (h : dir = [] ∨ title = []) (st : Machine (Watched φ)) :
    fileExecuteScript libc.watched odir (some title) st = .ok (0, st) := by
  unfold fileExecuteScript
  rw [hodir]
  rcases h with rfl | rfl
  · rfl
  · split <;> rfl

theorem repliesTruly_of_executes {path : List UInt8} {errorCode : Int} {st : Machine (Watched φ)}
    (heffects : st.effects = []) (h : Executes path errorCode st.env.calls) (code : UInt8) :
    RepliesTruly path { st with effects := st.effects ++
      [.replyToClient pcsUpgrade pcsEx01 [replyStatus (errorCode = 0), code]] } := by
  unfold Executes at h
  refine ⟨_, _, by rw [heffects]; rfl, ?_⟩
  split at h
  · rename_i hcode
    exact ⟨by simp [hcode, h, replyStatus], fun hnot => absurd h hnot⟩
  · rename_i hcode
    have hnot : ¬ Executed path st.env.calls := fun hexecuted => hexecuted.runs h
    refine ⟨?_, fun _ => ⟨by simp [hcode, replyStatus], h⟩⟩
    simp only [hcode, hnot, replyStatus, decide_false, Bool.false_eq_true, if_false, iff_false]
    decide

theorem triple_scriptReply {dir title : List UInt8} (hdir : dir ≠ []) (htitle : title ≠ []) :
    Triple (fun st => st.watch = ([], [])) (do
        let errorCode ← fileExecuteScript libc.watched (some dir) (some title)
        if errorCode = 0 then
          sendReplyToClient pcsUpgrade pcsEx01 [replyStatus true, UInt8.ofNat errorCode.toNat]
        else sendReplyToClient pcsUpgrade pcsEx01 [replyStatus false, UInt8.ofNat errorCode.toNat])
      (fun _ st => RepliesTruly (withSlash dir ++ title) st) noFault := by
  apply Triple.bind (triple_fileExecuteScript_watched hdir htitle)
  intro errorCode
  have hreply : ∀ bSucceeded, bSucceeded = decide (errorCode = 0) →
      Triple (fun st => st.effects = [] ∧
          Executes (withSlash dir ++ title) errorCode st.env.calls)
        (sendReplyToClient pcsUpgrade pcsEx01
          [replyStatus bSucceeded, UInt8.ofNat errorCode.toNat] : Run (Watched φ) Unit)
        (fun _ st => RepliesTruly (withSlash dir ++ title) st) noFault := by
    rintro bSucceeded rfl st ⟨heffects, hexecutes⟩
    exact repliesTruly_of_executes heffects hexecutes _
  split
  · rename_i hcode
    exact hreply true (by simp [hcode])
  · rename_i hcode
    exact hreply false (by simp [hcode])

end Handler

theorem not_repliesTruly_success {path : List UInt8} {st : Machine (Watched φ)}
    (hst : st.watch = ([], [])) (code : UInt8) :
    ¬ RepliesTruly path { st with effects := st.effects ++
      [.replyToClient pcsUpgrade pcsEx01 [replyStatus true, code]] } := by
  obtain ⟨hcalls, heffects⟩ := Prod.mk.inj hst
  rintro ⟨status, code', hreply, hstatus, -⟩
  change st.effects ++ _ = _ at hreply
  rw [heffects] at hreply
  cases hreply
  have hexecuted : Executed path st.env.calls := hstatus.mp rfl
  rw [hcalls] at hexecuted
  cases hexecuted

theorem repliesTruly_failure {path : List UInt8} {st : Machine (Watched φ)}
    (hst : st.watch = ([], [])) (code : UInt8) :
    RepliesTruly path { st with effects := st.effects ++
      [.replyToClient pcsUpgrade pcsEx01 [replyStatus false, code]] } := by
  obtain ⟨hcalls, heffects⟩ := Prod.mk.inj hst
  have hnothing : Executes path 1 st.env.calls := by
    rw [hcalls]
    simp [Executes, RunsNothing]
  exact repliesTruly_of_executes heffects hnothing code

/-- A run-script request is answered truly exactly when its payload is too short to be
looked at, or its name can be copied and both the directory and the name are not empty. -/
theorem script_replied {libc : Libc φ} {m : Message} (hm : m.RunsScript) {pdu : PDU}
    (hcarries : pdu.Carries m) {st : Machine (Watched φ)} (hst : st.watch = ([], [])) :
    (∃ st', processProtocolPdu libc.watched pdu true st = .ok ((), st') ∧
      RepliesTruly (withSlash (st.upgradeTempDir.getD []) ++ cString m.data) st') ↔
    (m.data.length ≤ 1 ∨ (libc.malloc st.env.env (m.data.length + 1)).1 = true ∧
      st.upgradeTempDir.getD [] ≠ [] ∧ cString m.data ≠ []) := by
  rw [processProtocolPdu_runsScript hcarries hm, processProtocolUpgradeCmdEx01]
  dsimp only
  have hdataLen := hcarries.dataLen
  by_cases hlong : 1 < m.data.length
  swap
  · rw [if_neg (by omega)]
    exact ⟨fun _ => .inl (by omega), fun _ => ⟨_, rfl, repliesTruly_failure hst 0⟩⟩
  have hpayload : payloadString libc.watched pdu 0 m.data.length st =
      if (libc.malloc st.env.env (m.data.length + 1)).1 = true then
        .ok (cString m.data,
          { st with env := (libc.watched.malloc st.env (m.data.length + 1)).2 })
      else .error .null := by
    rw [payloadString_eq hcarries (by omega), List.drop_zero, List.take_length]
    rfl
  rw [if_pos (by omega), hcarries.dataLen_toNat]
  by_cases hmalloc : (libc.malloc st.env.env (m.data.length + 1)).1 = true
  swap
  · -- the copy goes through a NULL pointer
    rw [if_neg hmalloc] at hpayload
    rw [Run.bind_error hpayload]
    constructor
    · rintro ⟨_, hrun, -⟩
      cases hrun
    · rintro (hshort | ⟨hcopied, -⟩)
      · omega
      · exact absurd hcopied hmalloc
  rw [if_pos hmalloc] at hpayload
  rw [Run.bind_ok hpayload, Run.bind_ok rfl]
  by_cases hnamed : st.upgradeTempDir.getD [] ≠ [] ∧ cString m.data ≠ []
  · refine ⟨fun _ => .inr ⟨hmalloc, hnamed⟩, fun _ => ?_⟩
    obtain ⟨dir, hdir, -⟩ := exists_of_ne_nil hnamed.1
    rw [hdir] at hnamed ⊢
    have hwatch : Machine.watch
        { st with env := (libc.watched.malloc st.env (m.data.length + 1)).2 } = ([], []) := hst
    obtain ⟨⟨⟩, st', hrun, htruly⟩ :=
      (triple_scriptReply hnamed.1 hnamed.2).returns (fun _ h => h) hwatch
    rw [hdir] at hrun
    exact ⟨st', hrun, htruly⟩
  · -- the error code is 0, but nothing was run
    rw [Run.bind_ok (fileExecuteScript_unnamed rfl (by tauto) _), if_pos rfl]
    constructor
    · rintro ⟨_, hrun, htruly⟩
      cases hrun
      exact absurd htruly (not_repliesTruly_success hst 0)
    · rintro (hshort | ⟨-, hnamed'⟩)
      · omega
      · exact absurd hnamed' hnamed

def scriptRequest (title : List UInt8) : Message := ⟨pcsUpgrade, pcsEx01, title⟩

def watchedMachine (dir : Option (List UInt8)) : Machine (Watched Unit) :=
  ⟨⟨(), []⟩, .empty, ⟨none, none, none⟩, dir, []⟩

theorem script_replied_plain :
    ∃ st', processProtocolPdu obligingLibc.watched (scriptRequest (literal "fw")).pdu true
        (watchedMachine (some (literal "up"))) = .ok ((), st') ∧
      RepliesTruly (literal "up/fw") st' :=
  (script_replied ⟨rfl, rfl⟩ (Message.carries_pdu _) rfl).mpr (.inr ⟨rfl, by decide, by decide⟩)

/-- A name that starts with NUL is reported as run, and so is any name without an upgrade
directory. -/
theorem script_replied_unnamed :
    (∃ st', processProtocolPdu obligingLibc.watched (scriptRequest [0, 0]).pdu true
        (watchedMachine (some (literal "up"))) = .ok ((), st') ∧ st'.env.calls = [] ∧
      st'.effects = [.replyToClient pcsUpgrade pcsEx01 [pcsExOk, 0]]) ∧
    ¬ ∀ (m : Message), m.RunsScript → ∀ (φ : Type) (libc : Libc φ) (pdu : PDU)
        (st : Machine (Watched φ)), pdu.Carries m → st.watch = ([], []) →
        (∀ n, (libc.malloc st.env.env n).1 = true) →
        ∃ st', processProtocolPdu libc.watched pdu true st = .ok ((), st') ∧
          RepliesTruly (withSlash (st.upgradeTempDir.getD []) ++ cString m.data) st' := by
  constructor
  · exact ⟨_, rfl, rfl, rfl⟩
  · intro hall
    obtain ⟨st', hrun, status, code, heffects, hstatus, -⟩ :=
      hall (scriptRequest (literal "fw")) ⟨rfl, rfl⟩ Unit obligingLibc _ (watchedMachine none)
        (Message.carries_pdu _) rfl fun _ => rfl
    cases hrun
    cases heffects
    cases hstatus.mp rfl

end CccUpgrade
