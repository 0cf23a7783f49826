import CccUpgrade.Adapter.UploadTrail
import CccUpgrade.Lib.Account

/-! The files the upload requests open and close. An open request replaces the handle
kept before without closing it; apart from that every file opened for an upload is
closed once, when the upload is finished. -/
namespace CccUpgrade

open Lib

variable {φ : Type} {libc : Libc φ}

/-- The handle of a file opened for writing; only `open_tx_filename` opens such files. -/
def SysCall.opened : SysCall → Option Nat
  | .fopenWrite _ handle => handle
  | _ => none

def SysCall.closed : SysCall → Option Nat
  | .fclose handle => some handle
  | _ => none

/-- The files opened for uploads so far, all files closed, and the handle kept. -/
def Machine.account (st : Machine (Traced φ)) : Account where
  next := st.env.handles.length
  opens := st.calls.filterMap SysCall.opened
  closes := st.calls.filterMap SysCall.closed
  current := st.upload.fileHandle

inductive AccountStep (a : Account) : Account → Prop
  | keep : AccountStep a a
  | opened : AccountStep a a.acquire
  | finished : AccountStep a a.release
  | checked : AccountStep a a.release.visit

def Trail.account (t : Trail) : Account :=
  ⟨t.next, t.calls.filterMap SysCall.opened, t.calls.filterMap SysCall.closed, t.handle⟩

section Trail

variable {t t' : Trail} {calls : List SysCall}

theorem account_call (hopened : ∀ c ∈ calls, c.opened = none) (hclosed : ∀ c ∈ calls, c.closed = none) :
    (t.call calls).account = t.account := by
  have hopens : calls.filterMap SysCall.opened = [] := List.filterMap_eq_nil_iff.mpr hopened
  have hcloses : calls.filterMap SysCall.closed = [] := List.filterMap_eq_nil_iff.mpr hclosed
  simp [Trail.account, Trail.call, hopens, hcloses]

theorem account_acquire (path : List UInt8) : (t.acquire path).account = t.account.acquire := by
  simp [Trail.account, Trail.acquire, Trail.number, Account.acquire, SysCall.opened, SysCall.closed]

theorem account_visit (path : List UInt8) : (t.visit path).account = t.account.visit := by
  have hopens : [SysCall.fopenRead path (some t.next), .fclose t.next].filterMap SysCall.opened = [] :=
    rfl
  have hcloses : [SysCall.fopenRead path (some t.next), .fclose t.next].filterMap SysCall.closed =
      [t.next] := rfl
  simp [Trail.account, Trail.visit, Trail.number, Trail.call, Account.visit, hopens, hcloses]

theorem account_close : t.close.account =
    { t.account with closes := t.account.closes ++ t.account.current.toList } := by
  cases hhandle : t.handle with
  | none => simp [Trail.account, Trail.close, Trail.call, hhandle]
  | some handle =>
      simp [Trail.account, Trail.close, Trail.call, hhandle, SysCall.opened, SysCall.closed]

theorem account_forget : t.forget.account = { t.account with current := none } := rfl

theorem SysCall.Apart.account {c : SysCall} (h : c.Apart) : c.opened = none ∧ c.closed = none := by
  cases c with
  | fopenWrite path handle => cases handle <;> simp_all [SysCall.Apart, SysCall.opened, SysCall.closed]
  | chmod | system => exact ⟨rfl, rfl⟩
  | fopenRead | fseek | fwrite | fclose => cases h

theorem SysCall.On.account {handle : Nat} {c : SysCall} (h : c.On handle) :
    c.opened = none ∧ c.closed = none := by
  cases c with
  | fseek | fwrite => exact ⟨rfl, rfl⟩
  | fopenWrite | fopenRead | fclose | chmod | system => cases h

theorem Trail.Step.account {finishes : Prop} {effects : List Effect}
    (h : t.Step finishes effects t') :
    AccountStep t.account t'.account := by
  cases h with
  | apart hcalls =>
      rw [account_call (fun c hc => (hcalls c hc).account.1) fun c hc => (hcalls c hc).account.2]
      exact .keep
  | opened =>
      rw [account_acquire]
      exact .opened
  | wrote _ hcalls =>
      rw [account_call (fun c hc => (hcalls c hc).account.1) fun c hc => (hcalls c hc).account.2]
      exact .keep
  | finished hchecked =>
      rw [account_forget]
      cases hchecked with
      | unread =>
          rw [account_close]
          exact .finished
      | missing path =>
          rw [account_call (by simp [SysCall.opened]) (by simp [SysCall.closed]), account_close]
          exact .finished
      | read path =>
          rw [account_visit, account_close]
          exact .checked

end Trail

def OpensIdle (libc : Libc φ) (st : Machine (Traced φ)) (pdus : List PDU) : Prop :=
  ∀ before pdu st₁ st₂, before ++ [pdu] <+: pdus → uploadRun libc.traced st before = .ok st₁ →
    uploadRun libc.traced st (before ++ [pdu]) = .ok st₂ →
    st₂.account.opens ≠ st₁.account.opens → st₁.upload.fileHandle = none

theorem account_step {st st₁ st₂ : Machine (Traced φ)} {before : List PDU} {pdu : PDU}
    (hbefore : uploadRun libc.traced st before = .ok st₁)
    (hrun : uploadRun libc.traced st (before ++ [pdu]) = .ok st₂) :
    AccountStep st₁.account st₂.account := by
  rw [uploadRun_concat, hbefore] at hrun
  cases hstep : processProtocolUploadFile libc.traced pdu st₁ with
  | error f =>
      simp only [hstep] at hrun
      cases hrun
  | ok r =>
      simp only [hstep] at hrun
      cases hrun
      obtain ⟨new, -, htrail⟩ : r.2.Stepped st₁.trail st₁.effects pdu.Finishes :=
        triple_processProtocolUploadFile_trail.ok rfl hstep
      exact htrail.account

theorem acquire_opens_ne (a : Account) : a.acquire.opens ≠ a.opens := by
  intro heq
  have hlength := congrArg List.length heq
  simp [Account.acquire] at hlength

section Run

variable {st : Machine (Traced φ)} {pdus : List PDU}

/-- The invariant of a run, from what is asked of its steps or of its points. -/
theorem account_inv (hinit : st.account = ⟨0, [], [], none⟩)
    (hsteps : ∀ before pdu st₁ st₂, before ++ [pdu] <+: pdus → st₁.account.Inv →
      uploadRun libc.traced st before = .ok st₁ →
      uploadRun libc.traced st (before ++ [pdu]) = .ok st₂ →
      st₂.account = st₁.account.acquire → st₁.account.current = none)
    {before : List PDU} (hbefore : before <+: pdus) {st' : Machine (Traced φ)}
    (hrun : uploadRun libc.traced st before = .ok st') : st'.account.Inv := by
  induction before using List.reverseRecOn generalizing st' with
  | nil =>
      cases hrun
      rw [hinit]
      exact .start
  | append_singleton before pdu ih =>
      cases hfirst : uploadRun libc.traced st before with
      | error f =>
          rw [uploadRun_of_error pdu hfirst] at hrun
          cases hrun
      | ok st₁ =>
          have hinv := ih ((List.prefix_append before [pdu]).trans hbefore) hfirst
          have hidle := hsteps before pdu st₁ st' hbefore hinv hfirst hrun
          have hstep := account_step hfirst hrun
          generalize st'.account = a' at hstep hidle ⊢
          cases hstep with
          | keep => exact hinv
          | opened => exact hinv.acquire (hidle rfl)
          | finished => exact hinv.release
          | checked => exact hinv.release.visit

end Run

/-- Along a run of upload requests the files opened and not closed are at every point
the one whose handle is kept, and no file is closed twice, exactly when no request of
the run opens a file while another one is open. -/
theorem upload_handles (libc : Libc φ) {st : Machine (Traced φ)}
    (hinit : st.account = ⟨0, [], [], none⟩) (pdus : List PDU) :
    (∀ before st', before <+: pdus → uploadRun libc.traced st before = .ok st' →
      st'.account.Conserved) ↔ OpensIdle libc st pdus := by
  constructor
  · intro hconserved
    have hsteps : ∀ before pdu st₁ st₂, before ++ [pdu] <+: pdus → st₁.account.Inv →
        uploadRun libc.traced st before = .ok st₁ →
        uploadRun libc.traced st (before ++ [pdu]) = .ok st₂ →
        st₂.account = st₁.account.acquire → st₁.account.current = none := by
      intro before pdu st₁ st₂ hbefore hinv _ hrun hacquire
      have hafter := hconserved _ _ hbefore hrun
      rw [hacquire] at hafter
      cases hcurrent : st₁.account.current with
      | none => rfl
      | some n => exact absurd hafter (hinv.not_conserved_acquire hcurrent)
    intro before pdu st₁ st₂ hbefore hfirst hrun hopens
    have hinv := account_inv hinit hsteps ((List.prefix_append before [pdu]).trans hbefore) hfirst
    have hstep := account_step hfirst hrun
    refine hsteps before pdu st₁ st₂ hbefore hinv hfirst hrun ?_
    generalize st₂.account = a' at hstep hopens ⊢
    cases hstep with
    | opened => rfl
    | keep | finished | checked => exact absurd rfl hopens
  · intro hidle before st' hbefore hrun
    apply Account.Inv.conserved
    apply account_inv hinit _ hbefore hrun
    intro before pdu st₁ st₂ hbefore _ hfirst hrun hacquire
    apply hidle before pdu st₁ st₂ hbefore hfirst hrun
    rw [hacquire]
    exact acquire_opens_ne _

theorem opens_of_run {pdus : List PDU} {st : Machine (Traced Unit)} {opens : List Nat}
    (h : ((uploadRun obligingLibc.traced (tracedMachine (some (literal "up"))) pdus).toOption.map
      fun st => st.account.opens) = some opens)
    (hrun : uploadRun obligingLibc.traced (tracedMachine (some (literal "up"))) pdus = .ok st) :
    st.account.opens = opens := by
  rw [hrun] at h
  exact Option.some.inj h

/-- One upload from open to finish. -/
theorem upload_handles_finish : ∃ st', uploadRun obligingLibc.traced
    (tracedMachine (some (literal "up"))) [openPdu, writePdu, finishPdu] = .ok st' ∧
      st'.account.Conserved := by
  have hcompletes : (uploadRun obligingLibc.traced (tracedMachine (some (literal "up")))
      [openPdu, writePdu, finishPdu]).toOption.isSome := by decide +kernel
  obtain ⟨st', hwhole⟩ : ∃ st', uploadRun obligingLibc.traced
      (tracedMachine (some (literal "up"))) [openPdu, writePdu, finishPdu] = .ok st' := by
    cases hwhole : uploadRun obligingLibc.traced (tracedMachine (some (literal "up")))
        [openPdu, writePdu, finishPdu] with
    | error f =>
        rw [hwhole] at hcompletes
        cases hcompletes
    | ok st' => exact ⟨st', rfl⟩
  refine ⟨st', hwhole, (upload_handles obligingLibc rfl [openPdu, writePdu, finishPdu]).mpr ?_
    _ _ List.prefix_rfl hwhole⟩
  intro before pdu st₁ st₂ hbefore hfirst hrun hopens
  rcases concat_prefix_cons hbefore with ⟨rfl, rfl⟩ | ⟨rest, rfl, hrest⟩
  · cases hfirst
    rfl
  rcases concat_prefix_cons hrest with ⟨rfl, rfl⟩ | ⟨rest', rfl, hrest'⟩
  · have hopened : st₁.account.opens = [0] := opens_of_run (by decide +kernel) hfirst
    have hwritten : st₂.account.opens = [0] := opens_of_run (by decide +kernel) hrun
    exact absurd (hwritten.trans hopened.symm) hopens
  rcases concat_prefix_cons hrest' with ⟨rfl, rfl⟩ | ⟨rest'', rfl, hnone⟩
  · have hwritten : st₁.account.opens = [0] := opens_of_run (by decide +kernel) hfirst
    have hfinished : st₂.account.opens = [0] := opens_of_run (by decide +kernel) hrun
    exact absurd (hfinished.trans hwritten.symm) hopens
  · simp at hnone

/-- A second open request loses the handle of the first. -/
theorem upload_handles_reopen : ¬ ∀ (pdus : List PDU) (st' : Machine (Traced Unit)),
    uploadRun obligingLibc.traced (tracedMachine (some (literal "up"))) pdus = .ok st' →
    st'.account.Conserved := by
  intro hall
  have haccount : ((uploadRun obligingLibc.traced (tracedMachine (some (literal "up")))
      [openPdu, openPdu]).toOption.map Machine.account) = some ⟨2, [0, 1], [], some 1⟩ := by
    decide +kernel
  cases hrun : uploadRun obligingLibc.traced (tracedMachine (some (literal "up")))
      [openPdu, openPdu] with
  | error f =>
      rw [hrun] at haccount
      cases haccount
  | ok st' =>
      rw [hrun] at haccount
      have hkept := (hall _ st' hrun).kept
      rw [show st'.account = _ from Option.some.inj haccount] at hkept
      have hlost : some 1 = some 0 := hkept 0 (by decide) (by decide)
      cases hlost

end CccUpgrade
