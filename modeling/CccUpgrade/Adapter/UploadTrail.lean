import CccUpgrade.Adapter.Requests
import CccUpgrade.Adapter.UploadSession
import CccUpgrade.SysCalls

/-! What one request does with files, and with the file that is kept for the upload: at
most an open request opens one for writing, a write request seeks and writes in the one
kept, and a finish closes it and reads it once more. -/
namespace CccUpgrade

open Lib

/-- The number the next file opened gets, the file kept, and the calls so far. -/
structure Trail where
  next : Nat
  handle : Option Nat
  calls : List SysCall
deriving DecidableEq, Repr

namespace Trail

variable (t : Trail)

def call (calls : List SysCall) : Trail := { t with calls := t.calls ++ calls }

def number (opening : SysCall) : Trail := ⟨t.next + 1, t.handle, t.calls ++ [opening]⟩

def acquire (path : List UInt8) : Trail :=
  { t.number (.fopenWrite path (some t.next)) with handle := some t.next }

def visit (path : List UInt8) : Trail :=
  (t.number (.fopenRead path (some t.next))).call [.fclose t.next]

def close : Trail := t.call (t.handle.map SysCall.fclose).toList

def forget : Trail := { t with handle := none }

/-- The checksum of the file at some path is taken, if it can be. -/
inductive Checked : Trail → Prop
  | unread : Checked t
  | missing (path : List UInt8) : Checked (t.call [.fopenRead path none])
  | read (path : List UInt8) : Checked (t.visit path)

end Trail

def SysCall.Apart : SysCall → Prop
  | .fopenWrite _ none | .chmod _ | .system _ => True
  | _ => False

def SysCall.On (handle : Nat) : SysCall → Prop
  | .fseek n _ | .fwrite n _ => n = handle
  | _ => False

/-- Among the calls is a reply to an upload request that it has succeeded. -/
def RepliesOk (cmdEx : UInt8) (effects : List Effect) : Prop :=
  ∃ rest, .replyToClient pcsUploadFile cmdEx (pcsExOk :: rest) ∈ effects

/-- What a request can do to a trail, with the calls into the network it makes, and
whether it is one to finish the upload. -/
inductive Trail.Step (t : Trail) (finishes : Prop) : List Effect → Trail → Prop
  | apart {effects : List Effect} {calls : List SysCall} (hcalls : ∀ c ∈ calls, c.Apart)
      (hopen : ¬ RepliesOk pcsEx02 effects) (hwrite : ¬ RepliesOk pcsEx03 effects)
      (hnot : ¬ finishes) : Step t finishes effects (t.call calls)
  | opened {path : List UInt8} (hnot : ¬ finishes) :
      Step t finishes [.replyToClient pcsUploadFile pcsEx02 [pcsExOk]] (t.acquire path)
  | wrote {effects : List Effect} {handle : Nat} {calls : List SysCall}
      (hhandle : t.handle = some handle) (hcalls : ∀ c ∈ calls, c.On handle)
      (hopen : ¬ RepliesOk pcsEx02 effects) (hnot : ¬ finishes) :
      Step t finishes effects (t.call calls)
  | finished {effects : List Effect} {t' : Trail} (hchecked : t.close.Checked t')
      (hopen : ¬ RepliesOk pcsEx02 effects) (hwrite : ¬ RepliesOk pcsEx03 effects)
      (hfinishes : finishes) : Step t finishes effects t'.forget

variable {φ : Type} {libc : Libc φ}

namespace Machine

def trail (st : Machine (Traced φ)) : Trail := ⟨st.env.handles.length, st.upload.fileHandle, st.calls⟩

def trailed (st : Machine (Traced φ)) : Trail × List Effect := (st.trail, st.effects)

end Machine

theorem silent_trailed : libc.traced.Silent Machine.trailed := libc.traced_silent fun _ _ => rfl

theorem heapFree_trailed : HeapFree (Machine.trailed : Machine (Traced φ) → _) := fun _ _ => rfl

section Files

variable {t : Trail} {effects : List Effect} {E : Fault → Prop}

theorem triple_note {α : Type} {op : Traced φ → α × Traced φ} {call : SysCall}
    (hhandles : ∀ u, (op u).2.handles = u.handles)
    (hcalls : ∀ u, (op u).2.calls = u.calls ++ [call]) :
    Triple (fun st => st.trailed = (t, effects)) (Run.call op)
      (fun _ st => st.trailed = (t.call [call], effects)) E := by
  rintro st ⟨⟩
  simp [Run.call, Machine.trailed, Machine.trail, Machine.calls, Trail.call, hhandles, hcalls]

theorem triple_openTxFilename_trail (path : List UInt8) :
    Triple (fun st => st.trailed = (t, effects)) (openTxFilename libc.traced path)
      (fun handle st => handle = none ∧ st.trailed = (t.call [.fopenWrite path none], effects) ∨
        handle = some t.next ∧
          st.trailed = (t.number (.fopenWrite path (some t.next)), effects)) E := by
  rintro st ⟨⟩
  change _ ∨ _
  unfold Libc.traced Traced.opened
  dsimp only
  cases (libc.fopenWrite st.env.env path).1 with
  | none => simp [Machine.trailed, Machine.trail, Machine.calls, Trail.call]
  | some handle => simp [Machine.trailed, Machine.trail, Machine.calls, Trail.number]

theorem triple_calcuMd5Checksum_trail (filename : Option Nat) :
    Triple (fun st => st.trailed = (t, effects)) (calcuMd5Checksum libc.traced filename)
      (fun _ st => ∃ t', t.Checked t' ∧ st.trailed = (t', effects)) anyFault := by
  unfold calcuMd5Checksum
  split
  · apply Triple.bind (Run.keeps_load _ trivial (t, effects))
    intro name
    split
    · exact Triple.pure fun _ hs => ⟨t, .unread, hs⟩
    · apply Triple.bind (Q := fun fd st =>
        fd = none ∧ st.trailed = (t.call [.fopenRead name none], effects) ∨
          fd = some t.next ∧ st.trailed = (t.number (.fopenRead name (some t.next)), effects))
      · rintro st ⟨⟩
        change _ ∨ _
        unfold Libc.traced Traced.opened
        dsimp only
        cases (libc.fopenRead st.env.env name).1 with
        | none => simp [Machine.trailed, Machine.trail, Machine.calls, Trail.call]
        | some handle => simp [Machine.trailed, Machine.trail, Machine.calls, Trail.number]
      intro fd
      cases fd with
      | none => exact Triple.pure fun _ hs => ⟨_, .missing name, hs.elim (·.2) fun h => by cases h.1⟩
      | some fd =>
          apply Triple.bind (Q := fun _ st => fd = t.next ∧
            st.trailed = (t.number (.fopenRead name (some t.next)), effects))
          · apply ((keeps_sum silent_trailed (fun _ _ => trivial) fd).triple fun v =>
              fd = t.next ∧ v = (t.number (.fopenRead name (some t.next)), effects)).weaken
            rintro st (⟨⟨⟩, -⟩ | ⟨hfd, hs⟩)
            exact ⟨Option.some.inj hfd, hs⟩
          · intro sumBuffer
            apply Triple.assume
            rintro rfl
            apply Triple.bind (triple_note (fun _ => rfl) fun _ => rfl)
            intro _
            exact Triple.pure fun _ hs => ⟨_, .read name, hs⟩
  · exact Triple.pure fun _ hs => ⟨t, .unread, hs⟩

theorem triple_uploadFileClear_trail :
    Triple (fun st : Machine (Traced φ) => st.trailed = (t, effects)) uploadFileClear
      (fun _ st => st.trailed = (t.forget, effects)) anyFault := by
  unfold uploadFileClear
  apply Triple.bind (Run.keeps_getUpload (t, effects))
  intro upload
  apply Triple.bind (Run.keeps_free heapFree_trailed _ (fun _ _ => trivial) (t, effects))
  intro _
  apply Triple.bind (Run.keeps_free heapFree_trailed _ (fun _ _ => trivial) (t, effects))
  intro _
  apply Triple.bind (Q := fun _ st => st.trailed = (t.forget, effects))
  · rintro st ⟨⟩
    rfl
  · exact fun _ => Triple.pure fun _ hs => hs

theorem triple_fileUploadSingleFinish_trail (md5sum : List UInt8) :
    Triple (fun st => st.trailed = (t, effects)) (fileUploadSingleFinish libc.traced md5sum)
      (fun _ st => ∃ t', t.close.Checked t' ∧ st.trailed = (t'.forget, effects)) anyFault := by
  have hrest : ∀ t₁ : Trail, Triple (fun st : Machine (Traced φ) => st.trailed = (t₁, effects)) (do
      let filePath ← uploadFileGetPath
      let result ← checkFileByMd5 libc.traced filePath md5sum
      let _ ← uploadFileClear
      return result)
      (fun _ st => ∃ t', t₁.Checked t' ∧ st.trailed = (t'.forget, effects)) anyFault := by
    intro t₁
    apply Triple.bind (Keeps.bind Run.keeps_getUpload (fun _ => Keeps.pure) (t₁, effects))
    intro path
    apply Triple.bind (Q := fun _ st => ∃ t', t₁.Checked t' ∧ st.trailed = (t', effects))
    · unfold checkFileByMd5
      apply Triple.bind (triple_calcuMd5Checksum_trail path)
      intro sumBuffer
      split <;> exact Triple.pure fun _ hs => hs
    intro result
    apply Triple.bind (Q := fun _ st => ∃ t', t₁.Checked t' ∧ st.trailed = (t'.forget, effects))
    · rintro st ⟨t', hchecked, hs⟩
      exact (triple_uploadFileClear_trail.mono (fun _ h => h)
        fun _ _ h => ⟨t', hchecked, h⟩) st hs
    · exact fun _ => Triple.pure fun _ hs => hs
  unfold fileUploadSingleFinish
  apply Triple.bind (Q := fun handle st => handle = t.handle ∧ st.trailed = (t, effects))
  · rintro st ⟨⟩
    exact ⟨rfl, rfl⟩
  intro handle
  apply Triple.assume
  rintro rfl
  cases hhandle : t.handle with
  | none =>
      have hclose : t.close = t := by
        unfold Trail.close
        rw [hhandle]
        simp [Trail.call]
      rw [hclose]
      exact hrest t
  | some handle =>
      have hclose : t.close = t.call [.fclose handle] := by simp [Trail.close, hhandle]
      rw [hclose]
      exact Triple.bind (triple_note (fun _ => rfl) fun _ => rfl) fun _ => hrest _

theorem triple_uploadFileSave_trail (filetitle : List UInt8) (token handle : Nat) :
    Triple (fun st => st.trailed = (t, effects))
      (uploadFileSave libc.traced (some filetitle) (some token) (some handle))
      (fun saved st => saved = true ∧ st.trailed = ({ t with handle := some handle }, effects))
      anyFault := by
  apply Triple.bind (keeps_strdup silent_trailed.malloc heapFree_trailed _ (t, effects))
  intro filename
  apply Triple.bind (Q := fun _ st => st.trailed = ({ t with handle := some handle }, effects))
  · rintro st ⟨⟩
    rfl
  · exact fun _ => Triple.pure fun _ hs => ⟨rfl, hs⟩

theorem triple_fileUploadOpen_trail (dir : Option (List UInt8)) (title : List UInt8) :
    Triple (fun st => st.trailed = (t, effects)) (fileUploadOpen libc.traced dir (some title))
      (fun opened st => opened = true ∧ (∃ path, st.trailed = (t.acquire path, effects)) ∨
        opened = false ∧ ∃ calls, (∀ c ∈ calls, c.Apart) ∧ st.trailed = (t.call calls, effects))
      anyFault := by
  have hsame : ∀ st : Machine (Traced φ), st.trailed = (t, effects) →
      ∃ calls, (∀ c ∈ calls, SysCall.Apart c) ∧ st.trailed = (t.call calls, effects) := by
    intro st hs
    exact ⟨[], nofun, by simp [hs, Trail.call]⟩
  apply fileUploadOpen_rule (p := (· = (t, effects))) silent_trailed fun st hs => .inr ⟨rfl, hsame st hs⟩
  rintro d title - ⟨⟩ - -
  apply Triple.bind (Run.keeps_store heapFree_trailed _ (t, effects))
  intro token
  apply Triple.bind (triple_openTxFilename_trail _)
  intro handle
  cases handle with
  | none =>
      apply Triple.bind (Q := fun _ st => st.trailed = (t.call [.fopenWrite _ none], effects))
      · apply (Run.keeps_free heapFree_trailed _ (fun _ _ => trivial) _).weaken
        rintro st (⟨-, hs⟩ | ⟨⟨⟩, -⟩)
        exact hs
      · exact fun _ => Triple.pure fun _ hs => .inr ⟨rfl, _, by simp [SysCall.Apart], hs⟩
  | some handle =>
      apply Triple.mono (P := fun st => handle = t.next ∧
        st.trailed = (t.number (.fopenWrite (withSlash d ++ title) (some t.next)), effects))
      · apply Triple.assume
        rintro rfl
        exact triple_uploadFileSave_trail title token t.next
      · rintro st (⟨⟨⟩, -⟩ | ⟨hhandle, hs⟩)
        exact ⟨Option.some.inj hhandle, hs⟩
      · exact fun _ _ hs => .inl ⟨hs.1, _, hs.2⟩

theorem triple_fileUploadWrite_trail (offset : Int) (dataBuf : List UInt8) :
    Triple (fun st => st.trailed = (t, effects)) (fileUploadWrite libc.traced offset dataBuf)
      (fun written st => written = false ∧ st.trailed = (t, effects) ∨
        ∃ handle calls, t.handle = some handle ∧ (∀ c ∈ calls, c.On handle) ∧
          st.trailed = (t.call calls, effects)) anyFault := by
  unfold fileUploadWrite
  apply Triple.bind (Q := fun handle st => handle = t.handle ∧ st.trailed = (t, effects))
  · rintro st ⟨⟩
    exact ⟨rfl, rfl⟩
  intro handle
  apply Triple.assume
  rintro rfl
  cases hhandle : t.handle with
  | none => exact Triple.pure fun _ hs => .inl ⟨rfl, hs⟩
  | some handle =>
      apply Triple.bind (triple_note (fun _ => rfl) fun _ => rfl)
      intro sought
      split
      · exact Triple.pure fun _ hs => .inr ⟨handle, _, rfl, by simp [SysCall.On], hs⟩
      · apply Triple.bind (triple_note (fun _ => rfl) fun _ => rfl)
        intro written
        apply Triple.pure
        intro st hs
        refine .inr ⟨handle, [.fseek handle offset, .fwrite handle dataBuf], rfl, ?_, ?_⟩
        · simp [SysCall.On]
        · simp [hs, Trail.call]

end Files

section Requests

variable {t : Trail} {effects : List Effect} {finishes : Prop} {pdu : PDU}

theorem not_repliesOk_err (cmdEx cmdEx' : UInt8) (rest : List UInt8) :
    ¬ RepliesOk cmdEx [.replyToClient pcsUploadFile cmdEx' (pcsExErr :: rest)] := by
  simp [RepliesOk, pcsExOk, pcsExErr]

theorem not_repliesOk_ne {cmdEx cmdEx' : UInt8} (hne : cmdEx ≠ cmdEx') (data : List UInt8) :
    ¬ RepliesOk cmdEx [.replyToClient pcsUploadFile cmdEx' data] := by
  simp [RepliesOk, hne]

def Machine.Stepped (st : Machine (Traced φ)) (t : Trail) (effects : List Effect)
    (finishes : Prop) : Prop :=
  ∃ new, st.effects = effects ++ new ∧ t.Step finishes new st.trail

theorem triple_reply_trail {t' : Trail} {cmdEx : UInt8} {data : List UInt8}
    (h : t.Step finishes [.replyToClient pcsUploadFile cmdEx data] t') :
    Triple (fun st : Machine (Traced φ) => st.trailed = (t', effects))
      (sendReplyToClient pcsUploadFile cmdEx data) (fun _ st => st.Stepped t effects finishes)
      anyFault := by
  intro st hs
  obtain ⟨htrail, heffects⟩ := Prod.mk.inj hs
  refine ⟨[_], congrArg (· ++ _) heffects, ?_⟩
  change t.Step finishes _ st.trail
  rwa [htrail]

theorem Trail.Step.same (hopen : ¬ RepliesOk pcsEx02 effects)
    (hwrite : ¬ RepliesOk pcsEx03 effects) (hnot : ¬ finishes) : t.Step finishes effects t := by
  have h : t.Step finishes effects (t.call []) := .apart nofun hopen hwrite hnot
  rwa [show t.call [] = t by simp [Trail.call]] at h

theorem not_finishes_of_ne (h : pdu.cmdEx ≠ pcsEx04) : ¬ pdu.Finishes := fun hfin => h hfin.cmdEx

theorem triple_cmdEx02_trail (hnot : ¬ pdu.Finishes) :
    Triple (fun st => st.trailed = (t, effects)) (processProtocolUploadFileCmdEx02 libc.traced pdu)
      (fun _ st => st.Stepped t effects pdu.Finishes) anyFault := by
  unfold processProtocolUploadFileCmdEx02
  dsimp only
  split
  · apply Triple.bind (keeps_payloadString (fun _ _ => trivial) silent_trailed pdu _ _ (t, effects))
    intro filetitle
    apply Triple.bind (Run.keeps_upgradeTempDir (t, effects))
    intro dir
    apply Triple.bind (triple_fileUploadOpen_trail dir filetitle)
    intro opened
    cases opened with
    | true =>
        rintro st (⟨-, path, hs⟩ | ⟨⟨⟩, -⟩)
        exact triple_reply_trail (.opened hnot) st hs
    | false =>
        rintro st (⟨⟨⟩, -⟩ | ⟨-, calls, hcalls, hs⟩)
        refine triple_reply_trail (.apart hcalls ?_ ?_ hnot) st hs
        · exact not_repliesOk_err _ _ _
        · exact not_repliesOk_err _ _ _
  · apply triple_reply_trail
    exact .same (not_repliesOk_err _ _ _) (not_repliesOk_err _ _ _) hnot

theorem triple_cmdEx03_trail (hnot : ¬ pdu.Finishes) :
    Triple (fun st => st.trailed = (t, effects)) (processProtocolUploadFileCmdEx03 libc.traced pdu)
      (fun _ st => st.Stepped t effects pdu.Finishes) anyFault := by
  have hne : pcsEx02 ≠ pcsEx03 := by decide
  have hreply : ∀ (b : Bool) (t' : Trail),
      (∀ echo, t.Step pdu.Finishes [.replyToClient pcsUploadFile pcsEx03 (replyStatus b :: echo)] t') →
      Triple (fun st : Machine (Traced φ) => st.trailed = (t', effects)) (do
        let echo ← Run.checked (pdu.bytes 0 4)
        sendReplyToClient pcsUploadFile pcsEx03 (replyStatus b :: echo))
      (fun _ st => st.Stepped t effects pdu.Finishes) anyFault := by
    intro b t' hstep
    apply Triple.bind (Run.keeps_checked (fun _ _ => trivial) (t', effects))
    exact fun echo => triple_reply_trail (hstep echo)
  have hsame : ∀ echo, t.Step pdu.Finishes
      [.replyToClient pcsUploadFile pcsEx03 (replyStatus false :: echo)] t :=
    fun _ => .same (not_repliesOk_ne hne _) (not_repliesOk_err _ _ _) hnot
  unfold processProtocolUploadFileCmdEx03
  dsimp only
  split
  · apply Triple.bind (Run.keeps_checked (fun _ _ => trivial) (t, effects))
    intro offset
    apply Triple.bind (Run.keeps_checked (fun _ _ => trivial) (t, effects))
    intro dataBuf
    apply Triple.bind (triple_fileUploadWrite_trail _ dataBuf)
    intro written
    have hwrote : ∀ b {handle : Nat} {calls : List SysCall}, t.handle = some handle →
        (∀ c ∈ calls, c.On handle) →
        ∀ echo, t.Step pdu.Finishes [.replyToClient pcsUploadFile pcsEx03 (replyStatus b :: echo)]
          (t.call calls) :=
      fun b _ _ hhandle hcalls _ => .wrote hhandle hcalls (not_repliesOk_ne hne _) hnot
    cases written with
    | true =>
        rintro st (⟨⟨⟩, -⟩ | ⟨handle, calls, hhandle, hcalls, hs⟩)
        exact hreply true _ (hwrote true hhandle hcalls) st hs
    | false =>
        rintro st (⟨-, hs⟩ | ⟨handle, calls, hhandle, hcalls, hs⟩)
        · exact hreply false _ hsame st hs
        · exact hreply false _ (hwrote false hhandle hcalls) st hs
  · exact hreply false _ hsame

theorem triple_cmdEx04_trail (hcmdEx : pdu.cmdEx = pcsEx04) :
    Triple (fun st => st.trailed = (t, effects)) (processProtocolUploadFileCmdEx04 libc.traced pdu)
      (fun _ st => st.Stepped t effects pdu.Finishes) anyFault := by
  have hsame : ∀ b, ¬ pdu.Finishes →
      t.Step pdu.Finishes [.replyToClient pcsUploadFile pcsEx04 [replyStatus b]] t :=
    fun b hnot => .same (not_repliesOk_ne (by decide) _) (not_repliesOk_ne (by decide) _) hnot
  unfold processProtocolUploadFileCmdEx04
  dsimp only
  split
  · rename_i hlen
    apply Triple.bind (Q := fun status st => readByte pdu.data 0 = .ok status ∧ st.trailed = (t, effects))
    · exact Run.triple_checked fun _ _ => trivial
    intro status
    apply Triple.assume
    intro hstatus
    split
    · rename_i hok
      have hfinishes : pdu.Finishes := ⟨hcmdEx, hlen, by rw [hstatus, hok]⟩
      apply Triple.bind (keeps_payloadString (fun _ _ => trivial) silent_trailed pdu _ _ (t, effects))
      intro md5sum
      apply Triple.bind (triple_fileUploadSingleFinish_trail md5sum)
      intro finished
      split
      all_goals
        rintro st ⟨t', hchecked, hs⟩
        refine triple_reply_trail (.finished hchecked ?_ ?_ hfinishes) st hs
        · exact not_repliesOk_ne (by decide) _
        · exact not_repliesOk_ne (by decide) _
    · rename_i hbad
      refine triple_reply_trail (hsame _ fun hfin => hbad ?_)
      exact Except.ok.inj (hstatus.symm.trans hfin.status)
  · rename_i hlen
    exact triple_reply_trail (hsame _ fun hfin => hlen hfin.dataLen)

theorem triple_processProtocolUploadFile_trail :
    Triple (fun st => st.trailed = (t, effects)) (processProtocolUploadFile libc.traced pdu)
      (fun _ st => st.Stepped t effects pdu.Finishes) anyFault := by
  have hsame : ∀ cmdEx b, pcsEx02 ≠ cmdEx → pcsEx03 ≠ cmdEx → ¬ pdu.Finishes →
      t.Step pdu.Finishes [.replyToClient pcsUploadFile cmdEx [replyStatus b]] t :=
    fun _ _ hopen hwrite hnot => .same (not_repliesOk_ne hopen _) (not_repliesOk_ne hwrite _) hnot
  unfold processProtocolUploadFile processProtocolUploadFileCmdEx05
  split
  · rename_i h
    exact triple_reply_trail (hsame _ _ (by decide) (by decide)
      (not_finishes_of_ne (by rw [h]; decide)))
  split
  · rename_i h
    exact triple_cmdEx02_trail (not_finishes_of_ne (by rw [h]; decide))
  split
  · rename_i h
    exact triple_cmdEx03_trail (not_finishes_of_ne (by rw [h]; decide))
  split
  · exact triple_cmdEx04_trail ‹_›
  rename_i h04
  have hnot := not_finishes_of_ne h04
  split
  · dsimp only
    split
    · apply Triple.bind (Run.keeps_checked (fun _ _ => trivial) (t, effects))
      intro status
      split <;> exact triple_reply_trail (hsame _ _ (by decide) (by decide) hnot)
    · exact triple_reply_trail (hsame _ _ (by decide) (by decide) hnot)
  · refine Triple.pure fun st hs => ?_
    obtain ⟨htrail, heffects⟩ := Prod.mk.inj hs
    refine ⟨[], by simp [heffects], ?_⟩
    rw [htrail]
    exact .same (by simp [RepliesOk]) (by simp [RepliesOk]) hnot

end Requests

def Trail.Beside (t t' : Trail) : Prop := ∃ calls, (∀ c ∈ calls, SysCall.Apart c) ∧ t' = t.call calls

section Beside

variable {t : Trail}

theorem Trail.Beside.refl (t : Trail) : t.Beside t := ⟨[], nofun, by simp [Trail.call]⟩

def StaysBeside {α : Type} (t : Trail) (m : Run (Traced φ) α) : Prop :=
  Triple (fun st => t.Beside st.trail) m (fun _ st => t.Beside st.trail) anyFault

theorem silent_trail : libc.traced.Silent Machine.trail := libc.traced_silent fun _ _ => rfl

theorem StaysBeside.of_keeps {α : Type} {m : Run (Traced φ) α}
    (h : Keeps Machine.trail anyFault m) : StaysBeside t m :=
  h.triple t.Beside

theorem StaysBeside.bind {α β : Type} {m : Run (Traced φ) α} {f : α → Run (Traced φ) β}
    (hm : StaysBeside t m) (hf : ∀ a, StaysBeside t (f a)) : StaysBeside t (m >>= f) :=
  Triple.bind hm hf

theorem StaysBeside.after {α β : Type} {m : Run (Traced φ) α} {f : α → Run (Traced φ) β}
    (hm : Keeps Machine.trail anyFault m) (hf : ∀ a, StaysBeside t (f a)) :
    StaysBeside t (m >>= f) :=
  .bind (.of_keeps hm) hf

theorem staysBeside_note {α : Type} {op : Traced φ → α × Traced φ} {call : SysCall}
    (hhandles : ∀ u, (op u).2.handles = u.handles)
    (hcalls : ∀ u, (op u).2.calls = u.calls ++ [call]) (hapart : call.Apart) :
    StaysBeside t (Run.call op) := by
  rintro st ⟨calls, hbefore, htrail⟩
  refine ⟨calls ++ [call], ?_, ?_⟩
  · intro c hc
    rcases List.mem_append.mp hc with h | h
    · exact hbefore c h
    · rwa [List.mem_singleton.mp h]
  · obtain ⟨hnext, hhandle, hold⟩ : st.env.handles.length = t.next ∧
        st.upload.fileHandle = t.handle ∧ st.calls = t.calls ++ calls := by
      simpa [Machine.trail, Trail.call] using htrail
    simp only [Machine.calls] at hold
    simp [Machine.trail, Machine.calls, Trail.call, hhandles, hcalls, hnext, hhandle, hold]

theorem staysBeside_fileExecuteScript (dir filetitle : Option (List UInt8)) :
    StaysBeside t (fileExecuteScript libc.traced dir filetitle) := by
  apply fileExecuteScript_rule (p := t.Beside) silent_trail.malloc (fun _ _ hs => hs) fun _ hs => hs
  intro d title _ _ _ _
  apply StaysBeside.after (Run.keeps_call (silent_trail.access _))
  intro exist
  split
  · exact .of_keeps Keeps.pure
  apply StaysBeside.bind
  · exact staysBeside_note (fun _ => rfl) (fun _ => rfl) trivial
  intro changed
  split
  · exact .of_keeps Keeps.pure
  apply StaysBeside.bind
  · exact staysBeside_note (fun _ => rfl) (fun _ => rfl) trivial
  · exact fun _ => .of_keeps Keeps.pure

theorem staysBeside_processProtocolUpgrade (pdu : PDU) :
    StaysBeside t (processProtocolUpgrade libc.traced pdu) := by
  have hreply : ∀ data, StaysBeside t
      (sendReplyToClient pcsUpgrade pcsEx01 data : Run (Traced φ) Unit) :=
    fun _ => .of_keeps (keeps_sendReplyToClient (fun _ _ => rfl) _ _ _)
  unfold processProtocolUpgrade processProtocolUpgradeCmdEx01 processProtocolUpgradeCmdEx02
  split
  · dsimp only
    split
    · apply StaysBeside.after (keeps_payloadString (fun _ _ => trivial) silent_trail _ _ _)
      intro filetitle
      apply StaysBeside.after Run.keeps_upgradeTempDir
      intro dir
      apply StaysBeside.bind (staysBeside_fileExecuteScript _ _)
      intro errorCode
      split <;> exact hreply _
    · exact hreply _
  split
  · exact staysBeside_note (fun _ => rfl) (fun _ => rfl) trivial
  · exact .of_keeps Keeps.pure

theorem staysBeside_processProtocolPdu {pdu : PDU} (hcmd : pdu.cmd ≠ pcsUploadFile)
    (bLogin : Bool) : StaysBeside t (processProtocolPdu libc.traced pdu bLogin) := by
  unfold processProtocolPdu
  cases pdu.branch bLogin with
  | discoverDevice =>
      exact .of_keeps (keeps_processProtocolDiscoverDevice (fun _ _ => trivial) (fun _ _ => rfl)
        silent_trail)
  | clientLogin =>
      exact .of_keeps (keeps_processProtocolClientLogin (fun _ _ => trivial) (fun _ _ => rfl)
        silent_trail pdu)
  | notLogin => exact .of_keeps Keeps.pure
  | afterLogin =>
      change StaysBeside t (processProtocolPduAfterLogin libc.traced pdu)
      unfold processProtocolPduAfterLogin
      rw [if_neg hcmd]
      split
      · exact staysBeside_processProtocolUpgrade pdu
      · exact .of_keeps Keeps.pure

end Beside

structure PDU.FinishesUpload (pdu : PDU) (bLogin : Bool) : Prop where
  login : bLogin = true
  cmd : pdu.cmd = pcsUploadFile
  finishes : pdu.Finishes

theorem not_repliesOk_of_says {pdu : PDU} {effects : List Effect} (hcmd : pdu.cmd ≠ pcsUploadFile)
    (hsaid : ∀ effect ∈ effects, pdu.Says effect) (cmdEx : UInt8) : ¬ RepliesOk cmdEx effects := by
  rintro ⟨rest, hmem⟩
  generalize heffect : Effect.replyToClient pcsUploadFile cmdEx (pcsExOk :: rest) = effect at hmem
  cases hsaid _ hmem with
  | setLogin | replyToUdp => cases heffect
  | replyToClient => exact hcmd (Effect.replyToClient.inj heffect).1.symm

/-- What one PDU can do to the trail. -/
theorem trail_of_run {pdu : PDU} {bLogin : Bool} {machine machine' : Machine (Traced φ)}
    (hrun : processProtocolPdu libc.traced pdu bLogin { machine with effects := [] } =
      .ok ((), machine')) :
    machine.trail.Step (pdu.FinishesUpload bLogin) machine'.effects machine'.trail := by
  by_cases hcmd : pdu.cmd = pcsUploadFile
  · have hbranch : pdu.branch bLogin = if bLogin = false then .notLogin else .afterLogin := by
      simp [PDU.branch, hcmd, pcsUploadFile, pcsDiscoverDevice, pcsClientLogin]
    cases bLogin with
    | false =>
        rw [processProtocolPdu, hbranch] at hrun
        cases hrun
        exact .same (by simp [RepliesOk]) (by simp [RepliesOk]) fun h => nomatch h.login
    | true =>
        rw [processProtocolPdu, hbranch] at hrun
        change processProtocolPduAfterLogin libc.traced pdu _ = _ at hrun
        rw [processProtocolPduAfterLogin, if_pos hcmd] at hrun
        obtain ⟨new, hnew, hstep⟩ : machine'.Stepped machine.trail [] pdu.Finishes :=
          triple_processProtocolUploadFile_trail.ok rfl hrun
        have hsame : pdu.Finishes = pdu.FinishesUpload true :=
          propext ⟨fun h => ⟨rfl, hcmd, h⟩, fun h => h.finishes⟩
        rw [← hsame, hnew, List.nil_append]
        exact hstep
  · have hsaid := not_repliesOk_of_says hcmd (says_of_run hrun)
    obtain ⟨calls, hcalls, htrail⟩ : machine.trail.Beside machine'.trail :=
      (staysBeside_processProtocolPdu hcmd bLogin).ok (s := { machine with effects := [] })
        (.refl _) hrun
    rw [htrail]
    exact .apart hcalls (hsaid _) (hsaid _) fun h => hcmd h.cmd

end CccUpgrade
