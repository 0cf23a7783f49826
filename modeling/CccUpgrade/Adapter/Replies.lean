import CccUpgrade.Adapter.Payload
import CccUpgrade.Adapter.Requests

/-! Every request is answered once. Whichever way its handler goes, the one call it ends
with is a reply that repeats the command and says whether the request has succeeded. -/
namespace CccUpgrade

open Lib

def Message.IsRequest (m : Message) : Prop :=
  m.cmd = pcsClientLogin ∨
    m.cmd = pcsUploadFile ∧ m.cmdEx ∈ [pcsEx01, pcsEx02, pcsEx03, pcsEx04, pcsEx05] ∨
    m.cmd = pcsUpgrade ∧ m.cmdEx = pcsEx01

/-- A reply repeats the command, and says first whether the request has succeeded. -/
structure ReplyTo (m reply : Message) : Prop where
  cmd : reply.cmd = m.cmd
  cmdEx : reply.cmdEx = if m.cmd = pcsClientLogin then pcsEx01 else m.cmdEx
  status : reply.data.head? = some pcsExOk ∨ reply.data.head? = some pcsExErr
  short : reply.data.length ≤ 8

inductive Answered (m : Message) : List Effect → Prop
  | reply {r : Message} (h : ReplyTo m r) : Answered m [.replyToClient r.cmd r.cmdEx r.data]
  | login {r : Message} (h : ReplyTo m r) :
      Answered m [.setLogin, .replyToClient r.cmd r.cmdEx r.data]

theorem replyStatus_head (b : Bool) (rest : List UInt8) :
    (replyStatus b :: rest).head? = some pcsExOk ∨ (replyStatus b :: rest).head? = some pcsExErr := by
  cases b <;> simp [replyStatus]

variable {φ : Type} {libc : Libc φ}

def Answers (m : Message) (request : Run φ Unit) : Prop :=
  Triple (fun st => st.effects = []) request (fun _ st => Answered m st.effects) anyFault

theorem Answers.after {α : Type} {m : Message} {first : Run φ α} {rest : α → Run φ Unit}
    (hfirst : Keeps Machine.effects anyFault first) (hrest : ∀ a, Answers m (rest a)) :
    Answers m (first >>= rest) :=
  Triple.bind (hfirst.triple (· = [])) hrest

section Handlers

variable {m : Message} {cmd cmdEx : UInt8}

theorem replyTo_status (hcmd : cmd = m.cmd)
    (hcmdEx : cmdEx = if m.cmd = pcsClientLogin then pcsEx01 else m.cmdEx) (b : Bool)
    {rest : List UInt8} (hrest : rest.length ≤ 7) : ReplyTo m ⟨cmd, cmdEx, replyStatus b :: rest⟩ where
  cmd := hcmd
  cmdEx := hcmdEx
  status := replyStatus_head b rest
  short := Nat.succ_le_succ hrest

theorem answers_sendReplyToClient (hcmd : cmd = m.cmd)
    (hcmdEx : cmdEx = if m.cmd = pcsClientLogin then pcsEx01 else m.cmdEx) (b : Bool)
    {rest : List UInt8} (hrest : rest.length ≤ 7) :
    Answers m (sendReplyToClient cmd cmdEx (replyStatus b :: rest) : Run φ Unit) := by
  intro st hs
  change Answered m (st.effects ++ [_])
  rw [hs]
  exact .reply (replyTo_status hcmd hcmdEx b hrest)

theorem answers_login (hm : m.cmd = pcsClientLogin) (pdu : PDU) :
    Answers m (processProtocolClientLogin libc pdu) := by
  have hcmdEx : pcsEx01 = if m.cmd = pcsClientLogin then pcsEx01 else m.cmdEx := by simp [hm]
  have hreply : ∀ b, Answers m
      (sendReplyToClient pcsClientLogin pcsEx01 [replyStatus b] : Run φ Unit) :=
    fun b => answers_sendReplyToClient hm.symm hcmdEx b (by simp)
  unfold processProtocolClientLogin
  dsimp only
  split
  · apply Answers.after (keeps_effects_payloadString _ _ _)
    intro password
    split
    · intro st hs
      change Answered m (st.effects ++ [.setLogin] ++ [_])
      rw [hs]
      exact .login (replyTo_status hm.symm hcmdEx true (by simp))
    · exact hreply false
  · exact hreply false

variable (hne : m.cmd ≠ pcsClientLogin)
include hne

theorem answers_status (hcmd : cmd = m.cmd) (hcmdEx : cmdEx = m.cmdEx) (b : Bool)
    {rest : List UInt8} (hrest : rest.length ≤ 7) :
    Answers m (sendReplyToClient cmd cmdEx (replyStatus b :: rest) : Run φ Unit) :=
  answers_sendReplyToClient hcmd (by simp [hne, hcmdEx]) b hrest

theorem answers_upgradeCmdEx01 (hcmd : m.cmd = pcsUpgrade) (hcmdEx : m.cmdEx = pcsEx01) (pdu : PDU) :
    Answers m (processProtocolUpgradeCmdEx01 libc pdu) := by
  have hreply : ∀ b errorCode, Answers m
      (sendReplyToClient pcsUpgrade pcsEx01 [replyStatus b, errorCode] : Run φ Unit) :=
    fun b _ => answers_status hne hcmd.symm hcmdEx.symm b (by simp)
  unfold processProtocolUpgradeCmdEx01
  dsimp only
  split
  · apply Answers.after (keeps_effects_payloadString _ _ _)
    intro filetitle
    apply Answers.after Run.keeps_upgradeTempDir
    intro dir
    apply Answers.after (keeps_effects_fileExecuteScript _ _)
    intro errorCode
    split <;> exact hreply _ _
  · exact hreply _ _

variable (hcmd : m.cmd = pcsUploadFile)
include hcmd

theorem answers_uploadCmdEx02 (hcmdEx : m.cmdEx = pcsEx02) (pdu : PDU) :
    Answers m (processProtocolUploadFileCmdEx02 libc pdu) := by
  have hreply : ∀ b, Answers m
      (sendReplyToClient pcsUploadFile pcsEx02 [replyStatus b] : Run φ Unit) :=
    fun b => answers_status hne hcmd.symm hcmdEx.symm b (by simp)
  unfold processProtocolUploadFileCmdEx02
  dsimp only
  split
  · apply Answers.after (keeps_effects_payloadString _ _ _)
    intro filetitle
    apply Answers.after Run.keeps_upgradeTempDir
    intro dir
    apply Answers.after (keeps_effects_fileUploadOpen _ _)
    intro opened
    split <;> exact hreply _
  · exact hreply _

theorem answers_uploadCmdEx03 (hcmdEx : m.cmdEx = pcsEx03) (pdu : PDU) :
    Answers m (processProtocolUploadFileCmdEx03 libc pdu) := by
  have hreply : ∀ b, Answers m (do
      let echo ← Run.checked (pdu.bytes 0 4)
      sendReplyToClient pcsUploadFile pcsEx03 (replyStatus b :: echo) : Run φ Unit) := by
    intro b
    apply Triple.bind (Run.triple_checked fun _ _ => trivial)
    intro echo
    apply Triple.assume
    intro hecho
    apply answers_status hne hcmd.symm hcmdEx.symm b
    exact (PDU.bytes_length_le hecho).trans (by decide)
  unfold processProtocolUploadFileCmdEx03
  dsimp only
  split
  · apply Answers.after (keeps_effects_checked _)
    intro offset
    apply Answers.after (keeps_effects_checked _)
    intro dataBuf
    apply Answers.after (keeps_fileUploadWrite (fun _ _ => envFree_effects.blind _)
      (fun _ _ => envFree_effects.blind _) _ _)
    intro written
    split <;> exact hreply _
  · exact hreply _

theorem answers_uploadCmdEx04 (hcmdEx : m.cmdEx = pcsEx04) (pdu : PDU) :
    Answers m (processProtocolUploadFileCmdEx04 libc pdu) := by
  have hreply : ∀ b, Answers m
      (sendReplyToClient pcsUploadFile pcsEx04 [replyStatus b] : Run φ Unit) :=
    fun b => answers_status hne hcmd.symm hcmdEx.symm b (by simp)
  unfold processProtocolUploadFileCmdEx04
  dsimp only
  split
  · apply Answers.after (keeps_effects_checked _)
    intro status
    split
    · apply Answers.after (keeps_effects_payloadString _ _ _)
      intro md5sum
      apply Answers.after (keeps_effects_fileUploadSingleFinish _)
      intro finished
      split <;> exact hreply _
    · exact hreply _
  · exact hreply _

theorem answers_uploadCmdEx05 (hcmdEx : m.cmdEx = pcsEx05) (pdu : PDU) :
    Answers m (processProtocolUploadFileCmdEx05 pdu : Run φ Unit) := by
  have hreply : ∀ b, Answers m
      (sendReplyToClient pcsUploadFile pcsEx05 [replyStatus b] : Run φ Unit) :=
    fun b => answers_status hne hcmd.symm hcmdEx.symm b (by simp)
  unfold processProtocolUploadFileCmdEx05
  dsimp only
  split
  · apply Answers.after (keeps_effects_checked _)
    intro status
    split <;> exact hreply _
  · exact hreply _

theorem answers_upload {pdu : PDU} (hcarries : pdu.Carries m)
    (hcmdEx : m.cmdEx ∈ [pcsEx01, pcsEx02, pcsEx03, pcsEx04, pcsEx05]) :
    Answers m (processProtocolUploadFile libc pdu) := by
  unfold processProtocolUploadFile
  rw [hcarries.cmdEx]
  split
  · rename_i h
    exact answers_status hne hcmd.symm h.symm true (by simp)
  split
  · exact answers_uploadCmdEx02 hne hcmd ‹_› pdu
  split
  · exact answers_uploadCmdEx03 hne hcmd ‹_› pdu
  split
  · exact answers_uploadCmdEx04 hne hcmd ‹_› pdu
  split
  · exact answers_uploadCmdEx05 hne hcmd ‹_› pdu
  · simp_all

end Handlers

theorem processProtocolPdu_login {pdu : PDU} (hcmd : pdu.cmd = pcsClientLogin) (bLogin : Bool) :
    processProtocolPdu libc pdu bLogin = processProtocolClientLogin libc pdu := by
  simp only [processProtocolPdu, PDU.branch, hcmd]
  rfl

theorem answers_processProtocolPdu {m : Message} (hm : m.IsRequest) {pdu : PDU}
    (hcarries : pdu.Carries m) : Answers m (processProtocolPdu libc pdu true) := by
  rcases hm with hlogin | ⟨hupload, hcmdEx⟩ | ⟨hupgrade, hcmdEx⟩
  · rw [processProtocolPdu_login (hcarries.cmd.trans hlogin)]
    exact answers_login hlogin pdu
  · rw [processProtocolPdu_upload (hcarries.cmd.trans hupload)]
    exact answers_upload (by rw [hupload]; decide) hupload hcarries hcmdEx
  · rw [processProtocolPdu_upgrade (hcarries.cmd.trans hupgrade), processProtocolUpgrade,
      if_pos (hcarries.cmdEx.trans hcmdEx)]
    exact answers_upgradeCmdEx01 (by rw [hupgrade]; decide) hupgrade hcmdEx pdu

def repliesIn : List Effect → List Message
  | [] => []
  | .replyToClient cmd cmdEx data :: effects => ⟨cmd, cmdEx, data⟩ :: repliesIn effects
  | .setLogin :: effects => repliesIn effects
  | .replyToUdp .. :: effects => repliesIn effects

theorem repliesIn_of_none {effects : List Effect}
    (h : ∀ e ∈ effects, ∀ cmd cmdEx data, e ≠ .replyToClient cmd cmdEx data) :
    repliesIn effects = [] := by
  induction effects with
  | nil => rfl
  | cons e effects ih =>
      have hrest := ih fun e he => h e (List.mem_cons_of_mem _ he)
      cases e with
      | setLogin | replyToUdp => exact hrest
      | replyToClient cmd cmdEx data => exact absurd rfl (h _ List.mem_cons_self cmd cmdEx data)

/-- The replies a message that has gone the given way leads to. -/
inductive Outcome (m : Message) (branch : Branch) : List Message → Prop
  | answered (hrequest : m.IsRequest) (hbranch : branch ≠ .notLogin) {reply : Message}
      (h : ReplyTo m reply) : Outcome m branch [reply]
  | ignored (h : m.IsRequest → branch = .notLogin) : Outcome m branch []

theorem Outcome.replyTo {m : Message} {branch : Branch} {replies : List Message}
    (h : Outcome m branch replies) : ∀ reply ∈ replies, ReplyTo m reply := by
  cases h with
  | answered _ _ hreply =>
      intro r hr
      rwa [List.mem_singleton.mp hr]
  | ignored => exact nofun

theorem Answered.outcome {m : Message} {effects : List Effect} (h : Answered m effects)
    (hrequest : m.IsRequest) {branch : Branch} (hbranch : branch ≠ .notLogin) :
    Outcome m branch (repliesIn effects) := by
  cases h with
  | reply hreply | login hreply => exact .answered hrequest hbranch hreply

def SilentOnTcp (request : Run φ Unit) : Prop :=
  Emits (fun e => ∀ cmd cmdEx data, e ≠ .replyToClient cmd cmdEx data) request

theorem SilentOnTcp.outcome {m : Message} {branch : Branch} {request : Run φ Unit}
    (h : SilentOnTcp request) (hignored : m.IsRequest → branch = .notLogin) :
    Triple (fun st => st.effects = []) request
      (fun _ st => Outcome m branch (repliesIn st.effects)) anyFault := by
  apply Triple.mono h
  · intro st hs
    rw [hs]
    exact nofun
  · intro _ st hnone
    rw [repliesIn_of_none hnone]
    exact .ignored hignored

theorem silentOnTcp_sendIpLoop (hostname : List UInt8) (ifList : List IfAddr) :
    SilentOnTcp (sendIpLoop hostname ifList : Run φ Unit) := by
  induction ifList with
  | nil => exact .of_keeps Keeps.pure
  | cons ifa ifList ih =>
      rw [sendIpLoop]
      dsimp only
      split
      · exact .bind (.of_keeps (Run.keeps_fault trivial)) fun _ => ih
      · exact ih
      · split
        · refine .bind (emits_emit ?_) fun _ => ih
          intro cmd cmdEx data h
          cases h
        · exact ih

theorem silentOnTcp_discoverDevice : SilentOnTcp (processProtocolDiscoverDevice libc) := by
  have hsendIp : Emits (fun e => ∀ cmd cmdEx data, e ≠ .replyToClient cmd cmdEx data)
      (sendIp libc) := by
    unfold sendIp
    apply Emits.after (keeps_effects_call _)
    intro ifList
    split
    · apply Emits.after (keeps_effects_call _)
      intro hostname
      split
      · exact .bind (silentOnTcp_sendIpLoop _ _) fun _ => .of_keeps Keeps.pure
      · exact .of_keeps Keeps.pure
    · exact .of_keeps Keeps.pure
  exact .bind hsendIp fun _ => .of_keeps Keeps.pure

theorem silentOnTcp_afterLogin {m : Message} (hm : ¬ m.IsRequest) {pdu : PDU}
    (hcarries : pdu.Carries m) : SilentOnTcp (processProtocolPduAfterLogin libc pdu) := by
  unfold processProtocolPduAfterLogin
  split
  · rename_i hcmd
    have hupload : m.cmdEx ∉ [pcsEx01, pcsEx02, pcsEx03, pcsEx04, pcsEx05] := by
      intro hmem
      exact hm (.inr (.inl ⟨hcarries.cmd.symm.trans hcmd, hmem⟩))
    simp only [List.mem_cons, List.not_mem_nil, or_false, not_or] at hupload
    obtain ⟨h01, h02, h03, h04, h05⟩ := hupload
    rw [← hcarries.cmdEx] at h01 h02 h03 h04 h05
    unfold processProtocolUploadFile
    rw [if_neg h01, if_neg h02, if_neg h03, if_neg h04, if_neg h05]
    exact .of_keeps Keeps.pure
  split
  · rename_i hcmd
    have hupgrade : pdu.cmdEx ≠ pcsEx01 := by
      intro hcmdEx
      exact hm (.inr (.inr ⟨hcarries.cmd.symm.trans hcmd, hcarries.cmdEx.symm.trans hcmdEx⟩))
    unfold processProtocolUpgrade processProtocolUpgradeCmdEx02
    rw [if_neg hupgrade]
    split
    · exact .of_keeps (keeps_effects_call _)
    · exact .of_keeps Keeps.pure
  · exact .of_keeps Keeps.pure

theorem not_isRequest_of_discover {m : Message} (h : m.cmd = pcsDiscoverDevice) :
    ¬ m.IsRequest := by
  rintro (hcmd | ⟨hcmd, -⟩ | ⟨hcmd, -⟩) <;> rw [h] at hcmd <;> cases hcmd

theorem outcome_processProtocolPdu {m : Message} {pdu : PDU} (hcarries : pdu.Carries m)
    (bLogin : Bool) :
    Triple (fun st => st.effects = []) (processProtocolPdu libc pdu bLogin)
      (fun _ st => Outcome m (pdu.branch bLogin) (repliesIn st.effects)) anyFault := by
  by_cases hdiscover : pdu.cmd = pcsDiscoverDevice
  · have hm := not_isRequest_of_discover (hcarries.cmd.symm.trans hdiscover)
    have hrun : processProtocolPdu libc pdu bLogin = processProtocolDiscoverDevice libc := by
      simp only [processProtocolPdu, PDU.branch, hdiscover, if_true]
    rw [hrun]
    exact silentOnTcp_discoverDevice.outcome fun h => absurd h hm
  by_cases hlogin : pdu.cmd = pcsClientLogin
  · have hcmd := hcarries.cmd.symm.trans hlogin
    have hbranch : pdu.branch bLogin ≠ .notLogin := by
      unfold PDU.branch
      rw [if_neg hdiscover, if_pos hlogin]
      intro h
      cases h
    rw [processProtocolPdu_login hlogin]
    apply (answers_login hcmd pdu).mono fun _ hs => hs
    exact fun _ st hs => hs.outcome (.inl hcmd) hbranch
  cases bLogin with
  | false =>
      have hbranch : pdu.branch false = .notLogin := by
        simp [PDU.branch, hdiscover, hlogin]
      have hrun : processProtocolPdu libc pdu false = pure () := by
        rw [processProtocolPdu, hbranch]
      rw [hrun]
      exact SilentOnTcp.outcome (.of_keeps Keeps.pure) fun _ => hbranch
  | true =>
      have hbranch : pdu.branch true = .afterLogin := by
        simp [PDU.branch, hdiscover, hlogin]
      by_cases hm : m.IsRequest
      · apply (answers_processProtocolPdu hm hcarries).mono fun _ hs => hs
        exact fun _ st hs => hs.outcome hm (by simp [hbranch])
      · have hrun : processProtocolPdu libc pdu true = processProtocolPduAfterLogin libc pdu := by
          rw [processProtocolPdu, hbranch]
        rw [hrun]
        exact (silentOnTcp_afterLogin hm hcarries).outcome fun h => absurd h hm

end CccUpgrade
