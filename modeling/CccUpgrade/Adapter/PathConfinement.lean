import CccUpgrade.Adapter.Payload
import CccUpgrade.SysCalls

/-! The paths an upload request opens and a run request makes executable and runs. They
are built from a title that is taken from the payload up to its first NUL and is not
checked for slashes or for the names of directories. -/
namespace CccUpgrade

open Lib

def SysCall.path : SysCall → Option (List UInt8)
  | .fopenWrite path _ => some path
  | .chmod path => some path
  | .system command => some command
  | _ => none

structure FileTitle (title : List UInt8) : Prop where
  nonempty : title ≠ []
  plain : slash ∉ title
  current : title ≠ literal "."
  parent : title ≠ literal ".."

def Confined (dir path : List UInt8) : Prop :=
  ∃ title, path = withSlash dir ++ title ∧ FileTitle title

theorem confined_iff (dir title : List UInt8) :
    Confined dir (withSlash dir ++ title) ↔ FileTitle title := by
  constructor
  · rintro ⟨title', heq, htitle⟩
    rwa [List.append_cancel_left heq]
  · exact fun htitle => ⟨title, rfl, htitle⟩

def Uses (P : List UInt8 → Prop) (calls : List SysCall) : Prop :=
  ∀ call ∈ calls, ∀ path, call.path = some path → P path

theorem Uses.append {P : List UInt8 → Prop} {calls : List SysCall} (h : Uses P calls)
    {call : SysCall} (hcall : ∀ path, call.path = some path → P path) : Uses P (calls ++ [call]) := by
  intro c hc
  rcases List.mem_append.mp hc with hbefore | hhere
  · exact h c hbefore
  · rw [List.mem_singleton.mp hhere]
    exact hcall

variable {φ : Type}

variable {libc : Libc φ}

section Triples

variable {P : List UInt8 → Prop} {dir title : List UInt8} {E : Fault → Prop}

theorem triple_chmod {path : List UInt8} (hpath : P path) :
    Triple (fun st => Uses P st.calls) (Run.call (libc.traced.chmod · path))
      (fun _ st => Uses P st.calls) E := by
  intro st hs
  apply Uses.append hs
  rintro p ⟨⟩
  exact hpath

theorem triple_executeScript {command : List UInt8} (hpath : P command) :
    Triple (fun st => Uses P st.calls) (executeScript libc.traced command)
      (fun _ st => Uses P st.calls) E := by
  intro st hs
  apply Uses.append hs
  rintro p ⟨⟩
  exact hpath

theorem triple_openTxFilename {path : List UInt8} (hpath : P path) :
    Triple (fun st => Uses P st.calls) (openTxFilename libc.traced path)
      (fun _ st => Uses P st.calls) E := by
  have hcall : ∀ handle p, (SysCall.fopenWrite path handle).path = some p → P p := by
    rintro handle p ⟨⟩
    exact hpath
  intro st hs
  change Uses P (st.env.opened (.fopenWrite path) (libc.fopenWrite st.env.env path)).2.calls
  unfold Traced.opened
  split <;> exact hs.append (hcall _)

theorem triple_fileUploadOpen_uses {dir : Option (List UInt8)}
    (hpath : ∀ d, dir = some d → d ≠ [] → title ≠ [] → P (withSlash d ++ title)) :
    Triple (fun st => Uses P st.calls) (fileUploadOpen libc.traced dir (some title))
      (fun _ st => Uses P st.calls) anyFault := by
  apply fileUploadOpen_rule (p := Uses P) silent_calls fun _ hs => hs
  rintro d title rfl ⟨⟩ hd ht
  apply Triple.bind ((Run.keeps_store outer_calls.heap _).triple (Uses P))
  intro token
  apply Triple.bind (triple_openTxFilename (hpath d rfl hd ht))
  intro handle
  split
  · apply Triple.bind ((Run.keeps_free outer_calls.heap _ fun _ _ => trivial).triple (Uses P))
    exact fun _ => Triple.pure fun _ hs => hs
  · exact (keeps_uploadFileSave silent_calls.malloc outer_calls _ _ _).triple (Uses P)

theorem triple_fileExecuteScript_uses {dir : Option (List UInt8)}
    (hpath : ∀ d, dir = some d → d ≠ [] → title ≠ [] → P (withSlash d ++ title)) :
    Triple (fun st => Uses P st.calls) (fileExecuteScript libc.traced dir (some title))
      (fun _ st => Uses P st.calls) anyFault := by
  apply fileExecuteScript_rule (p := Uses P) silent_calls.malloc (fun _ _ hs => hs) (fun _ hs => hs)
  rintro d title rfl ⟨⟩ hd ht
  apply Triple.bind ((Run.keeps_call (silent_calls.access _)).triple (Uses P))
  intro exist
  split
  · exact Triple.pure fun _ hs => hs
  apply Triple.bind (triple_chmod (hpath d rfl hd ht))
  intro changed
  split
  · exact Triple.pure fun _ hs => hs
  apply Triple.bind (triple_executeScript (hpath d rfl hd ht))
  exact fun _ => Triple.pure fun _ hs => hs

end Triples

def Message.OpensFile (m : Message) : Prop := m.cmd = pcsUploadFile ∧ m.cmdEx = pcsEx02

def Message.RunsScript (m : Message) : Prop := m.cmd = pcsUpgrade ∧ m.cmdEx = pcsEx01

section Dispatch

variable {pdu : PDU} {m : Message} (hcarries : pdu.Carries m)
include hcarries

theorem processProtocolPdu_opensFile {libc : Libc φ} (hm : m.OpensFile) :
    processProtocolPdu libc pdu true = processProtocolUploadFileCmdEx02 libc pdu := by
  rw [processProtocolPdu_upload (hcarries.cmd.trans hm.1), processProtocolUploadFile,
    hcarries.cmdEx.trans hm.2]
  rfl

theorem processProtocolPdu_runsScript {libc : Libc φ} (hm : m.RunsScript) :
    processProtocolPdu libc pdu true = processProtocolUpgradeCmdEx01 libc pdu := by
  rw [processProtocolPdu_upgrade (hcarries.cmd.trans hm.1), processProtocolUpgrade,
    hcarries.cmdEx.trans hm.2]
  rfl

end Dispatch

def Machine.usage (st : Machine (Traced φ)) : Option (List UInt8) × List SysCall :=
  (st.upgradeTempDir, st.calls)

theorem silent_usage : libc.traced.Silent Machine.usage := libc.traced_silent fun _ _ => rfl

theorem triple_upgradeTempDir {P : List UInt8 → Prop} {dir : Option (List UInt8)} {α : Type}
    {m' : Option (List UInt8) → Run (Traced φ) α}
    {Q : α → Machine (Traced φ) → Prop}
    (hm : Triple (fun st => Uses P st.calls) (m' dir) Q anyFault) :
    Triple (fun st => st.upgradeTempDir = dir ∧ Uses P st.calls) (Run.upgradeTempDir >>= m') Q
      anyFault := by
  rintro st ⟨rfl, hs⟩
  exact hm st hs

section Requests

variable {P : List UInt8 → Prop} {dir : Option (List UInt8)} {pdu : PDU} {m : Message}
  (hcarries : pdu.Carries m)
include hcarries

theorem triple_title {m' : List UInt8 → Run (Traced φ) Unit}
    (hm : Triple (fun st => st.upgradeTempDir = dir ∧ Uses P st.calls) (m' (cString m.data))
      (fun _ st => Uses P st.calls) anyFault) :
    Triple (fun st => st.upgradeTempDir = dir ∧ Uses P st.calls)
      (payloadString libc.traced pdu 0 pdu.dataLen.toNat >>= m') (fun _ st => Uses P st.calls)
      anyFault := by
  rw [hcarries.dataLen_toNat]
  apply Triple.bind (triple_payload hcarries (by omega) Machine.usage silent_usage.malloc
    (fun v => v.1 = dir ∧ Uses P v.2) fun _ _ => trivial)
  intro title
  apply Triple.assume
  rw [List.drop_zero, List.take_length]
  rintro rfl
  exact hm

variable (hpath : 1 < m.data.length → ∀ d, dir = some d → d ≠ [] → cString m.data ≠ [] →
  P (withSlash d ++ cString m.data))
include hpath

theorem triple_cmdEx02_uses :
    Triple (fun st => st.upgradeTempDir = dir ∧ Uses P st.calls)
      (processProtocolUploadFileCmdEx02 libc.traced pdu) (fun _ st => Uses P st.calls) anyFault := by
  have hreply : ∀ b, Triple (fun st : Machine (Traced φ) => Uses P st.calls)
      (sendReplyToClient pcsUploadFile pcsEx02 [replyStatus b]) (fun _ st => Uses P st.calls)
      anyFault := fun _ _ hs => hs
  unfold processProtocolUploadFileCmdEx02
  dsimp only
  have hdataLen := hcarries.dataLen
  split
  · rename_i hlong
    have hpath := hpath (by omega)
    apply triple_title hcarries
    apply triple_upgradeTempDir
    apply Triple.bind (triple_fileUploadOpen_uses hpath)
    intro opened
    split <;> exact hreply _
  · exact (hreply _).weaken fun _ hs => hs.2

theorem triple_upgradeCmdEx01_uses :
    Triple (fun st => st.upgradeTempDir = dir ∧ Uses P st.calls)
      (processProtocolUpgradeCmdEx01 libc.traced pdu) (fun _ st => Uses P st.calls) anyFault := by
  have hreply : ∀ data, Triple (fun st : Machine (Traced φ) => Uses P st.calls)
      (sendReplyToClient pcsUpgrade pcsEx01 data) (fun _ st => Uses P st.calls)
      anyFault := fun _ _ hs => hs
  unfold processProtocolUpgradeCmdEx01
  dsimp only
  have hdataLen := hcarries.dataLen
  split
  · rename_i hlong
    have hpath := hpath (by omega)
    apply triple_title hcarries
    apply triple_upgradeTempDir
    apply Triple.bind (triple_fileExecuteScript_uses hpath)
    intro errorCode
    split <;> exact hreply _
  · exact (hreply _).weaken fun _ hs => hs.2

theorem triple_request_uses (hm : m.OpensFile ∨ m.RunsScript) :
    Triple (fun st => st.upgradeTempDir = dir ∧ Uses P st.calls)
      (processProtocolPdu libc.traced pdu true) (fun _ st => Uses P st.calls) anyFault := by
  rcases hm with hopen | hrun
  · rw [processProtocolPdu_opensFile hcarries hopen]
    exact triple_cmdEx02_uses hcarries hpath
  · rw [processProtocolPdu_runsScript hcarries hrun]
    exact triple_upgradeCmdEx01_uses hcarries hpath

end Requests

section Faults

variable {libc : Libc φ}

theorem triple_fileUploadOpen_total (dir filetitle : Option (List UInt8)) :
    Triple (fun _ : Machine φ => True) (fileUploadOpen libc dir filetitle) (fun _ _ => True)
      noFault := by
  have hsilent := libc.silent_unit
  apply fileUploadOpen_rule (p := fun _ => True) hsilent fun _ _ => trivial
  intro d title _ _ _ _
  apply Triple.bind (Q := fun token st => st.heap.Live token)
  · exact (Run.triple_store _).weaken fun st _ => Heap.live_alloc _ _
  intro token
  apply Triple.bind ((Run.keeps_call (envFree_files.blind _)).triple fun v => v.1.Live token)
  intro handle
  split
  · apply Triple.bind (Q := fun _ _ => True)
    · exact (Run.triple_free token).weaken fun st hlive => ⟨hlive, fun _ _ => trivial⟩
    · exact fun _ => Triple.pure fun _ _ => trivial
  · exact ((keeps_uploadFileSave hsilent.malloc outer_unit _ _ _).triple
      fun _ => True).weaken fun _ _ => trivial

theorem triple_fileExecuteScript_total (dir filetitle : Option (List UInt8)) :
    Triple (fun _ : Machine φ => True) (fileExecuteScript libc dir filetitle) (fun _ _ => True)
      noFault := by
  have hsilent := libc.silent_unit
  apply fileExecuteScript_rule (p := fun _ => True) hsilent.malloc (fun _ _ _ => trivial) fun _ _ => trivial
  intro d title _ _ _ _
  apply Triple.bind ((Run.keeps_call (hsilent.access _)).triple fun _ => True)
  intro exist
  split
  · exact Triple.pure fun _ _ => trivial
  apply Triple.bind (Q := fun _ _ => True) (fun _ _ => trivial)
  intro changed
  split
  · exact Triple.pure fun _ _ => trivial
  · exact Triple.bind (Q := fun _ _ => True) (fun _ _ => trivial) fun _ => Triple.pure fun _ _ => trivial

theorem triple_payload_total {m : Message} {pdu : PDU} (hcarries : pdu.Carries m) :
    Triple (fun st => (libc.malloc st.env (m.data.length + 1)).1 = true)
      (payloadString libc pdu 0 pdu.dataLen.toNat) (fun _ _ => True) noFault := by
  intro st hmalloc
  rw [hcarries.dataLen_toNat, payloadString_eq hcarries (by omega), if_pos hmalloc]
  trivial

/-- The two requests fault only when the memory for the title cannot be had, which is
before any path is built. -/
theorem request_fault {m : Message} (hm : m.OpensFile ∨ m.RunsScript) {pdu : PDU}
    (hcarries : pdu.Carries m) {st : Machine φ} {f : Fault}
    (hrun : processProtocolPdu libc pdu true st = .error f) :
    (libc.malloc st.env (m.data.length + 1)).1 = false := by
  have hreply : ∀ cmd cmdEx data, Triple (fun _ : Machine φ => True)
      (sendReplyToClient cmd cmdEx data) (fun _ _ => True) noFault := fun _ _ _ _ _ => trivial
  have htotal : Triple (fun st => (libc.malloc st.env (m.data.length + 1)).1 = true)
      (processProtocolPdu libc pdu true) (fun _ _ => True) noFault := by
    rcases hm with hopen | hscript
    · rw [processProtocolPdu_opensFile hcarries hopen, processProtocolUploadFileCmdEx02]
      dsimp only
      split
      · apply Triple.bind (triple_payload_total hcarries)
        intro title
        apply Triple.bind (Q := fun _ _ => True) (fun _ _ => trivial)
        intro dir
        apply Triple.bind (triple_fileUploadOpen_total _ _)
        intro opened
        split <;> exact hreply _ _ _
      · exact (hreply _ _ _).weaken fun _ _ => trivial
    · rw [processProtocolPdu_runsScript hcarries hscript, processProtocolUpgradeCmdEx01]
      dsimp only
      split
      · apply Triple.bind (triple_payload_total hcarries)
        intro title
        apply Triple.bind (Q := fun _ _ => True) (fun _ _ => trivial)
        intro dir
        apply Triple.bind (triple_fileExecuteScript_total _ _)
        intro errorCode
        split <;> exact hreply _ _ _
      · exact (hreply _ _ _).weaken fun _ _ => trivial
  by_contra hmalloc
  exact htotal.error (by simpa using hmalloc) hrun

end Faults

section Obliging

variable {d title : List UInt8} (hdir : d ≠ []) (htitle : title ≠ []) (st : Machine (Traced Unit))
include hdir htitle

theorem obliging_fileUploadOpen :
    ∃ r, fileUploadOpen obligingLibc.traced (some d) (some title) st = .ok r ∧
      r.2.calls = st.calls ++ [.fopenWrite (withSlash d ++ title) (some st.env.handles.length)] := by
  have hd := List.length_pos_iff.mpr hdir
  have ht := List.length_pos_iff.mpr htitle
  unfold fileUploadOpen
  simp only [Option.getD_some, if_neg (Nat.not_le.mpr hd), if_neg (Nat.not_le.mpr ht),
    checkUpgradeDirectory, utilFileIsExist, utilDirAppend]
  rw [if_neg (by omega)]
  exact ⟨_, rfl, rfl⟩

theorem obliging_fileExecuteScript :
    ∃ r, fileExecuteScript obligingLibc.traced (some d) (some title) st = .ok r ∧
      r.2.calls = st.calls ++ [.chmod (withSlash d ++ title)] ++
        [.system (withSlash d ++ title)] := by
  have hd := List.length_pos_iff.mpr hdir
  have ht := List.length_pos_iff.mpr htitle
  unfold fileExecuteScript
  simp only [Option.getD_some, if_neg (Nat.not_le.mpr hd), if_neg (Nat.not_le.mpr ht),
    utilFileIsExist, utilDirAppend]
  rw [if_neg (by omega)]
  exact ⟨_, rfl, rfl⟩

end Obliging

theorem reply_either (p : Prop) [Decidable p] (st : Machine φ) (cmd cmdEx : UInt8)
    (data data' : List UInt8) :
    ∃ effects, (if p then sendReplyToClient cmd cmdEx data else sendReplyToClient cmd cmdEx data' :
      Run φ Unit) st = .ok ((), { st with effects := effects }) := by
  split <;> exact ⟨_, rfl⟩

theorem obliging_request {m : Message} (hm : m.OpensFile ∨ m.RunsScript) {d : List UInt8}
    (hlong : 1 < m.data.length) (hdir : d ≠ []) (htitle : cString m.data ≠ []) :
    ∃ st, processProtocolPdu obligingLibc.traced m.pdu true (tracedMachine (some d)) = .ok ((), st) ∧
      ∃ call ∈ st.calls, call.path = some (withSlash d ++ cString m.data) := by
  have hlen : 1 < m.pdu.dataLen := by
    change (1 : Int) < m.data.length
    omega
  have hpayload : payloadString obligingLibc.traced m.pdu 0 m.pdu.dataLen.toNat
      (tracedMachine (some d)) = .ok (cString m.data, tracedMachine (some d)) := by
    rw [m.carries_pdu.dataLen_toNat, payloadString_eq m.carries_pdu (by omega), List.drop_zero,
      List.take_length]
    rfl
  have hupgradeTempDir : (Run.upgradeTempDir : Run (Traced Unit) _) (tracedMachine (some d)) =
      .ok (some d, tracedMachine (some d)) := rfl
  rcases hm with hopen | hrun
  · obtain ⟨⟨opened, st⟩, hrun, hcalls⟩ :=
      obliging_fileUploadOpen hdir htitle (tracedMachine (some d))
    rw [processProtocolPdu_opensFile m.carries_pdu hopen, processProtocolUploadFileCmdEx02]
    dsimp only
    rw [if_pos hlen, Run.bind_ok hpayload, Run.bind_ok hupgradeTempDir, Run.bind_ok hrun]
    obtain ⟨effects, hdone⟩ := reply_either (opened = true) st pcsUploadFile pcsEx02
      [replyStatus true] [replyStatus false]
    refine ⟨_, hdone, .fopenWrite (withSlash d ++ cString m.data) (some 0), ?_, rfl⟩
    change _ ∈ st.calls
    rw [hcalls]
    exact List.mem_append_right _ (List.mem_singleton_self _)
  · obtain ⟨⟨errorCode, st⟩, hexecute, hcalls⟩ :=
      obliging_fileExecuteScript hdir htitle (tracedMachine (some d))
    rw [processProtocolPdu_runsScript m.carries_pdu hrun, processProtocolUpgradeCmdEx01]
    dsimp only
    rw [if_pos hlen, Run.bind_ok hpayload, Run.bind_ok hupgradeTempDir, Run.bind_ok hexecute]
    obtain ⟨effects, hdone⟩ := reply_either (errorCode = 0) st pcsUpgrade pcsEx01
      [replyStatus true, UInt8.ofNat errorCode.toNat] [replyStatus false, UInt8.ofNat errorCode.toNat]
    refine ⟨_, hdone, .chmod (withSlash d ++ cString m.data), ?_, rfl⟩
    change _ ∈ st.calls
    rw [hcalls]
    exact List.mem_append_left _ (List.mem_append_right _ (List.mem_singleton_self _))

/-- A request for opening or running a file only uses direct children of the upgrade
directory, whichever way the system answers, if and only if its title is one of a file
whenever its arguments pass the checks. -/
theorem request_confined {m : Message} (hm : m.OpensFile ∨ m.RunsScript)
    (dir : Option (List UInt8)) :
    (∀ (φ : Type) (libc : Libc φ) (pdu : PDU) (st st' : Machine (Traced φ)), pdu.Carries m →
      st.upgradeTempDir = dir → st.calls = [] →
      processProtocolPdu libc.traced pdu true st = .ok ((), st') →
      Uses (Confined (dir.getD [])) st'.calls) ↔
    (1 < m.data.length → dir.getD [] ≠ [] → cString m.data ≠ [] → FileTitle (cString m.data)) := by
  constructor
  · intro hall hlong hdir htitle
    obtain ⟨d, rfl, -⟩ := exists_of_ne_nil hdir
    obtain ⟨st, hrun, call, hcall, hpath⟩ := obliging_request hm hlong hdir htitle
    have hconfined := hall Unit obligingLibc m.pdu _ st m.carries_pdu rfl rfl hrun call hcall _ hpath
    exact (confined_iff d _).mp hconfined
  · intro htitle φ libc pdu st st' hcarries hdir hcalls hrun
    have hpath : 1 < m.data.length → ∀ d, dir = some d → d ≠ [] → cString m.data ≠ [] →
        Confined (dir.getD []) (withSlash d ++ cString m.data) := by
      rintro hlong d rfl hd ht
      exact (confined_iff d _).mpr (htitle hlong hd ht)
    apply (triple_request_uses hcarries hpath hm).ok (s := st) ⟨hdir, ?_⟩ hrun
    rw [hcalls]
    exact fun _ hcall => absurd hcall List.not_mem_nil

def uploadOf (title : String) : Message := ⟨pcsUploadFile, pcsEx02, literal title⟩

/-- A plain title is opened, and confined. -/
theorem request_confined_plain :
    ∃ st, processProtocolPdu obligingLibc.traced (uploadOf "fw").pdu true
        (tracedMachine (some (literal "up"))) = .ok ((), st) ∧
      st.calls ≠ [] ∧ Uses (Confined (literal "up")) st.calls := by
  have hopen : (uploadOf "fw").OpensFile ∨ (uploadOf "fw").RunsScript := .inl ⟨rfl, rfl⟩
  obtain ⟨st, hrun, call, hcall, -⟩ :=
    obliging_request hopen (d := literal "up") (by decide) (by decide) (by decide)
  refine ⟨st, hrun, List.ne_nil_of_mem hcall, ?_⟩
  exact (request_confined hopen (some (literal "up"))).mpr
    (fun _ _ _ => ⟨by decide, by decide, by decide, by decide⟩) Unit obligingLibc _ _ st
    (Message.carries_pdu _) rfl rfl hrun

/-- A title that climbs out of the directory is opened for writing. -/
theorem request_confined_climbs : ¬ ∀ (m : Message), m.OpensFile ∨ m.RunsScript →
    ∀ (φ : Type) (libc : Libc φ) (pdu : PDU) (st st' : Machine (Traced φ)) (dir : List UInt8),
      pdu.Carries m → st.upgradeTempDir = some dir → st.calls = [] →
      processProtocolPdu libc.traced pdu true st = .ok ((), st') →
      Uses (Confined dir) st'.calls := by
  intro hall
  obtain ⟨st, hrun, call, hcall, hpath⟩ :=
    obliging_request (m := uploadOf "../etc/passwd") (d := literal "up") (.inl ⟨rfl, rfl⟩) (by decide)
      (by decide) (by decide)
  have hconfined := hall (uploadOf "../etc/passwd") (.inl ⟨rfl, rfl⟩) Unit obligingLibc _ _ st
    (literal "up") (Message.carries_pdu _) rfl rfl hrun call hcall _ hpath
  exact ((confined_iff _ _).mp hconfined).plain (by decide)

end CccUpgrade
