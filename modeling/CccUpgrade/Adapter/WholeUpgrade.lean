import CccUpgrade.Adapter.Requests
import CccUpgrade.Adapter.ScriptReplies
import CccUpgrade.Adapter.WholeUpload
import CccUpgrade.Network.Outbound

/-! A whole upgrade: a file is opened, written, finished and run. On a system that lets
it, all requests succeed, and what is run is the content that was sent. -/
namespace CccUpgrade

open Lib

variable {φ : Type} {libc : Libc φ} {disk : φ → Disk}

/-- A system an upgrade can be made on: the upgrade directory is there, files can be
created in it, and a file that is there is found and can be made executable. -/
structure Libc.Ready (libc : Libc φ) (disk : φ → Disk) (dir : List UInt8) : Prop
    extends libc.Posix disk where
  directory : ∀ env, (libc.access env dir).1 = true
  access : ∀ env path, disk (libc.access env path).2 = disk env
  found : ∀ env path content, (disk env).file path = some content → (libc.access env path).1 = true
  creates : ∀ env path, ∃ handle, (libc.fopenWrite env path).1 = some handle
  chmod : ∀ env path, (libc.chmod env path).1 = true ∧ disk (libc.chmod env path).2 = disk env

section Requests

variable {dir title path content : List UInt8} {pdu : PDU}

def openReply : Message := ⟨pcsUploadFile, pcsEx02, [pcsExOk]⟩

def Piece.replyMessage (w : Piece) : Message :=
  ⟨pcsUploadFile, pcsEx03, pcsExOk :: toBigEndian32 w.offset⟩

def finishReply : Message := ⟨pcsUploadFile, pcsEx04, [pcsExOk]⟩

def scriptReply : Message := ⟨pcsUpgrade, pcsEx01, [pcsExOk, 0]⟩

def Machine.Says (st : Machine φ) (reply : Message) : Prop :=
  st.effects = [.replyToClient reply.cmd reply.cmdEx reply.data]

theorem triple_utilDirAppend_posix (hposix : libc.Posix disk) (hdir : dir ≠ []) (htitle : title ≠ [])
    (p : Seen → Prop) :
    Triple (fun st => p (st.seen disk)) (utilDirAppend libc (some dir) (some title))
      (fun path st => path = some (withSlash dir ++ title) ∧ p (st.seen disk)) noFault := by
  unfold utilDirAppend
  dsimp only
  rw [if_neg (by simpa using not_or_intro hdir htitle)]
  apply Triple.bind (hposix.triple_malloc _ p)
  rintro _ st ⟨rfl, hs⟩
  exact ⟨rfl, hs⟩

theorem triple_fileUploadOpen_ready (hready : libc.Ready disk dir) (hdir : dir ≠ [])
    (htitle : title ≠ []) :
    Triple (fun _ => True) (fileUploadOpen libc (some dir) (some title))
      (fun opened _ => opened = true) noFault := by
  have hcheck : Triple (fun _ => True) (checkUpgradeDirectory libc (some dir))
      (fun exist _ => exist = true) noFault := by
    unfold checkUpgradeDirectory
    dsimp only
    apply Triple.bind (Q := fun exist _ => exist = true)
    · exact fun st _ => hready.directory st.env
    · rintro _ st rfl
      rfl
  have hsave : ∀ token handle, Triple (fun _ => True)
      (uploadFileSave libc (some title) (some token) (some handle))
      (fun saved _ => saved = true) noFault := by
    intro token handle
    have hstrdup : Keeps (fun _ => ()) noFault (strdup libc title) :=
      keeps_strdup (fun _ _ => rfl) (fun _ _ => rfl) title
    unfold uploadFileSave
    apply Triple.bind (hstrdup.triple fun _ => True)
    exact fun _ _ _ => rfl
  unfold fileUploadOpen
  rw [if_neg (by simpa using hdir), if_neg (by simpa using htitle)]
  apply Triple.bind hcheck
  intro exist
  cases exist with
  | false => exact fun _ h => nomatch h
  | true =>
      have hpath := triple_utilDirAppend_posix hready.toPosix hdir htitle fun _ => True
      apply Triple.bind (hpath.weaken fun _ _ => trivial)
      intro path
      apply Triple.assume
      rintro rfl
      apply Triple.bind (Q := fun _ _ => True) fun _ _ => trivial
      intro token
      apply Triple.bind (Q := fun handle _ => ∃ n, handle = some n)
      · exact fun st _ => hready.creates st.env _
      · rintro _ st ⟨handle, rfl⟩
        exact hsave token handle st trivial

def Machine.Uploads (disk : φ → Disk) (path content : List UInt8) (st : Machine φ) : Prop :=
  ∃ handle token, (st.seen disk).Uploading handle token path content st.effects

theorem Machine.Uploads.unspoken {st : Machine φ} (h : st.Uploads disk path content) :
    st.unspoken.Uploads disk path content := by
  obtain ⟨handle, token, hfile, hstream, htx, hread, hname, -⟩ := h
  exact ⟨handle, token, hfile, hstream, htx, hread, hname, rfl⟩

theorem triple_open_ready (hready : libc.Ready disk dir) (hdir : dir ≠ [])
    (hpdu : pdu.Carries (openMessage title)) (hnul : 0 ∉ title) (hlong : 1 < title.length) :
    Triple (fun st => st.effects = [] ∧ st.upgradeTempDir = some dir)
      (processProtocolPdu libc pdu true)
      (fun _ st => st.Says openReply ∧ st.Uploads disk (withSlash dir ++ title) []) noFault := by
  have hposix := hready.toPosix
  have htitle : (openMessage title).data = title := rfl
  have hne : title ≠ [] := List.length_pos_iff.mp (by omega)
  -- What is sent does not depend on where the file is.
  have hsaid : Triple (fun st => st.effects = [] ∧ st.upgradeTempDir = some dir)
      (processProtocolUploadFileCmdEx02 libc pdu) (fun _ st => st.Says openReply) noFault := by
    unfold processProtocolUploadFileCmdEx02
    dsimp only
    rw [if_pos (by rw [hpdu.dataLen, htitle]; omega)]
    apply Triple.bind (triple_payload hpdu (by rw [hpdu.dataLen_toNat]; omega)
      (fun st => (st.effects, st.upgradeTempDir)) (fun _ _ => rfl)
      (fun v => v.1 = [] ∧ v.2 = some dir) (hposix.not_malloc _))
    intro filetitle
    apply Triple.assume
    intro hfiletitle
    rw [List.drop_zero, hpdu.dataLen_toNat, List.take_length, htitle, cString_eq hnul] at hfiletitle
    rw [hfiletitle]
    apply Triple.bind (Q := fun d st => d = some dir ∧ st.effects = [])
    · exact fun st hs => ⟨hs.2, hs.1⟩
    intro d
    apply Triple.assume
    rintro rfl
    have hquiet : Keeps Machine.effects anyFault (fileUploadOpen libc (some dir) (some title)) :=
      keeps_effects_fileUploadOpen _ _
    apply Triple.bind (((triple_fileUploadOpen_ready hready hdir hne).and
      (hquiet.triple (· = []))).weaken fun st hs => ⟨trivial, hs⟩)
    rintro _ st ⟨rfl, hs⟩
    exact congrArg (· ++ [_]) hs
  have huploads : Triple (fun st => st.effects = [] ∧ st.upgradeTempDir = some dir)
      (processProtocolUploadFileCmdEx02 libc pdu) _ noFault :=
    triple_cmdEx02_posix hposix hpdu hnul (some dir)
  rw [processProtocolPdu_open hpdu]
  apply (huploads.and hsaid).mono fun st hs => ⟨hs, hs⟩
  rintro _ st ⟨hopened | hrefused, hsaid⟩
  · obtain ⟨handle, token, hs⟩ := hopened
    refine ⟨hsaid, handle, token, ?_⟩
    rw [hsaid]
    exact hs
  · rw [Machine.Says, hrefused] at hsaid
    cases hsaid

theorem triple_write_ready (hready : libc.Ready disk dir) {w : Piece}
    (hpdu : pdu.Carries w.message) (hne : w.dataBuf ≠ []) (hoffset : w.offset < 2 ^ 31) :
    Triple (fun st => st.effects = [] ∧ st.Uploads disk path content) (processProtocolPdu libc pdu true)
      (fun _ st => st.Says w.replyMessage ∧
        st.Uploads disk path (patch 0 content w.offset w.dataBuf)) noFault := by
  rw [processProtocolPdu_write hpdu]
  rintro st ⟨heffects, handle, token, hs⟩
  rw [heffects] at hs
  apply (triple_cmdEx03_posix hready.toPosix hpdu hne hoffset).mono (fun _ h => h) _ st hs
  intro _ st' hs'
  have hemitted : st'.effects = _ := hs'.held.emitted
  refine ⟨hemitted, handle, token, ?_⟩
  rw [hemitted]
  exact hs'

theorem triple_finish_ready (hready : libc.Ready disk dir) {digits : List UInt8}
    (hpdu : pdu.Carries (finishMessage digits)) (hpath : path ≠ []) (hlength : content.length < 2 ^ 32)
    (hdigits : digits.map toLowerByte = MessageDigest.hex (MessageDigest.digest content)) :
    Triple (fun st => st.effects = [] ∧ st.Uploads disk path content) (processProtocolPdu libc pdu true)
      (fun _ st => st.Says finishReply ∧ (disk st.env).file path = some content) noFault := by
  rw [processProtocolPdu_finish hpdu]
  rintro st ⟨heffects, handle, token, hs⟩
  rw [heffects] at hs
  apply (triple_cmdEx04_posix hready.toPosix hpdu hpath hlength hdigits).mono (fun _ h => h) _ st hs
  exact fun _ st' hs' => ⟨hs'.emitted, hs'.file⟩

def Machine.Ran (libc : Libc φ) (disk : φ → Disk) (path content : List UInt8) (st : Machine φ) :
    Prop :=
  ∃ env, (disk env).file path = some content ∧ st.env = (libc.system env path).2

theorem triple_fileExecuteScript_ready (hready : libc.Ready disk dir) (hdir : dir ≠ [])
    (htitle : title ≠ []) :
    Triple (fun st => st.effects = [] ∧ (disk st.env).file (withSlash dir ++ title) = some content)
      (fileExecuteScript libc (some dir) (some title))
      (fun errorCode st => errorCode = 0 ∧ st.effects = [] ∧
        st.Ran libc disk (withSlash dir ++ title) content) noFault := by
  let there : Seen → Prop := fun s =>
    s.effects = [] ∧ s.disk.file (withSlash dir ++ title) = some content
  unfold fileExecuteScript
  rw [if_neg (by simpa using hdir), if_neg (by simpa using htitle)]
  apply Triple.bind (triple_utilDirAppend_posix hready.toPosix hdir htitle there)
  intro path
  apply Triple.assume
  rintro rfl
  apply Triple.bind (Q := fun exist st => exist = true ∧ there (st.seen disk))
  · rintro st ⟨heffects, hfile⟩
    refine ⟨hready.found st.env _ content hfile, heffects, ?_⟩
    change (disk (libc.access st.env _).2).file _ = some content
    rw [hready.access]
    exact hfile
  intro exist
  apply Triple.assume
  rintro rfl
  apply Triple.bind (Q := fun changed st => changed = true ∧ there (st.seen disk))
  · rintro st ⟨heffects, hfile⟩
    obtain ⟨hchanged, hdisk⟩ := hready.chmod st.env (withSlash dir ++ title)
    refine ⟨hchanged, heffects, ?_⟩
    change (disk (libc.chmod st.env _).2).file _ = some content
    rw [hdisk]
    exact hfile
  intro changed
  apply Triple.assume
  rintro rfl st ⟨heffects, hfile⟩
  exact ⟨rfl, heffects, st.env, hfile, rfl⟩

theorem triple_script_ready (hready : libc.Ready disk dir) (hdir : dir ≠ [])
    (hpdu : pdu.Carries (scriptRequest title)) (hnul : 0 ∉ title) (hlong : 1 < title.length) :
    Triple (fun st => st.effects = [] ∧ st.upgradeTempDir = some dir ∧
        (disk st.env).file (withSlash dir ++ title) = some content) (processProtocolPdu libc pdu true)
      (fun _ st => st.Says scriptReply ∧ st.Ran libc disk (withSlash dir ++ title) content) noFault := by
  have htitle : (scriptRequest title).data = title := rfl
  have hne : title ≠ [] := List.length_pos_iff.mp (by omega)
  have hmalloc : ∀ n, Blind (fun st => (st.effects, st.upgradeTempDir, disk st.env))
      (libc.malloc · n) := by
    intro n st
    change (_, _, disk (libc.malloc st.env n).2) = _
    rw [(hready.malloc st.env n).2]
  have hcmdEx : pdu.cmdEx = pcsEx01 := hpdu.cmdEx
  rw [processProtocolPdu_upgrade hpdu.cmd, processProtocolUpgrade, if_pos hcmdEx,
    processProtocolUpgradeCmdEx01]
  dsimp only
  rw [if_pos (by rw [hpdu.dataLen, htitle]; omega)]
  apply Triple.bind (triple_payload hpdu (by rw [hpdu.dataLen_toNat]; omega) _ hmalloc
    (fun v => v.1 = [] ∧ v.2.1 = some dir ∧ v.2.2.file (withSlash dir ++ title) = some content)
    (hready.toPosix.not_malloc _))
  intro filetitle
  apply Triple.assume
  intro hfiletitle
  rw [List.drop_zero, hpdu.dataLen_toNat, List.take_length, htitle, cString_eq hnul] at hfiletitle
  rw [hfiletitle]
  apply Triple.bind (Q := fun d st => d = some dir ∧ st.effects = [] ∧
    (disk st.env).file (withSlash dir ++ title) = some content)
  · exact fun st hs => ⟨hs.2.1, hs.1, hs.2.2⟩
  intro d
  apply Triple.assume
  rintro rfl
  apply Triple.bind (triple_fileExecuteScript_ready hready hdir hne)
  intro errorCode
  apply Triple.assume
  rintro rfl st ⟨heffects, hran⟩
  exact ⟨congrArg (· ++ [_]) heffects, hran⟩

end Requests

/-- The requests of a client that is logged in are taken up one after the other, and
answered with these replies. -/
inductive Converses (libc : Libc φ) : Machine φ → List PDU → List Message → Machine φ → Prop
  | nil (st : Machine φ) : Converses libc st [] [] st
  | cons {st st₁ st' : Machine φ} {pdu : PDU} {pdus : List PDU} {reply : Message}
      {replies : List Message}
      (hfirst : processProtocolPdu libc pdu true st.unspoken = .ok ((), st₁)) (hsaid : st₁.Says reply)
      (hrest : Converses libc st₁ pdus replies st') :
      Converses libc st (pdu :: pdus) (reply :: replies) st'

namespace Converses

variable {st st₁ st' : Machine φ} {pdu : PDU} {pdus first second : List PDU} {reply : Message}
  {replies : List Message}

theorem one (hfirst : processProtocolPdu libc pdu true st.unspoken = .ok ((), st'))
    (hsaid : st'.Says reply) : Converses libc st [pdu] [reply] st' :=
  .cons hfirst hsaid (.nil st')

theorem split (h : Converses libc st (first ++ second) replies st') :
    ∃ earlier later st₁, replies = earlier ++ later ∧ Converses libc st first earlier st₁ ∧
      Converses libc st₁ second later st' := by
  induction first generalizing st replies with
  | nil => exact ⟨[], replies, st, rfl, .nil st, h⟩
  | cons pdu first ih =>
      cases h with
      | cons hfirst hsaid hrest =>
          obtain ⟨earlier, later, st₁, rfl, hearlier, hlater⟩ := ih hrest
          exact ⟨_ :: earlier, later, st₁, rfl, .cons hfirst hsaid hearlier, hlater⟩

end Converses

section Upgrade

variable {dir title path content digits : List UInt8} {st st' : Machine φ}

def upgradeRequests (title : List UInt8) (writes : List Piece) (digits : List UInt8) : List Message :=
  openMessage title :: (writes.map Piece.message ++ [finishMessage digits, scriptRequest title])

def upgradeReplies (writes : List Piece) : List Message :=
  openReply :: (writes.map Piece.replyMessage ++ [finishReply, scriptReply])

/-- The digits are those of the checksum, and the pieces are of the file and cover it. -/
structure Delivers (content : List UInt8) (writes : List Piece) (digits : List UInt8) : Prop where
  length : content.length < 2 ^ 31
  pieces : ∀ w ∈ writes, w.Of content
  cover : ∀ i < content.length, ∃ w ∈ writes, w.Covers i
  digits : digits.map toLowerByte = MessageDigest.hex (MessageDigest.digest content)

/-- A name the handlers take whole. -/
structure IsTitle (title : List UInt8) : Prop where
  nul : 0 ∉ title
  long : 1 < title.length
  fits : title.length ≤ protocolDataLenMax

/-- The state of the handlers but for the calls of the current request. -/
def Machine.standing (disk : φ → Disk) (st : Machine φ) :
    Heap (List UInt8) × UploadFile × Option (List UInt8) × Disk :=
  (st.heap, st.upload, st.upgradeTempDir, disk st.env)

theorem Machine.Uploads.standing (h : st.Uploads disk path content)
    (hsame : st'.standing disk = st.standing disk) : st'.Uploads disk path content := by
  obtain ⟨hheap, hupload, -, hdisk⟩ : st'.heap = st.heap ∧ st'.upload = st.upload ∧
      st'.upgradeTempDir = st.upgradeTempDir ∧ disk st'.env = disk st.env := by
    simpa [Machine.standing] using hsame
  obtain ⟨handle, token, hfile, hstream, htx, hread, hname, -⟩ := h
  have hseen : st'.seen disk = { st.seen disk with effects := st'.effects } := by
    unfold Machine.seen
    rw [hheap, hupload, hdisk]
  refine ⟨handle, token, ?_⟩
  rw [hseen]
  exact ⟨hfile, hstream, htx, hread, hname, rfl⟩

/-- How far an upgrade has got, by the requests that are still to come and the replies that
they get. -/
inductive Upgrading (disk : φ → Disk) (dir title content : List UInt8) :
    List Message → List Message → Machine φ → Prop
  | opens {st : Machine φ} {requests replies : List Message} {writes : List Piece}
      {digits : List UInt8} (hdir : st.upgradeTempDir = some dir)
      (hdelivers : Delivers content writes digits)
      (hrequests : requests = upgradeRequests title writes digits)
      (hreplies : replies = upgradeReplies writes) : Upgrading disk dir title content requests replies st
  | writes {st : Machine φ} {requests replies : List Message} {todo : List Piece}
      {digits sofar : List UInt8} {written : Nat → Prop} (hdir : st.upgradeTempDir = some dir)
      (huploads : st.Uploads disk (withSlash dir ++ title) sofar)
      (hagrees : Agrees content sofar written) (hlength : content.length < 2 ^ 31)
      (hpieces : ∀ w ∈ todo, w.Of content)
      (hcover : ∀ i < content.length, written i ∨ ∃ w ∈ todo, w.Covers i)
      (hdigits : digits.map toLowerByte = MessageDigest.hex (MessageDigest.digest content))
      (hrequests : requests = todo.map Piece.message ++ [finishMessage digits, scriptRequest title])
      (hreplies : replies = todo.map Piece.replyMessage ++ [finishReply, scriptReply]) :
      Upgrading disk dir title content requests replies st
  | script {st : Machine φ} (hdir : st.upgradeTempDir = some dir)
      (hfile : (disk st.env).file (withSlash dir ++ title) = some content) :
      Upgrading disk dir title content [scriptRequest title] [scriptReply] st
  | ran {st : Machine φ} : Upgrading disk dir title content [] [] st

namespace Upgrading

variable {requests replies : List Message}

theorem standing (h : Upgrading disk dir title content requests replies st)
    (hsame : st'.standing disk = st.standing disk) :
    Upgrading disk dir title content requests replies st' := by
  have hparts : st'.upgradeTempDir = st.upgradeTempDir ∧ disk st'.env = disk st.env := by
    have hall : st'.heap = st.heap ∧ st'.upload = st.upload ∧
        st'.upgradeTempDir = st.upgradeTempDir ∧ disk st'.env = disk st.env := by
      simpa [Machine.standing] using hsame
    exact hall.2.2
  cases h with
  | opens hdir hdelivers hrequests hreplies =>
      exact .opens (hparts.1.trans hdir) hdelivers hrequests hreplies
  | writes hdir huploads hagrees hlength hpieces hcover hdigits hrequests hreplies =>
      exact .writes (hparts.1.trans hdir) (huploads.standing hsame) hagrees hlength hpieces hcover
        hdigits hrequests hreplies
  | script hdir hfile =>
      refine .script (hparts.1.trans hdir) ?_
      rw [hparts.2]
      exact hfile
  | ran => exact .ran

theorem length_eq (h : Upgrading disk dir title content requests replies st) :
    replies.length = requests.length := by
  cases h with
  | opens _ _ hrequests hreplies => simp [hrequests, hreplies, upgradeRequests, upgradeReplies]
  | writes _ _ _ _ _ _ _ hrequests hreplies => simp [hrequests, hreplies]
  | script | ran => rfl

/-- What the request of an upgrade that is next does: it is answered with success, and the
upgrade has got one request further. After the last one the file has been run. -/
theorem next (h : Upgrading disk dir title content requests replies st)
    (hready : libc.Ready disk dir) (hdir : dir ≠ []) (htitle : IsTitle title) {pdu : PDU}
    {m : Message} {later : List Message} (hrequests : requests = m :: later) (hpdu : pdu.Carries m) :
    ∃ st' reply rest, replies = reply :: rest ∧
      processProtocolPdu libc pdu true st.unspoken = .ok ((), st') ∧ st'.Says reply ∧
      Upgrading disk dir title content later rest st' ∧
      (later = [] → st'.Ran libc disk (withSlash dir ++ title) content) := by
  have hkept : ∀ {st' : Machine φ}, processProtocolPdu libc pdu true st.unspoken = .ok ((), st') →
      st'.upgradeTempDir = st.upgradeTempDir := fun hrun =>
    (keeps_upgradeTempDir_process libc pdu true st.upgradeTempDir).ok (s := st.unspoken) rfl hrun
  cases h with
  | @opens _ _ _ writes digits hset hdelivers hopens hreplies =>
      obtain ⟨rfl, rfl⟩ := List.cons.inj (hrequests.symm.trans hopens)
      obtain ⟨_, st', hrun, hsaid, hempty⟩ :=
        (triple_open_ready hready hdir hpdu htitle.nul htitle.long).returns (fun _ h => h)
          (s := st.unspoken) ⟨rfl, hset⟩
      refine ⟨st', _, _, hreplies, hrun, hsaid, ?_, by simp⟩
      exact .writes ((hkept hrun).trans hset) hempty (.nothing content) hdelivers.length
        hdelivers.pieces (fun i hi => .inr (hdelivers.cover i hi)) hdelivers.digits rfl rfl
  | @writes _ _ _ todo digits sofar written hset huploads hagrees hlength hpieces hcover
      hdigits hwrites hreplies =>
      have huploading := huploads.unspoken
      cases todo with
      | cons w todo =>
          obtain ⟨rfl, rfl⟩ := List.cons.inj (hrequests.symm.trans hwrites)
          obtain ⟨hne, hpart⟩ := hpieces w List.mem_cons_self
          have hpos : 0 < w.dataBuf.length := List.length_pos_iff.mpr hne
          have hle := hpart.length_le
          obtain ⟨_, st', hrun, hsaid, hafter⟩ := (triple_write_ready hready hpdu hne
            (by omega)).returns (fun _ h => h) (s := st.unspoken) ⟨rfl, huploading⟩
          refine ⟨st', _, _, hreplies, hrun, hsaid, ?_, by simp⟩
          refine .writes ((hkept hrun).trans hset) hafter (hagrees.patch 0 hpart) hlength
            (fun w' hw' => hpieces w' (List.mem_cons_of_mem _ hw')) (fun i hi => ?_) hdigits rfl rfl
          rcases hcover i hi with hwritten | ⟨w', hw', hcovers⟩
          · exact .inl (.inl hwritten)
          · rcases List.mem_cons.mp hw' with rfl | hw'
            · exact .inl (.inr hcovers)
            · exact .inr ⟨w', hw', hcovers⟩
      | nil =>
          -- All of the file has been written.
          obtain ⟨rfl, rfl⟩ := List.cons.inj (hrequests.symm.trans hwrites)
          obtain rfl := hagrees.whole fun i hi => (hcover i hi).resolve_right (by simp)
          obtain ⟨_, st', hrun, hsaid, hfile⟩ := (triple_finish_ready hready hpdu
            (withSlash_ne_nil _) (by omega) hdigits).returns (fun _ h => h) (s := st.unspoken)
            ⟨rfl, huploading⟩
          exact ⟨st', _, _, hreplies, hrun, hsaid, .script ((hkept hrun).trans hset) hfile, by simp⟩
  | script hset hfile =>
      cases hrequests
      obtain ⟨_, st', hrun, hsaid, hran⟩ :=
        (triple_script_ready hready hdir hpdu htitle.nul htitle.long).returns (fun _ h => h)
          (s := st.unspoken) ⟨rfl, hset, hfile⟩
      exact ⟨st', _, _, rfl, hrun, hsaid, .ran, fun _ => hran⟩
  | ran => cases hrequests

end Upgrading

/-- An upgrade succeeds: every request is answered with success, and the file is run with
the content that was sent. -/
theorem upgrade_converses (hready : libc.Ready disk dir) (hdir : dir ≠ []) (htitle : IsTitle title)
    {pdus : List PDU} {requests replies : List Message} (hcarry : Carry pdus requests)
    (hne : requests ≠ []) (h : Upgrading disk dir title content requests replies st) :
    ∃ st', Converses libc st pdus replies st' ∧
      st'.Ran libc disk (withSlash dir ++ title) content := by
  induction hcarry generalizing st replies with
  | nil => exact absurd rfl hne
  | @cons pdu m pdus requests hpdu hrest ih =>
      obtain ⟨st₁, reply, rest, rfl, hrun, hsaid, hupgrading, hran⟩ :=
        h.next hready hdir htitle rfl hpdu
      cases requests with
      | nil =>
          cases hrest
          obtain rfl : rest = [] := List.eq_nil_of_length_eq_zero hupgrading.length_eq
          exact ⟨st₁, .one hrun hsaid, hran rfl⟩
      | cons m' requests =>
          obtain ⟨st', hconverses, hran'⟩ := ih (List.cons_ne_nil _ _) hupgrading
          exact ⟨st', .cons hrun hsaid hconverses, hran'⟩

theorem storeLibc_ready (dir : List UInt8) : storeLibc.Ready Store.disk dir where
  toPosix := storeLibc_posix
  directory _ := rfl
  access _ _ := rfl
  found _ _ _ _ := rfl
  creates s _ := ⟨s.next, rfl⟩
  chmod _ _ := ⟨rfl, rfl⟩

theorem delivers_hello : Delivers (literal "hello") helloPieces helloDigits := by
  have hfit : ∀ w ∈ helloPieces, w.dataBuf ≠ [] ∧
      w.offset + w.dataBuf.length ≤ (literal "hello").length ∧
      ((literal "hello").drop w.offset).take w.dataBuf.length = w.dataBuf := by decide
  have hcover : ∀ i < (literal "hello").length, ∃ w ∈ helloPieces,
      w.offset ≤ i ∧ i < w.offset + w.dataBuf.length := by decide
  refine ⟨by decide, fun w hw => ?_, hcover, by decide +kernel⟩
  obtain ⟨hne, hle, hpart⟩ := hfit w hw
  exact ⟨hne, hle, hpart⟩

end Upgrade

end CccUpgrade
