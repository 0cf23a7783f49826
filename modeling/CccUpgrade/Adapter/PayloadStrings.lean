import CccUpgrade.Adapter.PathConfinement
import CccUpgrade.Adapter.Replies

/-! The strings the handlers take out of a payload. A payload comes with its length, but
the login and the two requests with a title go on with what stands before its first NUL. -/
namespace CccUpgrade

open Lib

inductive TextRequest
  | clientLogin
  | opensFile
  | runsScript
deriving DecidableEq, Repr

def Message.Asks (m : Message) : TextRequest → Prop
  | .clientLogin => m.cmd = pcsClientLogin
  | .opensFile => m.OpensFile
  | .runsScript => m.RunsScript

def password : List UInt8 := literal "jikongupgrade"

theorem zero_not_mem_password : 0 ∉ password := by decide

theorem checkLogin_iff (loginInfo : List UInt8) :
    checkLogin loginInfo = true ↔ loginInfo = password := decide_eq_true_iff

variable {φ : Type}

structure Machine.Uncalled (dir : Option (List UInt8)) (st : Machine (Traced φ)) : Prop where
  dir : st.upgradeTempDir = dir
  calls : st.calls = []
  effects : st.effects = []

namespace TextRequest

/-- What was done for the request was done with `data`, byte for byte. -/
def DoneWith (r : TextRequest) (dir : Option (List UInt8)) (data : List UInt8)
    (st : Machine (Traced φ)) : Prop :=
  match r with
  | clientLogin => .setLogin ∈ st.effects ↔ data = password
  | opensFile | runsScript => Uses (· = withSlash (dir.getD []) ++ data) st.calls

/-- The request returns and takes its payload exactly, whichever way the system answers,
or there is no memory for a copy of the payload. -/
def Exact (r : TextRequest) (dir : Option (List UInt8)) (m : Message) : Prop :=
  ∀ (φ : Type) (libc : Libc φ) (pdu : PDU) (bLogin : Bool) (st : Machine (Traced φ)),
    pdu.Carries m → st.Uncalled dir →
      match processProtocolPdu libc.traced pdu bLogin st with
      | .ok ((), st') => r.DoneWith dir m.data st'
      | .error _ => (libc.malloc st.env.env (m.data.length + 1)).1 = false

def Meet {φ' : Type} (r : TextRequest) (st : Machine (Traced φ)) (st' : Machine (Traced φ')) :
    Prop :=
  match r with
  | clientLogin => .setLogin ∈ st.effects ∧ .setLogin ∈ st'.effects
  | opensFile | runsScript =>
      ∃ path, (∃ call ∈ st.calls, call.path = some path) ∧ ∃ call ∈ st'.calls, call.path = some path

def Apart (r : TextRequest) (dir : Option (List UInt8)) (m m' : Message) : Prop :=
  ∀ (φ φ' : Type) (libc : Libc φ) (libc' : Libc φ') (pdu pdu' : PDU) (bLogin bLogin' : Bool)
    (st s : Machine (Traced φ)) (st' s' : Machine (Traced φ')),
    pdu.Carries m → pdu'.Carries m' → st.Uncalled dir → st'.Uncalled dir →
    processProtocolPdu libc.traced pdu bLogin st = .ok ((), s) →
    processProtocolPdu libc'.traced pdu' bLogin' st' = .ok ((), s') → ¬ r.Meet s s'

/-- The payload is not the password with a NUL behind it; a title that is used has no NUL. -/
def Plain (r : TextRequest) (dir : Option (List UInt8)) (data : List UInt8) : Prop :=
  match r with
  | clientLogin => ∀ rest, data ≠ password ++ 0 :: rest
  | opensFile | runsScript =>
      1 < data.length → dir.getD [] ≠ [] → data.head? ≠ some 0 → 0 ∉ data

end TextRequest

section Login

variable {libc : Libc φ} {pdu : PDU} {m : Message} (hcarries : pdu.Carries m)
include hcarries

theorem triple_clientLogin :
    Triple (fun st => st.effects = []) (processProtocolClientLogin libc pdu)
      (fun _ st => .setLogin ∈ st.effects ↔ cString m.data = password) anyFault := by
  have hdataLen := hcarries.dataLen
  unfold processProtocolClientLogin
  dsimp only
  split
  · rw [hcarries.dataLen_toNat]
    apply Triple.bind (triple_payload hcarries (by omega) Machine.effects
      (envFree_effects.silent libc).malloc (· = []) fun _ _ => trivial)
    intro text
    apply Triple.assume
    rw [List.drop_zero, List.take_length]
    rintro rfl
    split
    · rename_i hcheck
      intro st hs
      change .setLogin ∈ st.effects ++ [.setLogin] ++ [_] ↔ _
      simp [(checkLogin_iff _).mp hcheck]
    · rename_i hcheck
      intro st hs
      change .setLogin ∈ st.effects ++ [_] ↔ _
      rw [← checkLogin_iff, hs]
      simp [hcheck]
  · rename_i hshort
    intro st hs
    change .setLogin ∈ st.effects ++ [_] ↔ _
    have hne : cString m.data ≠ password := by
      intro heq
      have hle : (cString m.data).length ≤ m.data.length := (List.takeWhile_prefix _).length_le
      have hlong : (cString m.data).length = 13 := congrArg List.length heq
      omega
    simp [hs, hne]

theorem clientLogin_fault {st : Machine φ} {f : Fault}
    (hrun : processProtocolClientLogin libc pdu st = .error f) :
    (libc.malloc st.env (m.data.length + 1)).1 = false := by
  have hreply : ∀ data, Triple (fun _ : Machine φ => True)
      (sendReplyToClient pcsClientLogin pcsEx01 data) (fun _ _ => True) noFault :=
    fun _ _ _ => trivial
  have htotal : Triple (fun st => (libc.malloc st.env (m.data.length + 1)).1 = true)
      (processProtocolClientLogin libc pdu) (fun _ _ => True) noFault := by
    unfold processProtocolClientLogin
    dsimp only
    split
    · apply Triple.bind (triple_payload_total hcarries)
      intro text
      split
      · exact Triple.bind (Q := fun _ _ => True) (fun _ _ => trivial) fun _ => hreply _
      · exact hreply _
    · exact (hreply _).weaken fun _ _ => trivial
  by_contra hmalloc
  exact htotal.error (by simpa using hmalloc) hrun

end Login

theorem obliging_login {m : Message} (hm : m.cmd = pcsClientLogin) (dir : Option (List UInt8))
    (bLogin : Bool) :
    ∃ st, processProtocolPdu obligingLibc.traced m.pdu bLogin (tracedMachine dir) = .ok ((), st) ∧
      (.setLogin ∈ st.effects ↔ cString m.data = password) := by
  rw [processProtocolPdu_login (m.carries_pdu.cmd.trans hm)]
  cases hrun : processProtocolClientLogin obligingLibc.traced m.pdu (tracedMachine dir) with
  | error f => cases clientLogin_fault m.carries_pdu hrun
  | ok result => exact ⟨result.2, rfl, (triple_clientLogin m.carries_pdu).ok rfl hrun⟩

theorem processProtocolPdu_notLogin {libc : Libc φ} {pdu : PDU} {m : Message}
    (hcarries : pdu.Carries m) (hm : m.OpensFile ∨ m.RunsScript) (st : Machine φ) :
    processProtocolPdu libc pdu false st = .ok ((), st) := by
  have hcmd : pdu.cmd = pcsUploadFile ∨ pdu.cmd = pcsUpgrade := by
    rw [hcarries.cmd]
    exact hm.imp And.left And.left
  rcases hcmd with hcmd | hcmd <;> simp only [processProtocolPdu, PDU.branch, hcmd] <;> rfl

theorem cString_ne_nil {data : List UInt8} (hlong : 1 < data.length) :
    cString data ≠ [] ↔ data.head? ≠ some 0 := by
  cases data with
  | nil => simp at hlong
  | cons byte data => by_cases hbyte : byte = 0 <;> simp [cString, hbyte]

namespace TextRequest

variable {r : TextRequest} {dir : Option (List UInt8)} {m m' : Message}

theorem Exact.doneWith (h : r.Exact dir m) {libc : Libc φ} {pdu : PDU} {bLogin : Bool}
    {st st' : Machine (Traced φ)} (hcarries : pdu.Carries m) (hst : st.Uncalled dir)
    (hrun : processProtocolPdu libc.traced pdu bLogin st = .ok ((), st')) :
    r.DoneWith dir m.data st' := by
  have hdone := h φ libc pdu bLogin st hcarries hst
  rwa [hrun] at hdone

theorem Plain.loggedIn (h : clientLogin.Plain dir m.data) :
    cString m.data = password ↔ m.data = password := by
  rw [cString_eq_iff zero_not_mem_password]
  exact or_iff_left fun ⟨rest, hrest⟩ => h rest hrest

theorem exact_clientLogin (hm : m.Asks clientLogin) :
    clientLogin.Exact dir m ↔ clientLogin.Plain dir m.data := by
  constructor
  · intro hexact rest hrest
    obtain ⟨st, hrun, hlogin⟩ := obliging_login hm dir false
    have hdone := hexact.doneWith m.carries_pdu ⟨rfl, rfl, rfl⟩ hrun
    have htaken : cString m.data = password ↔ m.data = password := hlogin.symm.trans hdone
    have hall := htaken.mp ((cString_eq_iff zero_not_mem_password).mpr (.inr ⟨rest, hrest⟩))
    simp [hall] at hrest
  · intro hplain φ libc pdu bLogin st hcarries hst
    rw [processProtocolPdu_login (hcarries.cmd.trans hm)]
    cases hrun : processProtocolClientLogin libc.traced pdu st with
    | error f => exact clientLogin_fault hcarries hrun
    | ok result =>
        have hlogin := (triple_clientLogin hcarries).ok hst.effects hrun
        exact hlogin.trans hplain.loggedIn

def Titled (r : TextRequest) : Prop := r = opensFile ∨ r = runsScript

theorem Titled.asks (hr : r.Titled) (hm : m.Asks r) : m.OpensFile ∨ m.RunsScript := by
  rcases hr with rfl | rfl
  · exact .inl hm
  · exact .inr hm

theorem Titled.doneWith (hr : r.Titled) {data : List UInt8} {st : Machine (Traced φ)} :
    r.DoneWith dir data st ↔ Uses (· = withSlash (dir.getD []) ++ data) st.calls := by
  rcases hr with rfl | rfl <;> rfl

theorem Titled.plain (hr : r.Titled) {data : List UInt8} :
    r.Plain dir data ↔
      (1 < data.length → dir.getD [] ≠ [] → data.head? ≠ some 0 → 0 ∉ data) := by
  rcases hr with rfl | rfl <;> rfl

theorem uses_nil {P : List UInt8 → Prop} : Uses P [] := fun _ hcall => absurd hcall List.not_mem_nil

theorem Titled.exact (hr : r.Titled) (hm : m.Asks r) :
    r.Exact dir m ↔ r.Plain dir m.data := by
  have hm := hr.asks hm
  rw [hr.plain]
  constructor
  · intro hexact hlong hdir hhead
    obtain ⟨d, rfl, -⟩ := exists_of_ne_nil hdir
    obtain ⟨st, hrun, call, hcall, hpath⟩ :=
      obliging_request hm hlong hdir ((cString_ne_nil hlong).mpr hhead)
    have hdone := hexact.doneWith m.carries_pdu ⟨rfl, rfl, rfl⟩ hrun
    have hsame := hr.doneWith.mp hdone call hcall _ hpath
    exact (cString_self_iff _).mp (List.append_cancel_left hsame)
  · intro hplain φ libc pdu bLogin st hcarries hst
    cases bLogin with
    | false =>
        rw [processProtocolPdu_notLogin hcarries hm]
        change r.DoneWith dir m.data st
        rw [hr.doneWith, hst.calls]
        exact uses_nil
    | true =>
        have hpath : 1 < m.data.length → ∀ d, dir = some d → d ≠ [] → cString m.data ≠ [] →
            withSlash d ++ cString m.data = withSlash (dir.getD []) ++ m.data := by
          rintro hlong d rfl hd htitle
          rw [cString_eq (hplain hlong hd ((cString_ne_nil hlong).mp htitle)), Option.getD_some]
        cases hrun : processProtocolPdu libc.traced pdu true st with
        | error f => exact request_fault hm hcarries hrun
        | ok result =>
            apply hr.doneWith.mpr
            have hnone : Uses (· = withSlash (dir.getD []) ++ m.data) st.calls := by
              rw [hst.calls]
              exact uses_nil
            exact (triple_request_uses hcarries hpath hm).ok ⟨hst.dir, hnone⟩ hrun

theorem exact_iff (hm : m.Asks r) : r.Exact dir m ↔ r.Plain dir m.data := by
  cases r with
  | clientLogin => exact exact_clientLogin hm
  | opensFile => exact Titled.exact (.inl rfl) hm
  | runsScript => exact Titled.exact (.inr rfl) hm

theorem DoneWith.same {φ' : Type} {data data' : List UInt8} {st : Machine (Traced φ)}
    {st' : Machine (Traced φ')} (h : r.DoneWith dir data st) (h' : r.DoneWith dir data' st')
    (hmeet : r.Meet st st') : data = data' := by
  have htitle : Uses (· = withSlash (dir.getD []) ++ data) st.calls →
      Uses (· = withSlash (dir.getD []) ++ data') st'.calls →
      (∃ path, (∃ call ∈ st.calls, call.path = some path) ∧
        ∃ call ∈ st'.calls, call.path = some path) → data = data' := by
    rintro huses huses' ⟨path, ⟨call, hcall, hpath⟩, call', hcall', hpath'⟩
    exact List.append_cancel_left
      ((huses call hcall path hpath).symm.trans (huses' call' hcall' path hpath'))
  cases r with
  | clientLogin => exact (h.mp hmeet.1).trans (h'.mp hmeet.2).symm
  | opensFile | runsScript => exact htitle h h' hmeet

theorem Exact.apart (h : r.Exact dir m) (h' : r.Exact dir m') (hne : m.data ≠ m'.data) :
    r.Apart dir m m' :=
  fun _ _ _ _ _ _ _ _ _ _ _ _ hcarries hcarries' hst hst' hrun hrun' hmeet =>
    hne ((h.doneWith hcarries hst hrun).same (h'.doneWith hcarries' hst' hrun') hmeet)

end TextRequest

/-- Two requests of one kind take their payloads exactly, and with different payloads
never log in, open or run the same, if and only if both payloads are plain. -/
theorem payload_exact {r : TextRequest} {m m' : Message} (hm : m.Asks r) (hm' : m'.Asks r)
    (dir : Option (List UInt8)) :
    (r.Exact dir m ∧ r.Exact dir m' ∧ (m.data ≠ m'.data → r.Apart dir m m')) ↔
      r.Plain dir m.data ∧ r.Plain dir m'.data := by
  rw [TextRequest.exact_iff hm, TextRequest.exact_iff hm']
  constructor
  · rintro ⟨hplain, hplain', -⟩
    exact ⟨hplain, hplain'⟩
  · rintro ⟨hplain, hplain'⟩
    refine ⟨hplain, hplain', fun hne => ?_⟩
    exact ((TextRequest.exact_iff hm).mpr hplain).apart ((TextRequest.exact_iff hm').mpr hplain') hne

def loginWith (data : List UInt8) : Message := ⟨pcsClientLogin, pcsEx01, data⟩

/-- The password itself and two plain titles. -/
theorem payload_exact_plain :
    TextRequest.clientLogin.Exact none (loginWith password) ∧
    TextRequest.opensFile.Exact (some (literal "up")) (uploadOf "fw") ∧
    TextRequest.opensFile.Apart (some (literal "up")) (uploadOf "fw") (uploadOf "fv") := by
  have hasks : (loginWith password).Asks .clientLogin := rfl
  have hasksTitle : ∀ title, (uploadOf title).Asks .opensFile := fun _ => ⟨rfl, rfl⟩
  have hplain : TextRequest.clientLogin.Plain none password := fun _ => by simp
  have hlogin := (payload_exact hasks hasks none).mpr ⟨hplain, hplain⟩
  have htitle := (payload_exact (hasksTitle "fw") (hasksTitle "fv") (some (literal "up"))).mpr
    ⟨fun _ _ _ => by decide, fun _ _ _ => by decide⟩
  exact ⟨hlogin.1, htitle.1, htitle.2.2 (by decide)⟩

/-- A NUL ends the password, and whatever follows it is not looked at: such a login is
accepted like the one with the password alone. It is the same with a title. -/
theorem payload_exact_cut :
    (¬ ∀ m : Message, m.Asks .clientLogin → TextRequest.clientLogin.Exact none m) ∧
    (¬ ∀ m m' : Message, m.Asks .clientLogin → m'.Asks .clientLogin → m.data ≠ m'.data →
      TextRequest.clientLogin.Apart none m m') ∧
    ¬ ∀ m : Message, m.Asks .opensFile → TextRequest.opensFile.Exact (some (literal "up")) m := by
  have hcut : cString (password ++ [0, 0x21]) = password := by decide
  obtain ⟨st, hrun, hlogin⟩ := obliging_login (m := loginWith (password ++ [0, 0x21])) rfl none false
  refine ⟨fun hall => ?_, fun hall => ?_, fun hall => ?_⟩
  · have hdone := (hall (loginWith (password ++ [0, 0x21])) rfl).doneWith (Message.carries_pdu _)
      ⟨rfl, rfl, rfl⟩ hrun
    have hsame : password ++ [0, 0x21] = password := hdone.mp (hlogin.mpr hcut)
    exact absurd hsame (by decide)
  · obtain ⟨st', hrun', hlogin'⟩ := obliging_login (m := loginWith password) rfl none false
    apply hall (loginWith (password ++ [0, 0x21])) (loginWith password) rfl rfl (by decide) Unit Unit
      obligingLibc obligingLibc _ _ false false _ st _ st' (Message.carries_pdu _)
      (Message.carries_pdu _) ⟨rfl, rfl, rfl⟩ ⟨rfl, rfl, rfl⟩ hrun hrun'
    exact ⟨hlogin.mpr hcut, hlogin'.mpr (cString_eq zero_not_mem_password)⟩
  · have hopens : Message.OpensFile ⟨pcsUploadFile, pcsEx02, literal "fw" ++ [0, 0x78]⟩ := ⟨rfl, rfl⟩
    obtain ⟨st, hrun, call, hcall, hpath⟩ := obliging_request (.inl hopens) (d := literal "up")
      (by decide) (by decide) (by decide)
    have hdone := (hall _ hopens).doneWith (Message.carries_pdu _) ⟨rfl, rfl, rfl⟩ hrun
    exact absurd (hdone call hcall _ hpath) (by decide)

end CccUpgrade
