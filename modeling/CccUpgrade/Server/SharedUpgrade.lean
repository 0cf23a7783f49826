import CccUpgrade.Network.UpgradeSession
import CccUpgrade.Server.Datagrams

/-! An upgrade on a server that others use as well. What other clients send that are not
logged in, and what arrives over UDP, does not get between the requests of an upgrade. -/
namespace CccUpgrade

open Lib ConnectTable

section Refused

variable {φ : Type} {libc : Libc φ} {disk : φ → Disk}

/-- Looking up the addresses and the name of the host does nothing to files. -/
structure Libc.Discreet (libc : Libc φ) (disk : φ → Disk) : Prop where
  getifaddrs : ∀ env, disk (libc.getifaddrs env).2 = disk env
  gethostname : ∀ env, disk (libc.gethostname env).2 = disk env

def Libc.lookups (libc : Libc φ) : Libc φ :=
  { libc with
    access := fun env _ => (true, env)
    mkdir := fun env _ => (true, env)
    freads := fun env _ => ([], env) }

theorem processProtocolPdu_lookups (pdu : PDU) :
    processProtocolPdu libc pdu false = processProtocolPdu libc.lookups pdu false := by
  have hrefused : pdu.branch false ≠ .afterLogin := by
    unfold PDU.branch
    split
    · exact nofun
    · split <;> exact nofun
  unfold processProtocolPdu
  cases hbranch : pdu.branch false with
  | afterLogin => exact absurd hbranch hrefused
  | discoverDevice | clientLogin | notLogin => rfl

theorem keeps_standing_refused (hposix : libc.Posix disk) (hdiscreet : libc.Discreet disk)
    (pdu : PDU) : Keeps (Machine.standing disk) anyFault (processProtocolPdu libc pdu false) := by
  have hsame : ∀ {st : Machine φ} {env : φ}, disk env = disk st.env →
      ({ st with env := env } : Machine φ).standing disk = st.standing disk := by
    intro st env henv
    simp only [Machine.standing, henv]
  have hsilent : libc.lookups.Silent (Machine.standing disk) :=
    ⟨fun n st => hsame (hposix.malloc st.env n).2, fun _ _ => rfl, fun _ _ => rfl, fun _ _ => rfl,
      fun st => hsame (hdiscreet.getifaddrs st.env), fun st => hsame (hdiscreet.gethostname st.env)⟩
  have heffects : EffectFree (Machine.standing disk) := fun _ _ => rfl
  rw [processProtocolPdu_lookups]
  unfold processProtocolPdu
  split
  · exact keeps_processProtocolDiscoverDevice (fun _ _ => trivial) heffects hsilent
  · exact keeps_processProtocolClientLogin (fun _ _ => trivial) heffects hsilent pdu
  · exact Keeps.pure
  · rename_i hbranch
    unfold PDU.branch at hbranch
    split at hbranch
    · cases hbranch
    · split at hbranch <;> cases hbranch

end Refused

theorem Carry.split {first second : List PDU} {messages : List Message}
    (h : Carry (first ++ second) messages) :
    ∃ early late, messages = early ++ late ∧ Carry first early ∧ Carry second late := by
  have hfirst := List.forall₂_take first.length h
  have hsecond := List.forall₂_drop first.length h
  rw [List.take_left] at hfirst
  rw [List.drop_left] at hsecond
  exact ⟨_, _, (List.take_append_drop first.length messages).symm, hfirst, hsecond⟩

def Thread.privileged (t : Thread) : Bool :=
  match t.phase with
  | .callback cb => cb.bLogin
  | _ => false

def Thread.logsIn (t : Thread) : Bool :=
  match t.phase with
  | .callback cb => cb.effects.head? = some .setLogin
  | _ => false

namespace Server

variable {φ : Type} {s s' : Server φ} {c : Nat} {slot : Fin clientCountMax}

/-- Nobody but the client of connection `c` makes requests as one that is logged in, nobody
else logs in, and its stream goes on. -/
def Undisputed (c : Nat) (s : Server φ) : Action → Prop
  | .process thread => thread = c ∨ ∀ t ∈ s.threads thread, t.privileged = false
  | .effect thread _ _ => thread = c ∨ ∀ t ∈ s.threads thread, t.logsIn = false
  | .endOfStream thread => thread ≠ c
  | _ => True

instance (c : Nat) (s : Server φ) : DecidablePred (s.Undisputed c)
  | .process thread =>
      inferInstanceAs (Decidable (thread = c ∨ ∀ t ∈ s.threads thread, t.privileged = false))
  | .effect thread _ _ =>
      inferInstanceAs (Decidable (thread = c ∨ ∀ t ∈ s.threads thread, t.logsIn = false))
  | .endOfStream thread => inferInstanceAs (Decidable (thread ≠ c))
  | .accept .. | .recv _ | .chunk .. | .done _ => inferInstanceAs (Decidable True)

structure LoggedIn (s : Server φ) (c : Nat) (slot : Fin clientCountMax) : Prop where
  login : (s.conns slot).bLogin = true
  thread : ∃ t, s.threads c = some t ∧ t.slot = slot ∧ ∀ cb, t.phase = .callback cb → cb.bLogin = true

namespace LoggedIn

theorem stay (h : s.LoggedIn c slot) (hlogin : (s'.conns slot).bLogin = (s.conns slot).bLogin)
    (hthread : s'.threads c = s.threads c) : s'.LoggedIn c slot := by
  refine ⟨hlogin.trans h.login, ?_⟩
  rw [hthread]
  exact h.thread

theorem advance (h : s.LoggedIn c slot) {thread : Nat} {t u : Thread}
    (ht : s.threads thread = some t)
    (hlogin : (s'.conns slot).bLogin = (s.conns slot).bLogin)
    (hthreads : s'.threads = Function.update s.threads thread (some u)) (hslot : u.slot = t.slot)
    (hcallback : t.slot = slot → (∀ cb, t.phase = .callback cb → cb.bLogin = true) →
      ∀ cb, u.phase = .callback cb → cb.bLogin = true) : s'.LoggedIn c slot := by
  refine ⟨hlogin.trans h.login, ?_⟩
  rw [hthreads]
  obtain ⟨v, hv, hvslot, hphase⟩ := h.thread
  by_cases hc : thread = c
  · subst hc
    obtain rfl : v = t := Option.some.inj (hv.symm.trans ht)
    exact ⟨u, Function.update_self .., hslot.trans hvslot, hcallback hvslot hphase⟩
  · exact ⟨v, (Function.update_of_ne (Ne.symm hc) ..).trans hv, hvslot, hphase⟩

theorem close_other (h : s.LoggedIn c slot) (hp : s.Paired) {thread : Nat} {t : Thread}
    (ht : s.threads thread = some t) (hother : thread ≠ c) (cause : Cause) :
    ((s.closeSlot t.slot cause).setThread thread none).LoggedIn c slot := by
  obtain ⟨v, hv, hvslot, -⟩ := h.thread
  have hne : slot ≠ t.slot := by
    rintro rfl
    exact hother (hp.unique thread c t v ht hv hvslot.symm)
  apply h.stay
  · change ((s.closeSlot t.slot cause).conns slot).bLogin = _
    rw [closeSlot_conns, set_of_ne _ hne]
  · change Function.update (s.closeSlot t.slot cause).threads thread none c = _
    rw [closeSlot_threads, Function.update_of_ne (Ne.symm hother)]

theorem moved (h : s.LoggedIn c slot) (hp : s.Paired) {libc : Libc φ} {a : Action}
    (hfresh : s.Fresh a) (hguard : s.Undisputed c a) (hmoved : s.Moved libc a s') :
    s'.LoggedIn c slot := by
  cases hmoved with
  | registered hsock hfd =>
      obtain ⟨v, hv, hvslot, -⟩ := h.thread
      have hne : v.slot ≠ newSlot s.conns := hfresh.2 c v hv
      apply h.stay
      · rw [register_conns, seated_of_ne _ _ _ _ (hvslot ▸ hne)]
      · exact Function.update_of_ne (Nat.ne_of_lt (hp.threads c v hv)) ..
  | rejected | processFault | halted => exact h.stay rfl rfl
  | unstarted =>
      have := hfresh.1
      cases this
  | recv ht hphase => exact h.advance ht rfl rfl rfl nofun
  | chunk ht hphase =>
      refine h.advance ht rfl rfl rfl ?_
      rintro hslot - _ ⟨⟩
      exact hslot ▸ h.login
  | process ht hphase | reply ht hphase | effect ht hphase =>
      refine h.advance ht rfl rfl rfl ?_
      rintro - hcallback _ ⟨⟩
      have hlogged := hcallback _ hphase
      exact hlogged
  | @setLogin thread _ _ t cb effects slot' ht hphase heffects hslot hvalid =>
      have hthread : thread = c := by
        rcases hguard with hc | hlogs
        · exact hc
        · have hnot := hlogs t ht
          simp [Thread.logsIn, hphase, heffects] at hnot
      subst hthread
      obtain ⟨v, hv, hvslot, -⟩ := h.thread
      obtain rfl : v = t := Option.some.inj (hv.symm.trans ht)
      have hown : slot' = slot := by
        have hhandle := (hp.serves_callback ht hphase).2
        rw [hslot, hvslot] at hhandle
        omega
      subst hown
      refine h.advance (u := { v with phase := .callback { cb with effects := effects } }) ht ?_ ?_ rfl ?_
      rotate_left 2
      · rintro - hcallback _ ⟨⟩
        have hlogged := hcallback _ hphase
        exact hlogged
      · change (loggedIn s.conns slot' slot').bLogin = _
        rw [loggedIn_self, h.login]
      · change Function.update (s.closeSlot (other slot') (.login cb.src)).threads thread _ = _
        rw [closeSlot_threads]
  | done ht hphase => exact h.advance ht rfl rfl rfl nofun
  | endOfStream ht hphase hslot =>
      obtain rfl := hp.slot_eq hslot
      exact h.close_other hp ht hguard _
  | outOfRange ht hphase hslot => exact h.stay rfl (Function.update_of_ne (Ne.symm hguard) ..)

end LoggedIn

theorem pendingOf_update {threads : Nat → Option Thread} {thread : Nat} {t : Thread}
    (ht : threads thread = some t) {u : Option Thread} (hpending : pendingOf u = t.pending) (c : Nat) :
    pendingOf (Function.update threads thread u c) = pendingOf (threads c) := by
  by_cases hc : c = thread
  · subst hc
    rw [Function.update_self, hpending, ht]
    rfl
  · rw [Function.update_of_ne hc]

end Server

/-- An upgrade on a connection, with what had been taken up and sent there before it. -/
structure Upgrade where
  conn : Nat
  dir : List UInt8
  title : List UInt8
  content : List UInt8
  requests : List Message
  replies : List Message
  past : List PDU
  before : List UInt8

namespace Upgrade

variable {φ : Type} {libc : Libc φ} {disk : φ → Disk} {u : Upgrade} {s s' : Server φ}
  {ran ran' : Prop}

/-- As long as what the connection brings are the requests of the upgrade, it gets on with
every request taken up, and the replies to them are sent or about to be. `ran` says that the
file has been run. -/
def Course (u : Upgrade) (disk : φ → Disk) (s : Server φ) (ran : Prop) : Prop :=
  ∃ taken, processed s.log u.conn = u.past ++ taken ∧
    ∀ done later, u.requests = done ++ later → Carry taken done →
      ∃ given rest, u.replies = given ++ pendingOf (s.threads u.conn) ++ rest ∧
        Upgrading disk u.dir u.title u.content later rest s.machine ∧
        sentTo s.log u.conn = u.before ++ given.flatMap Message.frame ∧ (later = [] → ran)

theorem Course.quiet (h : u.Course disk s ran)
    (hprocessed : processed s'.log u.conn = processed s.log u.conn)
    (hsent : sentTo s'.log u.conn = sentTo s.log u.conn)
    (hpending : pendingOf (s'.threads u.conn) = pendingOf (s.threads u.conn))
    (hstanding : s'.machine.standing disk = s.machine.standing disk) (hran : ran → ran') :
    u.Course disk s' ran' := by
  obtain ⟨taken, htaken, hcourse⟩ := h
  refine ⟨taken, hprocessed.trans htaken, fun done later hrequests hcarry => ?_⟩
  obtain ⟨given, rest, hreplies, hupgrading, hgiven, hlater⟩ := hcourse done later hrequests hcarry
  rw [← hpending] at hreplies
  exact ⟨given, rest, hreplies, hupgrading.standing hstanding, hsent.trans hgiven,
    fun hnone => hran (hlater hnone)⟩

theorem Course.process (h : u.Course disk s ran) (hready : libc.Ready disk u.dir) (hdir : u.dir ≠ [])
    (htitle : IsTitle u.title) {pdu : PDU} {machine : Machine φ} {branch : Branch}
    (hrun : processProtocolPdu libc pdu true s.machine.unspoken = .ok ((), machine))
    (hnone : pendingOf (s.threads u.conn) = [])
    (hlog : s'.log = .processed u.conn pdu branch :: s.log) (hmachine : s'.machine = machine)
    (hpending : pendingOf (s'.threads u.conn) = repliesIn machine.effects)
    (hran : machine.Ran libc disk (withSlash u.dir ++ u.title) u.content → ran') :
    u.Course disk s' ran' := by
  obtain ⟨taken, htaken, hcourse⟩ := h
  refine ⟨taken ++ [pdu], ?_, fun done later hrequests hcarry => ?_⟩
  · rw [hlog, processed_self, htaken, List.append_assoc]
  · obtain ⟨done, last, rfl, hcarried, hlast⟩ := Carry.split hcarry
    obtain ⟨m, none', hpdu, hnone', rfl⟩ := List.forall₂_cons_left_iff.mp hlast
    rw [List.forall₂_nil_left_iff.mp hnone', List.append_assoc] at hrequests
    obtain ⟨given, rest, hreplies, hupgrading, hgiven, -⟩ := hcourse done _ hrequests hcarried
    obtain ⟨machine', reply, rest', rfl, hrun', hsaid, hnext, hlast⟩ :=
      hupgrading.next hready hdir htitle rfl hpdu
    obtain rfl : machine' = machine := by
      rw [hrun] at hrun'
      cases hrun'
      rfl
    have hanswered : pendingOf (s'.threads u.conn) = [reply] := by
      rw [hpending, hsaid]
      rfl
    refine ⟨given, rest', ?_, hmachine ▸ hnext, ?_, fun hnone' => hran (hlast hnone')⟩
    · rw [hanswered, hreplies, hnone]
      simp
    · rw [hlog]
      exact hgiven

theorem Course.effect (h : u.Course disk s ran) (hp : s.Paired) (hl : Ledger s.fds s.accepted s.log)
    (htalking : Talking s.conns s.threads s.log) {slot : Fin clientCountMax}
    (hlogged : s.LoggedIn u.conn slot) {thread : Nat} {allocated : Bool} {kernel : Nat → Int}
    (hheard : s.Heard (.effect thread allocated kernel))
    (hstep : s.step libc (.effect thread allocated kernel) = some s') : u.Course disk s' ran := by
  obtain ⟨t, cb, e, effects, ht, hphase, heffects, rfl⟩ := Server.effect_exact hstep
  obtain ⟨rfl, haccepted⟩ := hheard
  have hpending : t.pending = repliesIn (e :: effects) := by
    rw [Thread.pending_callback hphase, heffects]
  cases e with
  | replyToUdp cmd cmdEx data =>
      have hnext := hpending.symm
      rw [repliesIn, ← Server.pendingOf_setCallback] at hnext
      exact h.quiet rfl rfl (Server.pendingOf_update ht hnext _) rfl id
  | setLogin =>
      have hnext := hpending.symm
      rw [repliesIn, ← Server.pendingOf_setCallback] at hnext
      dsimp only
      rcases s.setLogin_cases cb with heq | ⟨slot', -, -, heq⟩ <;> rw [heq]
      · exact h.quiet rfl rfl (Server.pendingOf_update ht hnext _) rfl id
      · have hlog := s.unheard_closeSlot (other slot') (.login cb.src) u.conn
        refine h.quiet (congrArg (List.map Prod.fst) hlog.handled) hlog.sent ?_ ?_ id
        · change pendingOf (Function.update (s.closeSlot (other slot') (.login cb.src)).threads _ _ _) = _
          rw [Server.closeSlot_threads]
          exact Server.pendingOf_update ht hnext _
        · exact congrArg (Machine.standing disk) (s.closeSlot_machine (other slot') (.login cb.src))
  | replyToClient cmd cmdEx data =>
      dsimp only
      by_cases hc : thread = u.conn
      · subst hc
        obtain ⟨t', ht', rfl, -⟩ := hlogged.thread
        obtain rfl : t' = t := Option.some.inj (ht'.symm.trans ht)
        have hsent := (Server.reply_whole hp hl htalking ht hphase heffects
          (hp.ok.valid _ hlogged.login) (haccepted _ _ _ _ _ _ ht hphase heffects)).2
        rw [hsent]
        obtain ⟨taken, htaken, hcourse⟩ := h
        refine ⟨taken, htaken, fun done later hrequests hcarry => ?_⟩
        obtain ⟨given, rest, hreplies, hupgrading, hgiven, hlater⟩ :=
          hcourse done later hrequests hcarry
        refine ⟨given ++ [⟨cmd, cmdEx, data⟩], rest, ?_, hupgrading, ?_, hlater⟩
        · rw [ht] at hreplies
          change u.replies = given ++ t'.pending ++ rest at hreplies
          rw [hpending] at hreplies
          change u.replies = _ ++ pendingOf (Function.update s.threads u.conn _ u.conn) ++ rest
          rw [Function.update_self, Server.pendingOf_setCallback, hreplies]
          simp [repliesIn]
        · change sentTo (.replied _ _ _ :: s.log) _ = _
          rw [sentTo_self, hgiven, List.flatMap_append, List.flatMap_singleton, List.append_assoc]
      · have hother : ∀ {log' : List Event}, (log' = s.log ∨ ∃ src to' bytes, to' ≠ u.conn ∧
            log' = .replied src to' bytes :: s.log) →
            u.Course disk (({ s with log := log' }).setCallback thread t { cb with effects := effects })
              ran := by
          intro log' hlog
          have hthread := Function.update_of_ne (Ne.symm hc)
            (some { t with phase := .callback { cb with effects := effects } }) s.threads
          rcases hlog with rfl | ⟨src, to', bytes, hne, rfl⟩
          · exact h.quiet rfl rfl (congrArg pendingOf hthread) rfl id
          · exact h.quiet rfl (sentTo_of_ne hne.symm ..) (congrArg pendingOf hthread) rfl id
        rcases s.reply_cases cb cmd cmdEx data true kernel with
          heq | ⟨slot', to', bytes, hhandle, hvalid, hfd, heq⟩ <;> rw [heq]
        · exact hother (.inl rfl)
        · have hslot : slot' = t.slot := by
            have hserves := (hp.serves_callback ht hphase).2
            rw [hhandle] at hserves
            omega
          subst hslot
          rw [hp.held_by ht hvalid] at hfd
          cases hfd
          exact hother (.inr ⟨_, _, _, hc, rfl⟩)

/-- A step of the server. What other threads take up are requests that are not let through. -/
theorem Course.step (h : u.Course disk s ran) (ha : s.Attentive) {slot : Fin clientCountMax}
    (hlogged : s.LoggedIn u.conn slot) (hready : libc.Ready disk u.dir)
    (hdiscreet : libc.Discreet disk) (hdir : u.dir ≠ []) (htitle : IsTitle u.title) {a : Action}
    (hguard : s.Attended a) (hmine : s.Undisputed u.conn a) (hstep : s.step libc a = some s')
    (hrunning : s'.halted = none) (hran : ran → ran')
    (hnow : s'.machine.Ran libc disk (withSlash u.dir ++ u.title) u.content → ran') :
    u.Course disk s' ran' := by
  have heffect : ∀ {thread allocated kernel}, a = .effect thread allocated kernel →
      u.Course disk s' ran' := by
    rintro thread allocated kernel rfl
    exact (h.effect ha.paired ha.ledger ha.talking hlogged hguard.heard hstep).quiet rfl rfl rfl rfl hran
  obtain ⟨v, hv, hvslot, hcallback⟩ := hlogged.thread
  cases Server.step_moved hstep with
  | registered hsock hfd =>
      refine h.quiet rfl rfl (congrArg pendingOf ?_) rfl hran
      exact Function.update_of_ne (Nat.ne_of_lt (ha.paired.threads u.conn v hv)) ..
  | rejected => exact h.quiet rfl rfl rfl rfl hran
  | unstarted =>
      have := hguard.fresh.1
      cases this
  | recv ht hphase =>
      refine h.quiet rfl rfl (Server.pendingOf_update ht ?_ _) rfl hran
      rw [Thread.pending_waiting (by simp [hphase])]
      rfl
  | chunk ht hphase =>
      refine h.quiet rfl rfl (Server.pendingOf_update ht ?_ _) rfl hran
      rw [Thread.pending_waiting (by simp [hphase])]
      rfl
  | @process thread t cb pdu todo machine ht hphase heffects htodo hrun =>
      by_cases hc : thread = u.conn
      · subst hc
        obtain rfl : v = t := Option.some.inj (hv.symm.trans ht)
        rw [hcallback cb hphase] at hrun
        refine h.process hready hdir htitle hrun ?_ rfl rfl ?_ hnow
        · rw [ht]
          change v.pending = []
          rw [Thread.pending_callback hphase, heffects]
          rfl
        · change pendingOf (Function.update s.threads u.conn _ u.conn) = _
          rw [Function.update_self]
          rfl
      · have hprivileged : cb.bLogin = false := by
          have hnot := (hmine.resolve_left hc) t ht
          simpa [Thread.privileged, hphase] using hnot
        rw [hprivileged] at hrun
        have hkeeps := keeps_standing_refused hready.toPosix hdiscreet pdu
        refine h.quiet (processed_of_ne (Ne.symm hc) ..) rfl (congrArg pendingOf ?_)
          ((hkeeps _).ok (s := { s.machine with effects := [] }) rfl hrun) hran
        exact Function.update_of_ne (Ne.symm hc) ..
  | setLogin | reply | effect => exact heffect rfl
  | @done thread t cb ht hphase =>
      obtain ⟨-, -, heffects⟩ := Server.done_finished hstep hrunning ht hphase
      refine h.quiet rfl rfl (Server.pendingOf_update ht ?_ _) rfl hran
      rw [Thread.pending_callback hphase, heffects]
      rfl
  | @endOfStream thread t src slot' ht hphase hslot =>
      have hlog := s.unheard_closeSlot slot' (.endOfStream src) u.conn
      refine h.quiet (congrArg (List.map Prod.fst) hlog.handled) hlog.sent (congrArg pendingOf ?_)
        (congrArg (Machine.standing disk) (s.closeSlot_machine slot' (.endOfStream src))) hran
      change Function.update (s.closeSlot slot' (.endOfStream src)).threads thread none u.conn = _
      rw [Server.closeSlot_threads, Function.update_of_ne (Ne.symm hmine)]
  | outOfRange ht hphase hslot =>
      refine h.quiet rfl rfl (congrArg pendingOf ?_) rfl hran
      exact Function.update_of_ne (Ne.symm hmine) ..
  | processFault | halted => cases hrunning

end Upgrade

namespace Server

variable {φ : Type} {s₀ s : Server φ} {c : Nat}

/-- A thread between two rounds, with nothing in its buffer, has taken up all of its stream. -/
theorem Attentive.scan_idle (h : s.Attentive) {slot : Fin clientCountMax} {mainBuf : List UInt8}
    (ht : s.threads c = some ⟨slot, .loop, mainBuf⟩) :
    ∃ messages, Carry (processed s.log c) messages ∧
      (frameScanner protoDataLenMax).scan (stream s.log c) = .waiting messages mainBuf := by
  obtain ⟨loop, messages, hloop, hcarry, hscan⟩ := (h.tracks.loops c).scan
  have hwaiting := Thread.loop_waiting (t := ⟨slot, .loop, mainBuf⟩) (by simp) (processed s.log c)
  rw [hloop.running _ ht, hwaiting] at hcarry hscan
  rw [flatten_chunks h.own] at hscan
  exact ⟨messages, hcarry, hscan⟩

theorem Attentive.since_idle (h₀ : s₀.Attentive) {slot : Fin clientCountMax}
    (ht₀ : s₀.threads c = some ⟨slot, .loop, []⟩) (h : s.Attentive) {part : List UInt8}
    (hstream : stream s.log c = stream s₀.log c ++ part) {taken : List PDU}
    (htaken : processed s.log c = processed s₀.log c ++ taken) :
    Carry (taken ++ todoOf (s.threads c)) ((frameScanner protoDataLenMax).scan part).events := by
  obtain ⟨messages, hcarry, hscan⟩ := h₀.scan_idle ht₀
  have hrequests := (h.conversation c).requests
  rw [hstream, Scanner.scan_append, hscan, Scanner.resume, List.nil_append, Scan.events_prepend,
    htaken, List.append_assoc] at hrequests
  have hlater := List.forall₂_drop (processed s₀.log c).length hrequests
  rwa [List.drop_left, hcarry.length_eq, List.drop_left] at hlater

end Server

namespace Host

variable {φ : Type} {udp : UdpServer} {libc : Libc φ} {disk : φ → Disk} {s s' : Host φ}

/-- Nobody but the client of `c` is served as one that is logged in. Nothing is asked of the
datagrams. -/
def Leaves (c : Nat) (s : Host φ) : HostAction → Prop
  | .tcp a => s.server.Undisputed c a
  | _ => True

instance (c : Nat) (s : Host φ) : DecidablePred (s.Leaves c)
  | .tcp a => inferInstanceAs (Decidable (s.server.Undisputed c a))
  | .datagram .. | .process | .effect .. | .done => inferInstanceAs (Decidable True)

/-- And the connections are served in a guarded way. -/
structure Undisputed (c : Nat) (s : Host φ) (a : HostAction) : Prop where
  serves : s.ServesTcp a
  leaves : s.Leaves c a

theorem standing_udp (hslot : slot? udp.handle = none) (hposix : libc.Posix disk)
    (hdiscreet : libc.Discreet disk) {a : HostAction} (hudp : a.OfUdp)
    (hstep : s.step udp libc a = some s') :
    s'.server.machine.standing disk = s.server.machine.standing disk := by
  unfold step at hstep
  split at hstep
  · cases hstep
  cases a with
  | tcp a => cases hudp
  | datagram src bytes packet =>
      dsimp only at hstep
      unfold datagram at hstep
      split at hstep
      · split at hstep <;> cases hstep
        rfl
      · cases hstep
  | process =>
      dsimp only at hstep
      unfold process at hstep
      split at hstep
      next pdu todo fault hphase =>
        split at hstep
        · cases hstep
          rfl
        next machine hrun =>
          cases hstep
          have hkeeps := keeps_standing_refused hposix hdiscreet pdu
          exact (hkeeps _).ok (s := { s.server.machine with effects := [] }) rfl hrun
      · cases hstep
  | effect allocated kernel =>
      dsimp only at hstep
      unfold effect at hstep
      split at hstep
      next todo e effects fault hphase =>
        cases hstep
        cases e with
        | setLogin => rfl
        | replyToClient cmd cmdEx data =>
            dsimp only
            rw [replyToClient_eq hslot]
        | replyToUdp cmd cmdEx data =>
            dsimp only [replyToUdp]
            split
            · rfl
            · split <;> rfl
      · cases hstep
  | done =>
      dsimp only at hstep
      unfold done at hstep
      split at hstep <;> cases hstep <;> rfl

structure Sharing (s : Host φ) (disk : φ → Disk) (u : Upgrade) (slot : Fin clientCountMax)
    (ran : Prop) : Prop where
  attentive : s.server.Attentive
  logged : s.server.LoggedIn u.conn slot
  course : u.Course disk s.server ran

theorem Sharing.step {u : Upgrade} {slot : Fin clientCountMax} {ran ran' : Prop}
    (h : s.Sharing disk u slot ran) (hslot : slot? udp.handle = none)
    (hready : libc.Ready disk u.dir) (hdiscreet : libc.Discreet disk) (hdir : u.dir ≠ [])
    (htitle : IsTitle u.title) {a : HostAction} (hguard : s.Undisputed u.conn a)
    (hstep : s.step udp libc a = some s') (hrunning : s'.server.halted = none) (hran : ran → ran')
    (hnow : s'.server.machine.Ran libc disk (withSlash u.dir ++ u.title) u.content → ran') :
    s'.Sharing disk u slot ran' := by
  have hattentive := attentive_step hslot h.attentive hguard.serves hstep hrunning
  have hudp : a.OfUdp → s'.Sharing disk u slot ran' := by
    intro hudp
    have hserver := udp_server hslot hudp hstep
    have hstanding := standing_udp hslot hready.toPosix hdiscreet hudp hstep
    refine ⟨hattentive, ?_, ?_⟩
    · rw [← hserver]
      exact h.logged.stay rfl rfl
    · rw [← hserver] at hstanding ⊢
      exact h.course.quiet rfl rfl rfl hstanding hran
  cases a with
  | tcp a =>
      unfold Host.step at hstep
      split at hstep
      · cases hstep
      · obtain ⟨server, hserver, rfl⟩ := Option.map_eq_some_iff.mp hstep
        have hserves : s.server.Attended a := hguard.serves
        have hmine : s.server.Undisputed u.conn a := hguard.leaves
        exact ⟨hattentive, h.logged.moved h.attentive.paired hserves.fresh hmine
          (Server.step_moved hserver), h.course.step h.attentive h.logged hready hdiscreet hdir htitle
          hserves hmine hserver hrunning hran hnow⟩
  | datagram | process | effect | done => exact hudp trivial

theorem scan_upgradeRequests {title content digits : List UInt8} {writes : List Piece}
    (htitle : IsTitle title) (hdelivers : Delivers content writes digits)
    (hshort : ∀ w ∈ writes, 4 + w.dataBuf.length ≤ protocolDataLenMax) :
    (frameScanner protoDataLenMax).scan ((upgradeRequests title writes digits).flatMap Message.encoded) =
      .waiting (upgradeRequests title writes digits) [] := by
  rw [← sentStream_bare, scan_sentStream _ List.not_mem_nil]
  · simp [Function.comp_def]
  · intro s hs
    obtain ⟨m, hm, rfl⟩ := List.mem_map.mp hs
    exact ⟨List.not_mem_nil, upgradeRequests_fit htitle hdelivers hshort m hm⟩

/-- A client that is logged in makes an upgrade while other clients come, go and send what
they like without being logged in, and datagrams arrive. However all that is interleaved with
its own requests, it is only sent success, and when all of its requests have arrived and
its thread is done with them, the file has been run with the content that was sent. -/
theorem upgrade_undisputed (hslot : slot? udp.handle = none) {machine : Machine φ}
    {dir title content digits : List UInt8} (hready : libc.Ready disk dir)
    (hdiscreet : libc.Discreet disk) (hdir : dir ≠ []) (htitle : IsTitle title) {writes : List Piece}
    (hdelivers : Delivers content writes digits)
    (hshort : ∀ w ∈ writes, 4 + w.dataBuf.length ≤ protocolDataLenMax) {s₀ : Host φ}
    (h₀ : (host libc machine udp).ReachableBy ServesTcp s₀) {c : Nat} {slot : Fin clientCountMax}
    (ht₀ : s₀.server.threads c = some ⟨slot, .loop, []⟩)
    (hlogin : (s₀.server.conns slot).bLogin = true)
    (hdirectory : s₀.server.machine.upgradeTempDir = some dir)
    (hrun : (host libc machine udp).Leads (Undisputed c) s₀ s) (hrunning : s.server.halted = none)
    {part later : List UInt8} (hstream : stream s.server.log c = stream s₀.server.log c ++ part)
    (hpart : part ++ later = (upgradeRequests title writes digits).flatMap Message.encoded) :
    (∃ given, given <+: upgradeReplies writes ∧
        sentTo s.server.log c = sentTo s₀.server.log c ++ given.flatMap Message.frame) ∧
      ∀ mainBuf, later = [] → s.server.threads c = some ⟨slot, .loop, mainBuf⟩ → mainBuf = [] ∧
        sentTo s.server.log c =
          sentTo s₀.server.log c ++ (upgradeReplies writes).flatMap Message.frame ∧
        ∃ s₁, (host libc machine udp).Leads (Undisputed c) s₀ s₁ ∧
          (host libc machine udp).Leads (Undisputed c) s₁ s ∧
          s₁.server.machine.Ran libc disk (withSlash dir ++ title) content := by
  have hrunning₀ : s₀.server.halted = none := by
    cases hrun with
    | refl => exact hrunning
    | step _ hstep => exact running_of_step hstep
  have hattentive₀ := attentive_of_serves hslot h₀ hrunning₀
  let u : Upgrade := ⟨c, dir, title, content, upgradeRequests title writes digits,
    upgradeReplies writes, processed s₀.server.log c, sentTo s₀.server.log c⟩
  let ran : Host φ → Prop := fun t => ∃ s₁, (host libc machine udp).Leads (Undisputed c) s₀ s₁ ∧
    (host libc machine udp).Leads (Undisputed c) s₁ t ∧
    s₁.server.machine.Ran libc disk (withSlash dir ++ title) content
  have hbegun : s₀.Sharing disk u slot (ran s₀) := by
    refine ⟨hattentive₀, ⟨hlogin, _, ht₀, rfl, by simp⟩, [], (List.append_nil _).symm, ?_⟩
    intro done later hrequests hcarry
    obtain rfl := List.forall₂_nil_left_iff.mp hcarry
    refine ⟨[], upgradeReplies writes, ?_, .opens hdirectory hdelivers hrequests.symm rfl,
      (List.append_nil _).symm, ?_⟩
    · rw [ht₀]
      rfl
    · rintro rfl
      cases hrequests
  have hsharing : s.server.halted = none → s.Sharing disk u slot (ran s) := by
    apply hrun.invariant (Q := fun t => t.server.halted = none → t.Sharing disk u slot (ran t))
      (fun _ => hbegun)
    intro t a t' hbefore ht hguard hstep hrunning'
    apply (ht (running_of_step hstep)).step hslot hready hdiscreet hdir htitle hguard hstep hrunning'
    · rintro ⟨s₁, hfirst, hsecond, hran⟩
      exact ⟨s₁, hfirst, hsecond.trans (.one hguard hstep), hran⟩
    · exact fun hran => ⟨t', hbefore.trans (.one hguard hstep), .refl t', hran⟩
  obtain ⟨hattentive, -, taken, htaken, hcourse⟩ := hsharing hrunning
  have hscan := scan_upgradeRequests htitle hdelivers hshort
  -- What has been taken up carries the first requests.
  have hcarry := hattentive₀.since_idle ht₀ hattentive hstream htaken
  obtain ⟨done, todo, hevents, hdone, htodo⟩ := Carry.split hcarry
  obtain ⟨more, hmore⟩ := (frameScanner protoDataLenMax).events_append part later
  rw [hpart, hscan, hevents, List.append_assoc] at hmore
  obtain ⟨given, rest, hreplies, hupgrading, hsent, hran⟩ :=
    hcourse done (todo ++ more) hmore.symm hdone
  refine ⟨⟨given, ⟨_, (hreplies.trans (List.append_assoc ..)).symm⟩, hsent⟩, ?_⟩
  rintro mainBuf rfl ht
  rw [List.append_nil] at hpart
  rw [hpart, hscan] at hevents
  rw [ht] at htodo hreplies
  obtain rfl := List.forall₂_nil_left_iff.mp htodo
  have hall : upgradeRequests title writes digits = done := hevents.trans (List.append_nil done)
  rw [hall] at hmore
  obtain rfl : more = [] := List.append_right_eq_self.mp hmore
  obtain rfl : rest = [] := List.eq_nil_of_length_eq_zero hupgrading.length_eq
  have hnone : pendingOf (some ⟨slot, .loop, mainBuf⟩) = [] := rfl
  rw [hnone, List.append_nil, List.append_nil] at hreplies
  have hgiven : upgradeReplies writes = given := hreplies
  refine ⟨?_, hgiven ▸ hsent, hran rfl⟩
  obtain ⟨messages, -, hidle⟩ := hattentive.scan_idle ht
  obtain ⟨earlier, -, hidle₀⟩ := hattentive₀.scan_idle ht₀
  rw [hstream, hpart, Scanner.scan_append, hidle₀, Scanner.resume, List.nil_append, hscan] at hidle
  cases hidle
  rfl

theorem servesTcp_bytewise (s : Host φ) (thread : Nat) :
    s.ServesTcp (.tcp (.effect thread true fun _ => 1)) :=
  ⟨trivial, trivial, rfl, fun _ _ _ _ _ _ _ _ _ => Server.accepted_bytewise _ _⟩

theorem servesTcp_fresh (s : Host φ) (thread : Nat) (bytes : List UInt8) :
    s.ServesTcp (.tcp (.chunk thread bytes (some freshPdu))) :=
  ⟨trivial, ⟨freshPdu, rfl, freshPdu_data_length⟩, trivial⟩

theorem storeLibc_discreet : storeLibc.Discreet Store.disk := ⟨fun _ => rfl, fun _ => rfl⟩

def helloStream : List UInt8 :=
  (upgradeRequests (literal "fw") helloPieces helloDigits).flatMap Message.encoded

def loginFirst : List HostAction :=
  [.tcp (.recv 0), .tcp (.chunk 0 (Server.loginRequest "jikongupgrade").frame (some freshPdu)),
    .tcp (.process 0), .tcp (.effect 0 true fun _ => 1), .tcp (.effect 0 true fun _ => 1),
    .tcp (.done 0)]

/-- The upgrade of the first client, its stream cut, with a login of the second one that fails
and a discovery request in between. -/
def upgradeFirst : List HostAction :=
  [.tcp (.recv 1), .tcp (.recv 0), .tcp (.chunk 0 (helloStream.take 15) (some freshPdu)),
    .tcp (.chunk 1 (Server.loginRequest "wrong").frame (some freshPdu)), .tcp (.process 0),
    .tcp (.process 1), .datagram ⟨1, 2⟩ (Message.frame ⟨pcsDiscoverDevice, pcsEx01, []⟩) (some freshPdu),
    .tcp (.effect 1 true fun _ => 1), .process, .tcp (.effect 0 true fun _ => 1), .tcp (.done 0),
    .tcp (.recv 0), .tcp (.chunk 0 (helloStream.drop 15) (some freshPdu))] ++
  (List.replicate 6 [.tcp (.process 0), .tcp (.effect 0 true fun _ => 1)]).flatten ++ [.tcp (.done 0)]

theorem servesTcp_schedules (s : Host φ) : ∀ a ∈ loginFirst ++ upgradeFirst, s.ServesTcp a := by
  intro a ha
  simp only [loginFirst, upgradeFirst, List.replicate, List.flatten_cons, List.flatten_nil,
    List.cons_append, List.nil_append, List.append_nil, List.mem_cons, List.not_mem_nil, or_false] at ha
  rcases ha with rfl | rfl | rfl | rfl | rfl | rfl | rfl | rfl | rfl | rfl | rfl | rfl | rfl | rfl |
    rfl | rfl | rfl | rfl | rfl | rfl | rfl | rfl | rfl | rfl | rfl | rfl | rfl | rfl | rfl | rfl |
    rfl | rfl
  all_goals first
    | exact servesTcp_bytewise ..
    | exact servesTcp_fresh ..
    | exact ⟨trivial, trivial, trivial⟩
    | trivial

def idle (t : Option Thread) (mainBuf : List UInt8) : Bool :=
  match t with
  | some ⟨0, .loop, buf⟩ => buf = mainBuf
  | _ => false

theorem idle_eq {t : Option Thread} {mainBuf : List UInt8} (h : idle t mainBuf = true) :
    t = some ⟨0, .loop, mainBuf⟩ := by
  unfold idle at h
  split at h
  · rw [of_decide_eq_true h]
  · cases h

/-- The second client connects when the first one has logged in. -/
theorem upgrade_undisputed_hello : ∃ s₀ s : Host Store, processed s.server.log 1 ≠ [] ∧
    sentTo s.server.log 0 =
      sentTo s₀.server.log 0 ++ (upgradeReplies helloPieces).flatMap Message.frame ∧
    ∃ s₁, (host storeLibc storeMachine ⟨7, 4096⟩).Leads (Undisputed 0) s₀ s₁ ∧
      (host storeLibc storeMachine ⟨7, 4096⟩).Leads (Undisputed 0) s₁ s ∧
      s₁.server.machine.Ran storeLibc Store.disk (literal "up/fw") (literal "hello") := by
  let sys := host storeLibc storeMachine ⟨7, 4096⟩
  let connected : Host Store := { Host.init storeMachine with
    server := (Server.init storeMachine).register 5 [0x31] 4000 }
  have hconnected : sys.ReachableBy ServesTcp connected :=
    .step (a := .tcp Server.firstClient) .init ⟨⟨rfl, fun _ _ h => by cases h⟩, trivial, trivial⟩ rfl
  have hguard : ∀ as ⊆ loginFirst ++ upgradeFirst, ∀ s : Host Store, ∀ a ∈ as, s.Leaves 0 a →
      s.Undisputed 0 a :=
    fun _ hsub s a ha hleaves => ⟨s.servesTcp_schedules a (hsub ha), hleaves⟩
  have hlogin : ((sys.guarded (Leaves 0)).exec connected loginFirst).map (fun s =>
      (decide (s.server.accepted = 1 ∧ newSlot s.server.conns = 1 ∧ (s.server.conns 0).bLogin = true ∧
        s.server.machine.upgradeTempDir = some (literal "up")), s.server.halted,
        idle (s.server.threads 0) [], stream s.server.log 0)) =
      some (true, none, true, (Server.loginRequest "jikongupgrade").frame) := by
    decide +kernel
  have hupgrade : ((sys.guarded (Leaves 0)).exec connected
      (loginFirst ++ .tcp Server.secondClient :: upgradeFirst)).map (fun s =>
        (decide (processed s.server.log 1 = []), s.server.halted, idle (s.server.threads 0) [],
          stream s.server.log 0)) =
      some (false, none, true, (Server.loginRequest "jikongupgrade").frame ++ helloStream) := by
    decide +kernel
  obtain ⟨s₀, hs₀, hfacts₀⟩ := Option.map_eq_some_iff.mp hlogin
  rw [TransitionSystem.exec_append, hs₀, Option.bind_some] at hupgrade
  obtain ⟨s, hs, hfacts⟩ := Option.map_eq_some_iff.mp hupgrade
  simp only [Prod.mk.injEq, decide_eq_true_eq, decide_eq_false_iff_not] at hfacts₀ hfacts
  obtain ⟨⟨haccepted, hnew, hbLogin, hdir⟩, hrunning₀, hidle₀, hstream₀⟩ := hfacts₀
  obtain ⟨hother, hrunning, hidle, hstream⟩ := hfacts
  have ht₀ := idle_eq hidle₀
  have hreach : sys.ReachableBy ServesTcp s₀ :=
    (TransitionSystem.Leads.of_exec (hguard _ (List.subset_append_left ..)) hs₀).reachableBy
      (fun _ _ hundisputed => hundisputed.serves) hconnected
  -- The second client gets the other slot.
  have hfresh : s₀.Undisputed 0 (.tcp Server.secondClient) := by
    refine ⟨⟨⟨rfl, fun c t ht => ?_⟩, trivial, trivial⟩, trivial⟩
    have hc := (attentive_of_serves rfl hreach hrunning₀).paired.threads c t ht
    obtain rfl : c = 0 := by omega
    rw [ht₀] at ht
    cases ht
    rw [hnew]
    decide
  have hrun : sys.Leads (Undisputed 0) s₀ s := by
    rw [TransitionSystem.exec] at hs
    split at hs
    · cases hs
    · rename_i next hnext
      simp only [TransitionSystem.guarded, if_pos hfresh.leaves] at hnext
      exact .step hfresh hnext (.of_exec (hguard _ (List.subset_append_right ..)) hs)
  have hshared := upgrade_undisputed rfl (storeLibc_ready (literal "up")) storeLibc_discreet
    (by decide) ⟨by decide, by decide, by decide⟩ delivers_hello (by decide) hreach ht₀ hbLogin hdir
    hrun hrunning (by rw [hstream, hstream₀]) (List.append_nil helloStream)
  obtain ⟨-, hsent, hran⟩ := hshared.2 [] rfl (idle_eq hidle)
  exact ⟨s₀, s, hother, hsent, hran⟩

end Host

end CccUpgrade
