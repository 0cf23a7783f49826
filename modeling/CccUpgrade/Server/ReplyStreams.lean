import CccUpgrade.Adapter.Replies
import CccUpgrade.Server.ThreadStreams

/-! What each client is sent. In a guarded run in which the system takes the replies, the
bytes written to a connection are the answers to the messages in its own stream. -/
namespace CccUpgrade

open Lib ConnectTable

variable {φ : Type}

def sentTo : List Event → Nat → List UInt8
  | [], _ => []
  | .replied _ to' bytes :: log, c => if to' = c then sentTo log c ++ bytes else sentTo log c
  | .registered _ :: log, c => sentTo log c
  | .handed .. :: log, c => sentTo log c
  | .processed .. :: log, c => sentTo log c
  | .closed .. :: log, c => sentTo log c

theorem sentTo_self (src c : Nat) (bytes : List UInt8) (log : List Event) :
    sentTo (.replied src c bytes :: log) c = sentTo log c ++ bytes :=
  if_pos rfl

theorem sentTo_of_ne {c d : Nat} (h : d ≠ c) (src : Nat) (bytes : List UInt8) (log : List Event) :
    sentTo (.replied src c bytes :: log) d = sentTo log d :=
  if_neg h.symm

def Outcomes (taken : List (PDU × Branch)) (replies : List Message) : Prop :=
  ∃ outcomes : List (List Message), replies = outcomes.flatten ∧
    List.Forall₂ (fun p => Outcome p.1.message p.2) taken outcomes

theorem Outcomes.concat {taken : List (PDU × Branch)} {replies later : List Message} {pdu : PDU}
    {branch : Branch} (h : Outcomes taken replies) (hlater : Outcome pdu.message branch later) :
    Outcomes (taken ++ [(pdu, branch)]) (replies ++ later) := by
  obtain ⟨outcomes, rfl, hall⟩ := h
  refine ⟨outcomes ++ [later], ?_, ?_⟩
  · rw [List.flatten_append, List.flatten_singleton]
  · exact List.rel_append hall (.cons hlater .nil)

theorem Outcomes.short {taken : List (PDU × Branch)} {replies : List Message}
    (h : Outcomes taken replies) : ∀ reply ∈ replies, reply.data.length ≤ 8 := by
  obtain ⟨outcomes, rfl, hall⟩ := h
  induction hall with
  | nil => exact nofun
  | cons hfirst _ ih =>
      intro reply hreply
      rcases List.mem_append.mp hreply with hreply | hreply
      · exact (hfirst.replyTo reply hreply).short
      · exact ih reply hreply

def Thread.pending (t : Thread) : List Message :=
  match t.phase with
  | .callback cb => repliesIn cb.effects
  | _ => []

theorem Thread.pending_callback {t : Thread} {cb : Callback} (hphase : t.phase = .callback cb) :
    t.pending = repliesIn cb.effects := by
  simp only [pending, hphase]

theorem Thread.pending_waiting {t : Thread} (hphase : ∀ cb, t.phase ≠ .callback cb) :
    t.pending = [] := by
  cases h : t.phase with
  | callback cb => exact absurd h (hphase cb)
  | loop | blocked => simp only [pending, h]

def pendingOf (t : Option Thread) : List Message := (t.map Thread.pending).getD []

def todoOf (t : Option Thread) : List PDU := (t.map Thread.todo).getD []

/-- The connection was closed by a login on another one. -/
def ByLogin (log : List Event) (c : Nat) : Prop := ∃ src, .closed c (.login src) ∈ log

theorem ByLogin.note {log : List Event} {c : Nat} (h : ByLogin log c) (e : Event) :
    ByLogin (e :: log) c := by
  obtain ⟨src, hclosed⟩ := h
  exact ⟨src, List.mem_cons_of_mem _ hclosed⟩

/-- What connection `c` has been sent are the frames of the replies to its messages. Those
not sent yet are about to be, unless the connection was closed. -/
def Talks (t : Option Thread) (log : List Event) (c : Nat) : Prop :=
  ∃ given later, Outcomes (handled log c) (given ++ later) ∧
    sentTo log c = given.flatMap Message.frame ∧ (later = pendingOf t ∨ ByLogin log c)

section Talks

variable {t t' : Option Thread} {log log' : List Event} {c : Nat}

theorem Talks.nil (c : Nat) : Talks none [] c :=
  ⟨[], [], ⟨[], rfl, .nil⟩, rfl, .inl rfl⟩

theorem Talks.advance (h : Talks t log c) (hhandled : handled log' c = handled log c)
    (hsent : sentTo log' c = sentTo log c) (hclosed : ByLogin log c → ByLogin log' c)
    (hpending : pendingOf t' = pendingOf t) : Talks t' log' c := by
  obtain ⟨given, later, houtcomes, hgiven, hlater⟩ := h
  refine ⟨given, later, hhandled ▸ houtcomes, hsent.trans hgiven, ?_⟩
  rw [hpending]
  exact hlater.imp_right hclosed

theorem Talks.process (h : Talks t log c) (hnone : pendingOf t = []) {pdu : PDU} {branch : Branch}
    (houtcome : Outcome pdu.message branch (pendingOf t')) :
    Talks t' (.processed c pdu branch :: log) c := by
  obtain ⟨given, later, houtcomes, hgiven, hlater⟩ := h
  refine ⟨given, later ++ pendingOf t', ?_, hgiven, ?_⟩
  · rw [handled_self, ← List.append_assoc]
    exact houtcomes.concat houtcome
  · rcases hlater with rfl | hclosed
    · rw [hnone, List.nil_append]
      exact .inl rfl
    · exact .inr (hclosed.note _)

theorem Talks.short (h : Talks t log c) {reply : Message} {rest : List Message}
    (hpending : pendingOf t = reply :: rest) (hopen : ¬ ByLogin log c) :
    reply.data.length ≤ 8 := by
  obtain ⟨given, later, houtcomes, -, hlater⟩ := h
  apply houtcomes.short
  rw [hlater.resolve_right hopen, hpending]
  simp

theorem Talks.send (h : Talks t log c) {reply : Message} {rest : List Message}
    (hpending : pendingOf t = reply :: rest) (hrest : rest = pendingOf t')
    (hopen : ¬ ByLogin log c) (src : Nat) : Talks t' (.replied src c reply.frame :: log) c := by
  obtain ⟨given, later, houtcomes, hgiven, hlater⟩ := h
  rw [hlater.resolve_right hopen, hpending] at houtcomes
  refine ⟨given ++ [reply], rest, ?_, ?_, .inl hrest⟩
  · rw [List.append_assoc]
    exact houtcomes
  · rw [sentTo_self, hgiven, List.flatMap_append, List.flatMap_singleton]

theorem Talks.drop (h : Talks t log c) (hclosed : ByLogin log c) : Talks t' log c := by
  obtain ⟨given, later, houtcomes, hgiven, -⟩ := h
  exact ⟨given, later, houtcomes, hgiven, .inr hclosed⟩

end Talks

/-- Every connection talks, and those that are not valid any more were closed by a login. -/
structure Talking (conns : ConnectTable) (threads : Nat → Option Thread) (log : List Event) :
    Prop where
  shut : ∀ c t, threads c = some t → (conns t.slot).bValid = false → ByLogin log c
  talks : ∀ c, Talks (threads c) log c

structure Unheard (log log' : List Event) (d : Nat) : Prop where
  handled : handled log' d = handled log d
  sent : sentTo log' d = sentTo log d
  closed : ByLogin log d → ByLogin log' d

theorem Unheard.refl (log : List Event) (d : Nat) : Unheard log log d := ⟨rfl, rfl, id⟩

namespace Talking

variable {conns : ConnectTable} {threads : Nat → Option Thread} {log : List Event}

theorem none (conns : ConnectTable) : Talking conns (fun _ => .none) [] :=
  ⟨nofun, Talks.nil⟩

theorem turn (h : Talking conns threads log) {c : Nat} {t : Thread} (ht : threads c = some t)
    {u : Option Thread} (hslot : ∀ t', u = some t' → t'.slot = t.slot) {log' : List Event}
    (hother : ∀ d, d ≠ c → Unheard log log' d) (hclosed : ByLogin log c → ByLogin log' c)
    (htalks : Talks u log' c) : Talking conns (Function.update threads c u) log' := by
  constructor
  · intro d t' ht' hvalid
    rcases update_eq_some.mp ht' with ⟨rfl, hu⟩ | ⟨hd, ht'⟩
    · rw [hslot t' hu] at hvalid
      exact hclosed (h.shut d t ht hvalid)
    · exact (hother d hd).closed (h.shut d t' ht' hvalid)
  · intro d
    by_cases hd : d = c
    · subst hd
      rwa [Function.update_self]
    · rw [Function.update_of_ne hd]
      exact (h.talks d).advance (hother d hd).handled (hother d hd).sent (hother d hd).closed rfl

theorem advance (h : Talking conns threads log) {c : Nat} {t : Thread} (ht : threads c = some t)
    {u : Option Thread} (hslot : ∀ t', u = some t' → t'.slot = t.slot) {log' : List Event}
    (hlog : ∀ d, Unheard log log' d) (hpending : pendingOf u = t.pending) :
    Talking conns (Function.update threads c u) log' := by
  apply h.turn ht hslot (fun d _ => hlog d) (hlog c).closed
  apply (h.talks c).advance (hlog c).handled (hlog c).sent (hlog c).closed
  rw [hpending, ht]
  rfl

theorem change (h : Talking conns threads log) {conns' : ConnectTable} {log' : List Event}
    (hlog : ∀ d, Unheard log log' d)
    (hconns : ∀ c t, threads c = some t → (conns' t.slot).bValid = false →
      (conns t.slot).bValid = false ∨ ByLogin log' c) : Talking conns' threads log' := by
  constructor
  · intro c t ht hvalid
    rcases hconns c t ht hvalid with hvalid | hclosed
    · exact (hlog c).closed (h.shut c t ht hvalid)
    · exact hclosed
  · intro c
    exact (h.talks c).advance (hlog c).handled (hlog c).sent (hlog c).closed rfl

theorem note (h : Talking conns threads log) {e : Event} (he : ∀ d, Unheard log (e :: log) d) :
    Talking conns threads (e :: log) :=
  h.change he fun _ _ _ hvalid => .inl hvalid

end Talking

section Unheard

variable (log : List Event) (d : Nat)

theorem unheard_registered (c : Nat) : Unheard log (.registered c :: log) d :=
  ⟨rfl, rfl, fun h => h.note _⟩

theorem unheard_closed (c : Nat) (cause : Cause) : Unheard log (.closed c cause :: log) d :=
  ⟨rfl, rfl, fun h => h.note _⟩

theorem unheard_handed (thread c : Nat) (bytes : List UInt8) (info : ConnectInfo) :
    Unheard log (.handed thread c bytes info :: log) d :=
  ⟨rfl, rfl, fun h => h.note _⟩

theorem unheard_processed {d thread : Nat} (h : d ≠ thread) (pdu : PDU) (branch : Branch) :
    Unheard log (.processed thread pdu branch :: log) d :=
  ⟨handled_of_ne h .., rfl, fun h => h.note _⟩

theorem unheard_replied {d to' : Nat} (h : d ≠ to') (src : Nat) (bytes : List UInt8) :
    Unheard log (.replied src to' bytes :: log) d :=
  ⟨rfl, sentTo_of_ne h .., fun h => h.note _⟩

end Unheard

namespace Server

variable {s s' : Server φ}

/-- The system takes every reply: there is memory for it, and the kernel takes its bytes. -/
def Heard (s : Server φ) : Action → Prop
  | .effect thread allocated kernel => allocated = true ∧
      ∀ t cb cmd cmdEx data effects, s.threads thread = some t → t.phase = .callback cb →
        cb.effects = .replyToClient cmd cmdEx data :: effects →
        let frame := Message.frame ⟨cmd, cmdEx, data⟩
        (tcpSend kernel (s.conns t.slot).sock (some frame) frame.length).Accepted
  | _ => True

structure Attended (s : Server φ) (a : Action) : Prop where
  fresh : s.Fresh a
  supplied : s.Supplied a
  heard : s.Heard a

theorem unheard_closeSlot (s : Server φ) (slot : Fin clientCountMax) (cause : Cause) (d : Nat) :
    Unheard s.log (s.closeSlot slot cause).log d := by
  rcases s.closeSlot_log slot cause with heq | ⟨c, heq⟩ <;> rw [heq]
  · exact .refl ..
  · exact unheard_closed ..

theorem effect_exact {libc : Libc φ} {thread : Nat} {allocated : Bool} {kernel : Nat → Int}
    (h : s.step libc (.effect thread allocated kernel) = some s') :
    ∃ t cb e effects, s.threads thread = some t ∧ t.phase = .callback cb ∧
      cb.effects = e :: effects ∧ s' = (match e with
        | .setLogin => s.setLogin cb
        | .replyToClient cmd cmdEx data => s.reply cb cmd cmdEx data allocated kernel
        | .replyToUdp _ _ _ => s).setCallback thread t { cb with effects := effects } := by
  unfold step at h
  split at h
  · cases h
  obtain ⟨t, ht, h⟩ := Option.bind_eq_some_iff.mp h
  unfold effect at h
  split at h
  next cb hphase =>
    split at h
    · cases h
    next e effects heffects =>
      cases h
      exact ⟨t, cb, e, effects, ht, hphase, heffects, rfl⟩
  · cases h

section Reply

variable {t : Thread} {c : Nat} {cb : Callback} {kernel : Nat → Int}

theorem reply_sent (reply : Message) (hp : s.Paired) (ht : s.threads c = some t) (hphase : t.phase = .callback cb)
    (hvalid : (s.conns t.slot).bValid = true) (hshort : reply.data.length ≤ 8)
    (haccepted : (tcpSend kernel (s.conns t.slot).sock (some reply.frame) reply.frame.length).Accepted) :
    s.reply cb reply.cmd reply.cmdEx reply.data true kernel =
      { s with log := .replied c c reply.frame :: s.log } := by
  obtain ⟨hsrc, hhandle⟩ := hp.serves_callback ht hphase
  have hfd := hp.held_by ht hvalid
  have hframe : reply.frame ≠ [] := by
    apply List.length_pos_iff.mp
    rw [Message.frame_length]
    omega
  have hwritten := tcpSend_written (hp.pos _ _ hfd) hframe haccepted
  have hsize : 7 < protocolDataSizeMax := by decide
  have hmax : protocolDataSizeMax = 4096 := rfl
  have hpacket := createProtocolPacket_packet reply hsize (by omega)
  have hresult := congrArg PacketOut.result (createProtocolPacket_eq reply hsize (by omega))
  have hlength : 9 + reply.data.length = reply.frame.length := by simp
  have hcalls : (tcpSend kernel (s.conns t.slot).sock (some reply.frame)
      reply.frame.length).calls ≠ [] := by
    intro hnone
    rw [TcpSend.written, hnone] at hwritten
    exact hframe hwritten.symm
  have hpos : ¬ reply.frame.length ≤ 0 := Nat.not_le.mpr (List.length_pos_iff.mpr hframe)
  simp only [Server.reply, hpacket, hresult, hlength, hhandle, internalClientManagerSend,
    slot?_slot, hvalid, hsrc, hfd, hcalls, hpos, hwritten, Option.bind_some, Bool.true_eq_false,
    if_false]

theorem reply_dropped (hp : s.Paired) (ht : s.threads c = some t) (hphase : t.phase = .callback cb)
    (hvalid : (s.conns t.slot).bValid = false) (cmd cmdEx : UInt8) (data : List UInt8)
    (allocated : Bool) : s.reply cb cmd cmdEx data allocated kernel = s := by
  obtain ⟨-, hhandle⟩ := hp.serves_callback ht hphase
  unfold Server.reply
  simp only [hhandle, internalClientManagerSend, slot?_slot, hvalid, if_true, ite_self]

end Reply

theorem talking_closeSlot (hp : s.Paired) (h : Talking s.conns s.threads s.log)
    (slot : Fin clientCountMax) (src : Nat) :
    Talking (s.closeSlot slot (.login src)).conns s.threads (s.closeSlot slot (.login src)).log := by
  apply h.change (s.unheard_closeSlot slot _)
  intro d u hu hinvalid
  rw [closeSlot_conns] at hinvalid
  by_cases hslot : u.slot = slot
  · rcases hp.closeSlot_cases slot (.login src) with ⟨hvalid, -⟩ | ⟨-, c, t, ht, hsame, -, heq⟩
    · rw [hslot]
      exact .inl hvalid
    · obtain rfl := hp.unique _ _ _ _ hu ht (hslot.trans hsame.symm)
      rw [heq]
      exact .inr ⟨src, List.mem_cons_self⟩
  · rw [set_of_ne _ hslot] at hinvalid
    exact .inl hinvalid

theorem talking_setLogin (hp : s.Paired) (h : Talking s.conns s.threads s.log) (cb : Callback) :
    Talking (s.setLogin cb).conns s.threads (s.setLogin cb).log ∧
      (s.setLogin cb).threads = s.threads := by
  rcases s.setLogin_cases cb with heq | ⟨slot, hslot, hvalid, heq⟩ <;> rw [heq]
  · exact ⟨h, rfl⟩
  · refine ⟨(talking_closeSlot hp h (other slot) cb.src).change (.refl _) ?_, closeSlot_threads ..⟩
    intro c t ht hinvalid
    change (loggedIn s.conns slot t.slot).bValid = false at hinvalid
    by_cases hsame : t.slot = slot
    · rw [hsame, loggedIn_self] at hinvalid
      rw [hvalid] at hinvalid
      cases hinvalid
    · left
      rw [closeSlot_conns, eq_other hsame, set_self]
      rfl

theorem pendingOf_setCallback {t : Thread} {effects : List Effect} {cb : Callback} :
    pendingOf (some { t with phase := .callback { cb with effects := effects } }) =
      repliesIn effects := rfl

/-- The next reply of a thread whose slot is valid is sent whole on its open connection. -/
theorem reply_whole (hp : s.Paired) (hl : Ledger s.fds s.accepted s.log)
    (h : Talking s.conns s.threads s.log) {c : Nat} {t : Thread} {cb : Callback} {cmd cmdEx : UInt8}
    {data : List UInt8} {effects : List Effect} {kernel : Nat → Int} (ht : s.threads c = some t)
    (hphase : t.phase = .callback cb) (heffects : cb.effects = .replyToClient cmd cmdEx data :: effects)
    (hvalid : (s.conns t.slot).bValid = true)
    (haccepted : let frame := Message.frame ⟨cmd, cmdEx, data⟩
      (tcpSend kernel (s.conns t.slot).sock (some frame) frame.length).Accepted) :
    ¬ ByLogin s.log c ∧ s.reply cb cmd cmdEx data true kernel =
      { s with log := .replied c c (Message.frame ⟨cmd, cmdEx, data⟩) :: s.log } := by
  have hopen : ¬ ByLogin s.log c := by
    rintro ⟨src, hclosed⟩
    exact hl.shut c _ hclosed _ (hp.held_by ht hvalid)
  have htalks := h.talks c
  rw [ht] at htalks
  have hpending : t.pending = ⟨cmd, cmdEx, data⟩ :: repliesIn effects := by
    rw [Thread.pending_callback hphase, heffects]
    rfl
  exact ⟨hopen, reply_sent ⟨cmd, cmdEx, data⟩ hp ht hphase hvalid (htalks.short hpending hopen) haccepted⟩

theorem talking_effect (hp : s.Paired) (hl : Ledger s.fds s.accepted s.log)
    (h : Talking s.conns s.threads s.log) {libc : Libc φ} {thread : Nat} {allocated : Bool}
    {kernel : Nat → Int} (hheard : s.Heard (.effect thread allocated kernel))
    (hstep : s.step libc (.effect thread allocated kernel) = some s') :
    Talking s'.conns s'.threads s'.log := by
  obtain ⟨t, cb, e, effects, ht, hphase, heffects, rfl⟩ := effect_exact hstep
  obtain ⟨rfl, haccepted⟩ := hheard
  have hslot : ∀ t', some { t with phase := .callback { cb with effects := effects } } = some t' →
      t'.slot = t.slot := by
    rintro _ ⟨⟩
    rfl
  have hpending : t.pending = repliesIn (e :: effects) := by
    rw [Thread.pending_callback hphase, heffects]
  cases e with
  | setLogin =>
      obtain ⟨hset, hthreads⟩ := talking_setLogin hp h cb
      change Talking (s.setLogin cb).conns (Function.update (s.setLogin cb).threads thread _)
        (s.setLogin cb).log
      rw [hthreads]
      exact hset.advance ht hslot (.refl _) hpending.symm
  | replyToUdp cmd cmdEx data => exact h.advance ht hslot (.refl _) hpending.symm
  | replyToClient cmd cmdEx data =>
      have htalks := h.talks thread
      rw [ht] at htalks
      cases hvalid : (s.conns t.slot).bValid with
      | false =>
          dsimp only
          rw [reply_dropped hp ht hphase hvalid]
          exact h.turn ht hslot (fun d _ => .refl _ d) id (htalks.drop (h.shut thread t ht hvalid))
      | true =>
          obtain ⟨hopen, hsent⟩ := reply_whole hp hl h ht hphase heffects hvalid
            (haccepted t cb cmd cmdEx data effects ht hphase heffects)
          dsimp only
          rw [hsent]
          exact h.turn ht hslot (fun d hd => unheard_replied _ hd _ _) (fun hc => hc.note _)
            (htalks.send hpending rfl hopen thread)

theorem talking_moved (hp : s.Paired) (hl : Ledger s.fds s.accepted s.log)
    (h : Talking s.conns s.threads s.log) (htracks : Tracks s.threads s.accepted s.log)
    {libc : Libc φ} {a : Action} (hguard : s.Attended a) (hstep : s.step libc a = some s')
    (hrunning : s'.halted = none) : Talking s'.conns s'.threads s'.log := by
  cases step_moved hstep with
  | @registered sock ipAddr ipPort addr hsock hfd =>
      constructor
      · intro c t ht hinvalid
        rcases (s.register_threads ..).mp ht with ⟨-, ⟨⟩⟩ | ⟨hc, ht⟩
        · rw [register_conns, seated_newSlot] at hinvalid
          cases hinvalid
        · rw [register_conns, seated_of_ne _ _ _ _ (hguard.fresh.2 c t ht)] at hinvalid
          exact (h.shut c t ht hinvalid).note _
      · intro c
        have hquiet := unheard_registered s.log c s.accepted
        apply (h.talks c).advance hquiet.handled hquiet.sent hquiet.closed
        by_cases hc : c = s.accepted
        · have hnone : s.threads c = none := by
            cases hthread : s.threads c with
            | none => rfl
            | some t => exact absurd (hp.threads c t hthread) (by omega)
          rw [hnone, hc]
          change pendingOf (Function.update s.threads s.accepted _ s.accepted) = _
          rw [Function.update_self]
          rfl
        · change pendingOf (Function.update s.threads s.accepted _ c) = _
          rw [Function.update_of_ne hc]
  | rejected => exact h.note fun d => unheard_closed ..
  | unstarted =>
      have := hguard.fresh.1
      cases this
  | recv ht hphase =>
      apply h.advance ht (by rintro _ ⟨⟩; rfl) (.refl _)
      rw [Thread.pending_waiting (by simp [hphase])]
      rfl
  | chunk ht hphase =>
      apply h.advance ht (by rintro _ ⟨⟩; rfl) fun d => unheard_handed ..
      rw [Thread.pending_waiting (by simp [hphase])]
      rfl
  | @process thread t cb pdu todo machine ht hphase heffects htodo hrun =>
      have htalks := h.talks thread
      rw [ht] at htalks
      apply h.turn ht (by rintro _ ⟨⟩; rfl) (fun d hd => unheard_processed _ hd _ _)
        (fun hc => hc.note _)
      apply htalks.process
      · change t.pending = []
        rw [Thread.pending_callback hphase, heffects]
        rfl
      · obtain ⟨loop, messages, hloop, hcarry, -⟩ := (htracks.loops thread).scan
        rw [hloop.running t ht, t.loop_callback hphase, htodo] at hcarry
        have hfound : pdu ∈ processed s.log thread ++ pdu :: todo := by simp
        obtain ⟨m, -, hcarries⟩ := hcarry.mem hfound
        rw [hcarries.message_eq]
        exact (outcome_processProtocolPdu hcarries cb.bLogin).ok rfl hrun
  | setLogin => exact talking_effect hp hl h hguard.heard hstep
  | reply => exact talking_effect hp hl h hguard.heard hstep
  | effect => exact talking_effect hp hl h hguard.heard hstep
  | @done thread t cb ht hphase =>
      obtain ⟨-, -, heffects⟩ := done_finished hstep hrunning ht hphase
      apply h.advance ht (by rintro _ ⟨⟩; rfl) (.refl _)
      rw [Thread.pending_callback hphase, heffects]
      rfl
  | @endOfStream thread t src slot ht hphase hslot =>
      obtain rfl := hp.slot_eq hslot
      have hended : Talking s.conns (Function.update s.threads thread none) s.log := by
        apply h.advance (u := none) ht nofun (.refl _)
        rw [Thread.pending_waiting (by simp [hphase])]
        rfl
      change Talking (s.closeSlot t.slot (.endOfStream src)).conns
        (Function.update (s.closeSlot t.slot (.endOfStream src)).threads thread none)
        (s.closeSlot t.slot (.endOfStream src)).log
      rw [closeSlot_threads]
      apply hended.change (s.unheard_closeSlot t.slot _)
      intro d u hu hinvalid
      rcases update_eq_some.mp hu with ⟨-, ⟨⟩⟩ | ⟨hd, hu⟩
      have hne : u.slot ≠ t.slot := fun hsame => hd (hp.unique d thread u t hu ht hsame)
      rw [closeSlot_conns, set_of_ne _ hne] at hinvalid
      exact .inl hinvalid
  | @outOfRange thread t src ht hphase hslot =>
      apply h.advance (u := none) ht nofun (.refl _)
      rw [Thread.pending_waiting (by simp [hphase])]
      rfl
  | processFault | halted => cases hrunning

def HandedOwn (log : List Event) : Prop :=
  ∀ thread c bytes info, .handed thread c bytes info ∈ log → c = thread

theorem HandedOwn.note {log : List Event} (h : HandedOwn log) {e : Event}
    (he : ∀ thread c bytes info, e = .handed thread c bytes info → c = thread) :
    HandedOwn (e :: log) := by
  intro thread c bytes info hmem
  rcases List.mem_cons.mp hmem with heq | hmem
  · exact he thread c bytes info heq.symm
  · exact h thread c bytes info hmem

theorem handedOwn_closeSlot (h : HandedOwn s.log) (slot : Fin clientCountMax) (cause : Cause) :
    HandedOwn (s.closeSlot slot cause).log := by
  rcases s.closeSlot_log slot cause with heq | ⟨d, heq⟩ <;> rw [heq]
  · exact h
  · exact h.note nofun

theorem handedOwn_moved (hp : s.Paired) (h : HandedOwn s.log) {libc : Libc φ} {a : Action}
    (hmoved : s.Moved libc a s') : HandedOwn s'.log := by
  cases hmoved with
  | chunk ht hphase =>
      apply h.note
      rintro _ _ _ _ ⟨⟩
      have hserves := hp.serves _ _ ht
      rw [hphase] at hserves
      exact hserves.2 _ rfl
  | registered | rejected | unstarted | process | processFault | reply => exact h.note nofun
  | setLogin => exact handedOwn_closeSlot h _ _
  | endOfStream => exact handedOwn_closeSlot h _ _
  | recv | effect | done | outOfRange | halted => exact h

theorem flatten_chunks {log : List Event} (hown : HandedOwn log) (c : Nat) :
    (chunks log c).flatten = stream log c := by
  induction log with
  | nil => rfl
  | cons e log ih =>
      have hlog := ih fun thread d bytes info hmem =>
        hown thread d bytes info (List.mem_cons_of_mem _ hmem)
      cases e with
      | handed thread d bytes info =>
          obtain rfl := hown thread d bytes info List.mem_cons_self
          simp only [chunks, stream]
          split
          · rw [List.flatten_append, List.flatten_singleton, hlog]
          · exact hlog
      | registered | processed | replied | closed => exact hlog

/-- What holds between the steps of a guarded run. It does not speak of the machine. -/
structure Attentive (s : Server φ) : Prop where
  paired : s.Paired
  ledger : Ledger s.fds s.accepted s.log
  own : HandedOwn s.log
  tracks : Tracks s.threads s.accepted s.log
  talking : Talking s.conns s.threads s.log

namespace Attentive

theorem init (machine : Machine φ) : (Server.init machine).Attentive where
  paired := .init machine
  ledger := .nil
  own := nofun
  tracks := .init
  talking := .none _

theorem step (h : s.Attentive) {libc : Libc φ} {a : Action} (hguard : s.Attended a)
    (hstep : s.step libc a = some s') (hrunning : s'.halted = none) : s'.Attentive where
  paired := h.paired.moved hguard.fresh (step_moved hstep)
  ledger := ledger_moved h.paired h.ledger hguard.fresh (step_moved hstep)
  own := handedOwn_moved h.paired h.own (step_moved hstep)
  tracks := tracks_moved h.tracks hguard.supplied hstep hrunning
  talking := talking_moved h.paired h.ledger h.talking h.tracks hguard hstep hrunning

theorem withMachine (h : s.Attentive) (machine : Machine φ) (halted : Option Fault) :
    ({ s with machine := machine, halted := halted }).Attentive where
  paired := h.paired.noted machine s.log halted
  ledger := h.ledger
  own := h.own
  tracks := h.tracks
  talking := h.talking

end Attentive

structure Conversation (s : Server φ) (c : Nat) : Prop where
  replies : ∃ given later, Outcomes (handled s.log c) (given ++ later) ∧
    sentTo s.log c = given.flatMap Message.frame ∧
    (later = pendingOf (s.threads c) ∨ ByLogin s.log c)
  requests : Carry (processed s.log c ++ todoOf (s.threads c))
    ((frameScanner protoDataLenMax).scan (stream s.log c)).events

theorem Attentive.conversation (h : s.Attentive) (c : Nat) : s.Conversation c := by
  refine ⟨h.talking.talks c, ?_⟩
  obtain ⟨loop, messages, hloop, hcarry, hscan⟩ := (h.tracks.loops c).scan
  have hdispatched : loop.dispatched = processed s.log c ++ todoOf (s.threads c) := by
    cases ht : s.threads c with
    | none =>
        rw [(hloop.ended ht).1]
        exact (List.append_nil _).symm
    | some t =>
        rw [hloop.running t ht]
        rfl
  have hevents : ((frameScanner protoDataLenMax).scan (stream s.log c)).events = messages := by
    rw [← flatten_chunks h.own, hscan]
    cases loop.fault <;> rfl
  rwa [hevents, ← hdispatched]

theorem tcpSendLoop_bytewise {buffer : List UInt8} {fuel : Nat} {bytesLeft firstByte : Int}
    {calls : List SendCall} (hfirst : 0 ≤ firstByte) (hleft : firstByte + bytesLeft ≤ buffer.length)
    (hcalls : ∀ call ∈ calls, 1 ≤ call.ret ∧ call.ret ≤ call.offered.length) :
    (tcpSendLoop (fun _ => 1) buffer fuel bytesLeft firstByte calls).Accepted := by
  induction fuel generalizing bytesLeft firstByte calls with
  | zero => exact hcalls
  | succ fuel ih =>
      unfold tcpSendLoop
      split
      · dsimp only
        rw [if_neg (by omega)]
        apply ih (by omega) (by omega)
        intro call hcall
        rcases List.mem_append.mp hcall with hcall | hcall
        · exact hcalls call hcall
        · rw [List.mem_singleton.mp hcall]
          refine ⟨Int.le_refl 1, ?_⟩
          change (1 : Int) ≤ _
          rw [List.length_take, List.length_drop]
          omega
      · exact hcalls

theorem accepted_bytewise (sock : Int) (buffer : List UInt8) :
    (tcpSend (fun _ => 1) sock (some buffer) buffer.length).Accepted := by
  unfold tcpSend
  dsimp only
  split
  · exact nofun
  · exact tcpSendLoop_bytewise (Int.le_refl _) (by omega) nofun

/-- A login with a wrong password, of which the last byte comes later. -/
def cutLogin : List Action :=
  [.recv 0, .chunk 0 ((loginRequest "wrong").frame.take 13) (some freshPdu), .done 0, .recv 0,
    .chunk 0 ((loginRequest "wrong").frame.drop 13) (some freshPdu), .process 0,
    .effect 0 true fun _ => 1]

theorem attended_cutLogin (s : Server Unit) : ∀ a ∈ cutLogin, s.Attended a := by
  intro a ha
  simp only [cutLogin, List.mem_cons, List.not_mem_nil, or_false] at ha
  have hpacket : ∀ bytes, (Recv.mk bytes (some freshPdu)).Supplied :=
    fun _ => ⟨freshPdu, rfl, freshPdu_data_length⟩
  rcases ha with rfl | rfl | rfl | rfl | rfl | rfl | rfl
  case inr.inl | inr.inr.inr.inr.inl => exact ⟨trivial, hpacket _, trivial⟩
  case inr.inr.inr.inr.inr.inr =>
    exact ⟨trivial, trivial, rfl, fun _ _ _ _ _ _ _ _ _ => accepted_bytewise _ _⟩
  all_goals exact ⟨trivial, trivial, trivial⟩

end Server

end CccUpgrade
