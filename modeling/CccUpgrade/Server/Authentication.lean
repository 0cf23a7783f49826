import CccUpgrade.Adapter.Requests
import CccUpgrade.Server.Ledger

/-! What a login rests on. In a guarded run a slot is logged in only after a login
frame with the right password lay in the byte stream of the connection it holds. -/
namespace CccUpgrade

open Lib ConnectTable

variable {φ : Type}

structure Message.LogsIn (m : Message) : Prop where
  cmd : m.cmd = pcsClientLogin
  password : checkLogin (cString m.data) = true

theorem PDU.LogsIn.message {pdu : PDU} {m : Message} (h : pdu.LogsIn) (hcarries : pdu.Carries m) :
    m.LogsIn := by
  refine ⟨hcarries.cmd ▸ h.cmd, ?_⟩
  obtain ⟨bytes, hbytes, hpassword⟩ := h.password
  unfold PDU.bytes at hbytes
  split at hbytes
  · cases hbytes
    rwa [List.drop_zero, hcarries.dataLen, Int.toNat_natCast, hcarries.data] at hpassword
  · cases hbytes

def stream : List Event → Nat → List UInt8
  | [], _ => []
  | .handed _ conn bytes _ :: log, c =>
      if conn = c then stream log c ++ bytes else stream log c
  | .registered _ :: log, c => stream log c
  | .processed .. :: log, c => stream log c
  | .replied .. :: log, c => stream log c
  | .closed .. :: log, c => stream log c

/-- A message that one scan of the input reports is a login with the right password. -/
def Authenticates (input : List UInt8) : Prop :=
  ∃ m : Message, m.LogsIn ∧ m ∈ (roomyScanner.scan input).events

theorem Authenticates.append {input : List UInt8} (h : Authenticates input) (more : List UInt8) :
    Authenticates (input ++ more) := by
  obtain ⟨m, hlogs, hmem⟩ := h
  exact ⟨m, hlogs, (Scanner.events_append input more).subset hmem⟩

def PDU.From (pdu : PDU) (input : List UInt8) : Prop :=
  ∃ m : Message, pdu.Carries m ∧ m ∈ (roomyScanner.scan input).events

theorem PDU.LogsIn.authenticates {pdu : PDU} {input : List UInt8} (h : pdu.LogsIn)
    (hfrom : pdu.From input) : Authenticates input := by
  obtain ⟨m, hcarries, hmem⟩ := hfrom
  exact ⟨m, h.message hcarries, hmem⟩

structure Callback.Backed (input mainBuf : List UInt8) (cb : Callback) : Prop where
  todo : ∀ pdu ∈ cb.todo, pdu.From input
  effects : .setLogin ∈ cb.effects → Authenticates input
  rest : cb.fault = none → roomyScanner.Stands input (mainBuf.drop cb.consume.toNat)

theorem Callback.Backed.next {input mainBuf : List UInt8} {cb : Callback} (h : cb.Backed input mainBuf)
    {e : Effect} {effects : List Effect} (heffects : cb.effects = e :: effects) :
    ({ cb with effects := effects }).Backed input mainBuf :=
  ⟨h.todo, fun hmem => h.effects (heffects ▸ List.mem_cons_of_mem _ hmem), h.rest⟩

def Phase.Backed (input mainBuf : List UInt8) : Phase → Prop
  | .callback cb => cb.Backed input mainBuf
  | _ => True

structure Thread.Backed (input : List UInt8) (t : Thread) : Prop where
  mainBuf : roomyScanner.Stands input t.mainBuf
  phase : t.phase.Backed input t.mainBuf

theorem Thread.Backed.callback {input : List UInt8} {t : Thread} (h : t.Backed input)
    {cb : Callback} (hphase : t.phase = .callback cb) : cb.Backed input t.mainBuf := by
  have := h.phase
  rwa [hphase] at this

/-- Every thread works on its connection's input, and every login has been asked for. -/
structure Backed (conns : ConnectTable) (threads : Nat → Option Thread)
    (input : Nat → List UInt8) : Prop where
  running : ∀ c t, threads c = some t → t.Backed (input c)
  login : ∀ c t, threads c = some t → (conns t.slot).bLogin = true → Authenticates (input c)

namespace Backed

variable {conns : ConnectTable} {threads : Nat → Option Thread} {input : Nat → List UInt8}

theorem none (conns : ConnectTable) (input : Nat → List UInt8) :
    Backed conns (fun _ => .none) input where
  running _ _ h := by cases h
  login _ _ h := by cases h

theorem advance (h : Backed conns threads input) {c : Nat} {t : Thread} (ht : threads c = some t)
    (phase : Phase) {mainBuf : List UInt8} (hbuf : roomyScanner.Stands (input c) mainBuf)
    (hphase : phase.Backed (input c) mainBuf) :
    Backed conns (Function.update threads c (some ⟨t.slot, phase, mainBuf⟩)) input := by
  constructor <;> intro d u hu <;> rcases update_eq_some.mp hu with ⟨rfl, ⟨⟩⟩ | ⟨-, hu⟩
  · exact ⟨hbuf, hphase⟩
  · exact h.running d u hu
  · exact h.login d t ht
  · exact h.login d u hu

theorem endThread (h : Backed conns threads input) (c : Nat) :
    Backed conns (Function.update threads c .none) input := by
  constructor <;> intro d u hu <;> rcases update_eq_some.mp hu with ⟨-, ⟨⟩⟩ | ⟨-, hu⟩
  · exact h.running d u hu
  · exact h.login d u hu

theorem register (h : Backed conns threads input) {slot : Fin clientCountMax} (c : Nat)
    {info : ConnectInfo} (hlogin : info.bLogin = false) (hinput : input c = [])
    (hfree : ∀ d t, threads d = some t → t.slot ≠ slot) :
    Backed (conns.set slot info) (Function.update threads c (some ⟨slot, .loop, []⟩)) input := by
  constructor <;> intro d u hu <;> rcases update_eq_some.mp hu with ⟨rfl, ⟨⟩⟩ | ⟨-, hu⟩
  · rw [hinput]
    exact ⟨.start, trivial⟩
  · exact h.running d u hu
  · rw [set_self, hlogin]
    intro htrue
    cases htrue
  · rw [set_of_ne conns (hfree d u hu)]
    exact h.login d u hu

theorem setConns (h : Backed conns threads input) {conns' : ConnectTable}
    (hlogin : ∀ c t, threads c = some t → (conns' t.slot).bLogin = true →
      (conns t.slot).bLogin = true ∨ Authenticates (input c)) : Backed conns' threads input where
  running := h.running
  login c t ht hlog := by
    rcases hlogin c t ht hlog with hold | hauth
    · exact h.login c t ht hold
    · exact hauth

theorem receive (h : Backed conns threads input) {c : Nat} {t : Thread} (ht : threads c = some t)
    {input' : Nat → List UInt8} (hother : ∀ d, d ≠ c → input' d = input d) (more : List UInt8)
    (hmore : input' c = input c ++ more) (phase : Phase)
    (hphase : phase.Backed (input c ++ more) (t.mainBuf ++ more)) :
    Backed conns (Function.update threads c (some ⟨t.slot, phase, t.mainBuf ++ more⟩)) input' := by
  constructor <;> intro d u hu <;> rcases update_eq_some.mp hu with ⟨rfl, ⟨⟩⟩ | ⟨hd, hu⟩
  · rw [hmore]
    exact ⟨(h.running d t ht).mainBuf.append more, hphase⟩
  · rw [hother d hd]
    exact h.running d u hu
  · rw [hmore]
    exact fun hlog => (h.login d t ht hlog).append more
  · rw [hother d hd]
    exact h.login d u hu

end Backed

namespace Server

variable {s s' : Server φ}

theorem stream_closeSlot (s : Server φ) (slot : Fin clientCountMax) (cause : Cause) :
    stream (s.closeSlot slot cause).log = stream s.log := by
  rcases s.closeSlot_log slot cause with heq | ⟨c, heq⟩ <;> rw [heq]
  rfl

theorem closeSlot_bLogin (s : Server φ) (slot : Fin clientCountMax) (cause : Cause)
    {i : Fin clientCountMax} (h : ((s.closeSlot slot cause).conns i).bLogin = true) :
    (s.conns i).bLogin = true := by
  rw [closeSlot_conns] at h
  by_cases hi : i = slot
  · subst hi
    rw [set_self] at h
    cases h
  · rwa [set_of_ne _ hi] at h

theorem called_backed {t : Thread} {input : List UInt8} (h : t.Backed input) (bytes : List UInt8)
    (src : Nat) (info : ConnectInfo) (packet : Option PDU) :
    (called src info (protocolAdapterProcessData packet (t.mainBuf ++ bytes))).Backed
      (input ++ bytes) (t.mainBuf ++ bytes) := by
  have hstands := h.mainBuf.append bytes
  constructor
  · intro pdu hpdu
    obtain ⟨m, hcarries, hmem⟩ := dispatched_event hpdu
    exact ⟨m, hcarries, hstands.events.subset hmem⟩
  · intro hmem
    cases hmem
  · exact fun hfault => hstands.trans (stands_consume hfault)

theorem streamNew_moved (hp : s.Paired) (h : ∀ c, s.accepted ≤ c → stream s.log c = [])
    {libc : Libc φ} {a : Action} (hmoved : s.Moved libc a s') (c : Nat) (hc : s'.accepted ≤ c) :
    stream s'.log c = [] := by
  cases hmoved with
  | registered | rejected | unstarted => exact h c (Nat.le_of_succ_le hc)
  | @chunk thread t bytes packet src ht hphase =>
      have hserves := hp.serves _ _ ht
      rw [hphase] at hserves
      have hsrc := hserves.2 src rfl
      have hlt := hp.threads _ _ ht
      change s.accepted ≤ c at hc
      exact (if_neg (by omega)).trans (h c hc)
  | setLogin | endOfStream =>
      change (s.closeSlot _ _).accepted ≤ c at hc
      change stream (s.closeSlot _ _).log c = []
      rw [closeSlot_accepted] at hc
      rw [stream_closeSlot]
      exact h c hc
  | recv | process | processFault | reply | effect | done | outOfRange | halted => exact h c hc

theorem streamNew_of_fresh {libc : Libc φ} {machine : Machine φ}
    (h : (server libc machine).ReachableBy Fresh s) : ∀ c, s.accepted ≤ c → stream s.log c = [] := by
  induction h with
  | init => exact fun _ _ => rfl
  | step hreach _ hstep ih => exact streamNew_moved (paired_of_fresh hreach) ih (step_moved hstep)

theorem backed_moved (hp : s.Paired) (h : Backed s.conns s.threads (stream s.log)) {libc : Libc φ}
    {a : Action} (hnew : stream s.log s.accepted = []) (hfresh : s.Fresh a) (hmoved : s.Moved libc a s') :
    Backed s'.conns s'.threads (stream s'.log) := by
  cases hmoved with
  | registered hsock hfd => exact h.register _ hp.ok.newSlot_bLogin hnew hfresh.2
  | unstarted =>
      have := hfresh.1
      cases this
  | recv ht hphase => exact h.advance ht (.blocked _) (h.running _ _ ht).mainBuf trivial
  | @chunk thread t bytes packet src ht hphase =>
      have hsrc : src = thread := by
        have hserves := hp.serves _ _ ht
        rw [hphase] at hserves
        exact hserves.2 src rfl
      subst hsrc
      have hsame : stream (.handed src src bytes (s.conns t.slot) :: s.log) src =
          stream s.log src ++ bytes := if_pos rfl
      have hother : ∀ d, d ≠ src → stream (.handed src src bytes (s.conns t.slot) :: s.log) d =
          stream s.log d := fun d hd => if_neg hd.symm
      have hcalled := called_backed (h.running _ _ ht) bytes src (s.conns t.slot) packet
      exact h.receive ht hother bytes hsame (.callback _) hcalled
  | @process thread t cb pdu todo machine ht hphase heffects htodo hrun =>
      have hcb := (h.running _ _ ht).callback hphase
      refine h.advance ht (.callback _) (h.running _ _ ht).mainBuf
        ⟨fun pdu hmem => ?_, fun hmem => ?_, hcb.rest⟩
      · exact hcb.todo pdu (htodo ▸ List.mem_cons_of_mem _ hmem)
      · apply (logsIn_of_setLogin hrun hmem).authenticates
        exact hcb.todo pdu (htodo ▸ List.mem_cons_self)
  | @setLogin thread _ _ t cb effects slot ht hphase heffects hslot hvalid =>
      have hcb := (h.running _ _ ht).callback hphase
      have hauth := hcb.effects (heffects ▸ List.mem_cons_self)
      obtain ⟨-, hhandle⟩ := hp.serves_callback ht hphase
      have hmarked : Backed (loggedIn s.conns slot) s.threads (stream s.log) := by
        apply h.setConns
        intro c u hu hlogin
        by_cases hsame : u.slot = slot
        · obtain rfl := hp.unique _ _ _ _ ht hu (by omega)
          exact .inr hauth
        · rw [loggedIn_of_ne _ hsame] at hlogin
          cases hlogin
      change Backed _ (Function.update (s.closeSlot (other slot) (.login cb.src)).threads thread _)
        (stream (s.closeSlot (other slot) (.login cb.src)).log)
      rw [closeSlot_threads, stream_closeSlot]
      exact hmarked.advance ht (.callback _) (h.running _ _ ht).mainBuf (hcb.next heffects)
  | reply ht hphase heffects hslot hvalid hfd =>
      have hcb := (h.running _ _ ht).callback hphase
      exact h.advance ht (.callback _) (h.running _ _ ht).mainBuf (hcb.next heffects)
  | effect ht hphase heffects =>
      have hcb := (h.running _ _ ht).callback hphase
      exact h.advance ht (.callback _) (h.running _ _ ht).mainBuf (hcb.next heffects)
  | done ht hphase hfault =>
      exact h.advance ht .loop (((h.running _ _ ht).callback hphase).rest hfault) trivial
  | @endOfStream thread t src slot ht hphase hslot =>
      have hclosed : Backed (s.closeSlot slot (.endOfStream src)).conns s.threads (stream s.log) := by
        apply h.setConns
        intro c u hu hlogin
        exact .inl (s.closeSlot_bLogin slot _ hlogin)
      change Backed _ (Function.update (s.closeSlot slot (.endOfStream src)).threads thread none)
        (stream (s.closeSlot slot (.endOfStream src)).log)
      rw [closeSlot_threads, stream_closeSlot]
      exact hclosed.endThread thread
  | outOfRange ht hphase hslot => exact h.endThread _
  | rejected | processFault | halted => exact h

theorem backed_of_fresh {libc : Libc φ} {machine : Machine φ}
    (h : (server libc machine).ReachableBy Fresh s) : Backed s.conns s.threads (stream s.log) := by
  induction h with
  | init => exact .none _ _
  | step hreach hfresh hstep ih =>
      exact backed_moved (paired_of_fresh hreach) ih (streamNew_of_fresh hreach _ (Nat.le_refl _))
        hfresh (step_moved hstep)

/-- Bytes handed over with the login mark come from a connection that has sent a login
frame with the right password before. -/
def Event.Authentic (earlier : List Event) (e : Event) : Prop :=
  ∀ thread c bytes info, e = .handed thread c bytes info → info.bLogin = true →
    Authenticates (stream earlier c)

theorem authentic_closeSlot (h : Throughout Event.Authentic s.log) (slot : Fin clientCountMax) (cause : Cause) :
    Throughout Event.Authentic (s.closeSlot slot cause).log := by
  rcases s.closeSlot_log slot cause with heq | ⟨c, heq⟩ <;> rw [heq]
  · exact h
  · exact h.cons (by simp [Event.Authentic])

theorem authentic_moved (hp : s.Paired) (hb : Backed s.conns s.threads (stream s.log))
    (h : Throughout Event.Authentic s.log) {libc : Libc φ} {a : Action} (hmoved : s.Moved libc a s') :
    Throughout Event.Authentic s'.log := by
  cases hmoved with
  | registered => exact h.cons (by simp [Event.Authentic])
  | rejected => exact h.cons (by simp [Event.Authentic])
  | unstarted => exact h.cons (by simp [Event.Authentic])
  | @chunk thread t bytes packet src ht hphase =>
      apply h.cons
      rintro _ _ _ _ ⟨⟩ hlogin
      have hserves := hp.serves _ _ ht
      rw [hphase] at hserves
      rw [hserves.2 src rfl]
      exact hb.login thread t ht hlogin
  | process => exact h.cons (by simp [Event.Authentic])
  | processFault => exact h.cons (by simp [Event.Authentic])
  | setLogin => exact authentic_closeSlot h _ _
  | reply => exact h.cons (by simp [Event.Authentic])
  | endOfStream => exact authentic_closeSlot h _ _
  | recv | effect | done | outOfRange | halted => exact h

theorem authentic_of_fresh {libc : Libc φ} {machine : Machine φ}
    (h : (server libc machine).ReachableBy Fresh s) : Throughout Event.Authentic s.log := by
  induction h with
  | init => exact .nil
  | step hreach hfresh hstep ih =>
      exact authentic_moved (paired_of_fresh hreach) (backed_of_fresh hreach) ih (step_moved hstep)

/-- In a guarded run, bytes are handed over with the login mark only for a connection
on which a login frame with the right password was received before. -/
theorem login_bound {libc : Libc φ} {machine : Machine φ}
    (h : (server libc machine).ReachableBy Fresh s) {later earlier : List Event}
    {thread c : Nat} {bytes : List UInt8} {info : ConnectInfo}
    (hlog : s.log = later ++ .handed thread c bytes info :: earlier) (hlogin : info.bLogin = true) :
    Authenticates (stream earlier c) :=
  authentic_of_fresh h later _ earlier hlog thread c bytes info rfl hlogin

/-- Two clients log in one after the other, and the second one sends a byte. -/
theorem login_bound_both :
    ∃ (s : Server Unit) (earlier : List Event),
      s.log = .handed 1 1 [0] ⟨true, true, 1, 6, [0x32], 4001⟩ :: earlier ∧
        Authenticates (stream earlier 1) := by
  have hinit : ((server obligingLibc idleMachine).guarded FreshNow).Reachable
      (Server.init idleMachine) := .init
  obtain ⟨s, hreach, hlog⟩ := hinit.exec
    (bothClients ++ loginComplete 1 ++ [.recv 1, .chunk 1 [0] (some freshPdu)])
    (fun _ _ _ => trivial) (fun s => s.log.head?)
    (b := some (.handed 1 1 [0] ⟨true, true, 1, 6, [0x32], 4001⟩)) (by decide +kernel)
  obtain ⟨earlier, hlog⟩ := List.head?_eq_some_iff.mp hlog
  exact ⟨s, earlier, hlog, login_bound (fresh_of_freshNow hreach) (show s.log = [] ++ _ from hlog) rfl⟩

/-- A client connects while another one's thread is in `recv`, and logs in. What the
first one sends then counts as sent by a client that has logged in. -/
theorem login_bound_overwritten : ¬ ∀ s : Server Unit,
    (server obligingLibc idleMachine).Reachable s → Throughout Event.Authentic s.log := by
  intro hall
  have hinit : (server obligingLibc idleMachine).Reachable (Server.init idleMachine) := .init
  obtain ⟨s, hreach, hlog⟩ := hinit.exec
    ([firstClient, .recv 0, secondClient, .recv 1] ++ loginComplete 1 ++
      [.chunk 0 [0] (some freshPdu)])
    (fun _ _ _ => trivial) (fun s => (s.log.head?, stream s.log.tail 0))
    (b := (some (.handed 0 0 [0] ⟨true, true, 0, 6, [0x32], 4001⟩), [])) (by decide +kernel)
  obtain ⟨hhead, hstream⟩ := Prod.mk.inj hlog
  obtain ⟨earlier, hlog⟩ := List.head?_eq_some_iff.mp hhead
  obtain ⟨m, -, hmem⟩ := hall s hreach [] _ earlier hlog 0 0 [0] _ rfl rfl
  rw [hlog, List.tail_cons] at hstream
  have hempty : roomyScanner.scan [] = .waiting [] [] := Scanner.scan_wait rfl
  rw [hstream, hempty] at hmem
  cases hmem

end Server

end CccUpgrade
