import CccUpgrade.Server.Model

/-! What one step of the server can do, stated once for every invariant. -/
namespace CccUpgrade

open Lib ConnectTable

variable {φ : Type}

theorem update_eq_some {α β : Type*} [DecidableEq α] {f : α → Option β} {a x : α} {b : Option β}
    {y : β} : Function.update f a b x = some y ↔ x = a ∧ b = some y ∨ x ≠ a ∧ f x = some y := by
  by_cases h : x = a <;> simp [h]

namespace Server

theorem setThread_threads (s : Server φ) {c d : Nat} {t : Option Thread} {u : Thread} :
    (s.setThread c t).threads d = some u ↔ d = c ∧ t = some u ∨ d ≠ c ∧ s.threads d = some u :=
  update_eq_some

theorem tcpClose_of_pos {sock : Int} (h : 0 < sock) : tcpClose sock = some sock := by
  simp [tcpClose, h]

theorem close_cases (s : Server φ) (sock : Option Int) (cause : Cause) :
    s.close sock cause = s ∨ ∃ n c, sock = some n ∧ s.fds n = some c ∧ s.close sock cause =
      { s with fds := Function.update s.fds n none, log := .closed c cause :: s.log } := by
  unfold close
  split
  · exact .inl rfl
  split
  · exact .inl rfl
  · rename_i n _ c hfd
    exact .inr ⟨n, c, rfl, hfd, rfl⟩

@[simp] theorem close_conns (s : Server φ) (sock : Option Int) (cause : Cause) :
    (s.close sock cause).conns = s.conns := by
  rcases s.close_cases sock cause with heq | ⟨n, c, -, -, heq⟩ <;> rw [heq]

@[simp] theorem close_threads (s : Server φ) (sock : Option Int) (cause : Cause) :
    (s.close sock cause).threads = s.threads := by
  rcases s.close_cases sock cause with heq | ⟨n, c, -, -, heq⟩ <;> rw [heq]

@[simp] theorem close_accepted (s : Server φ) (sock : Option Int) (cause : Cause) :
    (s.close sock cause).accepted = s.accepted := by
  rcases s.close_cases sock cause with heq | ⟨n, c, -, -, heq⟩ <;> rw [heq]

theorem close_opened (s : Server φ) {sock : Int} (hfd : s.fds sock = none) (conns : ConnectTable)
    (cause : Cause) :
    ({ s with conns := conns, fds := Function.update s.fds sock (some s.accepted)
              accepted := s.accepted + 1 }).close (some sock) cause =
      { s with conns := conns, accepted := s.accepted + 1
               log := .closed s.accepted cause :: s.log } := by
  have hsame : Function.update s.fds sock none = s.fds := by
    rw [← hfd]
    exact Function.update_eq_self sock s.fds
  simp only [close, Function.update_self, Function.update_idem, hsame]

def seated (s : Server φ) (sock : Int) (addr : List UInt8) (ipPort : Int) : ConnectTable :=
  s.conns.set (newSlot s.conns) ((s.conns (newSlot s.conns)).connected sock addr ipPort)

def register (s : Server φ) (sock : Int) (addr : List UInt8) (ipPort : Int) : Server φ :=
  ({ s with
      conns := s.seated sock addr ipPort
      fds := Function.update s.fds sock (some s.accepted)
      accepted := s.accepted + 1
      log := .registered s.accepted :: s.log }).setThread s.accepted
    (some ⟨newSlot s.conns, .loop, []⟩)

section Register

variable (s : Server φ) (sock : Int) (addr : List UInt8) (ipPort : Int)

@[simp] theorem register_accepted : (s.register sock addr ipPort).accepted = s.accepted + 1 := rfl

@[simp] theorem register_conns : (s.register sock addr ipPort).conns = s.seated sock addr ipPort := rfl

theorem seated_newSlot : s.seated sock addr ipPort (newSlot s.conns) =
    (s.conns (newSlot s.conns)).connected sock addr ipPort :=
  set_self ..

theorem seated_of_ne {i : Fin clientCountMax} (hi : i ≠ newSlot s.conns) :
    s.seated sock addr ipPort i = s.conns i :=
  set_of_ne _ hi _

theorem register_fds {n : Int} {c : Nat} : (s.register sock addr ipPort).fds n = some c ↔
    n = sock ∧ s.accepted = c ∨ n ≠ sock ∧ s.fds n = some c := by
  rw [← Option.some_inj (a := s.accepted)]
  exact update_eq_some

theorem register_threads {c : Nat} {t : Thread} : (s.register sock addr ipPort).threads c = some t ↔
    c = s.accepted ∧ some ⟨newSlot s.conns, .loop, []⟩ = some t ∨
      c ≠ s.accepted ∧ s.threads c = some t :=
  update_eq_some

end Register

def reject (s : Server φ) (conns : ConnectTable) : Server φ :=
  { s with
    conns := conns
    accepted := s.accepted + 1
    log := .closed s.accepted .rejected :: s.log }

def closeSlot (s : Server φ) (slot : Fin clientCountMax) (cause : Cause) : Server φ :=
  ({ s with conns := s.conns.set slot (s.conns slot).closed }).close
    (tcpClose (s.conns slot).sock) cause

@[simp] theorem closeSlot_conns (s : Server φ) (slot : Fin clientCountMax) (cause : Cause) :
    (s.closeSlot slot cause).conns = s.conns.set slot (s.conns slot).closed :=
  close_conns ..

@[simp] theorem closeSlot_threads (s : Server φ) (slot : Fin clientCountMax) (cause : Cause) :
    (s.closeSlot slot cause).threads = s.threads :=
  close_threads ..

@[simp] theorem closeSlot_accepted (s : Server φ) (slot : Fin clientCountMax) (cause : Cause) :
    (s.closeSlot slot cause).accepted = s.accepted :=
  close_accepted ..

theorem closeSlot_machine (s : Server φ) (slot : Fin clientCountMax) (cause : Cause) :
    (s.closeSlot slot cause).machine = s.machine := by
  unfold closeSlot
  rcases close_cases { s with conns := s.conns.set slot (s.conns slot).closed }
    (tcpClose (s.conns slot).sock) cause with heq | ⟨n, c, -, -, heq⟩ <;> rw [heq]

theorem closeSlot_log (s : Server φ) (slot : Fin clientCountMax) (cause : Cause) :
    (s.closeSlot slot cause).log = s.log ∨
      ∃ c, (s.closeSlot slot cause).log = .closed c cause :: s.log := by
  rcases close_cases { s with conns := s.conns.set slot (s.conns slot).closed }
    (tcpClose (s.conns slot).sock) cause with heq | ⟨n, c, -, -, heq⟩
  · left
    rw [closeSlot, heq]
  · right
    exact ⟨c, by rw [closeSlot, heq]⟩

def setCallback (s : Server φ) (thread : Nat) (t : Thread) (cb : Callback) : Server φ :=
  s.setThread thread (some { t with phase := .callback cb })

def called (src : Nat) (info : ConnectInfo) (r : ProcessData) : Callback :=
  ⟨src, info.ix, info.bLogin, r.dispatched, [], r.consume, r.fault⟩

inductive Moved (libc : Libc φ) (s : Server φ) : Action → Server φ → Prop
  | registered {sock ipAddr ipPort addr} (hsock : 0 < sock) (hfd : s.fds sock = none) :
      Moved libc s (.accept sock ipAddr ipPort true) (s.register sock addr ipPort)
  | rejected {sock ipAddr ipPort created} :
      Moved libc s (.accept sock ipAddr ipPort created) (s.reject s.conns)
  | unstarted {sock ipAddr ipPort addr} :
      Moved libc s (.accept sock ipAddr ipPort false) (s.reject (s.seated sock addr ipPort))
  | recv {thread t} (ht : s.threads thread = some t) (hphase : t.phase = .loop) :
      Moved libc s (.recv thread) (s.setThread thread
        (some { t with phase := .blocked (s.fds (s.conns t.slot).sock) }))
  | chunk {thread t bytes packet src} (ht : s.threads thread = some t)
      (hphase : t.phase = .blocked (some src)) :
      Moved libc s (.chunk thread bytes packet)
        (({ s with log := .handed thread src bytes (s.conns t.slot) :: s.log }).setCallback thread
          { t with mainBuf := t.mainBuf ++ bytes }
          (called src (s.conns t.slot) (protocolAdapterProcessData packet (t.mainBuf ++ bytes))))
  | process {thread t cb pdu todo machine} (ht : s.threads thread = some t)
      (hphase : t.phase = .callback cb) (heffects : cb.effects = []) (htodo : cb.todo = pdu :: todo)
      (hrun : processProtocolPdu libc pdu cb.bLogin { s.machine with effects := [] } =
        .ok ((), machine)) :
      Moved libc s (.process thread)
        (({ s with
            log := .processed thread pdu (pdu.branch cb.bLogin) :: s.log
            machine := machine }).setCallback thread t
          { cb with todo := todo, effects := machine.effects })
  | processFault {thread t cb pdu todo fault} (ht : s.threads thread = some t)
      (hphase : t.phase = .callback cb) (htodo : cb.todo = pdu :: todo) :
      Moved libc s (.process thread)
        { s with
          log := .processed thread pdu (pdu.branch cb.bLogin) :: s.log
          halted := some fault }
  | setLogin {thread allocated kernel t cb effects slot} (ht : s.threads thread = some t)
      (hphase : t.phase = .callback cb) (heffects : cb.effects = .setLogin :: effects)
      (hslot : cb.handle = slot.val) (hvalid : (s.conns slot).bValid = true) :
      Moved libc s (.effect thread allocated kernel)
        (({ s.closeSlot (other slot) (.login cb.src) with
            conns := loggedIn s.conns slot }).setCallback thread t { cb with effects := effects })
  | reply {thread allocated kernel t cb e effects slot to' bytes} (ht : s.threads thread = some t)
      (hphase : t.phase = .callback cb) (heffects : cb.effects = e :: effects)
      (hslot : cb.handle = slot.val) (hvalid : (s.conns slot).bValid = true)
      (hfd : s.fds (s.conns slot).sock = some to') :
      Moved libc s (.effect thread allocated kernel)
        (({ s with log := .replied cb.src to' bytes :: s.log }).setCallback thread t
          { cb with effects := effects })
  | effect {thread allocated kernel t cb e effects} (ht : s.threads thread = some t)
      (hphase : t.phase = .callback cb) (heffects : cb.effects = e :: effects) :
      Moved libc s (.effect thread allocated kernel)
        (s.setCallback thread t { cb with effects := effects })
  | done {thread t cb} (ht : s.threads thread = some t) (hphase : t.phase = .callback cb)
      (hfault : cb.fault = none) :
      Moved libc s (.done thread) (s.setThread thread
        (some { t with phase := .loop, mainBuf := t.mainBuf.drop cb.consume.toNat }))
  | endOfStream {thread t src slot} (ht : s.threads thread = some t)
      (hphase : t.phase = .blocked src) (hslot : (s.conns t.slot).ix = slot.val) :
      Moved libc s (.endOfStream thread)
        ((s.closeSlot slot (.endOfStream src)).setThread thread none)
  | outOfRange {thread t src} (ht : s.threads thread = some t) (hphase : t.phase = .blocked src)
      (hslot : slot? (s.conns t.slot).ix = none) :
      Moved libc s (.endOfStream thread) (s.setThread thread none)
  | halted {a fault} : Moved libc s a { s with halted := some fault }

variable {libc : Libc φ} {s s' : Server φ}

theorem accept_moved {sock : Int} {ipAddr : List UInt8} {ipPort : Int} {created : Bool}
    (h : s.accept sock ipAddr ipPort created = some s') :
    s.Moved libc (.accept sock ipAddr ipPort created) s' := by
  unfold accept at h
  split at h
  · rename_i hsock
    rcases new_cases s.conns sock (some ipAddr) ipPort with heq | ⟨addr, heq⟩ <;>
      simp only [heq] at h
    · rw [s.close_opened hsock.2] at h
      cases h
      exact .rejected
    · cases created with
      | true =>
          cases h
          exact .registered hsock.1 hsock.2
      | false =>
          simp only [Bool.false_eq_true, if_false] at h
          rw [s.close_opened hsock.2] at h
          cases h
          exact .unstarted
  · cases h

theorem recv_moved {thread : Nat} {t : Thread} (ht : s.threads thread = some t)
    (h : s.recv thread t = some s') : s.Moved libc (.recv thread) s' := by
  unfold recv at h
  split at h
  · rename_i hphase
    cases h
    exact .recv ht hphase
  · cases h

theorem chunk_moved {thread : Nat} {t : Thread} {bytes : List UInt8} {packet : Option PDU}
    (ht : s.threads thread = some t) (h : s.chunk thread t bytes packet = some s') :
    s.Moved libc (.chunk thread bytes packet) s' := by
  unfold chunk at h
  split at h
  · rename_i src hphase
    split at h
    · split at h
      · cases h
        exact .halted
      · cases h
        exact .chunk ht hphase
    · cases h
  · cases h

theorem process_moved {thread : Nat} {t : Thread} (ht : s.threads thread = some t)
    (h : s.process libc thread t = some s') : s.Moved libc (.process thread) s' := by
  unfold process at h
  split at h
  · rename_i cb hphase
    split at h
    · rename_i pdu todo heffects htodo
      dsimp only at h
      split at h
      · cases h
        exact .processFault ht hphase htodo
      · rename_i machine hrun
        cases h
        exact .process ht hphase heffects htodo hrun
    · cases h
  · cases h

theorem setLogin_cases (s : Server φ) (cb : Callback) :
    s.setLogin cb = s ∨ ∃ slot : Fin clientCountMax, cb.handle = slot.val ∧
      (s.conns slot).bValid = true ∧ s.setLogin cb =
        { s.closeSlot (other slot) (.login cb.src) with conns := loggedIn s.conns slot } := by
  unfold setLogin
  rcases login_cases s.conns cb.handle with heq | ⟨slot, hslot, hvalid, heq⟩ <;> rw [heq]
  · exact .inl rfl
  · refine .inr ⟨slot, hslot, hvalid, ?_⟩
    unfold closeSlot close
    dsimp only
    split
    · rfl
    · split <;> rfl

theorem reply_cases (s : Server φ) (cb : Callback) (cmd cmdEx : UInt8) (data : List UInt8)
    (allocated : Bool) (kernel : Nat → Int) :
    s.reply cb cmd cmdEx data allocated kernel = s ∨
      ∃ slot to' bytes, cb.handle = slot.val ∧ (s.conns slot).bValid = true ∧
        s.fds (s.conns slot).sock = some to' ∧ s.reply cb cmd cmdEx data allocated kernel =
          { s with log := .replied cb.src to' bytes :: s.log } := by
  unfold reply
  split
  · exact .inl rfl
  dsimp only
  split
  · exact .inl rfl
  split
  · exact .inl rfl
  rename_i hcalls
  cases hslot : slot? cb.handle with
  | none => exact .inl rfl
  | some slot =>
      have hvalid : (s.conns slot).bValid = true := by
        by_contra hinvalid
        apply hcalls
        simp only [internalClientManagerSend, hslot]
        rw [if_pos (by simpa using hinvalid)]
      cases hfd : s.fds (s.conns slot).sock with
      | none =>
          left
          simp [hfd]
      | some to' =>
          simp only [Option.bind_some, hfd]
          exact .inr ⟨slot, to', _, slot?_eq_some hslot, hvalid, hfd, rfl⟩

theorem effect_moved {thread : Nat} {t : Thread} {allocated : Bool} {kernel : Nat → Int}
    (ht : s.threads thread = some t) (h : s.effect thread t allocated kernel = some s') :
    s.Moved libc (.effect thread allocated kernel) s' := by
  unfold effect at h
  split at h
  · rename_i cb hphase
    split at h
    · cases h
    · rename_i e effects heffects
      cases h
      cases e with
      | setLogin =>
          rcases s.setLogin_cases cb with heq | ⟨slot, hslot, hvalid, heq⟩ <;> simp only [heq]
          · exact .effect ht hphase heffects
          · exact .setLogin ht hphase heffects hslot hvalid
      | replyToClient cmd cmdEx data =>
          rcases s.reply_cases cb cmd cmdEx data allocated kernel with
            heq | ⟨slot, to', bytes, hslot, hvalid, hfd, heq⟩ <;> simp only [heq]
          · exact .effect ht hphase heffects
          · exact .reply ht hphase heffects hslot hvalid hfd
      | replyToUdp cmd cmdEx data => exact .effect ht hphase heffects
  · cases h

theorem done_moved {thread : Nat} {t : Thread} (ht : s.threads thread = some t)
    (h : s.done thread t = some s') : s.Moved libc (.done thread) s' := by
  unfold done at h
  split at h
  · rename_i cb hphase
    split at h
    · cases h
      exact .halted
    next hfault =>
      cases h
      exact .done ht hphase hfault
    · cases h
  · cases h

theorem endOfStream_moved {thread : Nat} {t : Thread} (ht : s.threads thread = some t)
    (h : s.endOfStream thread t = some s') : s.Moved libc (.endOfStream thread) s' := by
  unfold endOfStream at h
  split at h
  · rename_i src hphase
    cases h
    cases hslot : slot? (s.conns t.slot).ix with
    | none =>
        simp only [internalClientManagerClose, hslot]
        exact .outOfRange ht hphase hslot
    | some slot =>
        rw [slot?_eq_some hslot, close_slot]
        exact .endOfStream ht hphase (slot?_eq_some hslot)
  · cases h

theorem step_moved {a : Action} (h : s.step libc a = some s') : s.Moved libc a s' := by
  have hthread : ∀ {thread : Nat} {f : Thread → Option (Server φ)},
      (s.threads thread).bind f = some s' → ∃ t, s.threads thread = some t ∧ f t = some s' := by
    intro thread f hf
    exact Option.bind_eq_some_iff.mp hf
  unfold step at h
  split at h
  · cases h
  cases a with
  | accept sock ipAddr ipPort created => exact accept_moved h
  | recv thread =>
      obtain ⟨t, ht, h⟩ := hthread h
      exact recv_moved ht h
  | chunk thread bytes packet =>
      obtain ⟨t, ht, h⟩ := hthread h
      exact chunk_moved ht h
  | process thread =>
      obtain ⟨t, ht, h⟩ := hthread h
      exact process_moved ht h
  | effect thread allocated kernel =>
      obtain ⟨t, ht, h⟩ := hthread h
      exact effect_moved ht h
  | done thread =>
      obtain ⟨t, ht, h⟩ := hthread h
      exact done_moved ht h
  | endOfStream thread =>
      obtain ⟨t, ht, h⟩ := hthread h
      exact endOfStream_moved ht h

end Server

end CccUpgrade
