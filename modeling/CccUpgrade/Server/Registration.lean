import CccUpgrade.Server.Authentication

/-! The registration of a new connection. `client_manager_reg` fills the slot before it
starts the receive thread, and the accept loop closes the socket of a connection that was
not registered. -/
namespace CccUpgrade

open Lib ConnectTable

variable {φ : Type}

def Refused : Option (List UInt8) → Prop
  | none => True
  | some ipAddr => ipAddr.length = 0 ∨ clientIpLengthMax < ipAddr.length

def Starts (ipAddr : Option (List UInt8)) (threadCreated : Bool) : Prop :=
  threadCreated = true ∨ Refused ipAddr

theorem new_refused {ipAddr : Option (List UInt8)} (h : Refused ipAddr) (conns : ConnectTable)
    (sock ipPort : Int) : internalClientManagerNew conns sock ipAddr ipPort = (none, conns) := by
  cases ipAddr with
  | none => rfl
  | some addr =>
      simp only [internalClientManagerNew]
      rcases h with hempty | hlong
      · rw [if_pos hempty.le]
      · rw [if_neg (by omega), if_pos hlong]

theorem new_seated {addr : List UInt8} (h : ¬ Refused (some addr)) (conns : ConnectTable)
    (sock ipPort : Int) : internalClientManagerNew conns sock (some addr) ipPort =
      (some (newSlot conns),
        conns.set (newSlot conns) ((conns (newSlot conns)).connected sock addr ipPort)) := by
  simp only [Refused, not_or] at h
  simp only [internalClientManagerNew]
  rw [if_neg (by omega), if_neg h.2]
  rfl

section Reg

variable (conns : ConnectTable) (sock ipPort : Int)

theorem reg_refused {ipAddr : Option (List UInt8)} (h : Refused ipAddr) (threadCreated : Bool) :
    clientManagerReg conns sock ipAddr ipPort threadCreated = (false, conns) := by
  simp only [clientManagerReg, new_refused h]

theorem reg_seated {addr : List UInt8} (h : ¬ Refused (some addr)) (threadCreated : Bool) :
    clientManagerReg conns sock (some addr) ipPort threadCreated = (threadCreated,
      conns.set (newSlot conns) ((conns (newSlot conns)).connected sock addr ipPort)) := by
  simp only [clientManagerReg, new_seated h]
  cases threadCreated <;> rfl

end Reg

def RegAtomic (conns : ConnectTable) (sock : Int) (ipAddr : Option (List UInt8)) (ipPort : Int)
    (threadCreated : Bool) : Prop :=
  (clientManagerReg conns sock ipAddr ipPort threadCreated).1 = false →
    (clientManagerReg conns sock ipAddr ipPort threadCreated).2 = conns

theorem reg_atomic_iff {conns : ConnectTable} {sock : Int}
    (hnew : ∀ i, (conns i).sock ≠ sock) (ipAddr : Option (List UInt8)) (ipPort : Int)
    (threadCreated : Bool) :
    RegAtomic conns sock ipAddr ipPort threadCreated ↔ Starts ipAddr threadCreated := by
  unfold RegAtomic
  by_cases hrefused : Refused ipAddr
  · simp [reg_refused conns sock ipPort hrefused, Starts, hrefused]
  · cases ipAddr with
    | none => exact absurd trivial hrefused
    | some addr =>
        rw [reg_seated conns sock ipPort hrefused]
        constructor
        · intro hatomic
          by_contra hstarts
          have hcreated : threadCreated = false := by
            simpa [Starts, hrefused] using hstarts
          -- the slot given out now holds the new socket
          have hslot := congrFun (hatomic hcreated) (newSlot conns)
          simp only [set_self] at hslot
          exact hnew _ (congrArg ConnectInfo.sock hslot).symm
        · rintro (hcreated | hstarts) hfailed
          · rw [hcreated] at hfailed
            cases hfailed
          · exact absurd hstarts hrefused

structure Settled (conns : ConnectTable) (fds : Int → Option Nat) (accepted : Nat)
    (log : List Event) : Prop where
  ok : conns.Ok
  pos : ∀ i, (conns i).bValid = true → 0 < (conns i).sock
  held : ∀ i, (conns i).bValid = true → ∃ c, fds (conns i).sock = some c ∧ .registered c ∈ log
  distinct : ∀ i j, (conns i).bValid = true → (conns j).bValid = true →
    (conns i).sock = (conns j).sock → i = j
  known : ∀ n c, fds n = some c → c < accepted
  inj : ∀ n m c, fds n = some c → fds m = some c → n = m
  closed : ∀ c cause, .closed c cause ∈ log → c < accepted
  shut : ∀ c cause, .closed c cause ∈ log → ∀ n, fds n ≠ some c

namespace Settled

variable {conns : ConnectTable} {fds : Int → Option Nat} {accepted : Nat} {log : List Event}

theorem init (conns : ConnectTable) : Settled (clientManagerInit conns) (fun _ => none) 0 [] where
  ok := .init conns
  pos _ h := by cases h
  held _ h := by cases h
  distinct _ _ h := by cases h
  known _ _ h := by cases h
  inj _ _ _ h := by cases h
  closed _ _ h := by cases h
  shut _ _ h := by cases h

theorem valid_of_pos (h : Settled conns fds accepted log) {i : Fin clientCountMax}
    (hsock : 0 < (conns i).sock) : (conns i).bValid = true := by
  by_contra hvalid
  rw [h.ok.sock i (by simpa using hvalid)] at hsock
  omega

theorem sock_ne (h : Settled conns fds accepted log) {sock : Int} (hpos : 0 ≤ sock)
    (hfd : fds sock = none) (i : Fin clientCountMax) : (conns i).sock ≠ sock := by
  rintro rfl
  by_cases hvalid : (conns i).bValid = true
  · obtain ⟨c, hc, -⟩ := h.held i hvalid
    rw [hfd] at hc
    cases hc
  · rw [h.ok.sock i (by simpa using hvalid)] at hpos
    omega

theorem note (h : Settled conns fds accepted log) {e : Event} (hclosed : ∀ c cause, e ≠ .closed c cause) :
    Settled conns fds accepted (e :: log) := by
  have hcloses : ∀ c cause, .closed c cause ∈ e :: log ↔ .closed c cause ∈ log := by
    intro c cause
    simp [(hclosed c cause).symm]
  constructor
  case held =>
    intro i hi
    obtain ⟨c, hc, hreg⟩ := h.held i hi
    exact ⟨c, hc, List.mem_cons_of_mem e hreg⟩
  case closed => simpa only [hcloses] using h.closed
  case shut => simpa only [hcloses] using h.shut
  case ok => exact h.ok
  case pos => exact h.pos
  case distinct => exact h.distinct
  case known => exact h.known
  case inj => exact h.inj

theorem keep (h : Settled conns fds accepted log) {conns' : ConnectTable} (hok : conns'.Ok)
    (hslots : ∀ i, (conns' i).bValid = true →
      (conns i).bValid = true ∧ (conns' i).sock = (conns i).sock) :
    Settled conns' fds accepted log := by
  constructor
  case pos =>
    intro i hi
    rw [(hslots i hi).2]
    exact h.pos i (hslots i hi).1
  case held =>
    intro i hi
    rw [(hslots i hi).2]
    exact h.held i (hslots i hi).1
  case distinct =>
    intro i j hi hj hsame
    rw [(hslots i hi).2, (hslots j hj).2] at hsame
    exact h.distinct i j (hslots i hi).1 (hslots j hj).1 hsame
  case ok => exact hok
  case known => exact h.known
  case inj => exact h.inj
  case closed => exact h.closed
  case shut => exact h.shut

theorem register (h : Settled conns fds accepted log) {sock : Int} (hsock : 0 < sock)
    (hfd : fds sock = none) (addr : List UInt8) (ipPort : Int) :
    Settled (conns.set (newSlot conns) ((conns (newSlot conns)).connected sock addr ipPort))
      (Function.update fds sock (some accepted)) (accepted + 1) (.registered accepted :: log) := by
  have hcases : ∀ i, i = newSlot conns ∧
        conns.set (newSlot conns) ((conns (newSlot conns)).connected sock addr ipPort) i =
          (conns (newSlot conns)).connected sock addr ipPort ∨
      i ≠ newSlot conns ∧
        conns.set (newSlot conns) ((conns (newSlot conns)).connected sock addr ipPort) i =
          conns i := by
    intro i
    by_cases hi : i = newSlot conns
    · subst hi
      exact .inl ⟨rfl, set_self ..⟩
    · exact .inr ⟨hi, set_of_ne conns hi _⟩
  have hne := h.sock_ne hsock.le hfd
  have hcloses : ∀ c cause,
      .closed c cause ∈ Event.registered accepted :: log ↔ .closed c cause ∈ log := by simp
  constructor
  case ok =>
    exact h.ok.set_of_not_login h.ok.newSlot_bLogin (by simp [ConnectInfo.connected])
      (h.ok.ix (newSlot conns))
  case pos =>
    intro i hi
    rcases hcases i with ⟨-, heq⟩ | ⟨-, heq⟩ <;> rw [heq] at hi ⊢
    · exact hsock
    · exact h.pos i hi
  case held =>
    intro i hi
    rcases hcases i with ⟨-, heq⟩ | ⟨-, heq⟩ <;> rw [heq] at hi ⊢
    · exact ⟨accepted, Function.update_self .., List.mem_cons_self⟩
    · obtain ⟨c, hc, hreg⟩ := h.held i hi
      exact ⟨c, by simpa [hne i] using hc, List.mem_cons_of_mem _ hreg⟩
  case distinct =>
    intro i j hi hj hsame
    rcases hcases i with ⟨hislot, heq⟩ | ⟨-, heq⟩ <;> rw [heq] at hi hsame <;>
      rcases hcases j with ⟨hjslot, heq'⟩ | ⟨-, heq'⟩ <;> rw [heq'] at hj hsame
    · rw [hislot, hjslot]
    · exact absurd hsame.symm (hne j)
    · exact absurd hsame (hne i)
    · exact h.distinct i j hi hj hsame
  case known =>
    intro n c hn
    rcases update_eq_some.mp hn with ⟨-, hn⟩ | ⟨-, hn⟩
    · cases hn
      exact Nat.lt_succ_self _
    · exact Nat.lt_succ_of_lt (h.known n c hn)
  case inj =>
    intro n m c hn hm
    rcases update_eq_some.mp hn with ⟨hnsock, hnew⟩ | ⟨-, hold⟩ <;>
      rcases update_eq_some.mp hm with ⟨hmsock, hnew'⟩ | ⟨-, hold'⟩
    · rw [hnsock, hmsock]
    · cases hnew
      exact absurd (h.known m _ hold') (Nat.lt_irrefl _)
    · cases hnew'
      exact absurd (h.known n _ hold) (Nat.lt_irrefl _)
    · exact h.inj n m c hold hold'
  case closed =>
    intro c cause hc
    exact Nat.lt_succ_of_lt (h.closed c cause ((hcloses c cause).mp hc))
  case shut =>
    intro c cause hc n hn
    rw [hcloses] at hc
    rcases update_eq_some.mp hn with ⟨-, hn⟩ | ⟨-, hn⟩
    · cases hn
      exact Nat.lt_irrefl _ (h.closed _ cause hc)
    · exact h.shut c cause hc n hn

theorem reject (h : Settled conns fds accepted log) :
    Settled conns fds (accepted + 1) (.closed accepted .rejected :: log) := by
  constructor
  case held =>
    intro i hi
    obtain ⟨c, hc, hreg⟩ := h.held i hi
    exact ⟨c, hc, List.mem_cons_of_mem _ hreg⟩
  case known =>
    intro n c hn
    exact Nat.lt_succ_of_lt (h.known n c hn)
  case closed =>
    intro c cause hc
    rcases List.mem_cons.mp hc with heq | hc
    · cases heq
      exact Nat.lt_succ_self _
    · exact Nat.lt_succ_of_lt (h.closed c cause hc)
  case shut =>
    intro c cause hc n hn
    rcases List.mem_cons.mp hc with heq | hc
    · cases heq
      exact Nat.lt_irrefl _ (h.known n _ hn)
    · exact h.shut c cause hc n hn
  case ok => exact h.ok
  case pos => exact h.pos
  case distinct => exact h.distinct
  case inj => exact h.inj

theorem release (h : Settled conns fds accepted log) {slot : Fin clientCountMax}
    (hvalid : (conns slot).bValid = true) {c : Nat} (hc : fds (conns slot).sock = some c)
    (cause : Cause) :
    Settled (conns.set slot (conns slot).closed) (Function.update fds (conns slot).sock none)
      accepted (.closed c cause :: log) := by
  have hslots : ∀ i, (conns.set slot (conns slot).closed i).bValid = true →
      i ≠ slot ∧ (conns i).bValid = true ∧ conns.set slot (conns slot).closed i = conns i := by
    intro i hi
    by_cases hslot : i = slot
    · subst hslot
      rw [set_self] at hi
      cases hi
    · rw [set_of_ne conns hslot] at hi ⊢
      exact ⟨hslot, hi, rfl⟩
  have hopen : ∀ m d, Function.update fds (conns slot).sock none m = some d →
      m ≠ (conns slot).sock ∧ fds m = some d := by
    intro m d hm
    rcases update_eq_some.mp hm with ⟨-, hm⟩ | hm
    · cases hm
    · exact hm
  constructor
  case ok => exact h.ok.set_of_not_login rfl (fun _ => rfl) (h.ok.ix slot)
  case pos =>
    intro i hi
    obtain ⟨-, hi, heq⟩ := hslots i hi
    rw [heq]
    exact h.pos i hi
  case held =>
    intro i hi
    obtain ⟨hne, hi, heq⟩ := hslots i hi
    obtain ⟨d, hd, hreg⟩ := h.held i hi
    have hsock : (conns i).sock ≠ (conns slot).sock := fun hsame =>
      hne (h.distinct i slot hi hvalid hsame)
    rw [heq]
    exact ⟨d, by simpa [hsock] using hd, List.mem_cons_of_mem _ hreg⟩
  case distinct =>
    intro i j hi hj hsame
    obtain ⟨-, hi, heq⟩ := hslots i hi
    obtain ⟨-, hj, heq'⟩ := hslots j hj
    rw [heq, heq'] at hsame
    exact h.distinct i j hi hj hsame
  case known =>
    intro m d hm
    exact h.known m d (hopen m d hm).2
  case inj =>
    intro n m d hn hm
    exact h.inj n m d (hopen n d hn).2 (hopen m d hm).2
  case closed =>
    intro d cause' hd
    rcases List.mem_cons.mp hd with heq | hd
    · cases heq
      exact h.known _ _ hc
    · exact h.closed d cause' hd
  case shut =>
    intro d cause' hd m hm
    obtain ⟨hne, hm⟩ := hopen m d hm
    rcases List.mem_cons.mp hd with heq | hd
    · cases heq
      exact hne (h.inj m _ _ hm hc)
    · exact h.shut d cause' hd m hm

end Settled

/-- The descriptor that `internal_client_manager_send` passes on to `tcp_send`. -/
def sendTarget (conns : ConnectTable) (ix : Int) : Option Int :=
  (slot? ix).bind fun slot => if (conns slot).bValid then some (conns slot).sock else none

namespace Server

variable {s s' : Server φ}

theorem accept_reg {sock : Int} {ipAddr : List UInt8} {ipPort : Int} {created : Bool}
    (h : s.accept sock ipAddr ipPort created = some s') :
    0 < sock ∧ s.fds sock = none ∧ s' =
      if (clientManagerReg s.conns sock (some ipAddr) ipPort created).1 = true then
        s.register sock ipAddr ipPort
      else s.reject (clientManagerReg s.conns sock (some ipAddr) ipPort created).2 := by
  unfold accept at h
  split at h
  · rename_i hsock
    refine ⟨hsock.1, hsock.2, ?_⟩
    by_cases hrefused : Refused (some ipAddr)
    · rw [reg_refused _ _ _ hrefused]
      simp only [new_refused hrefused, s.close_opened hsock.2] at h
      cases h
      rfl
    · rw [reg_seated _ _ _ hrefused]
      simp only [new_seated hrefused] at h
      cases created with
      | true =>
          cases h
          rfl
      | false =>
          simp only [Bool.false_eq_true, if_false, s.close_opened hsock.2] at h
          cases h
          rfl
  · cases h

/-- No connection is given a slot without a receive thread. -/
def Started (_ : Server φ) : Action → Prop
  | .accept _ ipAddr _ threadCreated => Starts (some ipAddr) threadCreated
  | _ => True

theorem reg_of_starts {ipAddr : Option (List UInt8)} {threadCreated : Bool}
    (h : Starts ipAddr threadCreated) (conns : ConnectTable) (sock ipPort : Int) :
    RegAtomic conns sock ipAddr ipPort threadCreated := by
  by_cases hrefused : Refused ipAddr
  · intro _
    rw [reg_refused conns sock ipPort hrefused]
  · cases ipAddr with
    | none => exact absurd trivial hrefused
    | some addr =>
        rcases h with rfl | h
        · intro hfailed
          rw [reg_seated conns sock ipPort hrefused] at hfailed
          cases hfailed
        · exact absurd h hrefused

theorem settled_accept (h : Settled s.conns s.fds s.accepted s.log) {sock : Int}
    {ipAddr : List UInt8} {ipPort : Int} {created : Bool}
    (hstarts : Starts (some ipAddr) created) (haccept : s.accept sock ipAddr ipPort created = some s') :
    Settled s'.conns s'.fds s'.accepted s'.log := by
  obtain ⟨hsock, hfd, rfl⟩ := accept_reg haccept
  split
  · exact h.register hsock hfd ipAddr ipPort
  · rename_i hfailed
    rw [reg_of_starts hstarts s.conns sock ipPort (by simpa using hfailed)]
    exact h.reject

theorem settled_closeSlot (h : Settled s.conns s.fds s.accepted s.log)
    (slot : Fin clientCountMax) (cause : Cause) :
    Settled (s.closeSlot slot cause).conns (s.closeSlot slot cause).fds
      (s.closeSlot slot cause).accepted (s.closeSlot slot cause).log := by
  unfold closeSlot
  cases hvalid : (s.conns slot).bValid with
  | false =>
      have hsock : tcpClose (s.conns slot).sock = none := by
        rw [h.ok.sock slot hvalid]
        decide
      rw [hsock]
      change Settled (s.conns.set slot (s.conns slot).closed) s.fds s.accepted s.log
      have hok : (s.conns.set slot (s.conns slot).closed).Ok :=
        h.ok.set_of_not_login rfl (fun _ => rfl) (h.ok.ix slot)
      apply h.keep hok
      intro i hi
      by_cases hslot : i = slot
      · subst hslot
        simp [ConnectInfo.closed] at hi
      · rw [set_of_ne _ hslot] at hi ⊢
        exact ⟨hi, rfl⟩
  | true =>
      obtain ⟨c, hc, -⟩ := h.held slot hvalid
      rw [tcpClose_of_pos (h.pos slot hvalid)]
      simp only [Server.close, hc]
      exact h.release hvalid hc cause

theorem settled_moved (h : Settled s.conns s.fds s.accepted s.log) {libc : Libc φ} {a : Action}
    (hother : ∀ sock ipAddr ipPort created, a ≠ .accept sock ipAddr ipPort created)
    (hmoved : s.Moved libc a s') : Settled s'.conns s'.fds s'.accepted s'.log := by
  cases hmoved with
  | registered | rejected | unstarted => exact absurd rfl (hother _ _ _ _)
  | chunk | process | processFault | reply => exact h.note (by simp)
  | @setLogin _ _ _ _ cb _ slot _ _ _ _ hvalid =>
      apply (settled_closeSlot h (other slot) (.login cb.src)).keep (h.ok.loggedIn hvalid)
      intro i hi
      by_cases hslot : i = slot
      · subst hslot
        simp [loggedIn_self, hvalid, (other_ne i).symm]
      · simp [loggedIn_of_ne _ hslot, ConnectInfo.closed] at hi
  | endOfStream => exact settled_closeSlot h _ _
  | recv | effect | done | outOfRange | halted => exact h

theorem settled_of_started {libc : Libc φ} {machine : Machine φ}
    (h : (server libc machine).ReachableBy Started s) :
    Settled s.conns s.fds s.accepted s.log := by
  induction h with
  | init => exact .init _
  | @step s s' a hreach hguard hstep ih =>
      have hstep : s.step libc a = some s' := hstep
      cases a with
      | accept sock ipAddr ipPort created =>
          unfold step at hstep
          split at hstep
          · cases hstep
          · exact settled_accept ih hguard hstep
      | _ => exact settled_moved ih (by simp) (step_moved hstep)

def touched (s : Server φ) : Action → List Int
  | .effect thread _ _ =>
      match (s.threads thread).map Thread.phase with
      | some (.callback cb) =>
          match cb.effects with
          | .setLogin :: _ => (internalClientManagerLogin s.conns cb.handle).closed.toList
          | .replyToClient _ _ _ :: _ => (sendTarget s.conns cb.handle).toList
          | _ => []
      | _ => []
  | .endOfStream thread =>
      match s.threads thread with
      | some t => (internalClientManagerClose s.conns (s.conns t.slot).ix).closed.toList
      | none => []
  | _ => []

/-- The descriptor is open and belongs to a registered connection that was never closed. -/
def Live (s : Server φ) (sock : Int) : Prop :=
  ∃ c, s.fds sock = some c ∧ .registered c ∈ s.log ∧ ∀ cause, .closed c cause ∉ s.log

theorem live_of_valid (h : Settled s.conns s.fds s.accepted s.log) {i : Fin clientCountMax}
    (hvalid : (s.conns i).bValid = true) : s.Live (s.conns i).sock := by
  obtain ⟨c, hc, hreg⟩ := h.held i hvalid
  exact ⟨c, hc, hreg, fun cause hcause => h.shut c cause hcause _ hc⟩

theorem live_of_tcpClose (h : Settled s.conns s.fds s.accepted s.log) {i : Fin clientCountMax}
    {sock : Int} (hsock : tcpClose (s.conns i).sock = some sock) : s.Live sock := by
  unfold tcpClose at hsock
  split at hsock
  · cases hsock
  · cases hsock
    exact live_of_valid h (h.valid_of_pos (by omega))

theorem live_of_touched (h : Settled s.conns s.fds s.accepted s.log) {a : Action} {sock : Int}
    (hsock : sock ∈ s.touched a) : s.Live sock := by
  unfold touched at hsock
  split at hsock
  case h_1 =>
    split at hsock
    · rename_i cb _
      split at hsock
      · rcases login_cases s.conns cb.handle with heq | ⟨slot, -, -, heq⟩ <;> rw [heq] at hsock
        · cases hsock
        · exact live_of_tcpClose h (Option.mem_toList.mp hsock)
      · unfold sendTarget at hsock
        obtain ⟨slot, -, hslot⟩ := Option.bind_eq_some_iff.mp (Option.mem_toList.mp hsock)
        split at hslot
        · rename_i hvalid
          cases hslot
          exact live_of_valid h hvalid
        · cases hslot
      · cases hsock
    · cases hsock
  case h_2 =>
    split at hsock
    · rename_i t _
      rcases CccUpgrade.close_cases s.conns (s.conns t.slot).ix with heq | ⟨slot, -, heq⟩ <;> rw [heq] at hsock
      · cases hsock
      · exact live_of_tcpClose h (Option.mem_toList.mp hsock)
    · cases hsock
  case h_3 => cases hsock

structure NoStale (s : Server φ) : Prop where
  slots : ∀ i, 0 < (s.conns i).sock → s.Live (s.conns i).sock
  calls : ∀ a, ∀ sock ∈ s.touched a, s.Live sock

/-- A failed registration leaves the table as it was exactly when the thread could be
created or no slot was given out; in a run of such registrations no operation meets a
descriptor that was closed. -/
theorem registration_atomic {libc : Libc φ} {machine : Machine φ}
    (h : (server libc machine).ReachableBy Started s) :
    s.NoStale ∧ ∀ sock ipAddr ipPort threadCreated, 0 ≤ sock → s.fds sock = none →
      (RegAtomic s.conns sock ipAddr ipPort threadCreated ↔ Starts ipAddr threadCreated) := by
  have hsettled := settled_of_started h
  refine ⟨⟨?_, ?_⟩, ?_⟩
  · intro i hpos
    exact live_of_valid hsettled (hsettled.valid_of_pos hpos)
  · intro a sock hsock
    exact live_of_touched hsettled hsock
  · intro sock ipAddr ipPort threadCreated hpos hfd
    exact reg_atomic_iff (hsettled.sock_ne hpos hfd) ipAddr ipPort threadCreated

def unstartedClient : Action := .accept 6 [0x32] 4001 false

/-- One client is connected, and the thread of the next one cannot be created. -/
theorem registration_atomic_single :
    ∃ s : Server Unit, (s.conns 0).sock = 5 ∧ s.Live 5 ∧
      ¬ RegAtomic s.conns 6 (some [0x32]) 4001 false := by
  have hreach : (server obligingLibc idleMachine).ReachableBy Started
      ((Server.init idleMachine).register 5 [0x31] 4000) :=
    .step (a := firstClient) .init (.inl rfl) rfl
  obtain ⟨hstale, hatomic⟩ := registration_atomic hreach
  refine ⟨_, rfl, hstale.slots 0 (by decide), ?_⟩
  rw [hatomic 6 (some [0x32]) 4001 false (by decide) rfl]
  simp [Starts, Refused, clientIpLengthMax]

/-- The thread for a second client cannot be created, so that its socket is closed but
stays in the table. When the first client logs in, the socket is closed once more. -/
theorem registration_atomic_unstarted :
    (¬ ∀ s : Server Unit, (server obligingLibc idleMachine).Reachable s → s.NoStale) ∧
      ¬ ∀ s : Server Unit, (server obligingLibc idleMachine).Reachable s →
        ∀ sock ipAddr ipPort threadCreated, 0 ≤ sock → s.fds sock = none →
          RegAtomic s.conns sock ipAddr ipPort threadCreated := by
  have hinit : (server obligingLibc idleMachine).Reachable (Server.init idleMachine) := .init
  constructor
  · intro hall
    obtain ⟨s, hreach, hstate⟩ := hinit.exec
      ([firstClient, .recv 0] ++ loginComplete 0 ++ [unstartedClient, .recv 0] ++
        (loginSchedule 0 "jikongupgrade").take 2)
      (fun _ _ _ => trivial) (fun s => (s.touched (.effect 0 true fun _ => 10), s.fds 6))
      (b := ([6], none)) (by decide +kernel)
    obtain ⟨htouched, hclosed⟩ := Prod.mk.inj hstate
    obtain ⟨c, hc, -⟩ := (hall s hreach).calls (.effect 0 true fun _ => 10) 6 (by simp [htouched])
    rw [hclosed] at hc
    cases hc
  · intro hall
    have hatomic := hall _ hinit 6 (some [0x32]) 4001 false (by decide) rfl
    have hslot := congrFun (hatomic rfl) 0
    exact absurd (congrArg ConnectInfo.sock hslot) (by decide)

end Server

end CccUpgrade
