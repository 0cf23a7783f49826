import CccUpgrade.Server.Ledger
import CccUpgrade.Server.SharedPool

/-! The server that shares a pool of packets does what the server does that takes every PDU
and every frame for itself. No packet is with two threads at once, so that what a thread
finds in a packet is what it has put there. -/
namespace CccUpgrade

open Lib

def Action.thread? : Action → Option Nat
  | .accept _ _ _ _ => none
  | .recv thread | .chunk thread _ _ | .process thread | .effect thread _ _ | .done thread
  | .endOfStream thread => some thread

namespace Server

variable {φ : Type} {libc : Libc φ} {s s' : Server φ}

def Numbered (s : Server φ) : Prop := ∀ c t, s.threads c = some t → c < s.accepted

theorem Moved.threads_eq {a : Action} (h : s.Moved libc a s') {c : Nat} (hc : c < s.accepted)
    (hother : a.thread? ≠ some c) : s'.threads c = s.threads c := by
  have hset : ∀ (u : Server φ) (d : Nat) (t : Option Thread), some d ≠ some c →
      (u.setThread d t).threads c = u.threads c :=
    fun u d t hne => Function.update_of_ne (fun h => hne (congrArg some h.symm)) ..
  cases h with
  | registered => exact Function.update_of_ne (Nat.ne_of_lt hc) ..
  | rejected | unstarted | processFault | halted => rfl
  | recv | done | outOfRange => exact hset _ _ _ hother
  | chunk | process | reply | effect => exact hset _ _ _ hother
  | setLogin => exact (hset _ _ _ hother).trans (congrFun (closeSlot_threads ..) c)
  | endOfStream => exact (hset _ _ _ hother).trans (congrFun (closeSlot_threads ..) c)

theorem Moved.numbered {a : Action} (h : s.Moved libc a s') (hs : s.Numbered) : s'.Numbered := by
  have hset : ∀ {u : Server φ} {d : Nat} {t : Option Thread}, u.Numbered → d < u.accepted →
      (u.setThread d t).Numbered := by
    intro u d t hu hd c v hv
    rcases u.setThread_threads.mp hv with ⟨rfl, -⟩ | ⟨-, hv⟩
    · exact hd
    · exact hu c v hv
  have hclosed : ∀ slot cause, (s.closeSlot slot cause).Numbered := by
    intro slot cause c t ht
    rw [closeSlot_threads] at ht
    rw [closeSlot_accepted]
    exact hs c t ht
  cases h with
  | registered =>
      intro c t ht
      rcases (s.register_threads _ _ _).mp ht with ⟨rfl, -⟩ | ⟨-, ht⟩
      · exact Nat.lt_succ_self _
      · exact Nat.lt_succ_of_lt (hs c t ht)
  | rejected | unstarted => exact fun c t ht => Nat.lt_succ_of_lt (hs c t ht)
  | processFault | halted => exact hs
  | recv ht | done ht | outOfRange ht | chunk ht | process ht | reply ht | effect ht =>
      exact hset hs (hs _ _ ht)
  | setLogin ht =>
      refine hset (hclosed _ _) ?_
      rw [closeSlot_accepted]
      exact hs _ _ ht
  | endOfStream ht =>
      refine hset (hclosed _ _) ?_
      rw [closeSlot_accepted]
      exact hs _ _ ht

theorem callback?_eq_some {thread : Nat} {t : Thread} {cb : Callback} :
    s.callback? thread = some (t, cb) ↔ s.threads thread = some t ∧ t.phase = .callback cb := by
  unfold callback?
  cases s.threads thread with
  | none => simp
  | some u =>
      cases hphase : u.phase with
      | callback cb' =>
          simp only [Option.bind_some, hphase, Option.some.injEq, Prod.mk.injEq]
          constructor
          · rintro ⟨rfl, rfl⟩
            exact ⟨rfl, hphase⟩
          · rintro ⟨rfl, h⟩
            rw [hphase] at h
            cases h
            exact ⟨rfl, rfl⟩
      | loop | blocked =>
          simp only [Option.bind_some, hphase, Option.some.injEq]
          constructor
          · exact nofun
          · rintro ⟨rfl, h⟩
            rw [hphase] at h
            cases h

theorem callback?_congr {thread : Nat} (h : s'.threads thread = s.threads thread) :
    s'.callback? thread = s.callback? thread := by
  unfold callback?
  rw [h]

theorem callback?_set (u : Server φ) (thread : Nat) {t : Thread} {cb : Callback}
    (hphase : t.phase = .callback cb) :
    (u.setThread thread (some t)).callback? thread = some (t, cb) := by
  rw [callback?_eq_some]
  exact ⟨Function.update_self .., hphase⟩

theorem processFound_cases (s : Server φ) (thread : Nat) (t : Thread) (cb : Callback) (pdu : PDU) :
    (s.processFound libc thread t cb pdu).halted ≠ none ∨ ∃ machine, ∃ u : Server φ,
      processProtocolPdu libc pdu cb.bLogin { s.machine with effects := [] } = .ok ((), machine) ∧
        s.processFound libc thread t cb pdu = u.setThread thread (some { t with
          phase := .callback { cb with todo := cb.todo.tail, effects := machine.effects } }) := by
  unfold processFound
  dsimp only
  cases processProtocolPdu libc pdu cb.bLogin { s.machine with effects := [] } with
  | error f => exact .inl nofun
  | ok result => exact .inr ⟨result.2, _, rfl, rfl⟩

theorem step_chunk {thread : Nat} {bytes : List UInt8} {packet : Option PDU}
    (h : s.step libc (.chunk thread bytes packet) = some s') :
    s.callback? thread = none ∧ (s'.halted = none →
      ∃ t cb, s'.callback? thread = some (t, cb) ∧ cb.effects = []) := by
  unfold step at h
  split at h
  · cases h
  obtain ⟨t, ht, h⟩ := Option.bind_eq_some_iff.mp h
  unfold chunk at h
  split at h
  · rename_i src hphase
    constructor
    · unfold callback?
      simp only [ht, Option.bind_some, hphase]
    · intro hrunning
      split at h
      · split at h
        · cases h
          cases hrunning
        · cases h
          exact ⟨_, called src (s.conns t.slot)
            (protocolAdapterProcessData packet (t.mainBuf ++ bytes)), callback?_set _ _ rfl, rfl⟩
      · cases h
  · cases h

theorem step_outside {a : Action} (houtside : PooledServer.Outside a = true)
    (h : s.step libc a = some s') {thread : Nat} (hthread : a.thread? = some thread) :
    s.callback? thread = none := by
  unfold step at h
  split at h
  · cases h
  cases a with
  | recv =>
      cases hthread
      obtain ⟨t, ht, h⟩ := Option.bind_eq_some_iff.mp h
      unfold recv at h
      split at h
      · rename_i hphase
        unfold callback?
        simp only [ht, Option.bind_some, hphase]
      · cases h
  | endOfStream =>
      cases hthread
      obtain ⟨t, ht, h⟩ := Option.bind_eq_some_iff.mp h
      unfold endOfStream at h
      split at h
      · rename_i hphase
        unfold callback?
        simp only [ht, Option.bind_some, hphase]
      · cases h
  | accept => cases hthread
  | chunk | process | effect | done => cases houtside

section Found

variable {thread : Nat} {t : Thread} {cb : Callback} (hcb : s.callback? thread = some (t, cb))
  (hhalted : s.halted = none)
include hcb hhalted

theorem step_process {pdu : PDU} {todo : List PDU} (heffects : cb.effects = [])
    (htodo : cb.todo = pdu :: todo) :
    s.step libc (.process thread) = some (s.processFound libc thread t cb pdu) := by
  obtain ⟨ht, hphase⟩ := callback?_eq_some.mp hcb
  simp only [step, hhalted, ht, Option.bind_some, process, processFound, hphase, heffects, htodo,
    List.tail_cons]
  cases processProtocolPdu libc pdu cb.bLogin { s.machine with effects := [] } <;> rfl

theorem step_effect {e : Effect} {effects : List Effect} (heffects : cb.effects = e :: effects)
    (allocated : Bool) (kernel : Nat → Int) :
    ∃ u : Server φ, s.step libc (.effect thread allocated kernel) = some (u.setThread thread
      (some { t with phase := .callback { cb with effects := effects } })) := by
  obtain ⟨ht, hphase⟩ := callback?_eq_some.mp hcb
  simp only [step, hhalted, ht, Option.bind_some, effect, hphase, heffects]
  exact ⟨_, rfl⟩

/-- A frame that is found in the packet is sent as one that was just built. -/
theorem step_found {m : Message} {effects : List Effect} {e : Effect}
    (heffects : cb.effects = e :: effects) (hmessage : e.message? = some m) {content : CccPacket}
    {size : Nat} (hholds : content.Holds m size) (hfits : m.data.length ≤ protocolDataLenMax)
    (kernel : Nat → Int) :
    s.step libc (.effect thread content.buffer.isSome kernel) =
      some (s.sendFound thread t cb (content.buffer.map (·.take size)) size kernel) := by
  obtain ⟨ht, hphase⟩ := callback?_eq_some.mp hcb
  have hreply : s.replyFound cb (content.buffer.map (·.take size)) size kernel =
      s.reply cb m.cmd m.cmdEx m.data content.buffer.isSome kernel := by
    have hmax : protocolDataLenMax = 4080 := rfl
    have hsize : 7 < protocolDataSizeMax := by decide
    have hpacket := createProtocolPacket_packet m hsize (by omega)
    have hresult := congrArg PacketOut.result (createProtocolPacket_eq m hsize (by omega))
    have hlength : 9 + m.data.length = m.frame.length := m.frame_length.symm
    unfold CccPacket.Holds at hholds
    cases hbuffer : content.buffer with
    | none =>
        rw [hbuffer] at hholds
        simp only [replyFound, reply, hholds, Option.isSome_none]
        simp
    | some block =>
        rw [hbuffer] at hholds
        obtain ⟨rfl, hframe⟩ := hholds
        simp only [reply, Option.isSome_some, Option.map_some, hframe, hpacket, hresult, hlength,
          Bool.true_eq_false, if_false]
        rfl
  simp only [step, hhalted, ht, Option.bind_some, effect, hphase, heffects, sendFound,
    List.head?_cons, List.tail_cons]
  cases e with
  | setLogin => cases hmessage
  | replyToClient cmd cmdEx data =>
      cases hmessage
      dsimp only at hreply ⊢
      rw [hreply]
      rfl
  | replyToUdp cmd cmdEx data => rfl

end Found

end Server

def Lease.Ready (lease : Lease) (pool : PacketPool) (cb : Callback) : Prop :=
  match lease.stage with
  | .between | .sent _ => True
  | .parsed => ∃ pdu todo content, cb.effects = [] ∧ cb.todo = pdu :: todo ∧
      pool.packets.read lease.packet = some content ∧ content.pdu = pdu
  | .built reply size => ∃ e effects m content, cb.effects = e :: effects ∧ e.message? = some m ∧
      pool.packets.read reply = some content ∧ content.Holds m size

theorem Lease.Ready.congr {lease : Lease} {pool pool' : PacketPool} {cb : Callback}
    (h : lease.Ready pool cb)
    (hread : ∀ p ∈ lease.packets, pool'.packets.read p = pool.packets.read p) :
    lease.Ready pool' cb := by
  unfold Ready at h ⊢
  unfold packets at hread
  cases hstage : lease.stage with
  | between | sent => trivial
  | parsed =>
      rw [hstage] at h hread
      obtain ⟨pdu, todo, content, heffects, htodo, hhere, hpdu⟩ := h
      refine ⟨pdu, todo, content, heffects, htodo, ?_, hpdu⟩
      rw [hread _ List.mem_cons_self]
      exact hhere
  | built reply size =>
      rw [hstage] at h hread
      obtain ⟨e, effects, m, content, heffects, hmessage, hhere, hholds⟩ := h
      refine ⟨e, effects, m, content, heffects, hmessage, ?_, hholds⟩
      rw [hread _ (List.mem_cons_of_mem _ List.mem_cons_self)]
      exact hhere

def Callback.Short (cb : Callback) : Prop :=
  ∀ e ∈ cb.effects, ∀ m, e.message? = some m → m.data.length ≤ protocolDataLenMax

def Lease.For {φ : Type} (lease : Lease) (s : Server φ) (pool : PacketPool) (thread : Nat) : Prop :=
  ∃ t cb, s.callback? thread = some (t, cb) ∧ cb.Short ∧ lease.Ready pool cb

namespace PooledServer

variable {φ : Type} {libc : Libc φ} {s s' : PooledServer φ}

/-- Every packet that is out is with one thread, and holds what this thread has put there. -/
structure Sound (s : PooledServer φ) : Prop where
  numbered : s.server.Numbered
  intact : s.packets.Intact
  whole : s.packets.pool.Whole
  owned : ∀ thread lease, s.leases thread = some lease →
    lease.packets.Nodup ∧ ∀ p ∈ lease.packets, p ∈ s.packets.out
  apart : ∀ i j li lj, s.leases i = some li → s.leases j = some lj → i ≠ j →
    li.packets.Disjoint lj.packets
  calling : s.server.halted = none → ∀ thread lease, s.leases thread = some lease →
    lease.For s.server s.packets.pool thread

theorem sound_init (machine : Machine φ) : (init machine).Sound where
  numbered := nofun
  intact := PoolUse.intact_init
  whole := nofun
  owned _ _ hl := by cases hl
  apart _ _ _ _ hi := by cases hi
  calling _ := nofun

def mine (s : PooledServer φ) (thread : Nat) : List Nat :=
  match s.leases thread with
  | none => []
  | some lease => lease.packets

structure Takes (s : PooledServer φ) (thread : Nat) (server : Server φ) (packets : PoolUse)
    (lease : Lease) : Prop where
  nodup : lease.packets.Nodup
  out : ∀ p ∈ lease.packets, p ∈ packets.out
  fresh : ∀ p ∈ lease.packets, p ∈ s.packets.out → p ∈ s.mine thread
  calling : server.halted = none → lease.For server packets.pool thread

/-- The rule for a step: one thread uses its own packets and those the pool gives it, and
no other thread is moved. -/
theorem Sound.update (h : s.Sound) (hhalted : s.server.halted = none) {thread : Nat}
    {server : Server φ} {packets : PoolUse} {lease : Option Lease} (hnumbered : server.Numbered)
    (hkept : s.packets.Kept packets (s.mine thread))
    (hothers : ∀ j, j ≠ thread → (s.leases j).isSome →
      server.callback? j = s.server.callback? j)
    (htakes : ∀ l, lease = some l → s.Takes thread server packets l) :
    ((⟨server, packets, s.leases⟩ : PooledServer φ).lend thread lease).Sound := by
  have hlease : ∀ j l, Function.update s.leases thread lease j = some l →
      j = thread ∧ lease = some l ∨ j ≠ thread ∧ s.leases j = some l :=
    fun j l hl => update_eq_some.mp hl
  have hforeign : ∀ j l, j ≠ thread → s.leases j = some l → ∀ p ∈ l.packets, p ∉ s.mine thread := by
    intro j l hj hl p hp hmine
    unfold mine at hmine
    cases hthread : s.leases thread with
    | none =>
        rw [hthread] at hmine
        cases hmine
    | some old =>
        rw [hthread] at hmine
        exact h.apart j thread l old hl hthread hj hp hmine
  refine ⟨hnumbered, hkept.intact, hkept.whole, ?_, ?_, ?_⟩
  · intro j l hl
    rcases hlease j l hl with ⟨rfl, hnew⟩ | ⟨hj, hold⟩
    · exact ⟨(htakes l hnew).nodup, (htakes l hnew).out⟩
    · obtain ⟨hnodup, hout⟩ := h.owned j l hold
      exact ⟨hnodup, fun p hp => hkept.out p (hout p hp) (hforeign j l hj hold p hp)⟩
  · have hapart : ∀ j l new, j ≠ thread → s.leases j = some l → lease = some new →
        l.packets.Disjoint new.packets := by
      intro j l new hj hl hnew p hp hpnew
      apply hforeign j l hj hl p hp
      exact (htakes new hnew).fresh p hpnew ((h.owned j l hl).2 p hp)
    intro i j li lj hi hj hne
    rcases hlease i li hi with ⟨rfl, hnew⟩ | ⟨hit, hold⟩
    · rcases hlease j lj hj with ⟨rfl, -⟩ | ⟨hjt, hold⟩
      · exact absurd rfl hne
      · exact (hapart j lj li hjt hold hnew).symm
    · rcases hlease j lj hj with ⟨rfl, hnew⟩ | ⟨hjt, hold'⟩
      · exact hapart i li lj hit hold hnew
      · exact h.apart i j li lj hold hold' hne
  · intro hrunning j l hl
    rcases hlease j l hl with ⟨rfl, hnew⟩ | ⟨hj, hold⟩
    · exact (htakes l hnew).calling hrunning
    · obtain ⟨t, cb, hcb, hshort, hready⟩ := h.calling hhalted j l hold
      refine ⟨t, cb, (hothers j hj (by rw [hold]; rfl)).trans hcb, hshort, hready.congr ?_⟩
      exact fun p hp => hkept.read p ((h.owned j l hold).2 p hp) (hforeign j l hj hold p hp)

/-- A step faults nowhere in the pool; it leads to a sound state by a step of the server
without the pool, or by none. -/
def Goes (libc : Libc φ) (s : PooledServer φ) (r : Except PoolFault (Option (PooledServer φ))) :
    Prop :=
  ∃ next, r = .ok next ∧ ∀ s', next = some s' → s'.Sound ∧
    (s'.server = s.server ∨ ∃ a, s.server.step libc a = some s'.server)

theorem goes_none : s.Goes libc (.ok none) := by
  refine ⟨none, rfl, ?_⟩
  intro s' h
  cases h

theorem mine_eq {thread : Nat} {lease : Lease} (hl : s.leases thread = some lease) :
    s.mine thread = lease.packets := by
  unfold mine
  rw [hl]

theorem lend_self {thread : Nat} {lease : Option Lease} (hl : s.leases thread = lease) :
    s.lend thread lease = s := by
  unfold lend
  rw [← hl, Function.update_eq_self]

section Rules

variable (h : s.Sound) (hhalted : s.server.halted = none) {thread : Nat}
include h hhalted

theorem Sound.lease_lt {j : Nat} (hj : (s.leases j).isSome) : j < s.server.accepted := by
  obtain ⟨lease, hl⟩ := Option.isSome_iff_exists.mp hj
  obtain ⟨t, cb, hcb, -, -⟩ := h.calling hhalted j lease hl
  exact h.numbered j t (Server.callback?_eq_some.mp hcb).1

theorem Sound.stutters {packets : PoolUse} (hkept : s.packets.Kept packets (s.mine thread))
    {lease : Lease} (htakes : s.Takes thread s.server packets lease) :
    s.Goes libc (.ok (some (({ s with packets := packets }).lend thread (some lease)))) := by
  refine ⟨_, rfl, ?_⟩
  rintro _ ⟨⟩
  refine ⟨h.update hhalted h.numbered hkept (fun _ _ _ => rfl) ?_, .inl rfl⟩
  rintro _ ⟨⟩
  exact htakes

theorem Sound.moves {a : Action} {server : Server φ} (hstep : s.server.step libc a = some server)
    (hthread : ∀ c, a.thread? = some c → c = thread) {packets : PoolUse}
    (hkept : s.packets.Kept packets (s.mine thread)) {lease : Option Lease}
    (htakes : ∀ l, lease = some l → s.Takes thread server packets l) :
    s.Goes libc (.ok (some ((⟨server, packets, s.leases⟩ : PooledServer φ).lend thread lease))) := by
  have hmoved := Server.step_moved hstep
  refine ⟨_, rfl, ?_⟩
  rintro _ ⟨⟩
  refine ⟨h.update hhalted (hmoved.numbered h.numbered) hkept ?_ htakes, .inr ⟨a, hstep⟩⟩
  intro j hj hlease
  apply Server.callback?_congr
  apply hmoved.threads_eq (h.lease_lt hhalted hlease)
  exact fun hsame => hj (hthread j hsame)

end Rules

section Call

variable (h : s.Sound) (hhalted : s.server.halted = none) {thread : Nat} {t : Thread} {cb : Callback}
  {lease : Lease} (hcb : s.server.callback? thread = some (t, cb))
  (hl : s.leases thread = some lease)
include h hhalted hcb hl

theorem Sound.for_callback : cb.Short ∧ lease.Ready s.packets.pool cb := by
  obtain ⟨t', cb', hcb', hshort, hready⟩ := h.calling hhalted thread lease hl
  rw [hcb] at hcb'
  cases hcb'
  exact ⟨hshort, hready⟩

omit hhalted hcb in
theorem Sound.keeps {server : Server φ} {lease' : Lease}
    (hsub : lease'.packets.Sublist lease.packets)
    (hcalling : server.halted = none → lease'.For server s.packets.pool thread) :
    s.Takes thread server s.packets lease' := by
  obtain ⟨hnodup, hout⟩ := h.owned thread lease hl
  refine ⟨hnodup.sublist hsub, fun p hp => hout p (hsub.subset hp), fun p hp _ => ?_, hcalling⟩
  rw [mine_eq hl]
  exact hsub.subset hp

theorem goes_parse (hstage : lease.stage = .between) {pdu : PDU} {todo : List PDU}
    (heffects : cb.effects = []) (htodo : cb.todo = pdu :: todo) :
    s.Goes libc (do
      let packets ← s.packets.fill lease.packet pdu
      return some (({ s with packets := packets }).lend thread
        (some { lease with stage := .parsed }))) := by
  obtain ⟨hshort, -⟩ := h.for_callback hhalted hcb hl
  obtain ⟨hnodup, hout⟩ := h.owned thread lease hl
  have hpackets : lease.packets = [lease.packet] := by simp only [Lease.packets, hstage]
  have hparsed : ({ lease with stage := .parsed } : Lease).packets = lease.packets := hpackets.symm
  obtain ⟨packets, old, hfill, hkept, hsame, hread⟩ :=
    PoolUse.Kept.fill h.intact h.whole (hout lease.packet (by simp [hpackets])) pdu
  rw [hfill]
  rw [← hpackets, ← mine_eq hl] at hkept
  refine h.stutters hhalted hkept ⟨?_, ?_, ?_, fun _ => ⟨t, cb, hcb, hshort, ?_⟩⟩
  · rw [hparsed]
    exact hnodup
  · rw [hparsed, hsame]
    exact hout
  · rw [hparsed, mine_eq hl]
    exact fun _ hp _ => hp
  · exact ⟨pdu, todo, _, heffects, htodo, hread, rfl⟩

theorem goes_process (hstage : lease.stage = .parsed) :
    s.Goes libc (do
      let content ← s.packets.pool.load lease.packet
      return some (({ s with
        server := s.server.processFound libc thread t cb content.pdu }).lend thread
          (some { lease with stage := .between }))) := by
  obtain ⟨hshort, hready⟩ := h.for_callback hhalted hcb hl
  unfold Lease.Ready at hready
  rw [hstage] at hready
  obtain ⟨pdu, todo, content, heffects, htodo, hread, rfl⟩ := hready
  rw [PacketPool.load_of_read hread]
  have hpackets : ({ lease with stage := .between } : Lease).packets = lease.packets := by
    simp only [Lease.packets, hstage]
  refine h.moves hhalted (Server.step_process hcb hhalted heffects htodo)
    (fun c hc => (Option.some.inj hc).symm) ((PoolUse.Kept.refl h.intact h.whole).mono nofun) ?_
  rintro _ ⟨⟩
  refine h.keeps hl (by rw [hpackets]) fun hrunning => ?_
  rcases s.server.processFound_cases thread t cb content.pdu with hhalts | ⟨machine, u, hrun, hfound⟩
  · exact absurd hrunning hhalts
  rw [hfound]
  refine ⟨_, _, Server.callback?_set _ _ rfl, ?_, trivial⟩
  intro e he m hm
  have hmax : protocolDataLenMax = 4080 := rfl
  have hsaid : content.pdu.Says e := says_of_run hrun e he
  cases hsaid with
  | setLogin => cases hm
  | replyToClient hdata =>
      cases hm
      dsimp only
      omega
  | replyToUdp hdata =>
      cases hm
      dsimp only
      omega

theorem goes_effect (hstage : lease.stage = .between) {e : Effect} {effects : List Effect}
    (heffects : cb.effects = e :: effects) (allocated : Bool) {packets : PoolUse}
    (hkept : s.packets.Kept packets []) (hout : ∀ p ∈ s.packets.out, p ∈ packets.out) :
    s.Goes libc (.ok ((s.server.step libc (.effect thread allocated fun _ => 0)).map fun server =>
      { s with server := server, packets := packets })) := by
  obtain ⟨hshort, -⟩ := h.for_callback hhalted hcb hl
  obtain ⟨u, hstep⟩ : ∃ u : Server φ,
      s.server.step libc (.effect thread allocated fun _ => 0) = some (u.setThread thread
        (some { t with phase := .callback { cb with effects := effects } })) :=
    Server.step_effect hcb hhalted heffects allocated fun _ => 0
  obtain ⟨hnodup, howned⟩ := h.owned thread lease hl
  rw [hstep, Option.map_some, ← lend_self (s := ⟨_, packets, s.leases⟩) (by exact hl)]
  refine h.moves hhalted hstep (fun c hc => (Option.some.inj hc).symm) (hkept.mono nofun) ?_
  · rintro _ ⟨⟩
    refine ⟨hnodup, fun p hp => hout p (howned p hp), ?_, fun _ => ?_⟩
    · rw [mine_eq hl]
      exact fun _ hp _ => hp
    · refine ⟨_, _, Server.callback?_set _ _ rfl, ?_, ?_⟩
      · intro e' he'
        exact hshort e' (by rw [heffects]; exact List.mem_cons_of_mem _ he')
      · unfold Lease.Ready
        rw [hstage]
        trivial

theorem goes_build (hstage : lease.stage = .between) {e : Effect} {effects : List Effect}
    {m : Message} (heffects : cb.effects = e :: effects) (hmessage : e.message? = some m)
    (mallocs : Mallocs) : s.Goes libc (s.build libc thread lease m mallocs) := by
  obtain ⟨hshort, -⟩ := h.for_callback hhalted hcb hl
  obtain ⟨hnodup, howned⟩ := h.owned thread lease hl
  have hfits := hshort e (by rw [heffects]; exact List.mem_cons_self) m hmessage
  obtain ⟨result, packets, hget, hhanded⟩ := h.intact.getBuffer protocolDataSizeMax mallocs
  have hkept := hhanded.kept h.whole
  have hout : ∀ p ∈ s.packets.out, p ∈ packets.out := fun p hp => hkept.out p hp nofun
  unfold build
  rw [hget]
  cases result with
  | none => exact goes_effect h hhalted hcb hl hstage heffects false hkept hout
  | some reply =>
      obtain ⟨content, hread, hroom⟩ := (hhanded.whole h.whole).2 reply rfl
      obtain ⟨hnew, hunused⟩ := hhanded.fresh
      have hwhole : (content.build m).2.Whole := (hkept.whole reply content hread).fill _
      obtain ⟨pool, hstore, hstored, hhere⟩ :=
        PoolUse.Kept.store hkept.intact hkept.whole hread hwhole
      have hbuilt := CccPacket.build_holds hroom hfits
      simp only [bind, Except.bind, PacketPool.load_of_read hread, hstore]
      have hpackets : lease.packets = [lease.packet] := by simp only [Lease.packets, hstage]
      have hmine := howned lease.packet (by simp [hpackets])
      refine h.stutters hhalted ((hkept.trans hstored).mono ?_) ⟨?_, ?_, ?_, fun _ => ?_⟩
      · intro p hp hmem
        rw [List.nil_append, List.mem_singleton] at hmem
        exact absurd (hmem ▸ hp) hunused
      · refine List.nodup_cons.mpr ⟨?_, List.nodup_singleton _⟩
        intro hmem
        exact hunused (List.mem_singleton.mp hmem ▸ hmine)
      · intro p hp
        simp only [Lease.packets, List.mem_cons, List.not_mem_nil, or_false] at hp
        rcases hp with rfl | rfl
        · exact hout _ hmine
        · exact hnew
      · intro p hp hold
        simp only [Lease.packets, List.mem_cons, List.not_mem_nil, or_false] at hp
        rcases hp with rfl | rfl
        · rw [mine_eq hl, hpackets]
          exact List.mem_cons_self
        · exact absurd hold hunused
      · exact ⟨t, cb, hcb, hshort, e, effects, m, _, heffects, hmessage, hhere, hbuilt⟩

theorem goes_send {reply size : Nat} (hstage : lease.stage = .built reply size) (kernel : Nat → Int) :
    s.Goes libc (do
      let content ← s.packets.pool.load reply
      let frame := content.buffer.map (·.take size)
      return some (({ s with
        server := s.server.sendFound thread t cb frame size kernel }).lend thread
          (some { lease with stage := .sent reply }))) := by
  obtain ⟨hshort, hready⟩ := h.for_callback hhalted hcb hl
  unfold Lease.Ready at hready
  rw [hstage] at hready
  obtain ⟨e, effects, m, content, heffects, hmessage, hread, hholds⟩ := hready
  rw [PacketPool.load_of_read hread]
  have hfits := hshort e (by rw [heffects]; exact List.mem_cons_self) m hmessage
  have hpackets : ({ lease with stage := .sent reply } : Lease).packets = lease.packets := by
    simp only [Lease.packets, hstage]
  refine h.moves hhalted
    (Server.step_found hcb hhalted heffects hmessage hholds hfits kernel) (fun c hc => (Option.some.inj hc).symm)
    ((PoolUse.Kept.refl h.intact h.whole).mono nofun) ?_
  rintro _ ⟨⟩
  refine h.keeps hl (by rw [hpackets]) fun _ => ⟨_, _, Server.callback?_set _ _ rfl, ?_, trivial⟩
  intro e' he'
  exact hshort e' (List.mem_of_mem_tail he')

theorem goes_handBack {reply : Nat} (hstage : lease.stage = .sent reply) (node : Bool) :
    s.Goes libc (do
      let (_, packets) ← s.packets.set (some reply) node
      return some (({ s with packets := packets }).lend thread
        (some { lease with stage := .between }))) := by
  obtain ⟨hshort, -⟩ := h.for_callback hhalted hcb hl
  obtain ⟨hnodup, howned⟩ := h.owned thread lease hl
  have hpackets : lease.packets = [lease.packet, reply] := by simp only [Lease.packets, hstage]
  rw [hpackets] at hnodup howned
  have hne : lease.packet ≠ reply := by simpa using hnodup
  obtain ⟨result, packets, hset, hkept⟩ :=
    PoolUse.Kept.set h.intact h.whole (howned reply (by simp)) node
  rw [hset]
  refine h.stutters hhalted (hkept.mono ?_)
    ⟨List.nodup_singleton _, ?_, ?_, fun _ => ⟨t, cb, hcb, hshort, trivial⟩⟩
  · intro p _ hp
    rw [mine_eq hl, hpackets]
    exact List.mem_cons_of_mem _ hp
  · intro p hp
    obtain rfl : p = lease.packet := List.mem_singleton.mp hp
    exact hkept.out _ (howned _ List.mem_cons_self) (by simpa using hne)
  · intro p hp _
    obtain rfl : p = lease.packet := List.mem_singleton.mp hp
    rw [mine_eq hl, hpackets]
    exact List.mem_cons_self

theorem goes_call (a : PooledAction) : s.Goes libc (s.call libc thread t cb lease a) := by
  have hkept := PoolUse.Kept.refl h.intact h.whole
  cases a with
  | parse =>
      unfold call
      dsimp only
      split
      · rename_i hstage heffects htodo
        exact goes_parse h hhalted hcb hl hstage heffects htodo
      · exact goes_none
  | process =>
      unfold call
      dsimp only
      split
      · rename_i hstage
        exact goes_process h hhalted hcb hl hstage
      · exact goes_none
  | setLogin =>
      unfold call
      dsimp only
      split
      · rename_i hstage heffects
        exact goes_effect h hhalted hcb hl hstage heffects true hkept fun _ hp => hp
      · exact goes_none
  | build _ mallocs =>
      unfold call
      dsimp only
      split
      · rename_i m hstage hmessage
        obtain ⟨e, hhead, hmessage⟩ := Option.bind_eq_some_iff.mp hmessage
        obtain ⟨effects, heffects⟩ := List.head?_eq_some_iff.mp hhead
        exact goes_build h hhalted hcb hl hstage heffects hmessage mallocs
      · exact goes_none
  | send _ kernel =>
      unfold call
      dsimp only
      split
      · rename_i reply size hstage
        exact goes_send h hhalted hcb hl hstage kernel
      · exact goes_none
  | handBack _ node =>
      unfold call
      dsimp only
      split
      · rename_i reply hstage
        exact goes_handBack h hhalted hcb hl hstage node
      · exact goes_none
  | server | chunk | done => exact goes_none

end Call

section Steps

variable (h : s.Sound) (hhalted : s.server.halted = none) {thread : Nat}
include h hhalted

theorem Sound.unleased (hcb : s.server.callback? thread = none) : s.leases thread = none := by
  cases hl : s.leases thread with
  | none => rfl
  | some lease =>
      obtain ⟨t, cb, hsome, -⟩ := h.calling hhalted thread lease hl
      rw [hcb] at hsome
      cases hsome

theorem goes_unleased {a : Action} {packets : PoolUse} (hkept : s.packets.Kept packets [])
    (hthread : ∀ server, s.server.step libc a = some server →
      (∀ c, a.thread? = some c → c = thread) ∧ s.leases thread = none) :
    s.Goes libc (.ok ((s.server.step libc a).map fun server =>
      { s with server := server, packets := packets })) := by
  cases hstep : s.server.step libc a with
  | none => exact goes_none
  | some server =>
      obtain ⟨hthread, hnone⟩ := hthread server hstep
      rw [Option.map_some, ← lend_self (s := ⟨server, packets, s.leases⟩) (by exact hnone)]
      exact h.moves hhalted hstep hthread (hkept.mono nofun) nofun

theorem goes_outside {a : Action} (houtside : Outside a = true) :
    s.Goes libc (.ok ((s.server.step libc a).map fun server => { s with server := server })) := by
  refine @goes_unleased _ _ _ h hhalted (a.thread?.getD s.server.accepted) _ _
    (PoolUse.Kept.refl h.intact h.whole) fun server hstep => ?_
  cases hthread : a.thread? with
  | some c =>
      refine ⟨fun d hd => (Option.some.inj hd).symm, ?_⟩
      exact h.unleased hhalted (Server.step_outside houtside hstep hthread)
  | none =>
      refine ⟨nofun, Option.not_isSome_iff_eq_none.mp fun hsome => ?_⟩
      exact Nat.lt_irrefl _ (h.lease_lt hhalted hsome)

theorem goes_chunk (bytes : List UInt8) (mallocs : Mallocs) :
    s.Goes libc (s.chunk libc thread bytes mallocs) := by
  obtain ⟨result, packets, hget, hhanded⟩ := h.intact.getPduBuf protoDataLenMax mallocs
  have hkept := hhanded.kept h.whole
  unfold chunk
  rw [hget]
  cases result with
  | none =>
      refine @goes_unleased _ _ _ h hhalted thread _ _ hkept fun server hstep => ?_
      exact ⟨fun c hc => (Option.some.inj hc).symm,
        h.unleased hhalted (Server.step_chunk hstep).1⟩
  | some packet =>
      obtain ⟨content, hread, -⟩ := (hhanded.whole h.whole).2 packet rfl
      obtain ⟨hnew, hunused⟩ := hhanded.fresh
      simp only [bind, Except.bind, PacketPool.load_of_read hread]
      cases hstep : s.server.step libc (.chunk thread bytes (some content.pdu)) with
      | none => exact goes_none
      | some server =>
          obtain ⟨-, hcallback⟩ := Server.step_chunk hstep
          refine h.moves hhalted hstep (fun c hc => (Option.some.inj hc).symm) (hkept.mono nofun) ?_
          rintro _ ⟨⟩
          refine ⟨List.nodup_singleton _, ?_, ?_, fun hrunning => ?_⟩
          · intro p hp
            rwa [List.mem_singleton.mp hp]
          · intro p hp hold
            obtain rfl : p = packet := List.mem_singleton.mp hp
            exact absurd hold hunused
          · obtain ⟨t, cb, hcb, heffects⟩ := hcallback hrunning
            refine ⟨t, cb, hcb, fun e he => ?_, trivial⟩
            rw [heffects] at he
            cases he

theorem goes_done (hstage : ∀ lease, s.leases thread = some lease → lease.stage = .between)
    (node : Bool) : s.Goes libc (s.done libc thread node) := by
  unfold done
  cases hstep : s.server.step libc (.done thread) with
  | none => exact goes_none
  | some server =>
      have hback : ∃ packets, putBack s.packets (s.leases thread) node = .ok packets ∧
          s.packets.Kept packets (s.mine thread) := by
        have hsame : s.packets.Kept s.packets (s.mine thread) :=
          (PoolUse.Kept.refl h.intact h.whole).mono nofun
        cases hl : s.leases thread with
        | none => exact ⟨s.packets, rfl, hsame⟩
        | some lease =>
            cases hleft : lease.left with
            | none =>
                refine ⟨s.packets, ?_, hsame⟩
                unfold putBack
                split
                · rename_i hlease
                  cases hlease
                  cases hleft
                · rfl
            | some pdu =>
                have hpackets : lease.packets = [lease.packet] := by
                  simp only [Lease.packets, hstage lease hl]
                have hheld := (h.owned thread lease hl).2 lease.packet (by simp [hpackets])
                obtain ⟨filled, old, hfill, hkept, hout, -⟩ :=
                  PoolUse.Kept.fill h.intact h.whole hheld pdu
                obtain ⟨result, packets, hset, hkept'⟩ :=
                  PoolUse.Kept.set hkept.intact hkept.whole (hout ▸ hheld) node
                refine ⟨packets, ?_, (hkept.trans hkept').mono fun p _ hp => ?_⟩
                · obtain ⟨packet, left, stage⟩ := lease
                  cases hleft
                  simp only [putBack, hfill, hset, bind, Except.bind]
                  rfl
                · rw [mine_eq hl, hpackets]
                  simpa using hp
      obtain ⟨packets, hput, hkept⟩ := hback
      simp only [hput]
      exact h.moves hhalted hstep (fun c hc => (Option.some.inj hc).symm) hkept nofun

end Steps

theorem Sound.step (h : s.Sound) (a : PooledAction) : s.Goes libc (s.step libc a) := by
  unfold PooledServer.step
  split
  · exact goes_none
  rename_i hrunning
  have hhalted : s.server.halted = none := by simpa using hrunning
  have hcall : ∀ thread, s.Goes libc (s.inCallback libc thread a) := by
    intro thread
    unfold inCallback
    split
    · rename_i hcb hl
      exact goes_call h hhalted hcb hl a
    · exact goes_none
  cases a with
  | server a =>
      dsimp only
      split
      · rename_i houtside
        exact goes_outside h hhalted houtside
      · exact goes_none
  | chunk thread bytes mallocs => exact goes_chunk h hhalted bytes mallocs
  | done thread node =>
      dsimp only
      split
      · rename_i hnone
        exact goes_done h hhalted (fun lease hl => by rw [hnone] at hl; cases hl) node
      · rename_i hlease
        exact goes_done h hhalted (fun lease hl => by rw [hlease] at hl; cases hl; rfl) node
      · exact goes_none
  | parse thread | process thread | setLogin thread => exact hcall thread
  | build thread mallocs => exact hcall thread
  | send thread kernel => exact hcall thread
  | handBack thread node => exact hcall thread

/-- In every run the threads share the pool without a fault and no packet is with two of
them; and the server, with the PDUs and frames that they find in their packets, is one that
the server reaches which has a packet of its own for each. -/
theorem refines_server {machine : Machine φ} (h : (pooledServer libc machine).Reachable s) :
    (CccUpgrade.server libc machine).Reachable s.server ∧
      (∀ a f, s.step libc a ≠ .error f) ∧
      ∀ i j li lj, s.leases i = some li → s.leases j = some lj → i ≠ j →
        li.packets.Disjoint lj.packets := by
  have hsim : ∀ (s : PooledServer φ) a s', s.Sound → True →
      (pooledServer libc machine).step s a = some s' →
      s'.Sound ∧ (s'.server = s.server ∨
        ∃ b, (CccUpgrade.server libc machine).step s.server b = some s'.server) := by
    intro s a s' hs _ hstep
    have hgoes : s.Goes libc (s.step libc a) := hs.step a
    obtain ⟨next, hnext, hgoes⟩ := hgoes
    simp only [pooledServer, hnext] at hstep
    exact hgoes s' hstep
  obtain ⟨hsound, hreach⟩ := h.simulated PooledServer.server Sound ⟨sound_init machine, rfl⟩ hsim
  refine ⟨hreach, fun a f hfault => ?_, hsound.apart⟩
  have hgoes : s.Goes libc (s.step libc a) := hsound.step a
  obtain ⟨next, hnext, -⟩ := hgoes
  rw [hnext] at hfault
  cases hfault

/-- While one thread builds the answer to a login, another gets a packet. -/
def twoCallbacks : List PooledAction :=
  [.server Server.firstClient, .server (.recv 0), .server Server.secondClient, .server (.recv 1),
    .chunk 0 (Message.frame ⟨pcsClientLogin, pcsEx01, literal "wrong"⟩) plenty, .parse 0, .process 0,
    .chunk 1 [0x7e] plenty, .build 0 plenty]

theorem refines_server_two : ∃ s : PooledServer Unit,
    (s.leases 0).map Lease.packets = some [0, 2] ∧ (s.leases 1).map Lease.packets = some [1] ∧
      (CccUpgrade.server obligingLibc idleMachine).Reachable s.server ∧
      (∀ a f, s.step obligingLibc a ≠ .error f) ∧
      ∀ i j li lj, s.leases i = some li → s.leases j = some lj → i ≠ j →
        li.packets.Disjoint lj.packets := by
  have hinit : (pooledServer obligingLibc idleMachine).Reachable (init idleMachine) := .init
  obtain ⟨s, hreach, hs⟩ := hinit.exec twoCallbacks (fun _ _ _ => trivial)
    (fun s => ((s.leases 0).map Lease.packets, (s.leases 1).map Lease.packets))
    (b := (some [0, 2], some [1])) (by decide +kernel)
  obtain ⟨hfirst, hsecond⟩ := Prod.mk.inj hs
  exact ⟨s, hfirst, hsecond, refines_server hreach⟩

end PooledServer

end CccUpgrade
