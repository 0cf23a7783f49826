import CccUpgrade.Network.ClientSession
import CccUpgrade.Server.PoolRefinement
import CccUpgrade.Server.ReplyStreams

/-! A receive thread that is left alone gets through whatever it receives, and does with it
what the receive loop of a single client does. -/
namespace CccUpgrade

open Lib ConnectTable

variable {φ : Type}

theorem Outbound.written_append (out : Outbound) (conns : ConnectTable) (sock : Int) (r : TcpSend) :
    { out with conns := conns, tcp := out.tcp ++ [(sock, r)] }.written sock =
      out.written sock ++ r.written := by
  simp [Outbound.written]

theorem Outbound.replyToUdp_same (out : Outbound) (handle : Int) (cmd cmdEx : UInt8)
    (data : List UInt8) (answer : Answer) :
    ∃ udp, out.replyToUdp handle cmd cmdEx data answer = { out with udp := udp } := by
  unfold Outbound.replyToUdp
  split
  · exact ⟨out.udp, rfl⟩
  dsimp only
  split
  · exact ⟨out.udp, rfl⟩
  · exact ⟨_, rfl⟩

namespace Server

/-- The server is, for the connection in a slot, in the state of a single client's world.
`before` was written to the connection earlier. -/
structure Mirrors (s : Server φ) (c : Nat) (slot : Fin clientCountMax) (sock : Int)
    (before : List UInt8) (w : World φ) : Prop where
  paired : s.Paired
  running : s.halted = none
  valid : (s.conns slot).bValid = true
  number : (s.conns slot).sock = sock
  machine : s.machine.unspoken = w.machine.unspoken
  conns : s.conns = w.out.conns
  sent : sentTo s.log c = before ++ w.out.written sock

def Alone (c : Nat) (_ : Server φ) (a : Action) : Prop := a.thread? = some c

theorem Paired.own {libc : Libc φ} {s s' : Server φ} (h : s.Paired) {a : Action} {c : Nat}
    (halone : a.thread? = some c) (hstep : s.step libc a = some s') : s'.Paired := by
  apply h.moved _ (step_moved hstep)
  cases a with
  | accept => cases halone
  | _ => trivial

section Effects

variable {s : Server φ} {c : Nat} {slot : Fin clientCountMax} {sock : Int}
  {before : List UInt8} {w : World φ} {t : Thread} {cb : Callback}

theorem Mirrors.reply (h : s.Mirrors c slot sock before w) (hheld : s.fds sock = some c)
    (hsrc : cb.src = c) (hhandle : cb.handle = slot.val) (cmd cmdEx : UInt8) (data : List UInt8)
    (answer : Answer) :
    ∃ log, s.reply cb cmd cmdEx data answer.allocated answer.kernel = { s with log := log } ∧
      sentTo log c = before ++ (w.out.replyToClient slot.val cmd cmdEx data answer).written sock ∧
      (w.out.replyToClient slot.val cmd cmdEx data answer).conns = w.out.conns := by
  have hconns := h.conns
  have hsock := h.number
  unfold Server.reply Outbound.replyToClient
  rw [← hconns]
  split
  · exact ⟨s.log, rfl, h.sent, hconns.symm⟩
  dsimp only
  split
  · exact ⟨s.log, rfl, h.sent, hconns.symm⟩
  rw [hhandle, slot?_slot]
  dsimp only
  rw [hsock, Outbound.written_append, ← List.append_assoc, ← h.sent]
  split
  · rename_i hnone
    refine ⟨s.log, rfl, ?_, rfl⟩
    rw [TcpSend.written, hnone, List.flatMap_nil, List.append_nil]
  · rw [Option.bind_some, hsock, hheld]
    refine ⟨_, rfl, ?_, rfl⟩
    rw [hsrc, sentTo_self]

theorem Mirrors.setLogin (h : s.Mirrors c slot sock before w) (hhandle : cb.handle = slot.val) :
    ∃ fds log, s.setLogin cb =
        { s with conns := (w.out.setLogin slot.val).conns, fds := fds, log := log } ∧
      sentTo log c = before ++ (w.out.setLogin slot.val).written sock ∧
      ((s.setLogin cb).conns slot).bValid = true ∧ ((s.setLogin cb).conns slot).sock = sock := by
  have hlogin : internalClientManagerLogin s.conns slot.val =
      ⟨true, loggedIn s.conns slot, tcpClose (s.conns (other slot)).sock⟩ := by
    simp only [internalClientManagerLogin, slot?_slot, close_slot, h.valid]
    simp [loggedIn, (other_ne slot).symm]
  have hself : (loggedIn s.conns slot slot).bValid = true ∧
      (loggedIn s.conns slot slot).sock = sock := by
    rw [loggedIn_self]
    exact ⟨h.valid, h.number⟩
  unfold Server.setLogin Outbound.setLogin
  rw [hhandle, ← h.conns, hlogin]
  dsimp only
  rw [close_conns]
  rcases close_cases { s with conns := loggedIn s.conns slot }
    (tcpClose (s.conns (other slot)).sock) (.login cb.src) with heq | ⟨n, d, -, -, heq⟩ <;> rw [heq]
  · exact ⟨s.fds, s.log, rfl, h.sent, hself⟩
  · exact ⟨_, _, rfl, h.sent, hself⟩

theorem Mirrors.effect (h : s.Mirrors c slot sock before w) (libc : Libc φ)
    (ht : s.threads c = some t) (hslot : t.slot = slot) (hphase : t.phase = .callback cb) {e : Effect} {effects : List Effect}
    (heffects : cb.effects = e :: effects) (answer : Answer) :
    ∃ s', s.step libc (.effect c answer.allocated answer.kernel) = some s' ∧
      s'.threads c = some { t with phase := .callback { cb with effects := effects } } ∧
      s'.Mirrors c slot sock before { w with out := w.out.perform slot.val answer e } := by
  subst slot
  obtain ⟨hsrc, hhandle⟩ := h.paired.serves_callback ht hphase
  have hheld := h.paired.held_by ht h.valid
  rw [h.number] at hheld
  cases e with
  | setLogin =>
      obtain ⟨fds, log, hrun, hsent, hvalid, hsock⟩ := h.setLogin hhandle
      have hstep : s.step libc (.effect c answer.allocated answer.kernel) = some ((s.setLogin cb).setCallback
          c t { cb with effects := effects }) := by
        simp [step, h.running, ht, Server.effect, hphase, heffects, setCallback]
      refine ⟨_, hstep, ?_, h.paired.own rfl hstep, ?_, hvalid, hsock, ?_, ?_, ?_⟩
      · exact Function.update_self ..
      · rw [hrun]
        exact h.running
      · rw [hrun]
        exact h.machine
      · rw [hrun]
        rfl
      · rw [hrun]
        exact hsent
  | replyToClient cmd cmdEx data =>
      obtain ⟨log, hrun, hsent, hconns⟩ := h.reply hheld hsrc hhandle cmd cmdEx data answer
      have hstep : s.step libc (.effect c answer.allocated answer.kernel) =
          some (({ s with log := log }).setCallback c t { cb with effects := effects }) := by
        simp [step, h.running, ht, Server.effect, hphase, heffects, setCallback, hrun]
      refine ⟨_, hstep, ?_, h.paired.own rfl hstep, h.running, h.valid, h.number,
        h.machine, ?_, hsent⟩
      · exact Function.update_self ..
      · exact h.conns.trans hconns.symm
  | replyToUdp cmd cmdEx data =>
      have hstep : s.step libc (.effect c answer.allocated answer.kernel) =
          some (s.setCallback c t { cb with effects := effects }) := by
        simp [step, h.running, ht, Server.effect, hphase, heffects, setCallback]
      obtain ⟨udp, hsame⟩ := w.out.replyToUdp_same t.slot.val cmd cmdEx data answer
      refine ⟨_, hstep, ?_, h.paired.own rfl hstep, h.running, h.valid, h.number, h.machine, ?_, ?_⟩
      · exact Function.update_self ..
      · rw [Outbound.perform, hsame]
        exact h.conns
      · rw [Outbound.perform, hsame]
        exact h.sent

end Effects

section Run

variable {libc : Libc φ} {machine : Machine φ} {s : Server φ} {c : Nat} {slot : Fin clientCountMax}
  {sock : Int} {before : List UInt8} {w : World φ} {t : Thread} {cb : Callback}

def doing (t : Thread) (cb : Callback) (todo : List PDU) (effects : List Effect) : Thread :=
  { t with phase := .callback { cb with todo := todo, effects := effects } }

def Yields (s : Server φ) (c : Nat) (slot : Fin clientCountMax) (sock : Int) (before : List UInt8)
    (t : Thread) : Except Fault (World φ) → Prop
  | .error f => s.halted = some f
  | .ok w => s.Mirrors c slot sock before w ∧ s.threads c = some t

theorem Mirrors.effects (hslot : t.slot = slot) {todo : List PDU} {effects : List Effect}
    {answers : Nat → Answer} (h : s.Mirrors c slot sock before w)
    (ht : s.threads c = some (doing t cb todo effects)) :
    ∃ s', (server libc machine).Leads (Alone c) s s' ∧
      s'.threads c = some (doing t cb todo []) ∧
      s'.Mirrors c slot sock before
        { w with out := Outbound.performAll slot.val effects answers w.out } := by
  induction effects generalizing s w answers with
  | nil => exact ⟨s, .refl s, ht, h⟩
  | cons e effects ih =>
      obtain ⟨s₁, hstep, ht₁, h₁⟩ := h.effect libc ht hslot rfl rfl (answers 0)
      obtain ⟨s', hrest, ht', h'⟩ := @ih _ _ (fun k => answers (k + 1)) h₁ ht₁
      exact ⟨s', .step (a := .effect ..) rfl hstep hrest, ht', h'⟩

theorem Mirrors.process (hslot : t.slot = slot) {pdu : PDU} {todo : List PDU} {answers : Nat → Answer}
    (h : s.Mirrors c slot sock before w) (ht : s.threads c = some (doing t cb (pdu :: todo) [])) :
    ∃ s', (server libc machine).Leads (Alone c) s s' ∧
      s'.Yields c slot sock before (doing t cb todo [])
        (w.process libc slot.val cb.bLogin pdu answers) := by
  have hmachine : ({ s.machine with effects := [] } : Machine φ) = w.machine.unspoken := h.machine
  unfold World.process
  cases hrun : processProtocolPdu libc pdu cb.bLogin w.machine.unspoken with
  | error f =>
      have hstep : s.step libc (.process c) = some { s with
          log := .processed c pdu (pdu.branch cb.bLogin) :: s.log
          halted := some f } := by
        simp [step, h.running, ht, Server.process, doing, hmachine, hrun]
      exact ⟨_, .one (a := .process c) rfl hstep, rfl⟩
  | ok result =>
      obtain ⟨⟨⟩, after⟩ := result
      have hstep : s.step libc (.process c) = some (({ s with
          log := .processed c pdu (pdu.branch cb.bLogin) :: s.log
          machine := after }).setThread c (some (doing t cb todo after.effects))) := by
        simp [step, h.running, ht, Server.process, doing, hmachine, hrun]
      have hnext : (({ s with
          log := .processed c pdu (pdu.branch cb.bLogin) :: s.log
          machine := after }).setThread c (some (doing t cb todo after.effects))).Mirrors c slot sock
          before ⟨after, w.out⟩ :=
        ⟨h.paired.own rfl hstep, h.running, h.valid, h.number, rfl, h.conns, h.sent⟩
      obtain ⟨s', hrest, ht', h'⟩ := hnext.effects hslot (Function.update_self ..)
      exact ⟨s', .step (a := .process c) rfl hstep hrest, h', ht'⟩

theorem Mirrors.processAll (hslot : t.slot = slot) {todo : List PDU} {answers : Nat → Nat → Answer}
    (h : s.Mirrors c slot sock before w) (ht : s.threads c = some (doing t cb todo [])) :
    ∃ s', (server libc machine).Leads (Alone c) s s' ∧
      s'.Yields c slot sock before (doing t cb [] [])
        (w.processAll libc slot.val cb.bLogin todo answers) := by
  induction todo generalizing s w answers with
  | nil => exact ⟨s, .refl s, h, ht⟩
  | cons pdu todo ih =>
      obtain ⟨s₁, hfirst, hyields⟩ :=
        @Mirrors.process _ libc machine _ _ _ _ _ _ _ _ hslot pdu todo (answers 0) h ht
      rw [World.processAll]
      cases hprocess : w.process libc slot.val cb.bLogin pdu (answers 0) with
      | error f =>
          rw [hprocess] at hyields
          exact ⟨s₁, hfirst, hyields⟩
      | ok w₁ =>
          rw [hprocess] at hyields
          obtain ⟨s', hrest, hlast⟩ := ih hyields.1 hyields.2
          exact ⟨s', hfirst.trans hrest, hlast⟩

theorem Mirrors.deliver (hslot : t.slot = slot) {r : ProcessData} {answers : Nat → Nat → Answer}
    (hconsume : cb.consume = r.consume) (hfault : cb.fault = r.fault)
    (h : s.Mirrors c slot sock before w) (ht : s.threads c = some (doing t cb r.dispatched [])) :
    ∃ s', (server libc machine).Leads (Alone c) s s' ∧
      s'.Yields c slot sock before
        { t with phase := .loop, mainBuf := t.mainBuf.drop r.consume.toNat }
        (w.deliver libc slot.val cb.bLogin r answers) := by
  obtain ⟨s₁, hall, hyields⟩ :=
    @Mirrors.processAll _ libc machine _ _ _ _ _ _ _ _ hslot r.dispatched answers h ht
  unfold World.deliver
  cases hprocess : w.processAll libc slot.val cb.bLogin r.dispatched answers with
  | error f =>
      rw [hprocess] at hyields
      exact ⟨s₁, hall, hyields⟩
  | ok w₁ =>
      rw [hprocess] at hyields
      obtain ⟨h₁, ht₁⟩ := hyields
      cases hend : r.fault with
      | some f =>
          have hstep : s₁.step libc (.done c) = some { s₁ with halted := some f } := by
            simp [step, h₁.running, ht₁, Server.done, doing, hfault, hend]
          exact ⟨_, hall.trans (.one (a := .done c) rfl hstep), rfl⟩
      | none =>
          have hstep : s₁.step libc (.done c) = some (s₁.setThread c (some
              { t with phase := .loop, mainBuf := t.mainBuf.drop r.consume.toNat })) := by
            simp [step, h₁.running, ht₁, Server.done, doing, hfault, hend, hconsume]
          refine ⟨_, hall.trans (.one (a := .done c) rfl hstep), ?_, Function.update_self ..⟩
          exact ⟨h₁.paired.own rfl hstep, h₁.running, h₁.valid, h₁.number, h₁.machine, h₁.conns, h₁.sent⟩

def Follows (s : Server φ) (c : Nat) (slot : Fin clientCountMax) (sock : Int) (before : List UInt8) :
    Except Fault (Client φ) → Prop
  | .error f => s.halted = some f
  | .ok client => s.Mirrors c slot sock before client.world ∧
      s.threads c = some ⟨slot, .loop, client.mainBuf⟩

theorem Mirrors.recv {client : Client φ} (h : s.Mirrors c slot sock before client.world)
    (ht : s.threads c = some ⟨slot, .loop, client.mainBuf⟩) {chunk : Chunk}
    (hsize : 1 ≤ chunk.recv.bytes.length ∧ chunk.recv.bytes.length ≤ recvDataBuffer) :
    ∃ s', (server libc machine).Leads (Alone c) s s' ∧
      s'.Follows c slot sock before (client.recv libc slot chunk) := by
  have hfd : s.fds (s.conns slot).sock = some c := h.paired.held_by ht h.valid
  have hrecv : s.step libc (.recv c) =
      some (s.setThread c (some ⟨slot, .blocked (some c), client.mainBuf⟩)) := by
    simp [step, h.running, ht, Server.recv, hfd]
  let s₁ := s.setThread c (some ⟨slot, .blocked (some c), client.mainBuf⟩)
  have hpaired : s₁.Paired := h.paired.own rfl hrecv
  have ht₁ : s₁.threads c = some ⟨slot, .blocked (some c), client.mainBuf⟩ := Function.update_self ..
  have hrunning : ¬ s₁.halted.isSome = true := by
    change ¬ s.halted.isSome = true
    rw [h.running]
    exact Bool.false_ne_true
  have hix : (s.conns slot).ix = slot.val := h.paired.ok.ix slot
  unfold Client.recv
  split
  · rename_i hfull
    have hchunk : s₁.step libc (.chunk c chunk.recv.bytes chunk.recv.packet) = some { s₁ with
        halted := some (.mainBuf (client.mainBuf.length + chunk.recv.bytes.length)) } := by
      rw [step, if_neg hrunning]
      simp only [ht₁, Server.chunk, Option.bind_some, if_pos hsize, if_pos hfull]
    exact ⟨_, .step (a := .recv c) rfl hrecv (.one (a := .chunk ..) rfl hchunk), rfl⟩
  · rename_i hroom
    let mainBuf := client.mainBuf ++ chunk.recv.bytes
    let r := protocolAdapterProcessData chunk.recv.packet mainBuf
    let s₂ := ({ s₁ with log := .handed c c chunk.recv.bytes (s.conns slot) :: s.log }).setThread c
      (some ⟨slot, .callback (called c (s.conns slot) r), mainBuf⟩)
    have hchunk : s₁.step libc (.chunk c chunk.recv.bytes chunk.recv.packet) = some s₂ := by
      rw [step, if_neg hrunning]
      simp only [ht₁, Server.chunk, Option.bind_some, if_pos hsize, if_neg hroom]
      rfl
    have h₂ : s₂.Mirrors c slot sock before client.world :=
      ⟨hpaired.own rfl hchunk, h.running, h.valid, h.number, h.machine, h.conns, h.sent⟩
    have hcall : s₂.threads c = some (doing ⟨slot, .loop, mainBuf⟩ (called c (s.conns slot) r)
      r.dispatched []) := Function.update_self ..
    obtain ⟨s', hrest, hyields⟩ :=
      @Mirrors.deliver _ libc machine _ _ _ _ _ _ _ _ rfl r chunk.answers rfl rfl h₂ hcall
    refine ⟨s', .step (a := .recv c) rfl hrecv (.step (a := .chunk ..) rfl hchunk hrest), ?_⟩
    dsimp only [World.clientData]
    rw [← h.conns, hix]
    change s'.Yields c slot sock before _ (client.world.deliver libc slot.val (s.conns slot).bLogin r
      chunk.answers) at hyields
    cases hdeliver : client.world.deliver libc slot.val (s.conns slot).bLogin r chunk.answers with
    | error f =>
        rw [hdeliver] at hyields
        exact hyields
    | ok world =>
        rw [hdeliver] at hyields
        exact hyields

theorem Mirrors.run {chunks : List Chunk} (hsize : ∀ chunk ∈ chunks,
      1 ≤ chunk.recv.bytes.length ∧ chunk.recv.bytes.length ≤ recvDataBuffer) {client : Client φ}
    (h : s.Mirrors c slot sock before client.world)
    (ht : s.threads c = some ⟨slot, .loop, client.mainBuf⟩) :
    ∃ s', (server libc machine).Leads (Alone c) s s' ∧
      s'.Follows c slot sock before (client.run libc slot chunks) := by
  induction chunks generalizing s client with
  | nil => exact ⟨s, .refl s, h, ht⟩
  | cons chunk chunks ih =>
      obtain ⟨s₁, hfirst, hfollows⟩ := @Mirrors.recv _ libc machine _ _ _ _ _ _ h ht chunk
        (hsize chunk List.mem_cons_self)
      rw [Client.run]
      cases hrecv : client.recv libc slot chunk with
      | error f =>
          rw [hrecv] at hfollows
          exact ⟨s₁, hfirst, hfollows⟩
      | ok next =>
          rw [hrecv] at hfollows
          obtain ⟨s', hrest, hlast⟩ :=
            ih (fun e he => hsize e (List.mem_cons_of_mem _ he)) hfollows.1 hfollows.2
          exact ⟨s', hfirst.trans hrest, hlast⟩

def client (s : Server φ) (mainBuf : List UInt8) (udpSock : Int) : Client φ :=
  ⟨mainBuf, s.machine, s.conns, udpSock, [], [], []⟩

end Run

end Server

end CccUpgrade
