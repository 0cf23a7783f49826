import CccUpgrade.Adapter.Discovery
import CccUpgrade.Server.ReplyStreams

/-! The whole program in service: the threads of the TCP server and, in the main thread, the
loop of udp_server.c, which share the state of the handlers. A datagram is answered to its
sender, and the TCP connections are served as if there were no datagrams. -/
namespace CccUpgrade

open Lib ConnectTable

structure SockAddr where
  sinAddr : Nat
  sinPort : Nat
deriving DecidableEq, Repr

inductive UdpPhase
  | recvfrom
  /-- In `protocol_adapter_process_udp_data`, with the PDU still to be processed, the calls
  its handler still has to make, and the fault the parser ends in. -/
  | callback (todo : List PDU) (effects : List Effect) (fault : Option Fault)

inductive UdpEvent
  | received (src : SockAddr) (bytes : List UInt8)
  /-- The calls of `sendto` of one reply, with the address passed to them. -/
  | sent (to' : SockAddr) (calls : List SendCall)
  /-- Bytes written to a client's socket. -/
  | toClient (bytes : List UInt8)
deriving DecidableEq

structure Host (φ : Type) where
  server : Server φ
  /-- `l_remote_addr`. -/
  remoteAddr : SockAddr
  udp : UdpPhase
  udpLog : List UdpEvent

inductive HostAction
  | tcp (a : Action)
  /-- `recvfrom` returns a datagram, and the callback starts with the given packet. -/
  | datagram (src : SockAddr) (bytes : List UInt8) (packet : Option PDU)
  | process
  | effect (allocated : Bool) (kernel : Nat → Int)
  | done

def HostAction.OfUdp : HostAction → Prop
  | .tcp _ => False
  | _ => True

structure UdpServer where
  /-- `l_sock_udp_server`. -/
  sock : Int
  /-- The address of `l_remote_addr`, converted to `int`. -/
  handle : Int

namespace Host

variable {φ : Type} (udp : UdpServer)

def udpDataBuffer : Nat := 1024

def init (machine : Machine φ) : Host φ := ⟨Server.init machine, ⟨0, 0⟩, .recvfrom, []⟩

def datagram (s : Host φ) (src : SockAddr) (bytes : List UInt8) (packet : Option PDU) :
    Option (Host φ) :=
  match s.udp with
  | .recvfrom =>
      if 1 ≤ bytes.length ∧ bytes.length ≤ udpDataBuffer then
        let r := protocolAdapterProcessUdpData packet bytes
        some { s with
          remoteAddr := src
          udp := .callback r.dispatched [] r.fault
          udpLog := .received src bytes :: s.udpLog }
      else none
  | _ => none

/-- `process_protocol_pdu` without a login, up to its calls into the network. -/
def process (libc : Libc φ) (s : Host φ) : Option (Host φ) :=
  match s.udp with
  | .callback (pdu :: todo) [] fault =>
      match processProtocolPdu libc pdu false { s.server.machine with effects := [] } with
      | .error f => some { s with server := { s.server with halted := some f } }
      | .ok ((), machine) =>
          some { s with
            server := { s.server with machine := machine }
            udp := .callback todo machine.effects fault }
  | _ => none

/-- `network_manager_client_set_login` with the address for a handle. -/
def setLogin (s : Host φ) : Host φ :=
  let call := internalClientManagerLogin s.server.conns udp.handle
  let fds := match call.closed with
    | none => s.server.fds
    | some sock => Function.update s.server.fds sock none
  { s with server := { s.server with conns := call.conns, fds := fds } }

/-- `send_reply_to_client` with the address for a handle. -/
def replyToClient (s : Host φ) (cmd cmdEx : UInt8) (data : List UInt8) (allocated : Bool)
    (kernel : Nat → Int) : Host φ :=
  if allocated = false then s
  else
    let out := createProtocolPacket cmd cmdEx (some data) data.length true protocolDataSizeMax
    if out.result ≤ 0 then s
    else
      let r := internalClientManagerSend kernel s.server.conns udp.handle (some out.packet) out.result
      if r.calls = [] then s
      else { s with udpLog := .toClient r.written :: s.udpLog }

/-- `send_reply_to_udp`. The address is read through the handle when it is sent to. -/
def replyToUdp (s : Host φ) (cmd cmdEx : UInt8) (data : List UInt8) (allocated : Bool)
    (kernel : Nat → Int) : Host φ :=
  if allocated = false then s
  else
    let out := createProtocolPacket cmd cmdEx (some data) data.length true protocolDataSizeMax
    if out.result ≤ 0 then s
    else
      let r := udpSendto kernel udp.sock (some out.packet) out.result
      { s with udpLog := .sent s.remoteAddr r.calls :: s.udpLog }

def effect (s : Host φ) (allocated : Bool) (kernel : Nat → Int) : Option (Host φ) :=
  match s.udp with
  | .callback todo (e :: effects) fault =>
      let s := match e with
        | .setLogin => s.setLogin udp
        | .replyToClient cmd cmdEx data => s.replyToClient udp cmd cmdEx data allocated kernel
        | .replyToUdp cmd cmdEx data => s.replyToUdp udp cmd cmdEx data allocated kernel
      some { s with udp := .callback todo effects fault }
  | _ => none

def done (s : Host φ) : Option (Host φ) :=
  match s.udp with
  | .callback [] [] none => some { s with udp := .recvfrom }
  | .callback [] [] (some f) => some { s with server := { s.server with halted := some f } }
  | _ => none

def step (libc : Libc φ) (s : Host φ) (a : HostAction) : Option (Host φ) :=
  if s.server.halted.isSome then none
  else match a with
    | .tcp a => (s.server.step libc a).map fun server => { s with server := server }
    | .datagram src bytes packet => s.datagram src bytes packet
    | .process => s.process libc
    | .effect allocated kernel => s.effect udp allocated kernel
    | .done => s.done

end Host

def host {φ : Type} (libc : Libc φ) (machine : Machine φ) (udp : UdpServer) :
    TransitionSystem (Host φ) HostAction where
  init := Host.init machine
  step := Host.step udp libc

def lastReceived : List UdpEvent → Option (SockAddr × List UInt8)
  | [] => none
  | .received src bytes :: _ => some (src, bytes)
  | .sent .. :: log => lastReceived log
  | .toClient _ :: log => lastReceived log

def AsksFirst (bytes : List UInt8) : Prop :=
  ∃ m, FirstFrame bytes m ∧ m.cmd = pcsDiscoverDevice

/-- What is sent is one discovery reply in a datagram of its own, to the sender of the latest
datagram, which asked for it. -/
def UdpEvent.Proper (earlier : List UdpEvent) : UdpEvent → Prop
  | .received .. => True
  | .sent to' calls => ∃ bytes data, lastReceived earlier = some (to', bytes) ∧
      AsksFirst bytes ∧ data.length ≤ 2052 ∧ calls.length ≤ 1 ∧
      ∀ call ∈ calls, call.offered = Message.frame ⟨pcsDiscoverDevice, pcsEx01, data⟩
  | .toClient _ => False

section Replies

variable {φ : Type} {libc : Libc φ}

theorem discover_of_replyToUdp {pdu : PDU} {machine machine' : Machine φ}
    (hrun : processProtocolPdu libc pdu false { machine with effects := [] } = .ok ((), machine'))
    {cmd cmdEx : UInt8} {data : List UInt8} (hmem : .replyToUdp cmd cmdEx data ∈ machine'.effects) :
    pdu.cmd = pcsDiscoverDevice := by
  by_contra hne
  let P : Effect → Prop := fun e => ∀ cmd cmdEx data, e ≠ .replyToUdp cmd cmdEx data
  have hemits : Emits P (processProtocolPdu libc pdu false) := by
    have hP : ∀ cmd, RepliesMeet P cmd := by
      intro _ _ _ _ _ _ _ h
      cases h
    have hlogsIn : P .setLogin := by
      intro _ _ _ h
      cases h
    by_cases hlogin : pdu.cmd = pcsClientLogin
    · rw [processProtocolPdu_login hlogin]
      exact emits_processProtocolClientLogin (hP _) hlogin fun _ => hlogsIn
    · have hrun : processProtocolPdu libc pdu false = pure () := by
        simp only [processProtocolPdu, PDU.branch, hne, hlogin, if_false, if_true]
      rw [hrun]
      exact .of_keeps Keeps.pure
  have hnone : ∀ e ∈ ({ machine with effects := [] } : Machine φ).effects, P e :=
    fun _ h => absurd h List.not_mem_nil
  exact hemits.ok hnone hrun _ hmem cmd cmdEx data rfl

theorem tcpSend_calls {kernel : Nat → Int} {buffer : List UInt8}
    (h : kernel 0 ≤ 0 ∨ kernel 0 = buffer.length) {sock : Int} (hsock : 0 < sock)
    (hbuffer : buffer ≠ []) :
    (tcpSend kernel sock (some buffer) buffer.length).calls = [⟨buffer, kernel 0⟩] := by
  have hpos := List.length_pos_iff.mpr hbuffer
  obtain ⟨n, hn⟩ : ∃ n, buffer.length = n + 1 := ⟨buffer.length - 1, by omega⟩
  have hfirst : (buffer.drop (0 : Int).toNat).take (buffer.length : Int).toNat = buffer := by
    simp
  have hend : ∀ fuel calls, tcpSendLoop kernel buffer fuel 0 (0 + buffer.length) calls =
      ⟨true, calls⟩ := by
    intro fuel calls
    cases fuel <;> simp [tcpSendLoop]
  unfold tcpSend
  dsimp only
  rw [if_neg (by omega), Int.toNat_natCast]
  nth_rewrite 1 [hn]
  rw [tcpSendLoop, if_pos (by omega)]
  dsimp only [List.length_nil, List.nil_append]
  rw [hfirst]
  split
  · rfl
  next hsent =>
    have hall := h.resolve_left hsent
    rw [hall, Int.sub_self, hend]

theorem tcpSend_whole {kernel : Nat → Int} {buffer : List UInt8}
    (h : kernel 0 ≤ 0 ∨ kernel 0 = buffer.length) (sock : Int) :
    (tcpSend kernel sock (some buffer) buffer.length).calls.length ≤ 1 ∧
      ∀ call ∈ (tcpSend kernel sock (some buffer) buffer.length).calls, call.offered = buffer := by
  by_cases hopen : 0 < sock ∧ buffer ≠ []
  · rw [tcpSend_calls h hopen.1 hopen.2]
    exact ⟨Nat.le_refl _, fun call hcall => by rw [List.mem_singleton.mp hcall]⟩
  · have hclosed : sock ≤ 0 ∨ (buffer.length : Int) ≤ 0 := by
      by_cases hsock : 0 < sock
      · refine .inr ?_
        rw [not_not.mp fun hne => hopen ⟨hsock, hne⟩]
        rfl
      · exact .inl (Int.not_lt.mp hsock)
    unfold tcpSend
    dsimp only
    rw [if_pos hclosed]
    exact ⟨Nat.zero_le _, nofun⟩

end Replies

def UdpPhase.next : UdpPhase → Option Message
  | .callback _ (.replyToUdp cmd cmdEx data :: _) _ => some ⟨cmd, cmdEx, data⟩
  | _ => none

/-- The UDP callback works on the latest datagram. -/
def UdpPhase.Answers (latest : Option (SockAddr × List UInt8)) (remoteAddr : SockAddr) :
    UdpPhase → Prop
  | .recvfrom => True
  | .callback todo effects _ => ∃ bytes, latest = some (remoteAddr, bytes) ∧
      (∀ pdu ∈ todo, ∃ m, FirstFrame bytes m ∧ pdu.Carries m) ∧ (∀ e ∈ effects, e.Harmless) ∧
      ∀ cmd cmdEx data, .replyToUdp cmd cmdEx data ∈ effects → AsksFirst bytes

namespace Host

variable {φ : Type} {udp : UdpServer} {libc : Libc φ} {s s' : Host φ}

def WholeDatagrams (s : Host φ) : HostAction → Prop
  | .effect _ kernel => ∀ reply ∈ s.udp.next, kernel 0 ≤ 0 ∨ kernel 0 = reply.frame.length
  | _ => True

instance (s : Host φ) : DecidablePred s.WholeDatagrams
  | .effect _ kernel =>
      inferInstanceAs (Decidable (∀ reply ∈ s.udp.next, kernel 0 ≤ 0 ∨ kernel 0 = reply.frame.length))
  | .tcp _ | .datagram .. | .process | .done => inferInstanceAs (Decidable True)

structure Answering (s : Host φ) : Prop where
  log : Throughout UdpEvent.Proper s.udpLog
  phase : s.udp.Answers (lastReceived s.udpLog) s.remoteAddr

theorem setLogin_eq (hslot : slot? udp.handle = none) (s : Host φ) : s.setLogin udp = s := by
  have hcall : internalClientManagerLogin s.server.conns udp.handle =
      ⟨false, s.server.conns, none⟩ := by
    simp only [internalClientManagerLogin, hslot]
  rw [setLogin, hcall]

theorem replyToClient_eq (hslot : slot? udp.handle = none) (s : Host φ) (cmd cmdEx : UInt8)
    (data : List UInt8) (allocated : Bool) (kernel : Nat → Int) :
    s.replyToClient udp cmd cmdEx data allocated kernel = s := by
  unfold replyToClient
  simp only [internalClientManagerSend, hslot, if_true, ite_self]

theorem datagram_answering (h : s.Answering) {src : SockAddr} {bytes : List UInt8}
    {packet : Option PDU} (hstep : s.datagram src bytes packet = some s') : s'.Answering := by
  unfold datagram at hstep
  split at hstep
  · split at hstep
    · cases hstep
      exact ⟨h.log.cons trivial, bytes, rfl, fun _ => firstFrame_of_dispatched, nofun, nofun⟩
    · cases hstep
  · cases hstep

theorem process_answering (h : s.Answering) (hstep : s.process libc = some s') :
    s'.Answering := by
  unfold process at hstep
  split at hstep
  next pdu todo fault hphase =>
    split at hstep
    · cases hstep
      exact ⟨h.log, h.phase⟩
    next machine hrun =>
      cases hstep
      have hphase' := h.phase
      rw [hphase] at hphase'
      obtain ⟨bytes, hlatest, htodo, -, -⟩ := hphase'
      obtain ⟨m, hfirst, hcarries⟩ := htodo pdu List.mem_cons_self
      refine ⟨h.log, bytes, hlatest, fun p hp => htodo p (List.mem_cons_of_mem _ hp), ?_, ?_⟩
      · have hdiscovers : Discovers (fun _ => ()) (processProtocolPdu libc pdu false) :=
          discovers_processProtocolPdu libc.silent_unit (fun _ _ => rfl) hcarries
        exact ((hdiscovers ()).ok ⟨rfl, harmless_nil⟩ hrun).2
      · intro cmd cmdEx data hmem
        exact ⟨m, hfirst, hcarries.cmd.symm.trans (discover_of_replyToUdp hrun hmem)⟩
  · cases hstep

theorem replyToUdp_allocated (s : Host φ) {data : List UInt8} (hdata : data.length ≤ 2052)
    (kernel : Nat → Int) :
    ∃ frame, frame = Message.frame ⟨pcsDiscoverDevice, pcsEx01, data⟩ ∧
      s.replyToUdp udp pcsDiscoverDevice pcsEx01 data true kernel =
        { s with udpLog :=
            .sent s.remoteAddr (tcpSend kernel udp.sock (some frame) frame.length).calls ::
              s.udpLog } := by
  have hsize : 7 < protocolDataSizeMax := by decide
  have hpacket := createProtocolPacket_packet ⟨pcsDiscoverDevice, pcsEx01, data⟩ hsize
    (by dsimp only; omega)
  have hresult : (createProtocolPacket pcsDiscoverDevice pcsEx01 (some data) data.length true
      protocolDataSizeMax).result =
        (Message.frame ⟨pcsDiscoverDevice, pcsEx01, data⟩).length := by
    rw [createProtocolPacket_eq ⟨pcsDiscoverDevice, pcsEx01, data⟩ hsize (by dsimp only; omega),
      Message.frame_length]
  unfold replyToUdp
  dsimp only at hpacket ⊢
  rw [hpacket, hresult, if_neg (by decide), if_neg (by rw [Message.frame_length]; omega)]
  exact ⟨_, rfl, rfl⟩

theorem replyToUdp_discovery (s : Host φ) {data : List UInt8} (hdata : data.length ≤ 2052)
    (allocated : Bool) (kernel : Nat → Int) :
    s.replyToUdp udp pcsDiscoverDevice pcsEx01 data allocated kernel = s ∨
      ∃ frame, frame = Message.frame ⟨pcsDiscoverDevice, pcsEx01, data⟩ ∧
        s.replyToUdp udp pcsDiscoverDevice pcsEx01 data allocated kernel =
          { s with udpLog :=
              .sent s.remoteAddr (tcpSend kernel udp.sock (some frame) frame.length).calls ::
                s.udpLog } := by
  cases allocated with
  | false => exact .inl rfl
  | true => exact .inr (replyToUdp_allocated s hdata kernel)

theorem replyToUdp_answering (h : s.Answering) {todo : List PDU} {cmd cmdEx : UInt8}
    {data : List UInt8} {effects : List Effect} {fault : Option Fault}
    (hphase : s.udp = .callback todo (.replyToUdp cmd cmdEx data :: effects) fault)
    (allocated : Bool) {kernel : Nat → Int}
    (hwhole : kernel 0 ≤ 0 ∨ kernel 0 = (Message.frame ⟨cmd, cmdEx, data⟩).length) :
    Throughout UdpEvent.Proper (s.replyToUdp udp cmd cmdEx data allocated kernel).udpLog ∧
      lastReceived (s.replyToUdp udp cmd cmdEx data allocated kernel).udpLog =
        lastReceived s.udpLog ∧
      (s.replyToUdp udp cmd cmdEx data allocated kernel).remoteAddr = s.remoteAddr := by
  have hanswers := h.phase
  rw [hphase] at hanswers
  obtain ⟨bytes, hlatest, -, hharmless, hasks⟩ := hanswers
  have hasked := hasks _ _ _ List.mem_cons_self
  cases hharmless _ List.mem_cons_self with
  | discovery hdata =>
      have hsent := @replyToUdp_discovery _ udp s data hdata allocated kernel
      rcases hsent with heq | ⟨frame, hframe, heq⟩ <;> rw [heq]
      · exact ⟨h.log, rfl, rfl⟩
      · rw [← hframe] at hwhole
        have hcalls := tcpSend_whole hwhole udp.sock
        rw [hframe] at hcalls
        rw [hframe]
        exact ⟨h.log.cons ⟨bytes, data, hlatest, hasked, hdata, hcalls⟩, rfl, rfl⟩

theorem effect_answering (hslot : slot? udp.handle = none) (h : s.Answering) {allocated : Bool}
    {kernel : Nat → Int} (hwhole : s.WholeDatagrams (.effect allocated kernel))
    (hstep : s.effect udp allocated kernel = some s') : s'.Answering := by
  unfold effect at hstep
  split at hstep
  next todo e effects fault hphase =>
    cases hstep
    have hanswers := h.phase
    rw [hphase] at hanswers
    obtain ⟨bytes, hlatest, htodo, hharmless, hasks⟩ := hanswers
    have hrest : UdpPhase.Answers (lastReceived s.udpLog) s.remoteAddr
        (.callback todo effects fault) :=
      ⟨bytes, hlatest, htodo, fun e he => hharmless e (List.mem_cons_of_mem _ he),
        fun _ _ _ he => hasks _ _ _ (List.mem_cons_of_mem _ he)⟩
    cases e with
    | setLogin =>
        dsimp only
        rw [setLogin_eq hslot]
        exact ⟨h.log, hrest⟩
    | replyToClient cmd cmdEx data =>
        dsimp only
        rw [replyToClient_eq hslot]
        exact ⟨h.log, hrest⟩
    | replyToUdp cmd cmdEx data =>
        have hnext : s.udp.next = some ⟨cmd, cmdEx, data⟩ := by
          rw [hphase]
          rfl
        obtain ⟨hlog, hlast, haddr⟩ := replyToUdp_answering h hphase allocated (hwhole _ hnext)
        refine ⟨hlog, ?_⟩
        dsimp only
        rw [hlast, haddr]
        exact hrest
  · cases hstep

theorem done_answering (h : s.Answering) (hstep : s.done = some s') : s'.Answering := by
  unfold done at hstep
  split at hstep <;> cases hstep
  · exact ⟨h.log, trivial⟩
  · exact ⟨h.log, h.phase⟩

theorem answering_step (hslot : slot? udp.handle = none) (h : s.Answering) {a : HostAction}
    (hwhole : s.WholeDatagrams a) (hstep : s.step udp libc a = some s') : s'.Answering := by
  unfold step at hstep
  split at hstep
  · cases hstep
  cases a with
  | tcp a =>
      obtain ⟨server, -, rfl⟩ := Option.map_eq_some_iff.mp hstep
      exact ⟨h.log, h.phase⟩
  | datagram src bytes packet => exact datagram_answering h hstep
  | process => exact process_answering h hstep
  | effect allocated kernel => exact effect_answering hslot h hwhole hstep
  | done => exact done_answering h hstep

theorem answering_init (machine : Machine φ) : (Host.init machine).Answering := ⟨.nil, trivial⟩

theorem answering_of_whole (hslot : slot? udp.handle = none) {machine : Machine φ}
    (h : (host libc machine udp).ReachableBy WholeDatagrams s) : s.Answering :=
  h.invariant (answering_init machine) fun _ _ _ _ hs hwhole hstep =>
    answering_step hslot hs hwhole hstep

theorem udp_server (hslot : slot? udp.handle = none) {a : HostAction} (hudp : a.OfUdp)
    (hstep : s.step udp libc a = some s') :
    { s.server with machine := s'.server.machine, halted := s'.server.halted } = s'.server := by
  unfold step at hstep
  split at hstep
  · cases hstep
  cases a with
  | tcp a => cases hudp
  | datagram src bytes packet =>
      dsimp only at hstep
      unfold datagram at hstep
      split at hstep
      · split at hstep <;> cases hstep
        rfl
      · cases hstep
  | process =>
      dsimp only at hstep
      unfold process at hstep
      split at hstep
      · split at hstep <;> cases hstep <;> rfl
      · cases hstep
  | effect allocated kernel =>
      dsimp only at hstep
      unfold effect at hstep
      split at hstep
      next todo e effects fault hphase =>
        cases hstep
        cases e with
        | setLogin =>
            dsimp only
            rw [setLogin_eq hslot]
        | replyToClient cmd cmdEx data =>
            dsimp only
            rw [replyToClient_eq hslot]
        | replyToUdp cmd cmdEx data =>
            dsimp only [replyToUdp]
            split
            · rfl
            · split <;> rfl
      · cases hstep
  | done =>
      dsimp only at hstep
      unfold done at hstep
      split at hstep <;> cases hstep <;> rfl

theorem running_of_step {a : HostAction} (h : s.step udp libc a = some s') :
    s.server.halted = none := by
  unfold step at h
  split at h
  · cases h
  next hrunning => exact Option.not_isSome_iff_eq_none.mp hrunning

/-- The connections are served in a guarded way. Nothing is asked of the datagrams. -/
def ServesTcp (s : Host φ) : HostAction → Prop
  | .tcp a => s.server.Attended a
  | _ => True

theorem attentive_step (hslot : slot? udp.handle = none) (h : s.server.Attentive)
    {a : HostAction} (hguard : s.ServesTcp a) (hstep : s.step udp libc a = some s')
    (hrunning : s'.server.halted = none) : s'.server.Attentive := by
  have hudp : a.OfUdp → s'.server.Attentive := by
    intro hudp
    rw [← udp_server hslot hudp hstep]
    exact h.withMachine _ _
  cases a with
  | tcp a =>
      unfold step at hstep
      split at hstep
      · cases hstep
      · obtain ⟨server, hserver, rfl⟩ := Option.map_eq_some_iff.mp hstep
        exact h.step hguard hserver hrunning
  | datagram | process | effect | done => exact hudp trivial

theorem attentive_of_serves (hslot : slot? udp.handle = none) {machine : Machine φ}
    (h : (host libc machine udp).ReachableBy ServesTcp s) (hrunning : s.server.halted = none) :
    s.server.Attentive := by
  induction h with
  | init => exact .init machine
  | step hreach hguard hstep ih =>
      exact attentive_step hslot (ih (running_of_step hstep)) hguard hstep hrunning

/-- Nothing of the TCP server has changed but what the C library knows, and no file has. -/
structure Untouched (s s' : Host φ) : Prop where
  server : { s.server with machine := s'.server.machine, halted := s'.server.halted } = s'.server
  files : s'.server.machine.files = s.server.machine.files
  upgradeTempDir : s'.server.machine.upgradeTempDir = s.server.machine.upgradeTempDir

theorem files_process (h : s.Answering) (hstep : s.process libc = some s') :
    s'.server.machine.files = s.server.machine.files ∧
      s'.server.machine.upgradeTempDir = s.server.machine.upgradeTempDir := by
  unfold process at hstep
  split at hstep
  next pdu todo fault hphase =>
    split at hstep
    · cases hstep
      exact ⟨rfl, rfl⟩
    next machine hrun =>
      cases hstep
      have hanswers := h.phase
      rw [hphase] at hanswers
      obtain ⟨bytes, -, htodo, -, -⟩ := hanswers
      obtain ⟨m, -, hcarries⟩ := htodo pdu List.mem_cons_self
      let view : Machine φ → Files × Option (List UInt8) := fun st => (st.files, st.upgradeTempDir)
      have hview : EnvFree view := fun _ _ => rfl
      have hdiscovers : Discovers view (processProtocolPdu libc pdu false) :=
        discovers_processProtocolPdu (hview.silent libc) (fun _ _ => rfl) hcarries
      have hkept := (hdiscovers (view s.server.machine)).ok
        (s := { s.server.machine with effects := [] }) ⟨rfl, harmless_nil⟩ hrun
      exact Prod.mk.inj hkept.1
  · cases hstep

theorem untouched_step (hslot : slot? udp.handle = none) (h : s.Answering) {a : HostAction}
    (hudp : a.OfUdp) (hstep : s.step udp libc a = some s') : s.Untouched s' := by
  have hserver := udp_server hslot hudp hstep
  unfold step at hstep
  split at hstep
  · cases hstep
  cases a with
  | tcp a => cases hudp
  | process =>
      obtain ⟨hfiles, hdir⟩ := files_process h hstep
      exact ⟨hserver, hfiles, hdir⟩
  | datagram src bytes packet =>
      dsimp only at hstep
      unfold datagram at hstep
      split at hstep
      · split at hstep <;> cases hstep
        exact ⟨hserver, rfl, rfl⟩
      · cases hstep
  | effect allocated kernel =>
      dsimp only at hstep
      unfold effect at hstep
      split at hstep
      next todo e effects fault hphase =>
        cases hstep
        cases e with
        | setLogin => exact ⟨hserver, rfl, rfl⟩
        | replyToClient cmd cmdEx data =>
            refine ⟨hserver, ?_, ?_⟩ <;> dsimp only <;> rw [replyToClient_eq hslot]
        | replyToUdp cmd cmdEx data =>
            refine ⟨hserver, ?_, ?_⟩ <;> dsimp only [replyToUdp] <;> split
            · rfl
            · split <;> rfl
            · rfl
            · split <;> rfl
      · cases hstep
  | done =>
      dsimp only at hstep
      unfold done at hstep
      split at hstep <;> cases hstep <;> exact ⟨hserver, rfl, rfl⟩

/-- In every run, what is sent over UDP are discovery replies, each in a datagram of its own
and to the sender of the datagram that asks for it. Serving datagrams touches neither the
connections nor the upload, whatever the bytes are. -/
theorem datagrams_isolated (hslot : slot? udp.handle = none) {machine : Machine φ}
    (h : (host libc machine udp).ReachableBy WholeDatagrams s) :
    Throughout UdpEvent.Proper s.udpLog ∧
      ∀ a s', HostAction.OfUdp a → s.step udp libc a = some s' → s.Untouched s' := by
  have hanswering := answering_of_whole hslot h
  exact ⟨hanswering.log, fun _ _ hudp hstep => untouched_step hslot hanswering hudp hstep⟩

def onlineLibc : Libc Unit :=
  { obligingLibc with
    getifaddrs := fun env => (some [⟨literal "eth0", true, some (some (literal "10.0.0.2"))⟩], env) }

def discoveryReply : List UInt8 :=
  Message.frame ⟨pcsDiscoverDevice, pcsEx01,
    appendData (literal "10.0.0.2") ++ appendData (literal "ccc")⟩

/-- A discovery request and a login with the right password, each in a datagram. -/
theorem datagrams_isolated_discover :
    ∃ s : Host Unit, .sent ⟨1, 2⟩ [⟨discoveryReply, 24⟩] ∈ s.udpLog ∧
      Throughout UdpEvent.Proper s.udpLog := by
  have hinit : ((host onlineLibc idleMachine ⟨7, 4096⟩).guarded WholeDatagrams).Reachable
      (Host.init idleMachine) := .init
  obtain ⟨s, hreach, hs⟩ := hinit.exec
    [.datagram ⟨1, 2⟩ (Message.frame ⟨pcsDiscoverDevice, pcsEx01, []⟩) (some freshPdu), .process,
      .effect true fun _ => 24, .done,
      .datagram ⟨3, 4⟩ (Server.loginRequest "jikongupgrade").frame (some freshPdu), .process,
      .effect true fun _ => 10, .effect true fun _ => 10]
    (fun _ _ _ => trivial) (fun s => decide (.sent ⟨1, 2⟩ [⟨discoveryReply, 24⟩] ∈ s.udpLog))
    (b := true) (by decide +kernel)
  exact ⟨s, of_decide_eq_true hs, (datagrams_isolated rfl (hreach.of_guarded fun _ _ _ => id)).1⟩

end Host

end CccUpgrade
