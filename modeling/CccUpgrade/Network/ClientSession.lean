import CccUpgrade.Adapter.Replies
import CccUpgrade.Network.Outbound
import CccUpgrade.Network.Segmentation

/-! The receive loop of a client that is logged in, with everything its requests do. What
is written to the socket of such a client is one frame for each of its requests, in
the order of the requests. -/
namespace CccUpgrade

open Lib ConnectTable

/-- The loop `thread_func_client_pad_or_0` between two calls of `tcp_recv`. -/
structure Client (φ : Type) where
  mainBuf : List UInt8
  world : World φ

/-- A positive result of `tcp_recv`, with the system's answers to the calls its PDUs make. -/
structure Chunk where
  recv : Recv
  answers : Nat → Nat → Answer

namespace Client

variable {φ : Type} (libc : Libc φ)

def recv (slot : Fin clientCountMax) (c : Client φ) (chunk : Chunk) : Except Fault (Client φ) :=
  if 2 * recvDataBuffer < c.mainBuf.length + chunk.recv.bytes.length then
    .error (.mainBuf (c.mainBuf.length + chunk.recv.bytes.length))
  else
    let mainBuf := c.mainBuf ++ chunk.recv.bytes
    let info := c.world.out.conns slot
    let consume := (protocolAdapterProcessData chunk.recv.packet mainBuf).consume
    match c.world.clientData libc info.ix info.bLogin chunk.recv.packet mainBuf chunk.answers with
    | .error f => .error f
    | .ok world => .ok ⟨mainBuf.drop consume.toNat, world⟩

def run (slot : Fin clientCountMax) : List Chunk → Client φ → Except Fault (Client φ)
  | [], c => .ok c
  | chunk :: chunks, c =>
      match c.recv libc slot chunk with
      | .error f => .error f
      | .ok c => c.run slot chunks

end Client

def Outbound.written (out : Outbound) (sock : Int) : List UInt8 :=
  (out.tcp.filter (·.1 = sock)).flatMap fun r => r.2.written

structure Serving (conns : ConnectTable) (slot : Fin clientCountMax) (sock : Int) : Prop where
  valid : (conns slot).bValid = true
  login : (conns slot).bLogin = true
  ix : (conns slot).ix = slot.val
  pos : 0 < sock
  sock : (conns slot).sock = sock

theorem ReplyTo.long {m reply : Message} (h : ReplyTo m reply) :
    reply.data.length ≤ protocolDataLenMax := by
  have hshort := h.short
  have hmax : protocolDataLenMax = 4080 := rfl
  omega

section Perform

variable {out : Outbound} {slot : Fin clientCountMax} {sock : Int}

theorem setLogin_serving (h : Serving out.conns slot sock) :
    Serving (out.setLogin slot.val).conns slot sock ∧ (out.setLogin slot.val).tcp = out.tcp := by
  have hcall : internalClientManagerLogin out.conns slot.val =
      ⟨true, loggedIn out.conns slot, tcpClose (out.conns (other slot)).sock⟩ := by
    simp only [internalClientManagerLogin, slot?_slot, close_slot, h.valid]
    simp [loggedIn, (other_ne slot).symm]
  have hself := loggedIn_self out.conns slot
  unfold Outbound.setLogin
  simp only [hcall, and_true]
  refine ⟨?_, ?_, ?_, h.pos, ?_⟩ <;> rw [hself]
  · exact h.valid
  · exact h.ix
  · exact h.sock

def Replied (sock : Int) (m : Message) (r : Int × TcpSend) : Prop :=
  ∃ reply kernel, ReplyTo m reply ∧
    r = (sock, tcpSend kernel sock (some reply.frame) reply.frame.length)

theorem replyToClient_frame (h : Serving out.conns slot sock) {reply : Message}
    (hfits : reply.data.length ≤ protocolDataLenMax) {answer : Answer}
    (hallocated : answer.allocated = true) :
    out.replyToClient slot.val reply.cmd reply.cmdEx reply.data answer = { out with tcp := out.tcp ++
      [(sock, tcpSend answer.kernel sock (some reply.frame) reply.frame.length)] } := by
  have hmax : protocolDataLenMax = 4080 := rfl
  have hsize : 7 < protocolDataSizeMax := by decide
  have hpacket := createProtocolPacket_packet reply hsize (by omega)
  have hresult := congrArg PacketOut.result (createProtocolPacket_eq reply hsize (by omega))
  have hlength : 9 + reply.data.length = reply.frame.length := by simp
  simp only [Outbound.replyToClient, hallocated, hpacket, hresult, slot?_slot,
    internalClientManagerSend, h.valid, h.sock, hlength]
  simp

theorem replyToClient_serving (h : Serving out.conns slot sock) {m reply : Message}
    (hreply : ReplyTo m reply) {answer : Answer} (hallocated : answer.allocated = true) :
    ∃ r, out.replyToClient slot.val reply.cmd reply.cmdEx reply.data answer =
      { out with tcp := out.tcp ++ [r] } ∧ Replied sock m r :=
  ⟨_, replyToClient_frame h hreply.long hallocated, reply, answer.kernel, hreply, rfl⟩

theorem performAll_answered (h : Serving out.conns slot sock) {m : Message} {effects : List Effect}
    (heffects : Answered m effects) {answers : Nat → Answer}
    (hallocated : ∀ k, (answers k).allocated = true) :
    Serving (Outbound.performAll slot.val effects answers out).conns slot sock ∧
      ∃ r, (Outbound.performAll slot.val effects answers out).tcp = out.tcp ++ [r] ∧
        Replied sock m r := by
  cases heffects with
  | reply hreply =>
      obtain ⟨r, hrun, hreplied⟩ := replyToClient_serving h hreply (hallocated 0)
      simp only [Outbound.performAll, Outbound.perform, hrun]
      exact ⟨h, r, rfl, hreplied⟩
  | login hreply =>
      have hlogin := setLogin_serving h
      obtain ⟨r, hrun, hreplied⟩ := replyToClient_serving hlogin.1 hreply (hallocated 1)
      simp only [Outbound.performAll, Outbound.perform, hrun]
      exact ⟨hlogin.1, r, by rw [hlogin.2], hreplied⟩

end Perform

section Process

variable {φ : Type} {libc : Libc φ} {slot : Fin clientCountMax} {sock : Int}

def PDU.Asks (pdu : PDU) : Prop := ∃ m, pdu.Carries m ∧ m.IsRequest

theorem process_replied {w w' : World φ} (h : Serving w.out.conns slot sock) {pdu : PDU}
    (hasks : pdu.Asks) {answers : Nat → Answer} (hallocated : ∀ k, (answers k).allocated = true)
    (hrun : w.process libc slot.val true pdu answers = .ok w') :
    Serving w'.out.conns slot sock ∧
      ∃ r, w'.out.tcp = w.out.tcp ++ [r] ∧ Replied sock pdu.message r := by
  obtain ⟨m, hcarries, hm⟩ := hasks
  have hanswered : Answers m (processProtocolPdu libc pdu true) :=
    answers_processProtocolPdu hm hcarries
  have hanswers := hanswered w.machine.unspoken rfl
  unfold World.process at hrun
  cases hresult : processProtocolPdu libc pdu true w.machine.unspoken with
  | error f =>
      rw [hresult] at hrun
      cases hrun
  | ok result =>
      rw [hresult] at hrun hanswers
      cases hrun
      rw [hcarries.message_eq]
      exact performAll_answered h hanswers hallocated

theorem processAll_replied {pdus : List PDU} (hasks : ∀ pdu ∈ pdus, pdu.Asks)
    {answers : Nat → Nat → Answer} (hallocated : ∀ i k, (answers i k).allocated = true)
    {w w' : World φ} (h : Serving w.out.conns slot sock)
    (hrun : w.processAll libc slot.val true pdus answers = .ok w') :
    Serving w'.out.conns slot sock ∧ ∃ sends, w'.out.tcp = w.out.tcp ++ sends ∧
      List.Forall₂ (fun pdu r => Replied sock pdu.message r) pdus sends := by
  induction pdus generalizing w answers with
  | nil =>
      cases hrun
      exact ⟨h, [], by simp, .nil⟩
  | cons pdu pdus ih =>
      rw [World.processAll] at hrun
      cases hfirst : w.process libc slot.val true pdu (answers 0) with
      | error f => simp [hfirst] at hrun
      | ok w₁ =>
          rw [hfirst] at hrun
          obtain ⟨hserving, r, htcp, hreplied⟩ :=
            process_replied h (hasks pdu List.mem_cons_self) (hallocated 0) hfirst
          obtain ⟨hserving', sends, htcp', hsends⟩ :=
            ih (fun p hp => hasks p (List.mem_cons_of_mem _ hp)) (fun i => hallocated (i + 1))
              hserving hrun
          exact ⟨hserving', r :: sends, by simp [htcp', htcp], .cons hreplied hsends⟩

namespace Client

theorem recv_ok {c c' : Client φ} {chunk : Chunk} (h : c.recv libc slot chunk = .ok c')
    (before : List PDU) :
    ∃ pdus, RecvLoop.step ⟨c.mainBuf, before, none⟩ chunk.recv =
        ⟨c'.mainBuf, before ++ pdus, none⟩ ∧
      c.world.processAll libc (c.world.out.conns slot).ix (c.world.out.conns slot).bLogin pdus
        chunk.answers = .ok c'.world := by
  unfold Client.recv World.clientData World.deliver at h
  split at h
  · cases h
  · rename_i hroom
    dsimp only at h
    generalize hr : protocolAdapterProcessData chunk.recv.packet (c.mainBuf ++ chunk.recv.bytes) = r
      at h
    cases hall : c.world.processAll libc (c.world.out.conns slot).ix
        (c.world.out.conns slot).bLogin r.dispatched chunk.answers with
    | error f => simp [hall] at h
    | ok world =>
        simp only [hall] at h
        cases hfault : r.fault with
        | some f => simp [hfault] at h
        | none =>
            simp only [hfault] at h
            cases h
            refine ⟨r.dispatched, ?_, hall⟩
            unfold RecvLoop.step
            rw [if_neg (by simp), if_neg hroom]
            simp only [hr, hfault]

theorem run_replied {chunks : List Chunk}
    (hallocated : ∀ chunk ∈ chunks, ∀ i k, (chunk.answers i k).allocated = true)
    {c c' : Client φ} (h : c.run libc slot chunks = .ok c') (before : List PDU) :
    ∃ pdus, (chunks.map Chunk.recv).foldl RecvLoop.step ⟨c.mainBuf, before, none⟩ =
        ⟨c'.mainBuf, before ++ pdus, none⟩ ∧
      (Serving c.world.out.conns slot sock → (∀ pdu ∈ pdus, pdu.Asks) →
        ∃ sends, c'.world.out.tcp = c.world.out.tcp ++ sends ∧
          List.Forall₂ (fun pdu r => Replied sock pdu.message r) pdus sends) := by
  induction chunks generalizing c before with
  | nil =>
      cases h
      exact ⟨[], by simp, fun _ _ => ⟨[], by simp, .nil⟩⟩
  | cons chunk chunks ih =>
      rw [Client.run] at h
      cases hfirst : c.recv libc slot chunk with
      | error f => simp [hfirst] at h
      | ok c₁ =>
          rw [hfirst] at h
          obtain ⟨pdus, hstep, hall⟩ := recv_ok hfirst before
          obtain ⟨later, hlater, hsends⟩ :=
            ih (fun e he => hallocated e (List.mem_cons_of_mem _ he)) h (before ++ pdus)
          refine ⟨pdus ++ later, by simp [hstep, hlater], fun hserving hasks => ?_⟩
          rw [hserving.ix, hserving.login] at hall
          obtain ⟨hserving₁, sends₁, htcp₁, hreplied₁⟩ :=
            processAll_replied (fun p hp => hasks p (List.mem_append_left _ hp))
              (hallocated chunk List.mem_cons_self) hserving hall
          obtain ⟨sends₂, htcp₂, hreplied₂⟩ :=
            hsends hserving₁ fun p hp => hasks p (List.mem_append_right _ hp)
          exact ⟨sends₁ ++ sends₂, by simp [htcp₂, htcp₁], List.rel_append hreplied₁ hreplied₂⟩

end Client

end Process

section Written

variable {sock : Int} {requests : List Message} {sends : List (Int × TcpSend)}

theorem written_replied (hpos : 0 < sock)
    (hsends : List.Forall₂ (Replied sock) requests sends)
    (haccepted : ∀ r ∈ sends, r.2.Accepted) :
    ∃ replies, List.Forall₂ ReplyTo requests replies ∧
      (∀ reply ∈ replies, reply.data.length ≤ protocolDataLenMax) ∧ (∀ r ∈ sends, r.1 = sock) ∧
      sends.flatMap (fun r => r.2.written) = replies.flatMap Message.frame := by
  induction hsends with
  | nil => exact ⟨[], .nil, nofun, nofun, rfl⟩
  | @cons m r requests sends hreplied _ ih =>
      obtain ⟨reply, kernel, hreply, rfl⟩ := hreplied
      obtain ⟨replies, hreplies, hlong, hsocks, hwritten⟩ :=
        ih fun r hr => haccepted r (List.mem_cons_of_mem _ hr)
      have hne : reply.frame ≠ [] := by
        apply List.length_pos_iff.mp
        rw [Message.frame_length]
        omega
      have hframe := tcpSend_written hpos hne (haccepted _ List.mem_cons_self)
      refine ⟨reply :: replies, .cons hreply hreplies, ?_, ?_, ?_⟩
      · exact List.forall_mem_cons.mpr ⟨hreply.long, hlong⟩
      · exact List.forall_mem_cons.mpr ⟨rfl, hsocks⟩
      · rw [List.flatMap_cons, hframe, hwritten, List.flatMap_cons]

theorem sentStream_bare (messages : List Message) :
    sentStream (messages.map (Sent.mk [])) [] = messages.flatMap Message.encoded := by
  unfold sentStream
  rw [List.append_nil, List.flatMap_map]
  exact List.flatMap_congr fun m _ => List.nil_append m.encoded

theorem protocolAdapterProcessData_frames {messages : List Message}
    (hlong : ∀ m ∈ messages, m.data.length ≤ protocolDataLenMax) {lpPdu : PDU}
    (hcapacity : lpPdu.data.length = protoDataLenMax) :
    let r := protocolAdapterProcessData (some lpPdu) (messages.flatMap Message.frame)
    Carry r.dispatched messages ∧ r.fault = none ∧
      (messages.flatMap Message.frame).drop r.consume.toNat = [] := by
  intro r
  have hstream : messages.flatMap Message.frame = sentStream (messages.map (Sent.mk [])) [] := by
    rw [sentStream_bare]
    exact List.flatMap_congr fun m hm => (Message.encoded_eq (hlong m hm)).symm
  have hsent : ∀ s ∈ messages.map (Sent.mk []), s.Ok := by
    intro s hs
    obtain ⟨m, hm, rfl⟩ := List.mem_map.mp hs
    exact ⟨by simp, hlong m hm⟩
  have hscan := scan_sentStream hsent (List.not_mem_nil (a := protocolHeader))
  obtain ⟨hcarry, hfault, hrest⟩ :=
    protocolAdapterProcessData_spec lpPdu (messages.flatMap Message.frame)
  rw [hcapacity, hstream, hscan] at hcarry hfault hrest
  rw [← hstream] at hcarry hfault hrest
  refine ⟨?_, hfault, hrest _ _ rfl⟩
  simpa [Scan.events, Function.comp_def] using hcarry

end Written

theorem dispatched_encoded {messages : List Message}
    (hlong : ∀ m ∈ messages, m.data.length ≤ protocolDataLenMax) {evs : List Recv}
    (hstream : received evs = messages.flatMap Message.encoded)
    (hsize : ∀ ev ∈ evs, 1 ≤ ev.bytes.length ∧ ev.bytes.length ≤ recvDataBuffer)
    (hpacket : ∀ ev ∈ evs, ∃ lpPdu, ev.packet = some lpPdu ∧ lpPdu.data.length = protoDataLenMax) :
    Carry (RecvLoop.run evs).dispatched messages := by
  have hround := stream_round_trip (by simp) (List.not_mem_nil (a := protocolHeader))
    (fun s hs => by
      obtain ⟨m, hm, rfl⟩ := List.mem_map.mp hs
      exact hlong m hm)
    (hstream.trans (sentStream_bare messages).symm) hsize hpacket
  simpa [Function.comp_def] using hround.1

section Session

variable {φ : Type} {libc : Libc φ} {slot : Fin clientCountMax} {sock : Int}

/-- One reply to each request, in the order of the requests, is what is written to the
socket of a client that is logged in, and what the scan of the bytes finds there. -/
theorem replies_in_order {requests : List Message} (hrequests : ∀ m ∈ requests, m.IsRequest)
    (hlong : ∀ m ∈ requests, m.data.length ≤ protocolDataLenMax) {c c' : Client φ}
    (hserving : Serving c.world.out.conns slot sock) (hempty : c.mainBuf = [])
    (hquiet : c.world.out.written sock = []) {chunks : List Chunk}
    (hstream : received (chunks.map Chunk.recv) = requests.flatMap Message.encoded)
    (hsize : ∀ chunk ∈ chunks,
      1 ≤ chunk.recv.bytes.length ∧ chunk.recv.bytes.length ≤ recvDataBuffer)
    (hpacket : ∀ chunk ∈ chunks, ∃ lpPdu, chunk.recv.packet = some lpPdu ∧
      lpPdu.data.length = protoDataLenMax)
    (hallocated : ∀ chunk ∈ chunks, ∀ i k, (chunk.answers i k).allocated = true)
    (hrun : c.run libc slot chunks = .ok c') (haccepted : ∀ r ∈ c'.world.out.tcp, r.2.Accepted) :
    ∃ replies, List.Forall₂ ReplyTo requests replies ∧
      c'.world.out.written sock = replies.flatMap Message.frame ∧
      ∀ lpPdu : PDU, lpPdu.data.length = protoDataLenMax →
        let r := protocolAdapterProcessData (some lpPdu) (c'.world.out.written sock)
        Carry r.dispatched replies ∧ r.fault = none ∧
          (c'.world.out.written sock).drop r.consume.toNat = [] := by
  obtain ⟨pdus, hloop, hreplied⟩ := Client.run_replied hallocated hrun []
  have hcarry := dispatched_encoded hlong hstream
    (fun ev hev => by
      obtain ⟨chunk, hchunk, rfl⟩ := List.mem_map.mp hev
      exact hsize chunk hchunk)
    (fun ev hev => by
      obtain ⟨chunk, hchunk, rfl⟩ := List.mem_map.mp hev
      exact hpacket chunk hchunk)
  rw [RecvLoop.run, RecvLoop.init, ← hempty, hloop] at hcarry
  have hcarries : Carry pdus requests := hcarry
  have hasks : ∀ pdu ∈ pdus, pdu.Asks := by
    intro pdu hpdu
    obtain ⟨m, hm, hpduCarries⟩ := hcarries.mem hpdu
    exact ⟨m, hpduCarries, hrequests m hm⟩
  -- Each is answered.
  obtain ⟨sends, htcp, hsends⟩ := hreplied hserving hasks
  have hmessages : List.Forall₂ (Replied sock) requests sends := by
    rw [← hcarries.message_eq]
    exact List.forall₂_map_left_iff.mpr hsends
  obtain ⟨replies, hreplies, hshort, hsocks, hframes⟩ := written_replied hserving.pos hmessages
    fun r hr => haccepted r (by simp [htcp, hr])
  have hwritten : c'.world.out.written sock = replies.flatMap Message.frame := by
    have hfilter : sends.filter (·.1 = sock) = sends := by simpa using hsocks
    unfold Outbound.written at hquiet ⊢
    rw [htcp, List.filter_append, List.flatMap_append, hquiet, hfilter, hframes, List.nil_append]
  refine ⟨replies, hreplies, hwritten, fun lpPdu hcapacity => ?_⟩
  rw [hwritten]
  exact protocolAdapterProcessData_frames hshort hcapacity

def quietClient : Client Unit :=
  ⟨[], idleMachine, fun _ => ⟨true, true, 0, 5, [], 0⟩, 7, [], [], []⟩

def bytewise : Nat → Nat → Answer := fun _ _ => ⟨true, fun _ => 1⟩

/-- A wrong password and an announced upload, with the second frame cut in two. -/
theorem replies_in_order_cut :
    let requests : List Message :=
      [⟨pcsClientLogin, pcsEx01, [0x78]⟩, ⟨pcsUploadFile, pcsEx01, []⟩]
    let chunks : List Chunk :=
      [⟨.served [0x7e, 0xE1, 0x01, 0, 0, 0, 1, 0x78, 0x01, 0xD9, 0x7e, 0xE2], bytewise⟩,
        ⟨.served [0x01, 0, 0, 0, 0, 0x01, 0x61], bytewise⟩]
    ∃ c' replies, quietClient.run obligingLibc 0 chunks = .ok c' ∧
      List.Forall₂ ReplyTo requests replies ∧
      c'.world.out.written 5 = replies.flatMap Message.frame := by
  intro requests chunks
  have hrequests : ∀ m ∈ requests, m.IsRequest := by simp [requests, Message.IsRequest]
  have hserving : Serving quietClient.world.out.conns 0 5 := ⟨rfl, rfl, rfl, by decide, rfl⟩
  have hstream : received (chunks.map Chunk.recv) = requests.flatMap Message.encoded := by
    decide +kernel
  have hsends : (quietClient.run obligingLibc 0 chunks).toOption.map
      (fun c' => decide (∀ r ∈ c'.world.out.tcp, r.2.Accepted)) = some true := by
    decide +kernel
  cases hrun : quietClient.run obligingLibc 0 chunks with
  | error f =>
      rw [hrun] at hsends
      cases hsends
  | ok c' =>
      rw [hrun] at hsends
      have haccepted : ∀ r ∈ c'.world.out.tcp, r.2.Accepted := by
        simpa [Except.toOption] using hsends
      have hpacket : ∀ chunk ∈ chunks, ∃ lpPdu, chunk.recv.packet = some lpPdu ∧
          lpPdu.data.length = protoDataLenMax := by
        intro chunk hchunk
        refine ⟨freshPdu, ?_, freshPdu_data_length⟩
        simp only [chunks, List.mem_cons, List.not_mem_nil, or_false] at hchunk
        cases hchunk <;> subst chunk <;> rfl
      have hreplied := replies_in_order hrequests (by decide) hserving rfl rfl hstream (by decide)
        hpacket (by simp [chunks, bytewise]) hrun haccepted
      obtain ⟨replies, hreplies, hwritten, -⟩ := hreplied
      exact ⟨c', replies, rfl, hreplies, hwritten⟩

end Session

end CccUpgrade
