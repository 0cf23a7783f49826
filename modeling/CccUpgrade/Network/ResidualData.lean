import CccUpgrade.Adapter.Payload
import CccUpgrade.Adapter.Requests
import CccUpgrade.Network.Outbound
import CccUpgrade.Network.ReceiveLoop
import CccUpgrade.PacketPool.Packets

/-! The two data callbacks with the packets they take from the pool. What earlier frames
have left in the packets does not show in what is done for a later one, but for the echo
of an upload 03 whose payload is shorter than the echo. -/
namespace CccUpgrade

open Lib ConnectTable

theorem createProtocolPacket_store (m : Message) {bufferSize : Nat} (hbuffer : 7 < bufferSize)
    (hlong : 9 + m.data.length < 2 ^ 31) (buffer : List UInt8) :
    ((createProtocolPacket m.cmd m.cmdEx (some m.data) m.data.length true bufferSize).store
      buffer).take (9 + m.data.length) = m.frame := by
  have hat : (7 + (m.data.length : Int)).toNat = m.body.length := by
    rw [Message.body_length]
    omega
  have hframe : 9 + m.data.length = (m.body ++ checksumBytes m.body).length :=
    m.frame_length.symm
  rw [createProtocolPacket_eq m hbuffer hlong, PacketOut.store]
  simp only [hat, List.take_left]
  rw [hframe, List.take_left]
  rfl

/-- The pool and the network, as the handlers find them. -/
structure Stock where
  packets : Packets
  out : Outbound

namespace Stock

def build (stock : Stock) (cmd cmdEx : UInt8) (data : List UInt8) : Nat × PDU × Packets :=
  let got := stock.packets.get protocolDataSizeMax
  let built := createProtocolPacket cmd cmdEx (some data) data.length true protocolDataSizeMax
  (built.result, { got.1 with data := built.store got.1.data }, got.2)

/-- `send_reply_to_client`. What is sent starts in the buffer of the packet. -/
def replyToClient (stock : Stock) (handle : Int) (cmd cmdEx : UInt8) (data : List UInt8)
    (kernel : Nat → Int) : Stock :=
  let (size, packet, packets) := stock.build cmd cmdEx data
  let out :=
    if size ≤ 0 then stock.out
    else match slot? handle with
      | none => stock.out
      | some slot =>
          let r := internalClientManagerSend kernel stock.out.conns handle
            (some (packet.data.take size)) size
          { stock.out with tcp := stock.out.tcp ++ [((stock.out.conns slot).sock, r)] }
  ⟨packets.set packet, out⟩

def replyToUdp (stock : Stock) (handle : Int) (cmd cmdEx : UInt8) (data : List UInt8)
    (kernel : Nat → Int) : Stock :=
  let (size, packet, packets) := stock.build cmd cmdEx data
  let out :=
    if size ≤ 0 then stock.out
    else
      let r := udpSendto kernel stock.out.udpSock (some (packet.data.take size)) size
      { stock.out with udp := stock.out.udp ++ [(handle, r)] }
  ⟨packets.set packet, out⟩

def perform (stock : Stock) (handle : Int) (kernel : Nat → Int) : Effect → Stock
  | .setLogin => { stock with out := stock.out.setLogin handle }
  | .replyToClient cmd cmdEx data => stock.replyToClient handle cmd cmdEx data kernel
  | .replyToUdp cmd cmdEx data => stock.replyToUdp handle cmd cmdEx data kernel

def performAll (handle : Int) : List Effect → (Nat → Nat → Int) → Stock → Stock
  | [], _, stock => stock
  | effect :: effects, kernels, stock =>
      performAll handle effects (fun k => kernels (k + 1)) (stock.perform handle (kernels 0) effect)

theorem build_frame (stock : Stock) {m : Message} (hshort : m.data.length ≤ 2052) :
    (stock.build m.cmd m.cmdEx m.data).1 = 9 + m.data.length ∧
      (stock.build m.cmd m.cmdEx m.data).2.1.data.take (9 + m.data.length) = m.frame := by
  have hsize : 7 < protocolDataSizeMax := by decide
  have hresult := congrArg PacketOut.result (createProtocolPacket_eq m hsize (by omega))
  have hstore := createProtocolPacket_store m hsize (by omega)
    (stock.packets.get protocolDataSizeMax).1.data
  unfold build
  dsimp only at hresult ⊢
  exact ⟨hresult, hstore⟩

theorem perform_out (stock : Stock) {pdu : PDU} {effect : Effect} (h : pdu.Says effect)
    (handle : Int) (kernel : Nat → Int) :
    (stock.perform handle kernel effect).out = stock.out.perform handle ⟨true, kernel⟩ effect := by
  have hsize : 7 < protocolDataSizeMax := by decide
  cases h with
  | setLogin => rfl
  | @replyToClient cmdEx data hdata =>
      let m : Message := ⟨pdu.cmd, cmdEx, data⟩
      have hshort : m.data.length ≤ 2052 := by
        change data.length ≤ 2052
        omega
      have hpacket := createProtocolPacket_packet m hsize (by omega)
      have hresult := congrArg PacketOut.result (createProtocolPacket_eq m hsize (by omega))
      obtain ⟨hbuilt, hframe⟩ := build_frame stock hshort
      simp only [m] at hpacket hresult hbuilt hframe
      simp only [perform, replyToClient, Outbound.perform, Outbound.replyToClient, hpacket, hresult,
        hbuilt, hframe]
      cases slot? handle <;> simp
  | @replyToUdp data hdata =>
      let m : Message := ⟨pcsDiscoverDevice, pcsEx01, data⟩
      have hshort : m.data.length ≤ 2052 := hdata
      have hpacket := createProtocolPacket_packet m hsize (by omega)
      have hresult := congrArg PacketOut.result (createProtocolPacket_eq m hsize (by omega))
      obtain ⟨hbuilt, hframe⟩ := build_frame stock hshort
      simp only [m] at hpacket hresult hbuilt hframe
      simp only [perform, replyToUdp, Outbound.perform, Outbound.replyToUdp, hpacket, hresult,
        hbuilt, hframe]
      simp

theorem performAll_out {pdu : PDU} {effects : List Effect} (h : ∀ e ∈ effects, pdu.Says e)
    (handle : Int) (kernels : Nat → Nat → Int) (stock : Stock) :
    (performAll handle effects kernels stock).out =
      Outbound.performAll handle effects (fun k => ⟨true, kernels k⟩) stock.out := by
  induction effects generalizing kernels stock with
  | nil => rfl
  | cons effect effects ih =>
      rw [performAll, ih fun e he => h e (List.mem_cons_of_mem _ he),
        perform_out stock (h effect List.mem_cons_self), Outbound.performAll]

end Stock

inductive Source
  | udp
  | client (bLogin : Bool)
deriving DecidableEq, Repr

def Source.bLogin : Source → Bool
  | udp => false
  | client bLogin => bLogin

structure DataCall where
  source : Source
  handle : Int
  buffer : List UInt8
  kernels : Nat → Nat → Nat → Int

namespace DataCall

variable (call : DataCall)

/-- What is found in the buffer with the packet from the pool. -/
def find (packet : PDU) : ProcessData :=
  match call.source with
  | .udp => protocolAdapterProcessUdpData (some packet) call.buffer
  | .client _ => protocolAdapterProcessData (some packet) call.buffer

def answers : Nat → Nat → Answer := fun i k => ⟨true, call.kernels i k⟩

def scan : Scan UInt8 Message Fault := (frameScanner protoDataLenMax).scan call.buffer

def first : Option Message :=
  match call.buffer.idxOf? protocolHeader with
  | none => none
  | some start =>
      match frameLook protoDataLenMax (call.buffer.drop start) with
      | .take _ event => event
      | _ => none

def messages : List Message :=
  match call.source with
  | .udp => call.first.toList
  | .client _ => call.scan.events

def consumed : Int :=
  match call.source, call.scan with
  | .client _, .waiting _ rest => call.buffer.length - rest.length
  | _, _ => 0

def Fits : Prop := call.scan.fault = none

/-- No upload 03 that is let through is shorter than its echo. -/
def Covered : Prop := call.source.bLogin = true → ∀ m ∈ call.messages, ¬ m.ShortWrite

end DataCall

section Find

variable {call : DataCall} (hfits : call.Fits) {packet : PDU}
  (hcapacity : protoDataLenMax ≤ packet.data.length)
include hfits hcapacity

theorem scan_larger :
    (frameScanner packet.data.length).scan call.buffer = call.scan :=
  Scanner.scan_congr (fun _ h => frameLook_larger hcapacity h) hfits

theorem find_client {bLogin : Bool} (hsource : call.source = .client bLogin) :
    Carry (call.find packet).dispatched call.messages ∧ (call.find packet).fault = none ∧
      (call.find packet).consume = call.consumed := by
  unfold DataCall.find DataCall.messages DataCall.consumed
  simp only [hsource]
  have hscan := scan_larger hfits hcapacity
  have hspec := protocolAdapterProcessData_spec packet call.buffer
  have hfault := hfits
  unfold DataCall.Fits at hfault
  cases hend : call.scan with
  | waiting events rest =>
      rw [hend] at hscan
      rw [hscan] at hspec
      exact ⟨hspec.1, hspec.2.1, protocolAdapterProcessData_consume hscan⟩
  | halted events f =>
      rw [hend] at hfault
      cases hfault

theorem find_udp (hsource : call.source = .udp) :
    Carry (call.find packet).dispatched call.messages ∧ (call.find packet).fault = none ∧
      (call.find packet).consume = call.consumed := by
  unfold DataCall.find DataCall.messages DataCall.consumed DataCall.first
  simp only [hsource]
  unfold protocolAdapterProcessUdpData
  dsimp only
  by_cases hheader : protocolHeader ∈ call.buffer
  · obtain ⟨junk, rest, hbuffer, hjunk⟩ := List.eq_append_cons_of_mem hheader
    have hindex : call.buffer.idxOf? protocolHeader = some junk.length := by
      rw [hbuffer, idxOf?_header junk rest hjunk]
    have hstart : call.buffer.drop junk.length = protocolHeader :: rest := by
      rw [hbuffer, List.drop_left]
    have hno : ∀ f, frameLook protoDataLenMax (protocolHeader :: rest) ≠ .halt f := by
      intro f hhalt
      have hscan : call.scan = .halted [] f := by
        unfold DataCall.scan
        rw [hbuffer, scan_junk _ hjunk, Scanner.scan_halt hhalt]
      have hfault := hfits
      unfold DataCall.Fits at hfault
      rw [hscan] at hfault
      cases hfault
    have hparsed := parsePacket2_header hjunk { packet with bEnable := false } rest
    rw [← hbuffer] at hparsed
    dsimp only at hparsed
    rw [frameLook_larger hcapacity hno] at hparsed
    simp only [hindex, hstart]
    generalize hlook : frameLook protoDataLenMax (protocolHeader :: rest) = look at hparsed hno
    generalize parsePacket2 _ _ = parsed at hparsed
    cases hparsed with
    | wait hkept =>
        dsimp only
        rw [hkept.bEnable]
        split <;> simp
    | drop hkept =>
        dsimp only
        rw [hkept.bEnable, if_neg (by omega)]
        simp
    | frame hcarries _ henable =>
        have hpos := (frameLook_take hlook).1
        dsimp only
        rw [henable, if_neg (by omega)]
        exact ⟨.cons hcarries .nil, rfl, rfl⟩
    | halt => exact absurd rfl (hno _)
  · have hindex : call.buffer.idxOf? protocolHeader = none := List.idxOf?_eq_none_iff.mpr hheader
    rw [hindex, parsePacket2_junk _ hheader]
    dsimp only
    split <;> simp

theorem find_spec : Carry (call.find packet).dispatched call.messages ∧
    (call.find packet).fault = none ∧ (call.find packet).consume = call.consumed := by
  cases hsource : call.source with
  | udp => exact find_udp hfits hcapacity hsource
  | client bLogin => exact find_client hfits hcapacity hsource

end Find

structure Pooled (φ : Type) where
  machine : Machine φ
  stock : Stock

namespace Pooled

variable {φ : Type} (libc : Libc φ)

def world (s : Pooled φ) : World φ := ⟨s.machine, s.stock.out⟩

def withPackets (s : Pooled φ) (packets : Packets) : Pooled φ :=
  ⟨s.machine, ⟨packets, s.stock.out⟩⟩

def process (handle : Int) (bLogin : Bool) (pdu : PDU) (kernels : Nat → Nat → Int) (s : Pooled φ) :
    Except Fault (Pooled φ) :=
  match processProtocolPdu libc pdu bLogin s.machine.unspoken with
  | .error f => .error f
  | .ok ((), machine) => .ok ⟨machine, s.stock.performAll handle machine.effects kernels⟩

def processAll (handle : Int) (bLogin : Bool) :
    List PDU → (Nat → Nat → Nat → Int) → Pooled φ → Except Fault (Pooled φ)
  | [], _, s => .ok s
  | pdu :: pdus, kernels, s =>
      match s.process libc handle bLogin pdu (kernels 0) with
      | .error f => .error f
      | .ok s => s.processAll handle bLogin pdus (fun k => kernels (k + 1))

/-- `packet_pool_set` at the end of a callback, where it is called. -/
def putBack (s : Pooled φ) (packet : Option PDU) : Pooled φ :=
  match packet with
  | none => s
  | some packet => s.withPackets (s.stock.packets.set packet)

/-- `protocol_adapter_process_udp_data` or `protocol_adapter_process_data`, with the
return value. -/
def handle (call : DataCall) (s : Pooled φ) : Except Fault (Int × Pooled φ) :=
  let got := s.stock.packets.get protoDataLenMax
  let r := call.find got.1
  match (s.withPackets got.2).processAll libc call.handle call.source.bLogin r.dispatched
      call.kernels with
  | .error f => .error f
  | .ok s =>
      match r.fault with
      | some f => .error f
      | none => .ok (r.consume, s.putBack r.packet)

def run : List DataCall → Pooled φ → Except Fault (List Int × Pooled φ)
  | [], s => .ok ([], s)
  | call :: calls, s =>
      match s.handle libc call with
      | .error f => .error f
      | .ok (consume, s) =>
          match s.run calls with
          | .error f => .error f
          | .ok (consumes, s) => .ok (consume :: consumes, s)

/-- What a run shows: the values returned, and everything but the packets. -/
def shown (result : Except Fault (List Int × Pooled φ)) : Except Fault (List Int × World φ) :=
  result.map fun r => (r.1, r.2.world)

end Pooled

namespace World

variable {φ : Type} (libc : Libc φ)

def alone (call : DataCall) (w : World φ) : Except Fault (World φ) :=
  w.processAll libc call.handle call.source.bLogin (call.messages.map Message.pdu) call.answers

def runAlone : List DataCall → World φ → Except Fault (List Int × World φ)
  | [], w => .ok ([], w)
  | call :: calls, w =>
      match w.alone libc call with
      | .error f => .error f
      | .ok w =>
          match w.runAlone calls with
          | .error f => .error f
          | .ok (consumes, w) => .ok (call.consumed :: consumes, w)

end World

section Alone

variable {φ : Type} {libc : Libc φ}

theorem process_world (handle : Int) (bLogin : Bool) (pdu : PDU) (kernels : Nat → Nat → Int)
    (s : Pooled φ) :
    (s.process libc handle bLogin pdu kernels).map Pooled.world =
      s.world.process libc handle bLogin pdu fun k => ⟨true, kernels k⟩ := by
  have hmachine : s.world.machine = s.machine := rfl
  unfold Pooled.process World.process
  rw [hmachine]
  cases hrun : processProtocolPdu libc pdu bLogin s.machine.unspoken with
  | error f => rfl
  | ok result =>
      have hsaid : ∀ effect ∈ result.2.effects, pdu.Says effect := says_of_run hrun
      change Except.ok (Pooled.world _) = Except.ok _
      unfold Pooled.world
      rw [Stock.performAll_out hsaid]

theorem processAll_world (handle : Int) (bLogin : Bool) (pdus : List PDU)
    (kernels : Nat → Nat → Nat → Int) (s : Pooled φ) :
    (s.processAll libc handle bLogin pdus kernels).map Pooled.world =
      s.world.processAll libc handle bLogin pdus fun i k => ⟨true, kernels i k⟩ := by
  induction pdus generalizing kernels s with
  | nil => rfl
  | cons pdu pdus ih =>
      rw [Pooled.processAll, World.processAll, ← process_world]
      cases s.process libc handle bLogin pdu (kernels 0) with
      | error f => rfl
      | ok s' => exact ih _ s'

theorem processAll_alone {handle : Int} {bLogin : Bool} {pdus : List PDU} {messages : List Message}
    (hcarry : Carry pdus messages) (hcovered : bLogin = true → ∀ m ∈ messages, ¬ m.ShortWrite)
    (answers : Nat → Nat → Answer) (w : World φ) :
    w.processAll libc handle bLogin pdus answers =
      w.processAll libc handle bLogin (messages.map Message.pdu) answers := by
  induction hcarry generalizing answers w with
  | nil => rfl
  | @cons pdu m pdus messages hcarries _ ih =>
      have hfirst : w.process libc handle bLogin pdu (answers 0) =
          w.process libc handle bLogin m.pdu (answers 0) := by
        unfold World.process
        rw [processProtocolPdu_alone hcarries fun h => hcovered h m List.mem_cons_self]
      rw [World.processAll, hfirst, List.map_cons, World.processAll]
      cases w.process libc handle bLogin m.pdu (answers 0) with
      | error f => rfl
      | ok w' => exact ih (fun h m' hm' => hcovered h m' (List.mem_cons_of_mem _ hm')) _ w'

theorem withPackets_world (s : Pooled φ) (packets : Packets) :
    (s.withPackets packets).world = s.world :=
  rfl

theorem putBack_world (s : Pooled φ) (packet : Option PDU) : (s.putBack packet).world = s.world := by
  cases packet with
  | none => rfl
  | some packet => exact withPackets_world s _

/-- A call does what its messages do alone. -/
theorem handle_alone {call : DataCall} (hfits : call.Fits) (hcovered : call.Covered) (s : Pooled φ) :
    (s.handle libc call).map (fun r => (r.1, r.2.world)) =
      (s.world.alone libc call).map fun w => (call.consumed, w) := by
  have hcapacity := s.stock.packets.get_length protoDataLenMax
  obtain ⟨hcarry, hfault, hconsume⟩ := find_spec hfits hcapacity
  unfold Pooled.handle World.alone DataCall.answers
  dsimp only
  rw [hfault, hconsume, ← processAll_alone hcarry hcovered,
    ← withPackets_world s (s.stock.packets.get protoDataLenMax).2, ← processAll_world]
  cases Pooled.processAll libc call.handle call.source.bLogin _ call.kernels
      (s.withPackets (s.stock.packets.get protoDataLenMax).2) with
  | error f => rfl
  | ok s' =>
      change Except.ok (_, (s'.putBack _).world) = Except.ok _
      rw [putBack_world]

theorem run_alone {calls : List DataCall} (hcalls : ∀ call ∈ calls, call.Fits ∧ call.Covered)
    (s : Pooled φ) : Pooled.shown (s.run libc calls) = s.world.runAlone libc calls := by
  induction calls generalizing s with
  | nil => rfl
  | cons call calls ih =>
      obtain ⟨hfits, hcovered⟩ := hcalls call List.mem_cons_self
      have hfirst : (s.handle libc call).map (fun r => (r.1, r.2.world)) = _ :=
        handle_alone hfits hcovered s
      rw [Pooled.run, World.runAlone]
      cases hhandle : s.handle libc call with
      | error f =>
          rw [hhandle] at hfirst
          cases halone : s.world.alone libc call with
          | error g =>
              rw [halone] at hfirst
              cases hfirst
              rfl
          | ok w =>
              rw [halone] at hfirst
              cases hfirst
      | ok result =>
          rw [hhandle] at hfirst
          cases halone : s.world.alone libc call with
          | error g =>
              rw [halone] at hfirst
              cases hfirst
          | ok w =>
              rw [halone] at hfirst
              obtain ⟨consume, s'⟩ := result
              obtain ⟨hconsume, hworld⟩ := Prod.mk.inj (Except.ok.inj hfirst)
              dsimp only at hconsume hworld ⊢
              rw [← hworld, ← ih (fun c hc => hcalls c (List.mem_cons_of_mem _ hc)), ← hconsume]
              cases s'.run libc calls <;> rfl

end Alone

/-- Two servers that differ only in the contents of their packets return the same and
do the same for the same buffers, and answer every frame as if it had come alone. -/
theorem residue_unobserved {φ : Type} (libc : Libc φ) {calls : List DataCall}
    (hcalls : ∀ call ∈ calls, call.Fits ∧ call.Covered) (machine : Machine φ) (out : Outbound)
    (packets packets' : Packets) :
    Pooled.shown (Pooled.run libc calls ⟨machine, packets, out⟩) =
        Pooled.shown (Pooled.run libc calls ⟨machine, packets', out⟩) ∧
      Pooled.shown (Pooled.run libc calls ⟨machine, packets, out⟩) =
        World.runAlone libc calls ⟨machine, out⟩ := by
  have halone : ∀ p, Pooled.shown (Pooled.run libc calls ⟨machine, p, out⟩) =
      World.runAlone libc calls ⟨machine, out⟩ :=
    fun p => run_alone hcalls ⟨machine, p, out⟩
  exact ⟨(halone packets).trans (halone packets').symm, halone packets⟩

def leftIn (bytes : List UInt8) : Packets :=
  ⟨⟨[⟨0, 0, bytes ++ List.replicate protoDataLenMax 0, 0, 0, 0, false⟩], Nat.le_add_left 1 127⟩,
    fun _ => ⟨freshPdu, fun _ => 0⟩⟩

def oneClient : Outbound := ⟨fun _ => ⟨true, true, 0, 5, [], 0⟩, 7, [], [], []⟩

def sendsAll : Nat → Nat → Nat → Int := fun _ _ _ => protocolDataSizeMax

theorem scan_frame {m : Message} (hlong : m.data.length ≤ protoDataLenMax) :
    (frameScanner protoDataLenMax).scan m.frame = .waiting [m] [] := by
  have hmax : protoDataLenMax = 4096 := rfl
  have hlook := frameLook_frame hlong (by omega) []
  rw [List.append_nil] at hlook
  rw [Scanner.scan_take hlook, List.drop_eq_nil_of_le (by simp), scan_nil]
  rfl

/-- An upload 03 whose payload is just the offset, after the login of another client. -/
theorem residue_unobserved_offset :
    let calls : List DataCall :=
      [⟨.client true, 0, Message.frame ⟨pcsUploadFile, pcsEx03, [0, 0, 0, 9]⟩, sendsAll⟩]
    Pooled.shown (Pooled.run obligingLibc calls
        ⟨idleMachine, leftIn (literal "jikongupgrade"), oneClient⟩) =
      Pooled.shown (Pooled.run obligingLibc calls ⟨idleMachine, leftIn [], oneClient⟩) := by
  intro calls
  have hcalls : ∀ call ∈ calls, call.Fits ∧ call.Covered := by
    intro call hcall
    have hscan : call.scan = .waiting [⟨pcsUploadFile, pcsEx03, [0, 0, 0, 9]⟩] [] := by
      rw [List.mem_singleton.mp hcall]
      exact scan_frame (by decide)
    have hmessages : call.messages = call.scan.events := by
      rw [List.mem_singleton.mp hcall]
      rfl
    refine ⟨by simp [DataCall.Fits, hscan, Scan.fault], fun _ m hm => ?_⟩
    simp only [hmessages, hscan, Scan.events, List.mem_singleton] at hm
    simp [hm, Message.ShortWrite]
  exact (residue_unobserved obligingLibc hcalls idleMachine oneClient _ _).1

/-- The echo of an upload 03 without a payload shows the password of the login before it. -/
theorem residue_echoed :
    ¬ ∀ calls : List DataCall, (∀ call ∈ calls, call.Fits) →
      ∀ (machine : Machine Unit) (out : Outbound) (packets packets' : Packets),
        Pooled.shown (Pooled.run obligingLibc calls ⟨machine, packets, out⟩) =
          Pooled.shown (Pooled.run obligingLibc calls ⟨machine, packets', out⟩) := by
  intro h
  have hsame := h [⟨.client true, 0, Message.frame ⟨pcsUploadFile, pcsEx03, []⟩, sendsAll⟩]
    (fun call hcall => by
      rw [List.mem_singleton.mp hcall]
      exact congrArg Scan.fault (scan_frame (by decide)))
    idleMachine oneClient (leftIn (literal "jikongupgrade")) (leftIn [])
  have htcp := congrArg (fun shown => shown.toOption.map fun r => r.2.out.tcp) hsame
  revert htcp
  decide +kernel

end CccUpgrade
