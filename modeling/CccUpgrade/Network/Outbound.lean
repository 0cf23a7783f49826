import CccUpgrade.Adapter.Handlers
import CccUpgrade.Adapter.ProcessData
import CccUpgrade.Network.ClientManager

/-! What the calls of the handlers into the network do: the login and the replies over
TCP through client_manager.c, the replies over UDP through udp_server.c. With it the
frames of one buffer are handled to the end. -/
namespace CccUpgrade

open ConnectTable

/-- `udp_sendto`, which is the loop of `tcp_send` around `sendto`. -/
def udpSendto (kernel : Nat → Int) (sock : Int) (buffer : Option (List UInt8)) (dataLen : Int) :
    TcpSend :=
  tcpSend kernel sock buffer dataLen

structure Answer where
  /-- Whether `packet_pool_get_buffer` returns a packet. -/
  allocated : Bool
  /-- The results of the calls of `send` or `sendto`. -/
  kernel : Nat → Int

structure Outbound where
  conns : ConnectTable
  /-- `l_sock_udp_server`. -/
  udpSock : Int
  /-- The descriptors passed to `close`. -/
  closed : List Int
  /-- The replies written to TCP sockets. -/
  tcp : List (Int × TcpSend)
  /-- The replies sent from the UDP socket, with the address they go to. -/
  udp : List (Int × TcpSend)

namespace Outbound

def replyToClient (out : Outbound) (handle : Int) (cmd cmdEx : UInt8) (data : List UInt8)
    (answer : Answer) : Outbound :=
  if answer.allocated = false then out
  else
    let packet := createProtocolPacket cmd cmdEx (some data) data.length true protocolDataSizeMax
    if packet.result ≤ 0 then out
    else match slot? handle with
      | none => out
      | some slot =>
          let r := internalClientManagerSend answer.kernel out.conns handle (some packet.packet)
            packet.result
          { out with tcp := out.tcp ++ [((out.conns slot).sock, r)] }

/-- `send_reply_to_udp`, through `udp_server_send`. -/
def replyToUdp (out : Outbound) (handle : Int) (cmd cmdEx : UInt8) (data : List UInt8)
    (answer : Answer) : Outbound :=
  if answer.allocated = false then out
  else
    let packet := createProtocolPacket cmd cmdEx (some data) data.length true protocolDataSizeMax
    if packet.result ≤ 0 then out
    else
      let r := udpSendto answer.kernel out.udpSock (some packet.packet) packet.result
      { out with udp := out.udp ++ [(handle, r)] }

def setLogin (out : Outbound) (handle : Int) : Outbound :=
  let call := internalClientManagerLogin out.conns handle
  { out with conns := call.conns, closed := out.closed ++ call.closed.toList }

def perform (out : Outbound) (handle : Int) (answer : Answer) : Effect → Outbound
  | .setLogin => out.setLogin handle
  | .replyToClient cmd cmdEx data => out.replyToClient handle cmd cmdEx data answer
  | .replyToUdp cmd cmdEx data => out.replyToUdp handle cmd cmdEx data answer

def performAll (handle : Int) : List Effect → (Nat → Answer) → Outbound → Outbound
  | [], _, out => out
  | effect :: effects, answers, out =>
      performAll handle effects (fun k => answers (k + 1)) (out.perform handle (answers 0) effect)

end Outbound

/-- The machine before the next PDU, which has made no calls yet. -/
def Machine.unspoken {φ : Type} (st : Machine φ) : Machine φ := { st with effects := [] }

structure World (φ : Type) where
  machine : Machine φ
  out : Outbound

namespace World

variable {φ : Type} (libc : Libc φ)

def process (handle : Int) (bLogin : Bool) (pdu : PDU) (answers : Nat → Answer) (w : World φ) :
    Except Fault (World φ) :=
  match processProtocolPdu libc pdu bLogin w.machine.unspoken with
  | .error f => .error f
  | .ok ((), machine) => .ok ⟨machine, w.out.performAll handle machine.effects answers⟩

def processAll (handle : Int) (bLogin : Bool) :
    List PDU → (Nat → Nat → Answer) → World φ → Except Fault (World φ)
  | [], _, w => .ok w
  | pdu :: pdus, answers, w =>
      match w.process libc handle bLogin pdu (answers 0) with
      | .error f => .error f
      | .ok w => w.processAll handle bLogin pdus (fun k => answers (k + 1))

/-- One buffer: the PDUs found in it are processed one after the other, and a fault
of the parser comes after those before it. -/
def deliver (handle : Int) (bLogin : Bool) (r : ProcessData) (answers : Nat → Nat → Answer)
    (w : World φ) : Except Fault (World φ) :=
  match w.processAll libc handle bLogin r.dispatched answers with
  | .error f => .error f
  | .ok w =>
      match r.fault with
      | some f => .error f
      | none => .ok w

/-- `protocol_adapter_process_udp_data`, called with the address of the remote
address, in a packet from the pool. -/
def udpData (handle : Int) (packet : Option PDU) (buffer : List UInt8)
    (answers : Nat → Nat → Answer) (w : World φ) : Except Fault (World φ) :=
  w.deliver libc handle false (protocolAdapterProcessUdpData packet buffer) answers

/-- `protocol_adapter_process_data`, called for the given slot. -/
def clientData (handle : Int) (bLogin : Bool) (packet : Option PDU) (buffer : List UInt8)
    (answers : Nat → Nat → Answer) (w : World φ) : Except Fault (World φ) :=
  w.deliver libc handle bLogin (protocolAdapterProcessData packet buffer) answers

end World

end CccUpgrade
