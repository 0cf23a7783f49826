import CccUpgrade.Adapter.Payload
import CccUpgrade.Network.Outbound
import CccUpgrade.Network.ReceiveLoop
import CccUpgrade.SysCalls

/-! A datagram goes through the dispatcher of the TCP requests with an address in the
place of the slot index and without a login. It can have a device answer a discovery
and nothing else, also when it holds a login with the right password. -/
namespace CccUpgrade

open Lib

variable {φ : Type}

/-- The length of the first frame, the only one that is looked at, is between 0 and the size
of the payload buffer. -/
def LengthFits (capacity : Nat) (buffer : List UInt8) : Prop :=
  ∀ len ∈ lengthField (buffer.dropWhile (· ≠ protocolHeader)), 0 ≤ len ∧ len ≤ capacity

theorem parsePacket2_fits {buffer : List UInt8} {pdu : PDU} (h : LengthFits pdu.data.length buffer)
    (f : Fault) : parsePacket2 buffer pdu ≠ .error f := by
  intro herror
  obtain ⟨len, hfield, -, -, -, hbad, -⟩ := frameLook_halt_iff.mp (parsePacket2_error herror)
  have hfit := h len hfield
  omega

theorem protocolAdapterProcessUdpData_carries {packet : Option PDU} {buffer : List UInt8} {pdu : PDU}
    (h : pdu ∈ (protocolAdapterProcessUdpData packet buffer).dispatched) : ∃ m, pdu.Carries m := by
  unfold protocolAdapterProcessUdpData at h
  cases packet with
  | none => cases h
  | some lpPdu =>
      dsimp only at h
      split at h
      · cases h
      · rename_i hparse
        split at h
        · cases h
        · split at h
          · rename_i henable
            rw [List.mem_singleton.mp h]
            obtain ⟨_, m, _, _, _, _, hcarries, _⟩ := parsePacket2_enabled rfl hparse henable
            exact ⟨m, hcarries⟩
          · cases h

theorem protocolAdapterProcessUdpData_fits {packet : Option PDU} {buffer : List UInt8}
    (h : ∀ lpPdu, packet = some lpPdu → LengthFits lpPdu.data.length buffer) :
    (protocolAdapterProcessUdpData packet buffer).fault = none := by
  unfold protocolAdapterProcessUdpData
  cases packet with
  | none => rfl
  | some lpPdu =>
      have hfits : ∀ f, parsePacket2 buffer { lpPdu with bEnable := false } ≠ .error f :=
        parsePacket2_fits (h lpPdu rfl)
      dsimp only
      split
      · rename_i f hparse
        exact absurd hparse (hfits f)
      · split
        · rfl
        · split <;> rfl

inductive Effect.Harmless : Effect → Prop
  | setLogin : Harmless .setLogin
  | replyToClient {cmd cmdEx : UInt8} {data : List UInt8} :
      Harmless (.replyToClient cmd cmdEx data)
  | discovery {data : List UInt8} (hdata : data.length ≤ 2052) :
      Harmless (.replyToUdp pcsDiscoverDevice pcsEx01 data)

def Harmless (effects : List Effect) : Prop := ∀ effect ∈ effects, effect.Harmless

theorem harmless_nil : Harmless [] := nofun

theorem Harmless.append {effects : List Effect} (h : Harmless effects) {effect : Effect}
    (heffect : effect.Harmless) : Harmless (effects ++ [effect]) := by
  intro e he
  rcases List.mem_append.mp he with hbefore | hhere
  · exact h e hbefore
  · rw [List.mem_singleton.mp hhere]
    exact heffect

section Dispatch

variable {libc : Libc φ} {γ : Type} {view : Machine φ → γ}

def Discovers {α : Type} (view : Machine φ → γ) (m : Run φ α) : Prop :=
  ∀ v, Triple (fun st => view st = v ∧ Harmless st.effects) m
    (fun _ st => view st = v ∧ Harmless st.effects) (· = .null)

theorem Discovers.pure {α : Type} {a : α} : Discovers view (Pure.pure a : Run φ α) :=
  fun _ => Triple.pure fun _ hs => hs

theorem Discovers.bind {α β : Type} {m : Run φ α} {f : α → Run φ β} (hm : Discovers view m)
    (hf : ∀ a, Discovers view (f a)) : Discovers view (m >>= f) :=
  fun v => Triple.bind (hm v) fun a => hf a v

theorem discovers_call {α : Type} {op : φ → α × φ} (hop : Blind view op) :
    Discovers view (Run.call op) := by
  rintro v st ⟨rfl, hs⟩
  exact ⟨hop st, hs⟩

theorem discovers_emit (hview : EffectFree view) {effect : Effect} (heffect : effect.Harmless) :
    Discovers view (Run.emit effect : Run φ Unit) := by
  rintro v st ⟨rfl, hs⟩
  exact ⟨hview st _, hs.append heffect⟩

variable (hsilent : libc.Silent view) (hview : EffectFree view)

include hsilent in
theorem discovers_payload {pdu : PDU} {m : Message} (hcarries : pdu.Carries m) :
    Discovers view (payloadString libc pdu 0 pdu.dataLen.toNat) := by
  rintro v st ⟨rfl, hs⟩
  rw [hcarries.dataLen_toNat, payloadString_eq hcarries (by omega)]
  by_cases hmalloc : (libc.malloc st.env (m.data.length + 1)).1 = true
  · rw [if_pos hmalloc]
    exact ⟨hsilent.malloc _ st, hs⟩
  · rw [if_neg hmalloc]

include hview

theorem discovers_sendIpLoop (hostname : List UInt8) (ifList : List IfAddr) :
    Discovers view (sendIpLoop hostname ifList : Run φ Unit) := by
  induction ifList with
  | nil => exact .pure
  | cons ifa ifList ih =>
      rw [sendIpLoop]
      dsimp only
      split
      · exact .bind (fun _ => Triple.throw rfl) fun _ => ih
      · exact ih
      · rename_i ipaddr _
        have hlength := appendData_length_le ipaddr
        have hhost := appendData_length_le hostname
        split
        · refine .bind (discovers_emit hview (.discovery ?_)) fun _ => ih
          rw [List.length_append]
          omega
        · exact ih

include hsilent

theorem discovers_processProtocolDiscoverDevice :
    Discovers view (processProtocolDiscoverDevice libc) := by
  have hsendIp : Discovers view (sendIp libc) := by
    unfold sendIp
    apply Discovers.bind (discovers_call hsilent.getifaddrs)
    intro ifList
    split
    · apply Discovers.bind (discovers_call hsilent.gethostname)
      intro hostname
      split
      · exact .bind (discovers_sendIpLoop hview _ _) fun _ => .pure
      · exact .pure
    · exact .pure
  exact .bind hsendIp fun _ => .pure

theorem discovers_processProtocolClientLogin {pdu : PDU} {m : Message} (hcarries : pdu.Carries m) :
    Discovers view (processProtocolClientLogin libc pdu) := by
  have hreply : ∀ data, Discovers view
      (sendReplyToClient pcsClientLogin pcsEx01 data : Run φ Unit) :=
    fun _ => discovers_emit hview .replyToClient
  unfold processProtocolClientLogin
  dsimp only
  split
  · apply Discovers.bind (discovers_payload hsilent hcarries)
    intro password
    split
    · exact .bind (discovers_emit hview .setLogin) fun _ => hreply _
    · exact hreply _
  · exact hreply _

theorem discovers_processProtocolPdu {pdu : PDU} {m : Message} (hcarries : pdu.Carries m) :
    Discovers view (processProtocolPdu libc pdu false) := by
  unfold processProtocolPdu
  cases hbranch : pdu.branch false with
  | discoverDevice => exact discovers_processProtocolDiscoverDevice hsilent hview
  | clientLogin => exact discovers_processProtocolClientLogin hsilent hview hcarries
  | notLogin => exact .pure
  | afterLogin =>
      unfold PDU.branch at hbranch
      split at hbranch
      · cases hbranch
      · split at hbranch <;> cases hbranch

end Dispatch

/-- The reply is a discovery reply to the given address: all its bytes come from one
frame with the discovery command. -/
def DiscoveryReply (handle : Int) (reply : Int × TcpSend) : Prop :=
  reply.1 = handle ∧ ∃ data, ∀ call ∈ reply.2.calls,
    call.offered <:+ (Message.frame ⟨pcsDiscoverDevice, pcsEx01, data⟩)

structure Outbound.OnlyDiscovery (handle : Int) (before after : Outbound) : Prop where
  conns : after.conns = before.conns
  closed : after.closed = before.closed
  tcp : after.tcp = before.tcp
  udp : ∃ replies, after.udp = before.udp ++ replies ∧ ∀ reply ∈ replies, DiscoveryReply handle reply

namespace Outbound.OnlyDiscovery

variable {handle : Int} {before after : Outbound}

theorem refl (out : Outbound) : OnlyDiscovery handle out out :=
  ⟨rfl, rfl, rfl, [], by simp, nofun⟩

theorem trans {middle : Outbound} (h : OnlyDiscovery handle before middle)
    (h' : OnlyDiscovery handle middle after) : OnlyDiscovery handle before after := by
  obtain ⟨replies, hudp, hreplies⟩ := h.udp
  obtain ⟨replies', hudp', hreplies'⟩ := h'.udp
  refine ⟨h'.conns.trans h.conns, h'.closed.trans h.closed, h'.tcp.trans h.tcp,
    replies ++ replies', ?_, ?_⟩
  · rw [hudp', hudp, List.append_assoc]
  · intro reply hreply
    exact (List.mem_append.mp hreply).elim (hreplies reply) (hreplies' reply)

end Outbound.OnlyDiscovery

section Perform

variable {handle : Int} (hslot : ConnectTable.slot? handle = none)

theorem perform_discovery (out : Outbound) (answer : Answer) {data : List UInt8}
    (hdata : data.length ≤ 2052) :
    out.OnlyDiscovery handle (out.perform handle answer
      (.replyToUdp pcsDiscoverDevice pcsEx01 data)) := by
  have hsize : 7 < protocolDataSizeMax := by decide
  have hpacket := createProtocolPacket_packet ⟨pcsDiscoverDevice, pcsEx01, data⟩ hsize
    (by dsimp only; omega)
  have hresult : (createProtocolPacket pcsDiscoverDevice pcsEx01 (some data) data.length true
      protocolDataSizeMax).result =
        (Message.frame ⟨pcsDiscoverDevice, pcsEx01, data⟩).length := by
    rw [createProtocolPacket_eq ⟨pcsDiscoverDevice, pcsEx01, data⟩ hsize (by dsimp only; omega),
      Message.frame_length]
  change out.OnlyDiscovery handle (out.replyToUdp handle _ _ _ answer)
  unfold Outbound.replyToUdp
  split
  · exact .refl out
  dsimp only
  split
  · exact .refl out
  refine ⟨rfl, rfl, rfl, [_], rfl, ?_⟩
  intro reply hreply
  rw [List.mem_singleton.mp hreply]
  refine ⟨rfl, data, ?_⟩
  rw [hpacket, hresult]
  exact tcpSend_offered _ _ _

include hslot

theorem perform_harmless (out : Outbound) (answer : Answer) {effect : Effect}
    (heffect : effect.Harmless) : out.OnlyDiscovery handle (out.perform handle answer effect) := by
  cases heffect with
  | setLogin =>
      have hcall : internalClientManagerLogin out.conns handle = ⟨false, out.conns, none⟩ := by
        simp only [internalClientManagerLogin, hslot]
      have heq : out.setLogin handle = out := by
        unfold Outbound.setLogin
        rw [hcall]
        simp
      change out.OnlyDiscovery handle (out.setLogin handle)
      rw [heq]
      exact .refl out
  | replyToClient =>
      change out.OnlyDiscovery handle (out.replyToClient handle _ _ _ answer)
      unfold Outbound.replyToClient
      rw [hslot]
      split
      · exact .refl out
      dsimp only
      split <;> exact .refl out
  | discovery hdata => exact perform_discovery out answer hdata

theorem performAll_harmless {effects : List Effect} (h : Harmless effects)
    (answers : Nat → Answer) (out : Outbound) :
    out.OnlyDiscovery handle (Outbound.performAll handle effects answers out) := by
  induction effects generalizing answers out with
  | nil => exact .refl out
  | cons effect effects ih =>
      rw [Outbound.performAll]
      apply (perform_harmless hslot out (answers 0) (h effect List.mem_cons_self)).trans
      exact ih (fun e he => h e (List.mem_cons_of_mem _ he)) _ _

end Perform

def Machine.guarded (st : Machine (Traced φ)) :
    UploadFile × Heap (List UInt8) × Option (List UInt8) × List SysCall :=
  (st.upload, st.heap, st.upgradeTempDir, st.calls)

structure World.OnlyDiscovery (handle : Int) (before after : World (Traced φ)) : Prop where
  guarded : after.machine.guarded = before.machine.guarded
  out : before.out.OnlyDiscovery handle after.out

section Deliver

variable (libc : Libc φ) {handle : Int} (hslot : ConnectTable.slot? handle = none)
include hslot

theorem process_onlyDiscovery {pdu : PDU} {m : Message} (hcarries : pdu.Carries m)
    (answers : Nat → Answer) (w : World (Traced φ)) :
    match w.process libc.traced handle false pdu answers with
    | .ok w' => w.OnlyDiscovery handle w'
    | .error f => f = .null := by
  have hrequest : Discovers Machine.guarded (processProtocolPdu libc.traced pdu false) :=
    discovers_processProtocolPdu (libc.traced_silent fun _ _ => rfl) (fun _ _ => rfl) hcarries
  have hrun := hrequest w.machine.guarded w.machine.unspoken ⟨rfl, harmless_nil⟩
  unfold World.process
  cases hresult : processProtocolPdu libc.traced pdu false w.machine.unspoken with
  | error f =>
      rw [hresult] at hrun
      exact hrun
  | ok result =>
      rw [hresult] at hrun
      exact ⟨hrun.1, performAll_harmless hslot hrun.2 answers w.out⟩

theorem processAll_onlyDiscovery {pdus : List PDU} (hcarries : ∀ pdu ∈ pdus, ∃ m, pdu.Carries m)
    (answers : Nat → Nat → Answer) (w : World (Traced φ)) :
    match w.processAll libc.traced handle false pdus answers with
    | .ok w' => w.OnlyDiscovery handle w'
    | .error f => f = .null := by
  induction pdus generalizing answers w with
  | nil => exact ⟨rfl, .refl w.out⟩
  | cons pdu pdus ih =>
      obtain ⟨m, hm⟩ := hcarries pdu List.mem_cons_self
      have hstep := process_onlyDiscovery libc hslot hm (answers 0) w
      rw [World.processAll]
      cases hprocess : w.process libc.traced handle false pdu (answers 0) with
      | error f =>
          rw [hprocess] at hstep
          exact hstep
      | ok w₁ =>
          rw [hprocess] at hstep
          have hrest := ih (fun p hp => hcarries p (List.mem_cons_of_mem _ hp))
            (fun k => answers (k + 1)) w₁
          dsimp only at hrest ⊢
          cases hall : w₁.processAll libc.traced handle false pdus (fun k => answers (k + 1)) with
          | error f =>
              rw [hall] at hrest
              exact hrest
          | ok w₂ =>
              rw [hall] at hrest
              exact ⟨hrest.guarded.trans hstep.guarded, hstep.out.trans hrest.out⟩

end Deliver

/-- A datagram whose first frame fits leaves the connections, the upload and the
files alone and writes to no TCP socket; all it can do is have discovery replies sent
to its own address. A fault can only be the NULL of a failed `malloc` or of an
interface without an address. -/
theorem udp_isolated (libc : Libc φ) {packet : Option PDU} {datagram : List UInt8} {handle : Int}
    (hzero : handle ≠ 0) (hone : handle ≠ 1)
    (hfit : ∀ lpPdu, packet = some lpPdu → LengthFits lpPdu.data.length datagram)
    (answers : Nat → Nat → Answer) (w : World (Traced φ)) :
    (∀ w', w.udpData libc.traced handle packet datagram answers = .ok w' →
        w'.machine.upload = w.machine.upload ∧ w'.machine.heap = w.machine.heap ∧
          w'.machine.calls = w.machine.calls ∧ w'.out.conns = w.out.conns ∧
          w'.out.closed = w.out.closed ∧ w'.out.tcp = w.out.tcp ∧
          ∃ replies, w'.out.udp = w.out.udp ++ replies ∧
            ∀ reply ∈ replies, DiscoveryReply handle reply) ∧
      ∀ f, w.udpData libc.traced handle packet datagram answers = .error f → f = .null := by
  have hslot : ConnectTable.slot? handle = none := by
    unfold ConnectTable.slot?
    rw [dif_neg]
    have hcount : clientCountMax = 2 := rfl
    omega
  have hcarries : ∀ pdu ∈ (protocolAdapterProcessUdpData packet datagram).dispatched,
      ∃ m, pdu.Carries m := fun _ => protocolAdapterProcessUdpData_carries
  have hall := processAll_onlyDiscovery libc hslot hcarries answers w
  unfold World.udpData World.deliver
  rw [protocolAdapterProcessUdpData_fits hfit]
  cases hrun : w.processAll libc.traced handle false
      (protocolAdapterProcessUdpData packet datagram).dispatched answers with
  | error f =>
      rw [hrun] at hall
      exact ⟨nofun, fun _ herror => Except.error.inj herror ▸ hall⟩
  | ok w₁ =>
      rw [hrun] at hall
      refine ⟨?_, nofun⟩
      rintro w' ⟨⟩
      exact ⟨congrArg (·.1) hall.guarded, congrArg (·.2.1) hall.guarded,
        congrArg (·.2.2.2) hall.guarded, hall.out.conns, hall.out.closed, hall.out.tcp, hall.out.udp⟩

def idleWorld : World (Traced Unit) :=
  ⟨tracedMachine (some (literal "up")), ⟨clientManagerInit .zero, 7, [], [], []⟩⟩

def loginFrame : List UInt8 := Message.frame ⟨pcsClientLogin, pcsEx01, literal "jikongupgrade"⟩

theorem loginFrame_fits : LengthFits protoDataLenMax loginFrame := by
  unfold LengthFits
  decide +kernel

/-- Packets are there and the kernel takes what it is offered. -/
def willing : Nat → Nat → Answer := fun _ _ => ⟨true, fun _ => protocolDataSizeMax⟩

/-- A datagram with the right password. -/
theorem udp_isolated_login :
    ∃ w, idleWorld.udpData obligingLibc.traced 4096 (some freshPdu) loginFrame willing = .ok w ∧
      w.machine.upload = idleWorld.machine.upload ∧ w.out.conns = idleWorld.out.conns ∧
      w.out.tcp = [] := by
  have hfit : ∀ lpPdu, some freshPdu = some lpPdu → LengthFits lpPdu.data.length loginFrame := by
    intro lpPdu hpacket
    rw [← Option.some.inj hpacket, freshPdu_data_length]
    exact loginFrame_fits
  have hisolated := (udp_isolated obligingLibc (show (4096 : Int) ≠ 0 by decide)
    (show (4096 : Int) ≠ 1 by decide) hfit willing idleWorld).1
  have hok : (idleWorld.udpData obligingLibc.traced 4096 (some freshPdu) loginFrame
      willing).isOk = true := by decide +kernel
  cases hrun : idleWorld.udpData obligingLibc.traced 4096 (some freshPdu) loginFrame willing with
  | error f =>
      rw [hrun] at hok
      cases hok
  | ok w =>
      obtain ⟨hupload, -, -, hconns, -, htcp, -⟩ := hisolated w hrun
      exact ⟨w, rfl, hupload, hconns, htcp⟩

end CccUpgrade
