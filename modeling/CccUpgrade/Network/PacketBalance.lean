import CccUpgrade.Network.ResidualData
import CccUpgrade.PacketPool.BufferRoom

/-! The data callbacks and the replies with the pool they take their packets from, whatever
`malloc`, the encoder and the network answer. Each of them hands back what it has taken, but
for the datagram callback when the parser has used no byte. -/
namespace CccUpgrade

open Lib ConnectTable

inductive DaemonFault
  | adapter (f : Fault)
  | pool (f : PoolFault)
deriving DecidableEq, Repr

/-- How `malloc` answers for a packet while it is taken, and when it is handed back. -/
structure Supply where
  mallocs : Mallocs
  node : Bool

/-- The pool and the network, as the replies find them. -/
structure Stores where
  packets : PoolUse
  out : Outbound

namespace Stores

variable (s : Stores)

/-- The common body of `send_reply_to_udp` and `send_reply_to_client`. `send` passes the
frame on; its result is that of the reply. -/
def sendReply (cmd cmdEx : UInt8) (data : List UInt8) (supply : Supply)
    (send : Outbound → Option (List UInt8) → Nat → Bool × Outbound) :
    Except PoolFault (Bool × Stores) := do
  let (packet, packets) ← s.packets.getBuffer protocolDataSizeMax supply.mallocs
  match packet with
  | none => return (false, ⟨packets, s.out⟩)
  | some packet =>
      let content ← packets.pool.load packet
      let built := createProtocolPacket cmd cmdEx (some data) data.length content.buffer.isSome
        protocolDataSizeMax
      let buffer := content.buffer.map built.store
      let packets ← packets.fill packet { content.pdu with data := buffer.getD [] }
      let (result, out) :=
        if built.result ≤ 0 then (false, s.out)
        else send s.out (buffer.map (·.take built.result)) built.result
      let (_, packets) ← packets.set (some packet) supply.node
      return (result, ⟨packets, out⟩)

def sendReplyToClient (handle : Int) (cmd cmdEx : UInt8) (data : List UInt8) (supply : Supply)
    (kernel : Nat → Int) : Except PoolFault (Bool × Stores) :=
  s.sendReply cmd cmdEx data supply fun out frame size =>
    match slot? handle with
    | none => (false, out)
    | some slot =>
        let r := internalClientManagerSend kernel out.conns handle frame size
        (r.result, { out with tcp := out.tcp ++ [((out.conns slot).sock, r)] })

def sendReplyToUdp (handle : Int) (cmd cmdEx : UInt8) (data : List UInt8) (supply : Supply)
    (kernel : Nat → Int) : Except PoolFault (Bool × Stores) :=
  s.sendReply cmd cmdEx data supply fun out frame size =>
    let r := udpSendto kernel out.udpSock frame size
    (r.result, { out with udp := out.udp ++ [(handle, r)] })

def perform (handle : Int) (supply : Supply) (kernel : Nat → Int) :
    Effect → Except PoolFault Stores
  | .setLogin => return { s with out := s.out.setLogin handle }
  | .replyToClient cmd cmdEx data =>
      return (← s.sendReplyToClient handle cmd cmdEx data supply kernel).2
  | .replyToUdp cmd cmdEx data =>
      return (← s.sendReplyToUdp handle cmd cmdEx data supply kernel).2

def performAll (handle : Int) :
    List Effect → (Nat → Supply) → (Nat → Nat → Int) → Stores → Except PoolFault Stores
  | [], _, _, s => return s
  | effect :: effects, supplies, kernels, s => do
      let s ← s.perform handle (supplies 0) (kernels 0) effect
      performAll handle effects (fun k => supplies (k + 1)) (fun k => kernels (k + 1)) s

end Stores

structure Daemon (φ : Type) where
  machine : Machine φ
  stores : Stores

structure SuppliedCall extends DataCall where
  pdu : Supply
  replies : Nat → Nat → Supply

namespace Daemon

variable {φ : Type} (libc : Libc φ)

def withPackets (s : Daemon φ) (packets : PoolUse) : Daemon φ :=
  { s with stores := { s.stores with packets := packets } }

def process (handle : Int) (bLogin : Bool) (pdu : PDU) (supplies : Nat → Supply)
    (kernels : Nat → Nat → Int) (s : Daemon φ) : Except DaemonFault (Daemon φ) := do
  let ((), machine) ← (processProtocolPdu libc pdu bLogin s.machine.unspoken).mapError .adapter
  let stores ← (s.stores.performAll handle machine.effects supplies kernels).mapError .pool
  return ⟨machine, stores⟩

def processAll (handle : Int) (bLogin : Bool) : List PDU → (Nat → Nat → Supply) →
    (Nat → Nat → Nat → Int) → Daemon φ → Except DaemonFault (Daemon φ)
  | [], _, _, s => return s
  | pdu :: pdus, supplies, kernels, s => do
      let s ← s.process libc handle bLogin pdu (supplies 0) (kernels 0)
      processAll handle bLogin pdus (fun k => supplies (k + 1)) (fun k => kernels (k + 1)) s

def putBack (s : Daemon φ) (packet : Nat) (pdu : Option PDU) (node : Bool) :
    Except PoolFault (Daemon φ) :=
  match pdu with
  | none => return s
  | some pdu => do
      let packets ← s.stores.packets.fill packet pdu
      let (_, packets) ← packets.set (some packet) node
      return s.withPackets packets

/-- `protocol_adapter_process_udp_data` or `protocol_adapter_process_data`, with the
return value. -/
def handle (call : SuppliedCall) (s : Daemon φ) : Except DaemonFault (Int × Daemon φ) := do
  let (packet, packets) ←
    (s.stores.packets.getPduBuf protoDataLenMax call.pdu.mallocs).mapError .pool
  let s := s.withPackets packets
  match packet with
  | none => return (0, s)
  | some packet =>
      let content ← (packets.pool.load packet).mapError .pool
      let r := call.find content.pdu
      let s ← s.processAll libc call.handle call.source.bLogin r.dispatched call.replies call.kernels
      match r.fault with
      | some f => .error (.adapter f)
      | none =>
          let s ← (s.putBack packet r.packet call.pdu.node).mapError .pool
          return (r.consume, s)

def run : List SuppliedCall → Daemon φ → Except DaemonFault (Daemon φ)
  | [], s => return s
  | call :: calls, s => do
      let (_, s) ← s.handle libc call
      s.run calls

def outstanding (s : Daemon φ) : List Nat := s.stores.packets.out

end Daemon

/-- A buffer that the parser leaves as it is: it is empty, or a header with only a part of
the frame behind it. -/
def Unfinished (buffer : List UInt8) : Prop :=
  buffer = [] ∨ buffer.head? = some protocolHeader ∧
    (buffer.length ≤ 7 ∨ ∃ len, lengthField buffer = some len ∧ len ≤ 0xFFFFF ∧
      (buffer.length : Int) < len + 9)

/-- A datagram with an unfinished frame that gets a packet from the pool. -/
def SuppliedCall.Leaks {φ : Type} (call : SuppliedCall) (s : Daemon φ) : Prop :=
  call.source = .udp ∧ Unfinished call.buffer ∧
    s.stores.packets.pool.next call.pdu.mallocs.packet ≠ none

section Unfinished

variable {capacity : Nat}

theorem frameLook_wait_iff {rest : List UInt8}
    (hno : ∀ f, frameLook capacity (protocolHeader :: rest) ≠ .halt f) :
    frameLook capacity (protocolHeader :: rest) = .wait ↔ Unfinished (protocolHeader :: rest) := by
  constructor
  · intro hwait
    refine .inr ⟨rfl, ?_⟩
    rcases frameLook_wait hwait with hshort | ⟨len, hfield, hlong, hle⟩
    · exact .inl hshort
    · exact .inr ⟨len, hfield, hlong, by omega⟩
  · rintro (hnil | ⟨-, hshort | ⟨len, hfield, hlong, hlt⟩⟩)
    · cases hnil
    · rw [List.length_cons] at hshort
      rw [frameLook_header, headLook_short capacity (by omega)]
    · obtain ⟨cmd, cmdEx, b0, b1, b2, b3, payload, hinput, hlen⟩ := lengthField_eq_some hfield
      rw [hinput] at hno hlt ⊢
      rw [frameLook_head] at hno ⊢
      rw [List.length_append, frameHead_length] at hlt
      rw [payloadLook_wait_iff hlen]
      by_cases hpayload : payload = []
      · exact .inl hpayload
      · have hpos := List.length_pos_iff.mpr hpayload
        have hfits : ¬ (len < payload.length ∧ (capacity : Int) < len) := fun ⟨hmore, hunfit⟩ =>
          hno _ ((payloadLook_halt_iff hlen).mpr ⟨hpayload, hlong, hmore, .inr hunfit, rfl⟩)
        refine .inr ⟨hlong, ?_⟩
        omega

theorem parsePacket2_unused {buffer : List UInt8} {pdu pdu' : PDU} {len : Int}
    (h : parsePacket2 buffer pdu = .ok (len, pdu')) : len ≤ 0 ↔ Unfinished buffer := by
  by_cases hheader : protocolHeader ∈ buffer
  case neg =>
    rw [parsePacket2_junk pdu hheader] at h
    cases h
    constructor
    · intro hlen
      exact .inl (List.length_eq_zero_iff.mp (by omega))
    · rintro (rfl | ⟨hhead, -⟩)
      · exact Int.le_refl 0
      · exact absurd (List.mem_of_head? hhead) hheader
  obtain ⟨junk, rest, rfl, hjunk⟩ := List.eq_append_cons_of_mem hheader
  have hparsed := parsePacket2_header hjunk pdu rest
  rw [h] at hparsed
  cases junk with
  | cons first junk =>
      have hunfinished : ¬ Unfinished (first :: junk ++ protocolHeader :: rest) := by
        rintro (hnil | ⟨hhead, -⟩)
        · cases hnil
        · exact hjunk (Option.some.inj hhead ▸ List.mem_cons_self)
      refine iff_of_false ?_ hunfinished
      generalize frameLook pdu.data.length (protocolHeader :: rest) = look at hparsed
      rw [List.length_cons] at hparsed
      cases hparsed
      all_goals omega
  | nil =>
      have hno : ∀ f, frameLook pdu.data.length (protocolHeader :: rest) ≠ .halt f := by
        intro f hhalt
        rw [hhalt] at hparsed
        cases hparsed
      rw [List.nil_append, ← frameLook_wait_iff hno]
      generalize hlook : frameLook pdu.data.length (protocolHeader :: rest) = look at hparsed
      cases hparsed with
      | wait => simp
      | drop => simp
      | frame =>
          have hpos := (frameLook_take hlook).1
          simp only [List.length_nil, reduceCtorEq, iff_false]
          omega

theorem processDataLoop_packet {fuel : Nat} {buffer : List UInt8} {consume : Int}
    {dispatched : List PDU} {pdu : PDU}
    (h : (processDataLoop fuel buffer consume dispatched pdu).fault = none) :
    (processDataLoop fuel buffer consume dispatched pdu).packet ≠ none := by
  induction fuel generalizing buffer consume dispatched pdu with
  | zero => exact Option.some_ne_none _
  | succ fuel ih =>
      rw [processDataLoop] at h ⊢
      split
      · exact Option.some_ne_none _
      · rename_i hmore
        rw [if_neg hmore] at h
        cases hparse : parsePacket2 buffer { pdu with bEnable := false } with
        | error f =>
            rw [hparse] at h
            cases h
        | ok result =>
            rw [hparse] at h
            dsimp only at h ⊢
            split
            · exact Option.some_ne_none _
            · rename_i hused
              rw [if_neg hused] at h
              exact ih h

theorem find_packet {call : DataCall} {pdu : PDU} (h : (call.find pdu).fault = none) :
    (call.find pdu).packet = none ↔ call.source = .udp ∧ Unfinished call.buffer := by
  unfold DataCall.find at h ⊢
  cases hsource : call.source with
  | client bLogin =>
      simp only [hsource] at h ⊢
      exact iff_of_false (processDataLoop_packet h) nofun
  | udp =>
      simp only [hsource] at h ⊢
      unfold protocolAdapterProcessUdpData at h ⊢
      dsimp only at h ⊢
      cases hparse : parsePacket2 call.buffer { pdu with bEnable := false } with
      | error f =>
          rw [hparse] at h
          cases h
      | ok result =>
          have hunused := parsePacket2_unused hparse
          dsimp only at hunused ⊢
          by_cases hlen : result.1 ≤ 0
          · rw [if_pos hlen]
            exact iff_of_true rfl ⟨trivial, hunused.mp hlen⟩
          · rw [if_neg hlen]
            refine iff_of_false ?_ fun hboth => hlen (hunused.mpr hboth.2)
            split <;> exact nofun

end Unfinished

section Replies

variable {s : Stores} (h : s.packets.Intact)
include h

theorem sendReply_balanced (cmd cmdEx : UInt8) (data : List UInt8) (supply : Supply)
    (send : Outbound → Option (List UInt8) → Nat → Bool × Outbound) :
    ∃ r s', s.sendReply cmd cmdEx data supply send = .ok (r, s') ∧ s'.packets.Intact ∧
      s'.packets.out = s.packets.out := by
  obtain ⟨result, packets, hget, hhanded⟩ := h.getBuffer protocolDataSizeMax supply.mallocs
  unfold Stores.sendReply
  rw [hget]
  cases result with
  | none => exact ⟨false, ⟨packets, s.out⟩, rfl, hhanded.intact, hhanded.out⟩
  | some p =>
      obtain ⟨-, content, -, hread, -, -⟩ := hhanded.given p rfl
      have hheld : p ∈ packets.out := by
        rw [hhanded.out]
        exact List.mem_cons_self
      have hheld' : ∀ t, some p = some t → t ∈ packets.out := by
        rintro _ ⟨⟩
        exact hheld
      generalize hbuilt : createProtocolPacket cmd cmdEx (some data) data.length
        content.buffer.isSome protocolDataSizeMax = built
      obtain ⟨-, filled, -, hfill, hintact, -, -⟩ := hhanded.intact.fill hheld
        { content.pdu with data := (content.buffer.map built.store).getD [] }
      obtain ⟨result, packets', hset, hintact', hout, -⟩ :=
        hintact.set hheld' supply.node
      simp only [bind, Except.bind, PacketPool.load_of_read hread, hbuilt, hfill, hset]
      refine ⟨_, _, rfl, hintact', ?_⟩
      dsimp only
      rw [hout, hhanded.out]
      simp

theorem sendReplyToClient_balanced (handle : Int) (cmd cmdEx : UInt8) (data : List UInt8)
    (supply : Supply) (kernel : Nat → Int) :
    ∃ r s', s.sendReplyToClient handle cmd cmdEx data supply kernel = .ok (r, s') ∧
      s'.packets.Intact ∧ s'.packets.out = s.packets.out :=
  sendReply_balanced h cmd cmdEx data supply _

theorem sendReplyToUdp_balanced (handle : Int) (cmd cmdEx : UInt8) (data : List UInt8)
    (supply : Supply) (kernel : Nat → Int) :
    ∃ r s', s.sendReplyToUdp handle cmd cmdEx data supply kernel = .ok (r, s') ∧
      s'.packets.Intact ∧ s'.packets.out = s.packets.out :=
  sendReply_balanced h cmd cmdEx data supply _

theorem perform_balanced (handle : Int) (supply : Supply) (kernel : Nat → Int) (effect : Effect) :
    ∃ s', s.perform handle supply kernel effect = .ok s' ∧ s'.packets.Intact ∧
      s'.packets.out = s.packets.out := by
  cases effect with
  | setLogin => exact ⟨_, rfl, h, rfl⟩
  | replyToClient cmd cmdEx data =>
      obtain ⟨r, s', hsend, hbalanced⟩ :=
        sendReplyToClient_balanced h handle cmd cmdEx data supply kernel
      refine ⟨s', ?_, hbalanced⟩
      simp only [Stores.perform, hsend]
      rfl
  | replyToUdp cmd cmdEx data =>
      obtain ⟨r, s', hsend, hbalanced⟩ :=
        sendReplyToUdp_balanced h handle cmd cmdEx data supply kernel
      refine ⟨s', ?_, hbalanced⟩
      simp only [Stores.perform, hsend]
      rfl

omit h in
theorem performAll_balanced (handle : Int) (effects : List Effect) (supplies : Nat → Supply)
    (kernels : Nat → Nat → Int) {s : Stores} (h : s.packets.Intact) :
    ∃ s', Stores.performAll handle effects supplies kernels s = .ok s' ∧ s'.packets.Intact ∧
      s'.packets.out = s.packets.out := by
  induction effects generalizing supplies kernels s with
  | nil => exact ⟨s, rfl, h, rfl⟩
  | cons effect effects ih =>
      obtain ⟨s₁, hfirst, hintact, hout⟩ := perform_balanced h handle (supplies 0) (kernels 0) effect
      obtain ⟨s₂, hrest, hintact', hout'⟩ :=
        ih (fun k => supplies (k + 1)) (fun k => kernels (k + 1)) hintact
      refine ⟨s₂, ?_, hintact', hout'.trans hout⟩
      rw [Stores.performAll, hfirst]
      exact hrest

end Replies

namespace Daemon

variable {φ : Type} {libc : Libc φ}

/-- A part of a call that faults in the parser or a handler, or takes no packet along. -/
def Balanced (s : Daemon φ) (part : Except DaemonFault (Daemon φ)) : Prop :=
  (∃ f, part = .error (.adapter f)) ∨
    ∃ s', part = .ok s' ∧ s'.stores.packets.Intact ∧ s'.outstanding = s.outstanding

theorem process_balanced {s : Daemon φ} (h : s.stores.packets.Intact) (handle : Int) (bLogin : Bool)
    (pdu : PDU) (supplies : Nat → Supply) (kernels : Nat → Nat → Int) :
    s.Balanced (s.process libc handle bLogin pdu supplies kernels) := by
  unfold process
  cases processProtocolPdu libc pdu bLogin s.machine.unspoken with
  | error f => exact .inl ⟨f, rfl⟩
  | ok result =>
      obtain ⟨stores, hperform, hintact, hout⟩ :=
        performAll_balanced handle result.2.effects supplies kernels h
      right
      refine ⟨⟨result.2, stores⟩, ?_, hintact, hout⟩
      simp only [bind, Except.bind, Except.mapError, hperform]
      rfl

theorem processAll_balanced (handle : Int) (bLogin : Bool) (pdus : List PDU)
    (supplies : Nat → Nat → Supply) (kernels : Nat → Nat → Nat → Int) {s : Daemon φ}
    (h : s.stores.packets.Intact) :
    s.Balanced (s.processAll libc handle bLogin pdus supplies kernels) := by
  induction pdus generalizing supplies kernels s with
  | nil => exact .inr ⟨s, rfl, h, rfl⟩
  | cons pdu pdus ih =>
      rw [processAll]
      rcases process_balanced h handle bLogin pdu (supplies 0) (kernels 0) with
        ⟨f, hfault⟩ | ⟨s₁, hfirst, hintact, hout⟩
      · rw [hfault]
        exact .inl ⟨f, rfl⟩
      · rw [hfirst]
        rcases ih (fun k => supplies (k + 1)) (fun k => kernels (k + 1)) hintact with
          hfault | ⟨s₂, hrest, hintact', hout'⟩
        · exact .inl hfault
        · exact .inr ⟨s₂, hrest, hintact', hout'.trans hout⟩

theorem putBack_balanced {s : Daemon φ} (h : s.stores.packets.Intact) {p : Nat} {out : List Nat}
    (hout : s.stores.packets.out = p :: out) (pdu : Option PDU) (node : Bool) :
    ∃ s', s.putBack p pdu node = .ok s' ∧ s'.stores.packets.Intact ∧
      s'.outstanding = if pdu = none then p :: out else out := by
  cases pdu with
  | none => exact ⟨s, rfl, h, hout⟩
  | some pdu =>
      have hheld : p ∈ s.stores.packets.out := by
        rw [hout]
        exact List.mem_cons_self
      obtain ⟨-, filled, -, hfill, hintact, -, -⟩ := h.fill hheld pdu
      have hheld' : ∀ t, some p = some t → t ∈ s.stores.packets.out := by
        rintro _ ⟨⟩
        exact hheld
      obtain ⟨r, packets, hset, hintact', hout', -⟩ := hintact.set hheld' node
      refine ⟨s.withPackets packets, ?_, hintact', ?_⟩
      · simp only [putBack, bind, Except.bind, hfill, hset]
        rfl
      · rw [if_neg (Option.some_ne_none pdu)]
        change packets.out = out
        rw [hout']
        dsimp only
        rw [hout]
        simp

/-- What a whole call leaves: one packet more is out exactly if the call leaks it. -/
theorem handle_balanced {s : Daemon φ} (h : s.stores.packets.Intact) (call : SuppliedCall) :
    (∃ f, s.handle libc call = .error (.adapter f)) ∨
      ∃ r s', s.handle libc call = .ok (r, s') ∧ s'.stores.packets.Intact ∧
        (call.Leaks s ∧ (∃ p, s'.outstanding = p :: s.outstanding) ∨
          ¬ call.Leaks s ∧ s'.outstanding = s.outstanding) := by
  obtain ⟨result, packets, hget, hhanded⟩ := h.getPduBuf protoDataLenMax call.pdu.mallocs
  unfold handle
  rw [hget]
  cases result with
  | none =>
      right
      refine ⟨0, s.withPackets packets, rfl, hhanded.intact, .inr ⟨?_, hhanded.out⟩⟩
      exact fun hleaks => hleaks.2.2 (hhanded.refused rfl)
  | some p =>
      obtain ⟨packet, content, hnext, hread, -, -⟩ := hhanded.given p rfl
      have hout : packets.out = p :: s.outstanding := hhanded.out
      have hleaks : call.Leaks s ↔ call.source = .udp ∧ Unfinished call.buffer := by
        unfold SuppliedCall.Leaks
        rw [hnext]
        simp
      simp only [bind, Except.bind, Except.mapError, PacketPool.load_of_read hread]
      have hall : (s.withPackets packets).Balanced (processAll libc call.handle call.source.bLogin
          (call.find content.pdu).dispatched call.replies call.kernels (s.withPackets packets)) :=
        processAll_balanced _ _ _ _ _ hhanded.intact
      rcases hall with ⟨f, hfault⟩ | ⟨s₁, hrun, hintact, hsame⟩
      · left
        rw [hfault]
        exact ⟨f, rfl⟩
      rw [hrun]
      dsimp only
      have hout₁ : s₁.stores.packets.out = p :: s.outstanding := hsame.trans hout
      cases hfault : (call.find content.pdu).fault with
      | some f => exact .inl ⟨f, rfl⟩
      | none =>
          right
          have hpacket := find_packet hfault
          obtain ⟨s', hback, hintact', hout'⟩ :=
            putBack_balanced hintact hout₁ (call.find content.pdu).packet call.pdu.node
          refine ⟨(call.find content.pdu).consume, s', ?_, hintact', ?_⟩
          · dsimp only
            rw [hback]
            rfl
          · split at hout'
            next hnone => exact .inl ⟨hleaks.mpr (hpacket.mp hnone), p, hout'⟩
            next hsome => exact .inr ⟨fun hleak => hsome (hpacket.mpr (hleaks.mp hleak)), hout'⟩

def LeakFree (libc : Libc φ) : List SuppliedCall → Daemon φ → Prop
  | [], _ => True
  | call :: calls, s =>
      ¬ call.Leaks s ∧ ∀ r s', s.handle libc call = .ok (r, s') → LeakFree libc calls s'

theorem run_balanced (calls : List SuppliedCall) {s : Daemon φ} (h : s.stores.packets.Intact) :
    (∃ f, s.run libc calls = .error (.adapter f)) ∨
      ∃ s', s.run libc calls = .ok s' ∧ s.outstanding.length ≤ s'.outstanding.length ∧
        (s'.outstanding.length = s.outstanding.length ↔ s.LeakFree libc calls) := by
  induction calls generalizing s with
  | nil => exact .inr ⟨s, rfl, Nat.le_refl _, iff_of_true rfl trivial⟩
  | cons call calls ih =>
      rw [run]
      rcases @handle_balanced φ libc s h call with ⟨f, hfault⟩ | ⟨r, s₁, hcall, hintact, hout⟩
      · left
        rw [hfault]
        exact ⟨f, rfl⟩
      rw [hcall]
      rcases ih hintact with hfault | ⟨s₂, hrun, hle, hiff⟩
      · exact .inl hfault
      right
      refine ⟨s₂, hrun, ?_, ?_⟩
      · rcases hout with ⟨-, p, hout⟩ | ⟨-, hout⟩
        · rw [hout, List.length_cons] at hle
          omega
        · rwa [hout] at hle
      · have hfree : s.LeakFree libc (call :: calls) ↔ ¬ call.Leaks s ∧ s₁.LeakFree libc calls := by
          simp [LeakFree, hcall]
        rw [hfree, ← hiff]
        rcases hout with ⟨hleaks, p, hout⟩ | ⟨hnot, hout⟩
        · rw [hout, List.length_cons] at hle
          refine iff_of_false (by omega) fun hboth => hboth.1 hleaks
        · rw [hout]
          exact ⟨fun hlength => ⟨hnot, hlength⟩, fun hboth => hboth.2⟩

end Daemon

/-- The replies and the stream callback hand back what they take; the datagram callback
does exactly if it gets no packet or the datagram is not an unfinished frame. -/
theorem packets_balanced {φ : Type} (libc : Libc φ) {s : Daemon φ}
    (h : packetPool.ReachableBy PoolUse.Held s.stores.packets) :
    (∀ handle cmd cmdEx data supply kernel,
      (∃ r s', s.stores.sendReplyToClient handle cmd cmdEx data supply kernel = .ok (r, s') ∧
        s'.packets.out = s.outstanding) ∧
      ∃ r s', s.stores.sendReplyToUdp handle cmd cmdEx data supply kernel = .ok (r, s') ∧
        s'.packets.out = s.outstanding) ∧
    (∀ call, (∃ f, s.handle libc call = .error (.adapter f)) ∨
      ∃ r s', s.handle libc call = .ok (r, s') ∧
        (s'.outstanding = s.outstanding ↔ ¬ call.Leaks s)) ∧
    ∀ calls, (∃ f, s.run libc calls = .error (.adapter f)) ∨
      ∃ s', s.run libc calls = .ok s' ∧
        (s'.outstanding.length = s.outstanding.length ↔ s.LeakFree libc calls) := by
  have hintact := PoolUse.intact_of_held h
  refine ⟨fun handle cmd cmdEx data supply kernel => ⟨?_, ?_⟩, fun call => ?_, fun calls => ?_⟩
  · obtain ⟨r, s', hsend, -, hout⟩ :=
      sendReplyToClient_balanced hintact handle cmd cmdEx data supply kernel
    exact ⟨r, s', hsend, hout⟩
  · obtain ⟨r, s', hsend, -, hout⟩ :=
      sendReplyToUdp_balanced hintact handle cmd cmdEx data supply kernel
    exact ⟨r, s', hsend, hout⟩
  · rcases Daemon.handle_balanced hintact call with hfault | ⟨r, s', hcall, -, hout⟩
    · exact .inl hfault
    · refine .inr ⟨r, s', hcall, ?_⟩
      rcases hout with ⟨hleaks, p, hout⟩ | ⟨hnot, hout⟩
      · rw [hout]
        exact iff_of_false (List.cons_ne_self p _) (not_not_intro hleaks)
      · exact iff_of_true hout hnot
  · rcases Daemon.run_balanced calls hintact with hfault | ⟨s', hrun, -, hiff⟩
    · exact .inl hfault
    · exact .inr ⟨s', hrun, hiff⟩

def firstDaemon : Daemon Unit := ⟨idleMachine, ⟨.init, oneClient⟩⟩

def datagram (buffer : List UInt8) : SuppliedCall :=
  ⟨⟨.udp, 0, buffer, sendsAll⟩, ⟨plenty, true⟩, fun _ _ => ⟨plenty, true⟩⟩

/-- A login, which is answered, and two bytes that are no frame. -/
theorem packets_balanced_login :
    let login := Message.frame ⟨pcsClientLogin, pcsEx01, literal "jikongupgrade"⟩
    firstDaemon.LeakFree obligingLibc [datagram login, datagram [0, 0]] := by
  intro login
  have hlength : (firstDaemon.run obligingLibc
      [datagram login, datagram [0, 0]]).toOption.map
        (·.outstanding.length) = some 0 := by decide +kernel
  rcases (packets_balanced obligingLibc (s := firstDaemon) .init).2.2
    [datagram login, datagram [0, 0]] with
    ⟨f, hfault⟩ | ⟨s', hrun, hiff⟩
  · rw [hfault] at hlength
    cases hlength
  · rw [hrun] at hlength
    exact hiff.mp (Option.some.inj hlength)

/-- One header byte: its packet stays out. -/
theorem packets_balanced_header : ¬ ∀ (call : SuppliedCall) (r : Int) (s' : Daemon Unit),
    firstDaemon.handle obligingLibc call = .ok (r, s') →
      s'.outstanding = firstDaemon.outstanding := by
  intro hclaim
  have hout : (firstDaemon.handle obligingLibc (datagram [protocolHeader])).toOption.map
      (·.2.outstanding) = some [0] := by decide +kernel
  cases hcall : firstDaemon.handle obligingLibc (datagram [protocolHeader]) with
  | error f =>
      rw [hcall] at hout
      cases hout
  | ok result =>
      rw [hcall] at hout
      have hsame := hclaim (datagram [protocolHeader]) result.1 result.2 hcall
      have hone : result.2.outstanding = [0] := Option.some.inj hout
      rw [hone] at hsame
      cases hsame

end CccUpgrade
