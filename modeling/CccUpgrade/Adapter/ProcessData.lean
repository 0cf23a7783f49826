import CccUpgrade.Protocol.Parse
import Mathlib.Data.List.Forall2

/-! `protocol_adapter_process_data` and its UDP sibling: the scan of one buffer.
Control flow does not depend on what the handlers do, so the calls of
`process_protocol_pdu` are recorded as the list of PDUs they are made with. The
scan computes what the frame scanner computes on the same bytes. -/
namespace CccUpgrade

open Lib

structure ProcessData where
  consume : Int
  /-- The arguments of the calls of `process_protocol_pdu`, in order. -/
  dispatched : List PDU
  /-- The packet given back by `packet_pool_set`, if it is. -/
  packet : Option PDU
  fault : Option Fault
deriving DecidableEq, Repr

/-- The `while(data_len > 0)` loop. `buffer` is the unread part, so its length is
`data_len`. Every round that continues uses at least one byte; `fuel` bounds the
rounds and the caller provides one for each byte. -/
def processDataLoop : Nat → List UInt8 → Int → List PDU → PDU → ProcessData
  | 0, _, consume, dispatched, lpPdu => ⟨consume, dispatched, some lpPdu, none⟩
  | fuel + 1, buffer, consume, dispatched, lpPdu =>
      if buffer.length ≤ 0 then ⟨consume, dispatched, some lpPdu, none⟩
      else match parsePacket2 buffer { lpPdu with bEnable := false } with
        | .error f => ⟨consume, dispatched, none, some f⟩
        | .ok (len, lpPdu) =>
            if len ≤ 0 then ⟨consume, dispatched, some lpPdu, none⟩
            else
              let dispatched := if lpPdu.bEnable then dispatched ++ [lpPdu] else dispatched
              processDataLoop fuel (buffer.drop len.toNat) (consume + len) dispatched lpPdu

def freshPdu : PDU := ⟨0, 0, List.replicate protoDataLenMax 0, 0, 0, 0, false⟩

theorem freshPdu_data_length : freshPdu.data.length = protoDataLenMax :=
  List.length_replicate

/-- `protocol_adapter_process_data`. `packet` is the PDU of the packet that
`packet_pool_get_pdu_buf` returned, `none` for NULL. -/
def protocolAdapterProcessData (packet : Option PDU) (buffer : List UInt8) : ProcessData :=
  match packet with
  | none => ⟨0, [], none, none⟩
  | some lpPdu => processDataLoop buffer.length buffer 0 [] lpPdu

/-- `protocol_adapter_process_udp_data`: at most one PDU is dispatched, and the
packet is not given back when the parser uses no byte. -/
def protocolAdapterProcessUdpData (packet : Option PDU) (buffer : List UInt8) : ProcessData :=
  match packet with
  | none => ⟨0, [], none, none⟩
  | some lpPdu =>
      match parsePacket2 buffer { lpPdu with bEnable := false } with
      | .error f => ⟨0, [], none, some f⟩
      | .ok (len, lpPdu) =>
          if len ≤ 0 then ⟨0, [], none, none⟩
          else if lpPdu.bEnable then ⟨0, [lpPdu], some lpPdu, none⟩
          else ⟨0, [], some lpPdu, none⟩

theorem scan_junk (capacity : Nat) {junk : List UInt8} (hjunk : protocolHeader ∉ junk)
    (rest : List UInt8) :
    (frameScanner capacity).scan (junk ++ rest) = (frameScanner capacity).scan rest := by
  induction junk with
  | nil => rfl
  | cons byte junk ih =>
      simp only [List.mem_cons, not_or] at hjunk
      have hlook : (frameScanner capacity).look (byte :: (junk ++ rest)) = .take 1 none :=
        if_pos (Ne.symm hjunk.1)
      rw [List.cons_append, Scanner.scan_take hlook]
      simpa using ih hjunk.2

abbrev Carry (pdus : List PDU) (messages : List Message) : Prop :=
  List.Forall₂ PDU.Carries pdus messages

theorem Carry.message_eq {pdus : List PDU} {messages : List Message} (h : Carry pdus messages) :
    pdus.map PDU.message = messages := by
  induction h with
  | nil => rfl
  | cons hhead _ ih => rw [List.map_cons, hhead.message_eq, ih]

theorem Carry.mem {pdus : List PDU} {messages : List Message} (h : Carry pdus messages)
    {pdu : PDU} (hpdu : pdu ∈ pdus) : ∃ m ∈ messages, pdu.Carries m := by
  induction h with
  | nil => cases hpdu
  | @cons first m _ _ hhead _ ih =>
      cases hpdu with
      | head => exact ⟨m, List.mem_cons_self, hhead⟩
      | tail _ hrest =>
          obtain ⟨m', hm', hcarries⟩ := ih hrest
          exact ⟨m', List.mem_cons_of_mem _ hm', hcarries⟩

/-- The result of a loop as the end of a scan of its buffer: what was used is
counted, what is left is waited on, and each message reported was dispatched. -/
def Processed (capacity : Nat) (consume : Int) (before : List PDU) (buffer : List UInt8)
    (r : ProcessData) : Prop :=
  ∃ later, r.dispatched = before ++ later ∧
    match (frameScanner capacity).scan buffer with
    | .waiting events rest =>
        Carry later events ∧ r.fault = none ∧
          ∃ used, buffer = used ++ rest ∧ r.consume = consume + used.length
    | .halted events f => Carry later events ∧ r.fault = some f

section Processed

variable {capacity : Nat} {consume : Int} {before : List PDU}

theorem Processed.after {dispatched : List PDU} {messages : List Message}
    (hcarry : Carry dispatched messages) {used buffer : List UInt8} {r : ProcessData}
    (hscan : (frameScanner capacity).scan (used ++ buffer) =
      ((frameScanner capacity).scan buffer).prepend messages)
    (h : Processed capacity (consume + used.length) (before ++ dispatched) buffer r) :
    Processed capacity consume before (used ++ buffer) r := by
  obtain ⟨later, hdispatched, h⟩ := h
  refine ⟨dispatched ++ later, by rw [hdispatched, List.append_assoc], ?_⟩
  rw [hscan]
  cases hend : (frameScanner capacity).scan buffer with
  | waiting events rest =>
      simp only [hend] at h
      obtain ⟨hevents, hfault, used', hsplit, hconsume⟩ := h
      refine ⟨List.rel_append hcarry hevents, hfault, used ++ used', ?_, ?_⟩
      · rw [hsplit, List.append_assoc]
      · rw [hconsume, List.length_append]
        omega
  | halted events f =>
      simp only [hend] at h
      exact ⟨List.rel_append hcarry h.1, h.2⟩

theorem Processed.skip {junk rest : List UInt8} (hjunk : protocolHeader ∉ junk) {r : ProcessData}
    (h : Processed capacity (consume + junk.length) before rest r) :
    Processed capacity consume before (junk ++ rest) r := by
  apply Processed.after .nil
  · rw [scan_junk capacity hjunk, Scan.prepend_nil]
  · rwa [List.append_nil]

theorem Processed.stop {buffer : List UInt8} {packet : Option PDU}
    (hscan : (frameScanner capacity).scan buffer = .waiting [] buffer) :
    Processed capacity consume before buffer ⟨consume, before, packet, none⟩ := by
  refine ⟨[], by simp, ?_⟩
  rw [hscan]
  exact ⟨.nil, rfl, [], rfl, by simp⟩

theorem scan_nil (capacity : Nat) :
    (frameScanner capacity).scan [] = .waiting [] [] :=
  Scanner.scan_wait rfl

theorem Processed.round {junk start : List UInt8} (hjunk : protocolHeader ∉ junk) {count : Nat}
    {event : Option Message} (hlook : (frameScanner capacity).look start = .take count event)
    {dispatched : List PDU} (hevent : Carry dispatched event.toList) {r : ProcessData}
    (h : Processed capacity (consume + ((junk.length : Int) + count)) (before ++ dispatched)
      (start.drop count) r) :
    Processed capacity consume before (junk ++ start) r := by
  have hle := (frameScanner capacity).take_le hlook
  have hsplit : junk ++ start = (junk ++ start.take count) ++ start.drop count := by
    rw [List.append_assoc, List.take_append_drop]
  have hused : ((junk ++ start.take count).length : Int) = (junk.length : Int) + count := by
    rw [List.length_append, List.length_take_of_le hle]
    exact Int.natCast_add _ _
  rw [hsplit]
  refine Processed.after hevent ?_ ?_
  · rw [← hsplit, scan_junk capacity hjunk, Scanner.scan_take hlook]
  · rwa [hused]

theorem drop_round (junk start : List UInt8) (count : Nat) :
    (junk ++ start).drop ((junk.length : Int) + count).toNat = start.drop count := by
  rw [show ((junk.length : Int) + count).toNat = junk.length + count by omega,
    List.drop_length_add_append]

/-- With one round of fuel for each byte the loop ends as the scan does. -/
theorem processDataLoop_spec (fuel : Nat) (buffer : List UInt8) (consume : Int)
    (before : List PDU) (lpPdu : PDU) (hfuel : buffer.length ≤ fuel) :
    Processed lpPdu.data.length consume before buffer
      (processDataLoop fuel buffer consume before lpPdu) := by
  induction fuel generalizing buffer consume before lpPdu with
  | zero =>
      obtain rfl : buffer = [] := List.length_eq_zero_iff.mp (by omega)
      exact .stop (scan_nil _)
  | succ fuel ih =>
      rw [processDataLoop]
      by_cases hempty : buffer.length ≤ 0
      · rw [if_pos hempty]
        obtain rfl : buffer = [] := List.length_eq_zero_iff.mp (by omega)
        exact .stop (scan_nil _)
      rw [if_neg hempty]
      by_cases hheader : protocolHeader ∈ buffer
      · obtain ⟨junk, rest, rfl, hjunk⟩ := List.eq_append_cons_of_mem hheader
        have hparsed : Parsed junk.length { lpPdu with bEnable := false }
            ((frameScanner lpPdu.data.length).look (protocolHeader :: rest)) _ :=
          parsePacket2_header hjunk { lpPdu with bEnable := false } rest
        generalize hlook : (frameScanner _).look (protocolHeader :: rest) = look at hparsed
        generalize parsePacket2 _ _ = call at hparsed
        cases hparsed with
        | @wait pdu' hkept =>
            dsimp only
            by_cases hjunkLen : (junk.length : Int) ≤ 0
            · obtain rfl : junk = [] := List.length_eq_zero_iff.mp (by omega)
              rw [if_pos hjunkLen]
              exact .stop (Scanner.scan_wait hlook)
            · rw [if_neg hjunkLen, hkept.bEnable, if_neg (by simp), Int.toNat_natCast,
                List.drop_left]
              have hrest := ih (protocolHeader :: rest) (consume + junk.length) before pdu' (by
                simp only [List.length_append] at hfuel
                omega)
              rw [hkept.capacity] at hrest
              exact .skip hjunk hrest
        | @drop pdu' hkept =>
            dsimp only
            rw [if_neg (by omega), hkept.bEnable, if_neg (by simp)]
            have hrest := ih ((protocolHeader :: rest).drop 1) (consume + ((junk.length : Int) + 1))
              before pdu' (by
                simp only [List.length_append, List.length_cons, List.drop_succ_cons,
                  List.drop_zero] at hfuel ⊢
                omega)
            rw [hkept.capacity] at hrest
            have hdrop : (junk ++ protocolHeader :: rest).drop ((junk.length : Int) + 1).toNat =
                (protocolHeader :: rest).drop 1 := drop_round junk _ 1
            rw [hdrop]
            exact Processed.round hjunk hlook .nil (by rwa [List.append_nil])
        | @frame pdu' m count hcarries hcapacity henable =>
            have hpos := (frameScanner _).take_pos hlook
            dsimp only
            rw [if_neg (by omega), henable, if_pos rfl]
            have hrest := ih ((protocolHeader :: rest).drop count)
              (consume + ((junk.length : Int) + count)) (before ++ [pdu']) pdu' (by
                simp only [List.length_append, List.length_cons, List.length_drop] at hfuel ⊢
                omega)
            rw [hcapacity] at hrest
            rw [drop_round]
            exact .round hjunk hlook (.cons hcarries .nil) hrest
        | halt =>
            refine ⟨[], by simp, ?_⟩
            rw [scan_junk _ hjunk, Scanner.scan_halt hlook]
            exact ⟨.nil, rfl⟩
      · rw [parsePacket2_junk _ hheader]
        dsimp only
        rw [if_neg (by omega), if_neg (by simp), Int.toNat_natCast, List.drop_length]
        have hrest := ih [] (consume + buffer.length) before { lpPdu with bEnable := false } (by simp)
        have h := Processed.skip hheader hrest
        rwa [List.append_nil] at h

end Processed

/-- The call dispatches the messages the scan of its buffer reports, faults when
the scan halts, and otherwise leaves exactly what the scan waits on. -/
theorem protocolAdapterProcessData_spec (lpPdu : PDU) (buffer : List UInt8) :
    let r := protocolAdapterProcessData (some lpPdu) buffer
    let s := (frameScanner lpPdu.data.length).scan buffer
    Carry r.dispatched s.events ∧ r.fault = s.fault ∧
      ∀ events rest, s = .waiting events rest → buffer.drop r.consume.toNat = rest := by
  have h := processDataLoop_spec buffer.length buffer 0 [] lpPdu le_rfl
  obtain ⟨later, hdispatched, h⟩ := h
  simp only [protocolAdapterProcessData, hdispatched, List.nil_append]
  cases hend : (frameScanner lpPdu.data.length).scan buffer with
  | waiting events rest =>
      rw [hend] at h
      obtain ⟨hcarry, hfault, used, hsplit, hconsume⟩ := h
      refine ⟨hcarry, hfault, ?_⟩
      rintro _ _ ⟨⟩
      rw [hconsume, hsplit, show ((0 : Int) + used.length).toNat = used.length by omega,
        List.drop_left]
  | halted events f =>
      rw [hend] at h
      exact ⟨h.1, h.2, by simp⟩

theorem protocolAdapterProcessData_consume {lpPdu : PDU} {buffer : List UInt8}
    {events : List Message} {rest : List UInt8}
    (hscan : (frameScanner lpPdu.data.length).scan buffer = .waiting events rest) :
    (protocolAdapterProcessData (some lpPdu) buffer).consume = buffer.length - rest.length := by
  obtain ⟨later, -, h⟩ := processDataLoop_spec buffer.length buffer 0 [] lpPdu le_rfl
  rw [hscan] at h
  obtain ⟨-, -, used, hsplit, hconsume⟩ := h
  have hlength := congrArg List.length hsplit
  rw [List.length_append] at hlength
  change (processDataLoop buffer.length buffer 0 [] lpPdu).consume = _
  omega

theorem dispatched_event {packet : Option PDU} {buffer : List UInt8} {pdu : PDU}
    (h : pdu ∈ (protocolAdapterProcessData packet buffer).dispatched) :
    ∃ m, pdu.Carries m ∧ m ∈ (roomyScanner.scan buffer).events := by
  cases packet with
  | none => cases h
  | some lpPdu =>
      obtain ⟨hcarry, -, -⟩ := protocolAdapterProcessData_spec lpPdu buffer
      obtain ⟨m, hmem, hcarries⟩ := hcarry.mem h
      exact ⟨m, hcarries, (Scanner.events_congr roomyScanner_look buffer).subset hmem⟩

theorem stands_consume {packet : Option PDU} {buffer : List UInt8}
    (h : (protocolAdapterProcessData packet buffer).fault = none) :
    roomyScanner.Stands buffer
      (buffer.drop (protocolAdapterProcessData packet buffer).consume.toNat) := by
  cases packet with
  | none => exact .start
  | some lpPdu =>
      obtain ⟨-, hfault, hrest⟩ := protocolAdapterProcessData_spec lpPdu buffer
      cases hscan : (frameScanner lpPdu.data.length).scan buffer with
      | waiting events rest =>
          rw [hrest events rest hscan]
          exact (Scanner.stands_rest hscan).congr roomyScanner_look
      | halted events f =>
          rw [hscan, h] at hfault
          cases hfault

end CccUpgrade
