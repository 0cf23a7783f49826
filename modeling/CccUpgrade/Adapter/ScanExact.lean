import CccUpgrade.Adapter.ProcessData

/-! Which frames of a buffer are dispatched. The scan skips junk, drops single headers
and jumps over whole frames, so every frame it has passed was dispatched or starts inside
one that was. -/
namespace CccUpgrade

open Lib Scanner

/-- A PDU that was dispatched, with the place of its frame in the buffer. -/
structure Placed where
  start : Nat
  pdu : PDU

def Placed.stop (p : Placed) : Nat := p.start + p.pdu.message.encoding.length

/-- The PDUs a call has dispatched and the frames they came from. -/
structure ScanExact (buffer : List UInt8) (r : ProcessData) (placed : List Placed) : Prop where
  dispatched : placed.map Placed.pdu = r.dispatched
  whole : ∀ p ∈ placed, p.pdu.Carries p.pdu.message
  encoded : ∀ p ∈ placed, p.pdu.message.encoding <+: buffer.drop p.start
  disjoint : placed.Pairwise fun p q => p.stop ≤ q.start
  passed : ∀ (start : Nat) (m : Message), m.data.length ≤ protoDataLenMax →
    m.encoding <+: buffer.drop start → start < r.consume →
      ∃ p ∈ placed, p.start = start ∧ p.pdu.message = m ∨ p.start < start ∧ start < p.stop

theorem frameLook_of_frame {capacity count : Nat} {input : List UInt8} {event : Option Message}
    {m : Message} (hlong : m.data.length ≤ 0xFFFFF) (hframe : m.frame <+: input)
    (hlook : frameLook capacity input = .take count event) : event = some m := by
  obtain ⟨rest, rfl⟩ := hframe
  have hlarger : frameLook (max capacity m.data.length) (m.frame ++ rest) =
      frameLook capacity (m.frame ++ rest) := by
    apply frameLook_larger (Nat.le_max_left _ _)
    simp [hlook]
  rw [frameLook_frame (Nat.le_max_right _ _) hlong, hlook] at hlarger
  cases hlarger
  rfl

def framed (taken : List (Taken Message)) : List (Nat × Message) :=
  taken.filterMap fun t => t.event.map (t.start, ·)

theorem mem_framed {taken : List (Taken Message)} {start : Nat} {m : Message} :
    (start, m) ∈ framed taken ↔ ∃ t ∈ taken, t.start = start ∧ t.event = some m := by
  simp only [framed, List.mem_filterMap, Option.map_eq_some_iff, Prod.mk.injEq]
  constructor
  · rintro ⟨t, ht, m', hevent, hstart, rfl⟩
    exact ⟨t, ht, hstart, hevent⟩
  · rintro ⟨t, ht, hstart, hevent⟩
    exact ⟨t, ht, m, hevent, hstart, rfl⟩

theorem exists_placed {taken : List (Taken Message)} {pdus : List PDU}
    (h : Carry pdus (taken.filterMap Taken.event)) :
    ∃ placed : List Placed, placed.map Placed.pdu = pdus ∧
      (∀ p ∈ placed, p.pdu.Carries p.pdu.message) ∧
      placed.map (fun p => (p.start, p.pdu.message)) = framed taken := by
  induction taken generalizing pdus with
  | nil =>
      cases h
      exact ⟨[], rfl, nofun, rfl⟩
  | cons t taken ih =>
      obtain ⟨start, count, event⟩ := t
      cases event with
      | none => exact ih h
      | some m =>
          change Carry pdus (m :: taken.filterMap Taken.event) at h
          cases h with
          | @cons pdu _ pdus _ hcarries hrest =>
              obtain ⟨placed, hpdus, hwhole, hframed⟩ := ih hrest
              have hmessage := hcarries.message_eq
              refine ⟨⟨start, pdu⟩ :: placed, ?_, ?_, ?_⟩
              · rw [List.map_cons, hpdus]
              · intro p hp
                cases hp with
                | head =>
                    rw [hmessage]
                    exact hcarries
                | tail _ hp => exact hwhole p hp
              · rw [List.map_cons, hframed, hmessage]
                rfl

section Takes

variable {capacity : Nat} {buffer rest : List UInt8} {taken : List (Taken Message)}
  (h : (frameScanner capacity).Takes 0 buffer taken rest)
include h

theorem take_frame {t : Taken Message} (ht : t ∈ taken) {m : Message} (hevent : t.event = some m) :
    m.encoding <+: buffer.drop t.start ∧ t.stop = t.start + m.encoding.length := by
  have hlook : frameLook capacity (buffer.drop t.start) = .take t.count (some m) := by
    rw [← hevent]
    exact h.look t ht
  obtain ⟨hcount, hlong⟩ := frameLook_count hlook
  rw [m.encoding_eq (by omega)]
  refine ⟨frameLook_event hlook, ?_⟩
  rw [Message.frame_length, Taken.stop, hcount]

/-- A frame among the bytes that were taken is one of the takes or inside of one. -/
theorem frame_passed {start : Nat} {m : Message} (hlong : m.data.length ≤ 0xFFFFF)
    (hframe : m.frame <+: buffer.drop start) (hstart : start + rest.length < buffer.length) :
    ∃ t ∈ taken, ∃ m', t.event = some m' ∧
      (t.start = start ∧ m' = m ∨ t.start < start ∧ start < t.stop) := by
  obtain ⟨t, ht, hle, hlt⟩ := h.covers (Nat.zero_le start) (by omega)
  have hlook : frameLook capacity (buffer.drop t.start) = .take t.count t.event := h.look t ht
  refine ⟨t, ht, ?_⟩
  by_cases hhere : t.start = start
  · rw [hhere] at hlook
    exact ⟨m, frameLook_of_frame hlong hframe hlook, .inl ⟨hhere, rfl⟩⟩
  · have hcount := frameLook_count hlook
    cases hevent : t.event with
    | none =>
        -- A dropped byte has no inside.
        rw [hevent] at hcount
        have hone : t.count = 1 := hcount
        unfold Taken.stop at hlt
        omega
    | some m' => exact ⟨m', rfl, .inr ⟨by omega, hlt⟩⟩

end Takes

/-- A call that completes has dispatched, in order, PDUs of disjoint frames of its buffer,
each exactly what the encoder makes of it, and among the bytes it has used there is no
other frame outside of these. -/
theorem scan_exact {packet : Option PDU} {buffer : List UInt8}
    (hfault : (protocolAdapterProcessData packet buffer).fault = none) :
    ∃ placed, ScanExact buffer (protocolAdapterProcessData packet buffer) placed := by
  cases packet with
  | none =>
      refine ⟨[], rfl, nofun, nofun, .nil, ?_⟩
      intro start m _ _ hstart
      exact absurd hstart (Int.not_lt.mpr (Int.natCast_nonneg start))
  | some lpPdu =>
      obtain ⟨hcarry, hfault', -⟩ := protocolAdapterProcessData_spec lpPdu buffer
      cases hscan : (frameScanner lpPdu.data.length).scan buffer with
      | halted events f =>
          rw [hscan, hfault] at hfault'
          cases hfault'
      | waiting events rest =>
          have hconsume := protocolAdapterProcessData_consume hscan
          rw [hscan] at hcarry
          obtain ⟨taken, htakes, rfl⟩ := Scanner.exists_takes hscan 0
          obtain ⟨placed, hpdus, hwhole, hframed⟩ := exists_placed hcarry
          have hplaced : ∀ p ∈ placed, ∃ t ∈ taken, t.start = p.start ∧
              t.event = some p.pdu.message := by
            intro p hp
            apply mem_framed.mp
            rw [← hframed]
            exact List.mem_map_of_mem hp
          refine ⟨placed, hpdus, hwhole, ?_, ?_, ?_⟩
          · intro p hp
            obtain ⟨t, ht, hstart, hevent⟩ := hplaced p hp
            rw [← hstart]
            exact (take_frame htakes ht hevent).1
          · have hdisjoint : (framed taken).Pairwise fun p q =>
                p.1 + p.2.encoding.length ≤ q.1 := by
              rw [framed, List.pairwise_filterMap]
              refine htakes.disjoint.imp_of_mem ?_
              rintro t u ht - hle ⟨start, m⟩ hfirst ⟨start', m'⟩ hsecond
              simp only [Option.map_eq_some_iff, Prod.mk.injEq] at hfirst hsecond
              obtain ⟨_, hevent, rfl, rfl⟩ := hfirst
              obtain ⟨_, -, rfl, -⟩ := hsecond
              rwa [(take_frame htakes ht hevent).2] at hle
            rw [← hframed, List.pairwise_map] at hdisjoint
            exact hdisjoint
          · intro start m hlength hencoding hstart
            have hmax : protoDataLenMax = 4096 := rfl
            rw [m.encoding_eq (by omega)] at hencoding
            obtain ⟨t, ht, m', hevent, hwhere⟩ :=
              frame_passed htakes (by omega) hencoding (by omega)
            have hmem : (t.start, m') ∈ framed taken := mem_framed.mpr ⟨t, ht, rfl, hevent⟩
            rw [← hframed] at hmem
            obtain ⟨p, hp, hp'⟩ := List.mem_map.mp hmem
            obtain ⟨hpstart, hpmessage⟩ := Prod.mk.inj hp'
            have hstop := (take_frame htakes ht hevent).2
            refine ⟨p, hp, ?_⟩
            rw [Placed.stop, hpstart, hpmessage, ← hstop]
            exact hwhere

def noisyBuffer : List UInt8 :=
  [0x00, 0x7e] ++ Message.frame ⟨pcsUploadFile, pcsEx05, [pcsExOk]⟩ ++
    [0x7e, 0xE2, 0x01, 0x00, 0x00, 0x00, 0x00, 0x00, 0x00] ++
    Message.frame ⟨pcsUploadFile, pcsEx01, [0x7e]⟩

theorem scan_exact_noisy : ∃ placed,
    ScanExact noisyBuffer (protocolAdapterProcessData (some freshPdu) noisyBuffer) placed ∧
      (protocolAdapterProcessData (some freshPdu) noisyBuffer).dispatched.map PDU.message =
        [⟨pcsUploadFile, pcsEx05, [pcsExOk]⟩, ⟨pcsUploadFile, pcsEx01, [0x7e]⟩] := by
  have hscanned : (protocolAdapterProcessData (some freshPdu) noisyBuffer).fault = none ∧
      (protocolAdapterProcessData (some freshPdu) noisyBuffer).dispatched.map PDU.message =
        [⟨pcsUploadFile, pcsEx05, [pcsExOk]⟩, ⟨pcsUploadFile, pcsEx01, [0x7e]⟩] := by decide +kernel
  obtain ⟨placed, hexact⟩ := scan_exact hscanned.1
  exact ⟨placed, hexact, hscanned.2⟩

end CccUpgrade
