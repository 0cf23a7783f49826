import CccUpgrade.Network.ResidualData
import CccUpgrade.PacketPool.BufferRoom

/-! Frames in pooled packets. Whatever `malloc` answers, a packet that has a buffer has the
room it says, so that a packet from the pool has room for a reply or no buffer at all. -/
namespace CccUpgrade

open Lib

def CccPacket.Whole (packet : CccPacket) : Prop :=
  ∀ block, packet.buffer = some block → packet.bufferSize ≤ block.length

def PacketPool.Whole (pool : PacketPool) : Prop :=
  ∀ p packet, pool.packets.read p = some packet → packet.Whole

namespace CccPacket.Whole

variable {packet : CccPacket}

theorem checkBuffer (h : packet.Whole) (n : Int) (memory : Option (Nat → UInt8)) :
    (packet.cccpacketCheckBuffer n memory).2.Whole := by
  unfold cccpacketCheckBuffer
  split
  · exact h
  split
  · cases memory with
    | none => exact nofun
    | some memory =>
        rintro _ ⟨⟩
        change n ≤ ((List.range n.toNat).map memory).length
        rw [List.length_map, List.length_range]
        omega
  · exact h

theorem prepared (h : packet.Whole) (n : Int) (memory : Option (Nat → UInt8)) :
    (packet.prepared n memory).Whole := by
  unfold CccPacket.prepared
  split
  · exact h.checkBuffer n memory
  · exact h

theorem room (h : packet.Whole) {n : Int} {memory : Option (Nat → UInt8)}
    {block : List UInt8} (hblock : (packet.prepared n memory).buffer = some block) :
    n ≤ block.length := by
  unfold CccPacket.prepared cccpacketCheckBuffer at hblock
  split at hblock
  · rename_i hpos
    rw [if_neg (by omega)] at hblock
    split at hblock
    · cases memory with
      | none => cases hblock
      | some memory =>
          cases hblock
          rw [List.length_map, List.length_range]
          omega
    · rename_i hroom
      rw [not_or] at hroom
      have := h block hblock
      omega
  · omega

theorem fill (h : packet.Whole) (pdu : PDU) : (packet.fill pdu).Whole := by
  intro block hblock
  obtain ⟨old, hold, rfl⟩ := Option.map_eq_some_iff.mp hblock
  have hsize : (packet.fill pdu).bufferSize ≤ old.length := h old hold
  rw [List.length_append, List.length_take, List.length_drop]
  omega

end CccPacket.Whole

namespace PoolUse

variable {s s' : PoolUse}

theorem whole_next (h : s.pool.Whole) {memory : Option PDU} {packet : CccPacket}
    (hnext : s.pool.next memory = some packet) : packet.Whole := by
  unfold PacketPool.next at hnext
  split at hnext
  · exact h _ _ hnext
  · obtain ⟨pdu, -, rfl⟩ := Option.map_eq_some_iff.mp hnext
    exact nofun
  · cases hnext

theorem Handed.whole {n : Int} {mallocs : Mallocs} {result : Option Nat}
    (hhanded : s.Handed n mallocs result s') (h : s.pool.Whole) :
    s'.pool.Whole ∧ ∀ p, result = some p → ∃ content, s'.pool.packets.read p = some content ∧
      ∀ block, content.buffer = some block → n ≤ block.length := by
  constructor
  · intro p content hread
    by_cases hp : result = some p
    · obtain ⟨packet, content', hnext, hread', hblock, hsize⟩ := hhanded.given p hp
      rw [hread] at hread'
      cases hread'
      have hwhole := (whole_next h hnext).prepared n mallocs.buffer
      unfold CccPacket.Whole at hwhole ⊢
      rwa [hblock, hsize]
    · rw [hhanded.others p hp] at hread
      exact h p content hread
  · intro p hp
    obtain ⟨packet, content, hnext, hread, hblock, -⟩ := hhanded.given p hp
    refine ⟨content, hread, fun block hsome => ?_⟩
    rw [hblock] at hsome
    exact (whole_next h hnext).room hsome

theorem Intact.out_live (h : s.Intact) {p : Nat} (hp : p ∈ s.out) : s.pool.packets.Live p := by
  obtain ⟨q, -, -, hall⟩ := h
  exact hall p (List.mem_append_right _ hp)

theorem Intact.out_nodup (h : s.Intact) : s.out.Nodup := by
  obtain ⟨q, -, hnodup, -⟩ := h
  exact (List.nodup_append.mp hnodup).2.1

/-- What one user does with the packets `mine` leaves those of all others alone. -/
structure Kept (s s' : PoolUse) (mine : List Nat) : Prop where
  intact : s'.Intact
  whole : s'.pool.Whole
  out : ∀ p ∈ s.out, p ∉ mine → p ∈ s'.out
  read : ∀ p ∈ s.out, p ∉ mine → s'.pool.packets.read p = s.pool.packets.read p

theorem Kept.refl (h : s.Intact) (hwhole : s.pool.Whole) : s.Kept s [] :=
  ⟨h, hwhole, fun _ hp _ => hp, fun _ _ _ => rfl⟩

theorem Handed.kept {n : Int} {mallocs : Mallocs} {result : Option Nat}
    (hhanded : s.Handed n mallocs result s') (h : s.pool.Whole) : s.Kept s' [] where
  intact := hhanded.intact
  whole := (hhanded.whole h).1
  out p hp _ := by
    rw [hhanded.out]
    exact List.mem_append_right _ hp
  read p hp _ := by
    apply hhanded.others p
    rintro rfl
    have hnodup := hhanded.intact.out_nodup
    rw [hhanded.out] at hnodup
    exact (List.nodup_cons.mp hnodup).1 hp

theorem Handed.fresh {n : Int} {mallocs : Mallocs} {p : Nat}
    (hhanded : s.Handed n mallocs (some p) s') : p ∈ s'.out ∧ p ∉ s.out := by
  have hout : s'.out = p :: s.out := hhanded.out
  have hnodup := hhanded.intact.out_nodup
  rw [hout] at hnodup ⊢
  exact ⟨List.mem_cons_self, (List.nodup_cons.mp hnodup).1⟩

theorem Kept.store (h : s.Intact) (hwhole : s.pool.Whole) {p : Nat} {old content : CccPacket}
    (hread : s.pool.packets.read p = some old) (hcontent : content.Whole) :
    ∃ pool, s.pool.store p content = .ok pool ∧ s.Kept ⟨pool, s.out⟩ [p] ∧
      pool.packets.read p = some content := by
  obtain ⟨packets, hstore, hintact, hhere, hframe⟩ := h.store hread content
  refine ⟨_, hstore, ⟨hintact, ?_, fun _ hq _ => hq, fun q _ hq => ?_⟩, hhere⟩
  · intro q packet hq
    by_cases hsame : q = p
    · subst hsame
      rw [show packets.read q = some content from hhere] at hq
      cases hq
      exact hcontent
    · exact hwhole q packet ((hframe q hsame).symm.trans hq)
  · exact hframe q fun hsame => hq (List.mem_singleton.mpr hsame)

theorem Kept.fill (h : s.Intact) (hwhole : s.pool.Whole) {p : Nat} (hp : p ∈ s.out) (pdu : PDU) :
    ∃ (s' : PoolUse) (old : CccPacket), s.fill p pdu = .ok s' ∧ s.Kept s' [p] ∧ s'.out = s.out ∧
      s'.pool.packets.read p = some (old.fill pdu) := by
  obtain ⟨old, hread⟩ := h.out_live hp
  obtain ⟨pool, hstore, hkept, hhere⟩ := Kept.store h hwhole hread ((hwhole p old hread).fill pdu)
  refine ⟨⟨pool, s.out⟩, old, ?_, hkept, rfl, hhere⟩
  simp only [PoolUse.fill, PacketPool.load_of_read hread, bind, Except.bind, hstore]
  rfl

theorem Kept.set (h : s.Intact) (hwhole : s.pool.Whole) {p : Nat} (hp : p ∈ s.out) (allocated : Bool) :
    ∃ result s', s.set (some p) allocated = .ok (result, s') ∧ s.Kept s' [p] := by
  have hheld : ∀ t, some p = some t → t ∈ s.out := by
    rintro _ ⟨⟩
    exact hp
  obtain ⟨result, s', hset, hintact, hout, hold⟩ := h.set hheld allocated
  have hleft : ∀ q ∈ s.out, q ∉ [p] → q ∈ s'.out := by
    intro q hq hne
    rw [hout, Option.toList_some, List.diff_cons, List.diff_nil]
    exact (List.mem_erase_of_ne fun hsame => hne (List.mem_singleton.mpr hsame)).mpr hq
  refine ⟨result, s', hset, hintact, fun q packet hq => hwhole q packet (hold q packet hq), hleft, ?_⟩
  intro q hq hne
  obtain ⟨content, hread⟩ := hintact.out_live (hleft q hq hne)
  rw [hread, hold q content hread]

theorem Kept.trans {s'' : PoolUse} {mine more : List Nat} (h : s.Kept s' mine)
    (h' : s'.Kept s'' more) : s.Kept s'' (mine ++ more) where
  intact := h'.intact
  whole := h'.whole
  out p hp hne := by
    rw [List.mem_append, not_or] at hne
    exact h'.out p (h.out p hp hne.1) hne.2
  read p hp hne := by
    rw [List.mem_append, not_or] at hne
    rw [h'.read p (h.out p hp hne.1) hne.2, h.read p hp hne.1]

theorem Kept.mono {mine mine' : List Nat} (h : s.Kept s' mine)
    (hmine : ∀ p ∈ s.out, p ∈ mine → p ∈ mine') : s.Kept s' mine' :=
  ⟨h.intact, h.whole, fun p hp hne => h.out p hp fun hm => hne (hmine p hp hm),
    fun p hp hne => h.read p hp fun hm => hne (hmine p hp hm)⟩

end PoolUse

def CccPacket.keep (packet : CccPacket) (built : PacketOut) : CccPacket :=
  packet.fill { packet.pdu with data := (packet.buffer.map built.store).getD [] }

def CccPacket.build (packet : CccPacket) (m : Message) : Nat × CccPacket :=
  let built := createProtocolPacket m.cmd m.cmdEx (some m.data) m.data.length packet.buffer.isSome
    protocolDataSizeMax
  (built.result, packet.keep built)

/-- The frame of a reply of the given size is at the start of the buffer, or there is no
buffer and nothing to be sent. -/
def CccPacket.Holds (packet : CccPacket) (m : Message) (size : Nat) : Prop :=
  match packet.buffer with
  | none => size = 0
  | some block => size = m.frame.length ∧ block.take size = m.frame

theorem CccPacket.keep_buffer {packet : CccPacket} {block frame : List UInt8}
    (hbuffer : packet.buffer = some block) {built : PacketOut}
    (hstore : (built.store block).take frame.length = frame) (hroom : frame.length ≤ block.length) :
    ∃ kept, (packet.keep built).buffer = some kept ∧ kept.take frame.length = frame := by
  have hlength := congrArg List.length hstore
  rw [List.length_take] at hlength
  refine ⟨(built.store block).take block.length ++ block.drop (built.store block).length, ?_, ?_⟩
  · simp only [keep, fill, hbuffer, Option.map_some, Option.getD_some]
  · rw [List.take_append_of_le_length, List.take_take, Nat.min_eq_left hroom, hstore]
    rw [List.length_take]
    omega

theorem CccPacket.build_holds {packet : CccPacket}
    (hroom : ∀ block, packet.buffer = some block → (protocolDataSizeMax : Int) ≤ block.length)
    {m : Message} (hfits : m.data.length ≤ protocolDataLenMax) :
    (packet.build m).2.Holds m (packet.build m).1 := by
  have hmax : protocolDataLenMax = 4080 := rfl
  have hsizeMax : protocolDataSizeMax = 4096 := rfl
  have hsize : 7 < protocolDataSizeMax := by decide
  have hframe : m.frame.length = 9 + m.data.length := m.frame_length
  have hresult := congrArg PacketOut.result (createProtocolPacket_eq m hsize (by omega))
  have hstore := createProtocolPacket_store m hsize (by omega)
  unfold build Holds
  cases hbuffer : packet.buffer with
  | none =>
      rw [Option.isSome_none]
      have hempty : createProtocolPacket m.cmd m.cmdEx (some m.data) m.data.length false
          protocolDataSizeMax = ⟨0, [], 0, []⟩ := by
        unfold createProtocolPacket
        rw [if_pos (.inl rfl)]
      have hnone : (packet.keep ⟨0, [], 0, []⟩).buffer = none := by
        simp only [keep, fill, hbuffer, Option.map_none]
      simp only [hempty, hnone]
  | some block =>
      have hlong := hroom block hbuffer
      rw [Option.isSome_some]
      generalize createProtocolPacket m.cmd m.cmdEx (some m.data) m.data.length true
        protocolDataSizeMax = built at hresult hstore ⊢
      simp only [← hframe] at hresult hstore
      obtain ⟨kept, hkept, hfound⟩ := keep_buffer hbuffer (hstore block) (by omega)
      simp only [hkept, hresult]
      exact ⟨trivial, hfound⟩

end CccUpgrade
