import CccUpgrade.Lib.TransitionSystem
import CccUpgrade.PacketPool.CccPacket

/-! The room in the buffers of pooled packets. As long as each buffer that is needed can be
had, a packet has the room that was asked for and no packet claims more than it has. -/
namespace CccUpgrade

open Lib PacketNodeList

def CccPacket.room (packet : CccPacket) : Nat := (packet.buffer.getD []).length

def CccPacket.Sized (packet : CccPacket) : Prop := packet.bufferSize ≤ packet.room

def PacketPool.Sized (pool : PacketPool) : Prop :=
  ∀ p packet, pool.packets.read p = some packet → packet.Sized

/-- A buffer of `n` bytes has to be allocated for the next packet, and cannot be. -/
def PacketPool.BufferFails (pool : PacketPool) (n : Int) (mallocs : Mallocs) : Prop :=
  mallocs.buffer = none ∧ ∃ packet, pool.next mallocs.packet = some packet ∧
    (packet.buffer = none ∨ packet.bufferSize < n)

/-- A request is answered with NULL or with a packet that has the room asked for. -/
def GivesRoom (n : Int) (call : Except PoolFault (Option Nat × PoolUse)) : Prop :=
  ∃ result s', call = .ok (result, s') ∧ ∀ p, result = some p → ∃ packet block,
    s'.pool.packets.read p = some packet ∧ packet.buffer = some block ∧ n ≤ block.length

namespace PoolUse

variable (s : PoolUse)

def Held : PoolCall → Prop
  | .set (some p) _ | .fill p _ => p ∈ s.out
  | _ => True

def Supplied : PoolCall → Prop
  | .getBuffer n mallocs | .getPduBuf n mallocs => 0 < n → ¬ s.pool.BufferFails n mallocs
  | _ => True

end PoolUse

def packetPool : TransitionSystem PoolUse PoolCall where
  init := .init
  step s c := (s.call c).toOption

def CccPacket.prepared (packet : CccPacket) (n : Int) (memory : Option (Nat → UInt8)) : CccPacket :=
  if 0 < n then (packet.cccpacketCheckBuffer n memory).2 else packet

namespace CccPacket

variable {packet : CccPacket} {n : Int} {memory : Option (Nat → UInt8)}

theorem sized_fill (pdu : PDU) (h : packet.Sized) : (packet.fill pdu).Sized := by
  unfold Sized at h ⊢
  have hroom : (packet.fill pdu).room = packet.room := by
    unfold fill room
    cases packet.buffer with
    | none => rfl
    | some block =>
        simp only [Option.map_some, Option.getD_some, List.length_append, List.length_take,
          List.length_drop]
        omega
  rw [hroom]
  exact h

theorem checkBuffer_room (hpos : 0 < n) (hsized : packet.Sized)
    (h : ¬ (memory = none ∧ (packet.buffer = none ∨ packet.bufferSize < n))) :
    (packet.cccpacketCheckBuffer n memory).2.Sized ∧
      ∃ block, (packet.cccpacketCheckBuffer n memory).2.buffer = some block ∧ n ≤ block.length := by
  unfold cccpacketCheckBuffer
  rw [if_neg (by omega)]
  by_cases hneeded : packet.buffer = none ∨ packet.bufferSize < n
  · rw [if_pos hneeded]
    cases memory with
    | none => exact absurd ⟨rfl, hneeded⟩ h
    | some memory =>
        have hlength : n ≤ ((List.range n.toNat).map memory).length := by
          rw [List.length_map, List.length_range]
          omega
        exact ⟨hlength, _, rfl, hlength⟩
  · rw [if_neg hneeded]
    rw [not_or] at hneeded
    obtain ⟨block, hblock⟩ := Option.ne_none_iff_exists'.mp hneeded.1
    refine ⟨hsized, block, hblock, ?_⟩
    unfold Sized room at hsized
    rw [hblock, Option.getD_some] at hsized
    omega

theorem checkBuffer_failed (hpos : 0 < n)
    (h : packet.buffer = none ∨ packet.bufferSize < n) :
    (packet.cccpacketCheckBuffer n none).2.buffer = none := by
  unfold cccpacketCheckBuffer
  rw [if_neg (by omega), if_pos h]

end CccPacket

section Idle

variable {capacity : Nat} {q : IdlePackets capacity} {l : PacketNodeList}

theorem getFromHead_formed (h : WellFormed q l) :
    ∃ l', ∃ q' : IdlePackets capacity,
      l.internalPacketPoolGetFromHead = .ok (q.queue.items.head?, l') ∧ WellFormed q' l' ∧
        q'.queue.items = q.queue.items.tail := by
  obtain ⟨empties, fulls, hrep⟩ := h
  obtain ⟨l', hstep, hformed⟩ := getFromHead_represents hrep
  obtain ⟨⟨packet, l₁⟩, hget, hreturn⟩ := bind_eq_ok hstep
  obtain ⟨hpacket, rfl⟩ := Prod.mk.inj (Except.ok.inj hreturn)
  refine ⟨l₁, (q.step .getFromHead).2, ?_, hformed, ?_⟩
  · cases hitems : q.queue.items with
    | nil => simp_all [IdlePackets.step]
    | cons first rest => simp_all [IdlePackets.step, BoundedQueue.take]
  · cases hitems : q.queue.items with
    | nil => simp [IdlePackets.step, hitems]
    | cons first rest => simp [IdlePackets.step, BoundedQueue.take, hitems]

theorem set_formed (h : WellFormed q l) (p : Nat) (allocated : Bool) :
    ∃ result deleted l', ∃ q' : IdlePackets capacity, l.internalPacketPoolSet (some p) allocated =
        .ok ((result, deleted), l') ∧ WellFormed q' l' ∧
      (deleted ++ q'.queue.items = q.queue.items ++ [p] ∨
        deleted = [] ∧ q'.queue.items = q.queue.items) := by
  obtain ⟨empties, fulls, hrep⟩ := h
  obtain ⟨l', hstep, hformed⟩ := set_represents hrep (some p) allocated
  obtain ⟨⟨⟨result, deleted⟩, l₁⟩, hset, hreturn⟩ := bind_eq_ok hstep
  obtain ⟨hreply, rfl⟩ := Prod.mk.inj (Except.ok.inj hreturn)
  refine ⟨result, deleted, l₁, _, hset, hformed, ?_⟩
  simp only [IdlePackets.step] at hreply ⊢
  split at hreply
  · rename_i hrefused
    cases hreply
    rw [if_pos hrefused]
    exact .inr ⟨rfl, rfl⟩
  · rename_i hroom
    cases hreply
    rw [if_neg hroom]
    exact .inl (List.take_append_drop _ _)

end Idle

namespace PacketPool

variable {pool : PacketPool} {p : Nat} {old : CccPacket}

theorem load_of_read (h : pool.packets.read p = some old) : pool.load p = .ok old := by
  simp only [load, h]

theorem store_of_read (h : pool.packets.read p = some old) (content : CccPacket) :
    ∃ packets, pool.store p content = .ok { pool with packets := packets } ∧
      packets.read p = some content ∧
      ∀ other, other ≠ p → packets.read other = pool.packets.read other := by
  obtain ⟨packets, hwrite, hread, hframe⟩ := Heap.write_of_read h content
  exact ⟨packets, by simp only [store, hwrite], hread, hframe⟩

theorem deleteAll_ok {deleted : List Nat} (hnodup : deleted.Nodup)
    (hlive : ∀ p ∈ deleted, pool.packets.Live p) :
    ∃ packets, deleteAll deleted pool = .ok { pool with packets := packets } ∧
      (∀ other, other ∉ deleted → packets.read other = pool.packets.read other) ∧
      ∀ p packet, packets.read p = some packet → pool.packets.read p = some packet := by
  induction deleted generalizing pool with
  | nil => exact ⟨pool.packets, rfl, fun _ _ => rfl, fun _ _ => id⟩
  | cons first rest ih =>
      obtain ⟨hfirst, hrest⟩ := List.nodup_cons.mp hnodup
      obtain ⟨packets, hfree, hgone⟩ := (hlive first List.mem_cons_self).free
      have hframe : ∀ other, other ≠ first → packets.read other = pool.packets.read other :=
        fun other => Heap.read_free_of_ne hfree
      have hlive' : ∀ p ∈ rest, packets.Live p := by
        intro p hp
        unfold Heap.Live
        rw [hframe p fun h => hfirst (h ▸ hp)]
        exact hlive p (List.mem_cons_of_mem _ hp)
      obtain ⟨packets', hdelete, hkept, hold⟩ :=
        @ih { pool with packets := packets } hrest hlive'
      refine ⟨packets', ?_, ?_, ?_⟩
      · simp only [deleteAll, cccPacketDelete, hfree]
        exact hdelete
      · intro other hother
        rw [List.mem_cons, not_or] at hother
        rw [hkept other hother.2, hframe other hother.1]
      · intro p packet hread
        have hread' := hold p packet hread
        rw [← hframe p]
        · exact hread'
        · rintro rfl
          exact hgone ⟨packet, hread'⟩

end PacketPool

namespace PoolUse

/-- The idle packets and those that are out are there, and none of them twice. -/
def Intact (s : PoolUse) : Prop :=
  ∃ q : IdlePackets pktCountMax, WellFormed q s.pool.idle ∧ (q.queue.items ++ s.out).Nodup ∧
    ∀ p ∈ q.queue.items ++ s.out, s.pool.packets.Live p

theorem intact_init : init.Intact :=
  ⟨.init, ⟨[], [], empty_represents⟩, List.nodup_nil, nofun⟩

variable {s : PoolUse}

theorem Intact.packets {packets : Heap CccPacket} (h : s.Intact)
    (hlive : ∀ p, s.pool.packets.Live p → packets.Live p) :
    Intact ⟨{ s.pool with packets := packets }, s.out⟩ := by
  obtain ⟨q, hformed, hnodup, hall⟩ := h
  exact ⟨q, hformed, hnodup, fun p hp => hlive p (hall p hp)⟩

theorem Intact.store {p : Nat} {old : CccPacket} (h : s.Intact)
    (hread : s.pool.packets.read p = some old) (content : CccPacket) :
    ∃ packets, s.pool.store p content = .ok { s.pool with packets := packets } ∧
      Intact ⟨{ s.pool with packets := packets }, s.out⟩ ∧ packets.read p = some content ∧
      ∀ other, other ≠ p → packets.read other = s.pool.packets.read other := by
  obtain ⟨packets, hstore, hhere, hframe⟩ := PacketPool.store_of_read hread content
  refine ⟨packets, hstore, h.packets ?_, hhere, hframe⟩
  intro other hlive
  by_cases hother : other = p
  · subst hother
    exact ⟨content, hhere⟩
  · unfold Heap.Live
    rw [hframe other hother]
    exact hlive

theorem Intact.fetch (h : s.Intact) (memory : Option PDU) :
    ∃ found idle result pool, s.pool.idle.internalPacketPoolGetFromHead = .ok (found, idle) ∧
      (if found.isSome then (found, { s.pool with idle := idle })
        else ({ s.pool with idle := idle } : PacketPool).cccPacketCreate memory) = (result, pool) ∧
      Intact ⟨pool, result.toList ++ s.out⟩ ∧
      (result = none → s.pool.next memory = none) ∧
      (∀ p, result = some p → ∃ packet, s.pool.next memory = some packet ∧
        pool.packets.read p = some packet) ∧
      ∀ other, result ≠ some other → pool.packets.read other = s.pool.packets.read other := by
  obtain ⟨q, hformed, hnodup, hall⟩ := h
  obtain ⟨idle, q', hget, hformed', hitems⟩ := getFromHead_formed hformed
  refine ⟨q.queue.items.head?, idle, ?_⟩
  cases hqueue : q.queue.items with
  | cons p rest =>
      rw [hqueue] at hget hitems hnodup hall
      obtain ⟨packet, hread⟩ := hall p List.mem_cons_self
      have hperm : (p :: rest ++ s.out).Perm (rest ++ (p :: s.out)) := List.perm_middle.symm
      refine ⟨some p, { s.pool with idle := idle }, hget, rfl, ⟨q', hformed', ?_, ?_⟩, nofun, ?_, ?_⟩
      · rw [hitems]
        exact hperm.nodup hnodup
      · intro other hother
        rw [hitems] at hother
        exact hall other (hperm.mem_iff.mpr hother)
      · rintro _ ⟨⟩
        refine ⟨packet, ?_, hread⟩
        simp only [PacketPool.next, hget, List.head?_cons, hread]
      · exact fun _ _ => rfl
  | nil =>
      rw [hqueue] at hget hitems hnodup hall
      cases memory with
      | none =>
          refine ⟨none, { s.pool with idle := idle }, hget, rfl, ⟨q', hformed', ?_, ?_⟩, ?_, nofun, ?_⟩
          · rw [hitems]
            exact hnodup
          · rw [hitems]
            exact hall
          · intro _
            simp only [PacketPool.next, hget, List.head?_nil, Option.map_none]
          · exact fun _ _ => rfl
      | some pdu =>
          have hnew : ∀ p ∈ [] ++ s.out, p ≠ (s.pool.packets.alloc ⟨pdu, none, 0⟩).1 :=
            fun p hp => (hall p hp).ne_alloc _
          refine ⟨some (s.pool.packets.alloc ⟨pdu, none, 0⟩).1,
            ⟨idle, (s.pool.packets.alloc ⟨pdu, none, 0⟩).2⟩, hget, rfl, ⟨q', hformed', ?_, ?_⟩,
            nofun, ?_, ?_⟩
          · rw [hitems]
            exact List.nodup_cons.mpr ⟨fun hmem => hnew _ hmem rfl, hnodup⟩
          · intro p hp
            rw [hitems] at hp
            cases hp with
            | head => exact Heap.live_alloc _ _
            | tail _ hp => exact (hall p hp).alloc _
          · rintro _ ⟨⟩
            refine ⟨⟨pdu, none, 0⟩, ?_, Heap.read_alloc _ _⟩
            simp only [PacketPool.next, hget, List.head?_nil, Option.map_some]
          · intro other hother
            apply Heap.read_alloc_of_ne
            rintro rfl
            exact hother rfl

/-- What a request for `n` bytes leaves: the next packet with its buffer seen to is out. -/
structure Handed (s : PoolUse) (n : Int) (mallocs : Mallocs) (result : Option Nat)
    (s' : PoolUse) : Prop where
  intact : s'.Intact
  out : s'.out = result.toList ++ s.out
  refused : result = none → s.pool.next mallocs.packet = none
  given : ∀ p, result = some p → ∃ packet content, s.pool.next mallocs.packet = some packet ∧
    s'.pool.packets.read p = some content ∧
    content.buffer = (packet.prepared n mallocs.buffer).buffer ∧
    content.bufferSize = (packet.prepared n mallocs.buffer).bufferSize
  others : ∀ other, result ≠ some other →
    s'.pool.packets.read other = s.pool.packets.read other

theorem Intact.getBuffer (h : s.Intact) (n : Int) (mallocs : Mallocs) :
    ∃ result s', s.getBuffer n mallocs = .ok (result, s') ∧ s.Handed n mallocs result s' := by
  obtain ⟨found, idle, result, pool, hget, hfound, hintact, hrefused, hgiven, hothers⟩ :=
    h.fetch mallocs.packet
  cases result with
  | none =>
      refine ⟨none, ⟨pool, s.out⟩, ?_, hintact, rfl, hrefused, nofun, hothers⟩
      simp only [PoolUse.getBuffer, PacketPool.packetPoolGetBuffer,
        PacketPool.internalPacketPoolGet, hget, bind, Except.bind, hfound]
      rfl
  | some p =>
      obtain ⟨packet, hnext, hread⟩ := hgiven p rfl
      by_cases hpos : 0 < n
      · obtain ⟨packets, hstore, hintact', hhere, hframe⟩ :=
          hintact.store hread (packet.cccpacketCheckBuffer n mallocs.buffer).2
        refine ⟨some p, ⟨{ pool with packets := packets }, p :: s.out⟩, ?_, hintact', rfl, nofun, ?_, ?_⟩
        · simp only [PoolUse.getBuffer, PacketPool.packetPoolGetBuffer,
            PacketPool.internalPacketPoolGet, PacketPool.cccPacketMalloc, hget, bind, Except.bind,
            hfound, if_pos hpos, PacketPool.load_of_read hread, hstore]
          rfl
        · rintro _ ⟨⟩
          refine ⟨packet, _, hnext, hhere, ?_, ?_⟩
          · rw [CccPacket.prepared, if_pos hpos]
          · rw [CccPacket.prepared, if_pos hpos]
        · intro other hother
          rw [hframe other fun hsame => hother (congrArg some hsame.symm)]
          exact hothers other hother
      · refine ⟨some p, ⟨pool, p :: s.out⟩, ?_, hintact, rfl, nofun, ?_, hothers⟩
        · simp only [PoolUse.getBuffer, PacketPool.packetPoolGetBuffer,
            PacketPool.internalPacketPoolGet, hget, bind, Except.bind, hfound, if_neg hpos]
          rfl
        · rintro _ ⟨⟩
          refine ⟨packet, packet, hnext, hread, ?_, ?_⟩
          · rw [CccPacket.prepared, if_neg hpos]
          · rw [CccPacket.prepared, if_neg hpos]

theorem Intact.getPduBuf (h : s.Intact) (n : Int) (mallocs : Mallocs) :
    ∃ result s', s.getPduBuf n mallocs = .ok (result, s') ∧ s.Handed n mallocs result s' := by
  obtain ⟨result, s₁, hget, hintact, -, hrefused, hgiven, hothers⟩ := h.getBuffer n mallocs
  obtain ⟨⟨result', pool⟩, hbuffer, hreturn⟩ := bind_eq_ok hget
  obtain ⟨rfl, rfl⟩ := Prod.mk.inj (Except.ok.inj hreturn)
  cases result' with
  | none =>
      refine ⟨none, ⟨pool, s.out⟩, ?_, hintact, rfl, hrefused, nofun, hothers⟩
      simp only [PoolUse.getPduBuf, PacketPool.packetPoolGetPduBuf, hbuffer, bind, Except.bind]
      rfl
  | some p =>
      obtain ⟨packet, content, hnext, hread, hblock, hsize⟩ := hgiven p rfl
      obtain ⟨packets, hstore, hintact', hhere, hframe⟩ := hintact.store hread
        { content with pdu := { content.pdu with data := content.buffer.getD [] } }
      refine ⟨some p, ⟨{ pool with packets := packets }, p :: s.out⟩, ?_, hintact', rfl, nofun, ?_, ?_⟩
      · simp only [PoolUse.getPduBuf, PacketPool.packetPoolGetPduBuf, hbuffer, bind, Except.bind,
          PacketPool.load_of_read hread, hstore]
        rfl
      · rintro _ ⟨⟩
        exact ⟨packet, _, hnext, hhere, hblock, hsize⟩
      · intro other hother
        rw [hframe other fun hsame => hother (congrArg some hsame.symm)]
        exact hothers other hother

theorem Intact.set (h : s.Intact) {pktPtr : Option Nat} (hheld : ∀ p, pktPtr = some p → p ∈ s.out)
    (allocated : Bool) :
    ∃ result s', s.set pktPtr allocated = .ok (result, s') ∧ s'.Intact ∧
      s'.out = s.out.diff pktPtr.toList ∧
      ∀ p packet, s'.pool.packets.read p = some packet → s.pool.packets.read p = some packet := by
  cases pktPtr with
  | none => exact ⟨false, s, rfl, h, rfl, fun _ _ => id⟩
  | some p =>
      obtain ⟨q, hformed, hnodup, hall⟩ := h
      obtain ⟨result, deleted, idle, q', hset, hformed', hitems⟩ := set_formed hformed p allocated
      have hout : (q.queue.items ++ s.out).Perm (q.queue.items ++ [p] ++ s.out.erase p) := by
        rw [List.append_assoc]
        exact (List.perm_cons_erase (hheld p rfl)).append_left q.queue.items
      have hnodup' := hout.nodup hnodup
      have hall' : ∀ t ∈ q.queue.items ++ [p] ++ s.out.erase p, s.pool.packets.Live t :=
        fun t ht => hall t (hout.mem_iff.mpr ht)
      -- What is kept is apart from what is deleted.
      have hkept : (deleted ++ (q'.queue.items ++ s.out.erase p)).Nodup ∧
          ∀ t ∈ deleted ++ (q'.queue.items ++ s.out.erase p), s.pool.packets.Live t := by
        rcases hitems with hstored | ⟨rfl, hrefused⟩
        · rw [← List.append_assoc, hstored]
          exact ⟨hnodup', hall'⟩
        · rw [hrefused, List.nil_append]
          have hsub : (q.queue.items ++ s.out.erase p).Sublist
              (q.queue.items ++ [p] ++ s.out.erase p) :=
            (List.sublist_append_left q.queue.items [p]).append_right _
          exact ⟨hnodup'.sublist hsub, fun t ht => hall' t (hsub.subset ht)⟩
      obtain ⟨hapart, hlive⟩ := hkept
      obtain ⟨hdeleted, hrest, hdisjoint⟩ := List.nodup_append.mp hapart
      obtain ⟨packets, hdelete, hframe, hold⟩ :=
        @PacketPool.deleteAll_ok { s.pool with idle := idle } deleted hdeleted
          fun t ht => hlive t (List.mem_append_left _ ht)
      refine ⟨result, ⟨⟨idle, packets⟩, s.out.erase p⟩, ?_, ⟨q', hformed', hrest, ?_⟩, ?_, hold⟩
      · simp only [PoolUse.set, PacketPool.packetPoolSet, hset, bind, Except.bind, hdelete,
          Option.toList_some, List.diff_cons, List.diff_nil]
        rfl
      · intro t ht
        unfold Heap.Live
        rw [hframe t fun hmem => hdisjoint t hmem t ht rfl]
        exact hlive t (List.mem_append_right _ ht)
      · rw [Option.toList_some, List.diff_cons, List.diff_nil]

theorem Intact.fill (h : s.Intact) {p : Nat} (hheld : p ∈ s.out) (pdu : PDU) :
    ∃ packet packets, s.pool.packets.read p = some packet ∧
      s.fill p pdu = .ok ⟨{ s.pool with packets := packets }, s.out⟩ ∧
      Intact ⟨{ s.pool with packets := packets }, s.out⟩ ∧
      packets.read p = some (packet.fill pdu) ∧
      ∀ other, other ≠ p → packets.read other = s.pool.packets.read other := by
  obtain ⟨packet, hread⟩ : s.pool.packets.Live p := by
    obtain ⟨q, -, -, hall⟩ := h
    exact hall p (List.mem_append_right _ hheld)
  obtain ⟨packets, hstore, hintact, hhere, hframe⟩ := h.store hread (packet.fill pdu)
  refine ⟨packet, packets, hread, ?_, hintact, hhere, hframe⟩
  simp only [PoolUse.fill, PacketPool.load_of_read hread, bind, Except.bind, hstore]
  rfl

section Room

variable {n : Int} {mallocs : Mallocs} {result : Option Nat} {s' : PoolUse}

theorem next_sized (hsized : s.pool.Sized) {memory : Option PDU} {packet : CccPacket}
    (hnext : s.pool.next memory = some packet) : packet.Sized := by
  unfold PacketPool.next at hnext
  split at hnext
  · exact hsized _ _ hnext
  · obtain ⟨pdu, -, rfl⟩ := Option.map_eq_some_iff.mp hnext
    exact Int.le_refl 0
  · cases hnext

theorem Handed.sized (h : s.Handed n mallocs result s') (hsized : s.pool.Sized)
    (hsupplied : 0 < n → ¬ s.pool.BufferFails n mallocs) : s'.pool.Sized := by
  intro p content hread
  by_cases hp : result = some p
  · obtain ⟨packet, content', hnext, hread', hblock, hsize⟩ := h.given p hp
    rw [hread] at hread'
    cases hread'
    have hprepared : (packet.prepared n mallocs.buffer).Sized := by
      unfold CccPacket.prepared
      split
      · rename_i hpos
        exact (CccPacket.checkBuffer_room hpos (next_sized hsized hnext)
          fun hfails => hsupplied hpos ⟨hfails.1, packet, hnext, hfails.2⟩).1
      · exact next_sized hsized hnext
    unfold CccPacket.Sized CccPacket.room at hprepared ⊢
    rw [hblock, hsize]
    exact hprepared
  · rw [h.others p hp] at hread
    exact hsized p content hread

theorem Handed.room_iff (h : s.Handed n mallocs result s') (hsized : s.pool.Sized) (hpos : 0 < n) :
    (∀ p, result = some p → ∃ packet block, s'.pool.packets.read p = some packet ∧
      packet.buffer = some block ∧ n ≤ block.length) ↔ ¬ s.pool.BufferFails n mallocs := by
  have hprepared : ∀ packet : CccPacket,
      packet.prepared n mallocs.buffer = (packet.cccpacketCheckBuffer n mallocs.buffer).2 :=
    fun _ => if_pos hpos
  constructor
  · rintro hroom ⟨hnone, packet, hnext, hneeded⟩
    cases result with
    | none =>
        rw [h.refused rfl] at hnext
        cases hnext
    | some p =>
        obtain ⟨packet', content, hnext', hread, hblock, -⟩ := h.given p rfl
        obtain ⟨content', block, hread', hblock', -⟩ := hroom p rfl
        rw [hnext] at hnext'
        cases hnext'
        rw [hread] at hread'
        cases hread'
        rw [hprepared, hnone, CccPacket.checkBuffer_failed hpos hneeded, hblock'] at hblock
        cases hblock
  · rintro hsupplied p rfl
    obtain ⟨packet, content, hnext, hread, hblock, -⟩ := h.given p rfl
    obtain ⟨-, block, hroom⟩ := CccPacket.checkBuffer_room hpos (next_sized hsized hnext)
      fun hfails => hsupplied ⟨hfails.1, packet, hnext, hfails.2⟩
    rw [hprepared, hroom.1] at hblock
    exact ⟨content, block, hread, hblock, hroom.2⟩

end Room

/-- One call of honest callers. -/
theorem Intact.call (h : s.Intact) {c : PoolCall} (hheld : s.Held c) :
    ∃ s', s.call c = .ok s' ∧ s'.Intact ∧ (s.pool.Sized → s.Supplied c → s'.pool.Sized) := by
  cases c with
  | getBuffer n mallocs =>
      obtain ⟨result, s', hget, hhanded⟩ := h.getBuffer n mallocs
      refine ⟨s', ?_, hhanded.intact, hhanded.sized⟩
      simp only [PoolUse.call, hget, bind, Except.bind]
      rfl
  | getPduBuf n mallocs =>
      obtain ⟨result, s', hget, hhanded⟩ := h.getPduBuf n mallocs
      refine ⟨s', ?_, hhanded.intact, hhanded.sized⟩
      simp only [PoolUse.call, hget, bind, Except.bind]
      rfl
  | set pktPtr allocated =>
      have hheld' : ∀ p, pktPtr = some p → p ∈ s.out := by
        rintro p rfl
        exact hheld
      obtain ⟨result, s', hset, hintact, -, hold⟩ := h.set hheld' allocated
      refine ⟨s', ?_, hintact, fun hsized _ p packet hread => hsized p packet (hold p packet hread)⟩
      simp only [PoolUse.call, hset, bind, Except.bind]
      rfl
  | fill p pdu =>
      obtain ⟨packet, packets, hread, hfill, hintact, hhere, hframe⟩ := h.fill hheld pdu
      refine ⟨_, hfill, hintact, ?_⟩
      intro hsized _ other content hother
      by_cases hsame : other = p
      · subst hsame
        rw [hhere] at hother
        cases hother
        exact CccPacket.sized_fill pdu (hsized _ packet hread)
      · rw [hframe other hsame] at hother
        exact hsized other content hother

theorem Intact.step (h : s.Intact) {c : PoolCall} (hheld : s.Held c) {s' : PoolUse}
    (hstep : packetPool.step s c = some s') :
    s'.Intact ∧ (s.pool.Sized → s.Supplied c → s'.pool.Sized) := by
  obtain ⟨s₁, hcall, hintact, hsized⟩ := h.call hheld
  simp only [packetPool, hcall, Except.toOption] at hstep
  cases hstep
  exact ⟨hintact, hsized⟩

theorem intact_of_held (h : packetPool.ReachableBy Held s) : s.Intact := by
  apply h.invariant
  · exact intact_init
  · exact fun s c s' _ hintact hheld hstep => (hintact.step hheld hstep).1

/-- What a run keeps whose buffers can all be had. -/
structure Sound (s : PoolUse) : Prop where
  intact : s.Intact
  sized : s.pool.Sized

theorem sound_of_supplied
    (h : packetPool.ReachableBy (fun s c => s.Held c ∧ s.Supplied c) s) : s.Sound := by
  apply h.invariant
  · exact ⟨intact_init, nofun⟩
  · rintro s c s' - ⟨hintact, hsized⟩ ⟨hheld, hsupplied⟩ hstep
    obtain ⟨hintact', hsized'⟩ := hintact.step hheld hstep
    exact ⟨hintact', hsized' hsized hsupplied⟩

end PoolUse

/-- In every run that can be supplied with the buffers it needs, no packet claims more room
than it has, and the next request is given its room exactly if it can be supplied too. -/
theorem pool_capacity {s : PoolUse}
    (h : packetPool.ReachableBy (fun s c => s.Held c ∧ s.Supplied c) s) :
    s.pool.Sized ∧ ∀ (n : Int) (mallocs : Mallocs), 0 < n →
      (GivesRoom n (s.getBuffer n mallocs) ∧ GivesRoom n (s.getPduBuf n mallocs) ↔
        ¬ s.pool.BufferFails n mallocs) := by
  obtain ⟨hintact, hsized⟩ := PoolUse.sound_of_supplied h
  refine ⟨hsized, fun n mallocs hpos => ?_⟩
  obtain ⟨result, s₁, hget, hhanded⟩ := hintact.getBuffer n mallocs
  obtain ⟨result', s₂, hget', hhanded'⟩ := hintact.getPduBuf n mallocs
  constructor
  · rintro ⟨⟨result₀, s₀, hget₀, hroom⟩, -⟩
    rw [hget] at hget₀
    cases hget₀
    exact (hhanded.room_iff hsized hpos).mp hroom
  · intro hsupplied
    exact ⟨⟨result, s₁, hget, (hhanded.room_iff hsized hpos).mpr hsupplied⟩,
      ⟨result', s₂, hget', (hhanded'.room_iff hsized hpos).mpr hsupplied⟩⟩

def plenty : Mallocs := ⟨some ⟨0, 0, [], 0, 0, 0, false⟩, some fun _ => 0⟩

theorem plenty_supplied (pool : PacketPool) (n : Int) : ¬ pool.BufferFails n plenty := by
  rintro ⟨hnone, -⟩
  cases hnone

/-- The first packet of a pool, with a buffer of two bytes, while its user has it. -/
def smallOut : PoolUse :=
  ⟨⟨.empty pktCountMax, ⟨[some ⟨⟨0, 0, [0, 0], 0, 0, 0, false⟩, some [0, 0], 2⟩]⟩⟩, [0]⟩

def smallIdle : PoolUse :=
  ⟨⟨⟨⟨[some ⟨some 0, some 0⟩]⟩, some 0, some 0, 1, 1, pktCountMax⟩, smallOut.pool.packets⟩, []⟩

theorem smallIdle_reached : packetPool.step .init (.getPduBuf 2 plenty) = some smallOut ∧
    packetPool.step smallOut (.set (some 0) true) = some smallIdle := by
  decide

/-- A packet whose buffer is too small for the next request. -/
theorem pool_capacity_small :
    GivesRoom 3 (smallIdle.getBuffer 3 plenty) ∧ GivesRoom 3 (smallIdle.getPduBuf 3 plenty) := by
  have hout : packetPool.ReachableBy (fun s c => s.Held c ∧ s.Supplied c) smallOut := by
    refine .step .init ?_ smallIdle_reached.1
    exact ⟨trivial, fun _ => plenty_supplied _ 2⟩
  have hidle : packetPool.ReachableBy (fun s c => s.Held c ∧ s.Supplied c) smallIdle := by
    refine .step hout ?_ smallIdle_reached.2
    exact ⟨List.mem_cons_self, trivial⟩
  exact ((pool_capacity hidle).2 3 plenty (by decide)).mpr (plenty_supplied _ 3)

/-- The same request when `malloc` has no three bytes: the packet is handed out without a
buffer, and still says that it has two bytes. -/
theorem pool_capacity_starved : ¬ ∀ s, packetPool.ReachableBy PoolUse.Held s →
    s.pool.Sized ∧ ∀ (n : Int) (mallocs : Mallocs), 0 < n →
      GivesRoom n (s.getBuffer n mallocs) ∧ GivesRoom n (s.getPduBuf n mallocs) := by
  intro hclaim
  have hout : packetPool.ReachableBy PoolUse.Held smallOut := by
    refine .step .init ?_ smallIdle_reached.1
    trivial
  have hidle : packetPool.ReachableBy PoolUse.Held smallIdle := by
    refine .step hout ?_ smallIdle_reached.2
    exact List.mem_cons_self
  have hget : smallIdle.getBuffer 3 ⟨none, none⟩ = .ok (some 0,
      ⟨⟨⟨⟨[some ⟨none, some 0⟩]⟩, some 0, some 0, 1, 0, pktCountMax⟩,
        ⟨[some ⟨⟨0, 0, [0, 0], 0, 0, 0, false⟩, none, 2⟩]⟩⟩, [0]⟩) := by decide
  obtain ⟨result, s', hget', hroom⟩ := ((hclaim smallIdle hidle).2 3 ⟨none, none⟩ (by decide)).1
  rw [hget] at hget'
  cases hget'
  obtain ⟨packet, block, hread, hblock, -⟩ := hroom 0 rfl
  cases hread
  cases hblock

end CccUpgrade
