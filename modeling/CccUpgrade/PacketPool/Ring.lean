import CccUpgrade.Lib.Path
import CccUpgrade.PacketPool.Pool
import Mathlib.Data.List.Nodup

/-! The shape of the ring and what each operation on its nodes makes of it. -/
namespace CccUpgrade

open Lib

abbrev packetLink : Linking PacketNode (Option Nat) := ⟨PacketNode.pktPtr, PacketNode.next⟩

def emptyCells (empties : List Nat) : List (Nat × Option Nat) := empties.map fun node => (node, none)

def fullCells (fulls : List (Nat × Nat)) : List (Nat × Option Nat) :=
  fulls.map fun cell => (cell.1, some cell.2)

def ringNodes (empties : List Nat) (fulls : List (Nat × Nat)) : List Nat :=
  empties ++ fulls.map Prod.fst

namespace PacketNodeList

/-- The ring has the given empty nodes, and behind them the given nodes with their
packets. The links lead from the first node behind the tail over all of them and back
to it, and the head is where the empty nodes end. -/
structure Ring (l : PacketNodeList) (empties : List Nat) (fulls : List (Nat × Nat)) : Prop where
  nodup : (ringNodes empties fulls).Nodup
  ringSize : l.ringSize = empties.length + fulls.length
  pktCount : l.pktCount = fulls.length
  tail : l.tail = (ringNodes empties fulls).getLast?
  idle : ringNodes empties fulls = [] → l.head = none
  linked : ringNodes empties fulls ≠ [] → ∃ first start, l.head = some start ∧
    Path packetLink l.nodes first (emptyCells empties) start ∧
    Path packetLink l.nodes start (fullCells fulls) first

variable {l : PacketNodeList} {node : Nat} {empties : List Nat} {fulls : List (Nat × Nat)}
  {content : PacketNode}

theorem load_of_read (h : l.nodes.read node = some content) : l.load (some node) = .ok content := by
  simp only [load, h]

theorem store_of_read (h : l.nodes.read node = some content) (content' : PacketNode) :
    ∃ nodes, l.store (some node) content' = .ok { l with nodes := nodes } ∧
      nodes.read node = some content' ∧
      ∀ other, other ≠ node → nodes.read other = l.nodes.read other := by
  obtain ⟨nodes, hwrite, hread, hother⟩ := Heap.write_of_read h content'
  exact ⟨nodes, by simp only [store, hwrite], hread, hother⟩

theorem nodeFree_of_read (h : l.nodes.read node = some content) :
    ∃ nodes, l.nodeFree (some node) = .ok { l with nodes := nodes } ∧
      ∀ other, other ≠ node → nodes.read other = l.nodes.read other := by
  obtain ⟨nodes, hfree, hother⟩ := Heap.free_of_read h
  exact ⟨nodes, by simp only [nodeFree, hfree], hother⟩

theorem fst_emptyCells (empties : List Nat) : (emptyCells empties).map Prod.fst = empties := by
  unfold emptyCells
  rw [List.map_map]
  exact List.map_id empties

theorem fst_fullCells (fulls : List (Nat × Nat)) :
    (fullCells fulls).map Prod.fst = fulls.map Prod.fst := by
  unfold fullCells
  rw [List.map_map]
  rfl

section Links

variable {h : Heap PacketNode} {start stop : Nat}

theorem frame_emptyCells {h' : Heap PacketNode}
    (hpath : Path packetLink h start (emptyCells empties) stop)
    (hread : ∀ other ∈ empties, h'.read other = h.read other) :
    Path packetLink h' start (emptyCells empties) stop := by
  apply hpath.frame
  intro cell hcell
  apply hread
  rw [← fst_emptyCells empties]
  exact List.mem_map_of_mem hcell

theorem frame_fullCells {h' : Heap PacketNode}
    (hpath : Path packetLink h start (fullCells fulls) stop)
    (hread : ∀ other ∈ fulls.map Prod.fst, h'.read other = h.read other) :
    Path packetLink h' start (fullCells fulls) stop := by
  apply hpath.frame
  intro cell hcell
  apply hread
  rw [← fst_fullCells fulls]
  exact List.mem_map_of_mem hcell

theorem emptyCells_cons (hpath : Path packetLink h start (emptyCells (node :: empties)) stop) :
    node = start ∧ ∃ next, h.read node = some ⟨none, some next⟩ ∧
      Path packetLink h next (emptyCells empties) stop := by
  obtain ⟨hstart, ⟨_, _⟩, next, hread, ⟨⟩, ⟨⟩, hrest⟩ := hpath
  exact ⟨hstart.symm, next, hread, hrest⟩

theorem fullCells_cons {packet : Nat}
    (hpath : Path packetLink h start (fullCells ((node, packet) :: fulls)) stop) :
    node = start ∧ ∃ next, h.read node = some ⟨some packet, some next⟩ ∧
      Path packetLink h next (fullCells fulls) stop := by
  obtain ⟨hstart, ⟨_, _⟩, next, hread, ⟨⟩, ⟨⟩, hrest⟩ := hpath
  exact ⟨hstart.symm, next, hread, hrest⟩

theorem fullCells_concat {packet : Nat}
    (hpath : Path packetLink h start (fullCells (fulls ++ [(node, packet)])) stop) :
    Path packetLink h start (fullCells fulls) node ∧
      h.read node = some ⟨some packet, some stop⟩ := by
  have hsplit : fullCells (fulls ++ [(node, packet)]) = fullCells fulls ++ [(node, some packet)] :=
    List.map_append
  rw [hsplit] at hpath
  obtain ⟨hbefore, ⟨_, _⟩, hread, ⟨⟩, ⟨⟩⟩ := hpath.last
  exact ⟨hbefore, hread⟩

theorem emptyCells_append {empties' : List Nat} {middle : Nat}
    (hpath : Path packetLink h start (emptyCells empties) middle)
    (hpath' : Path packetLink h middle (emptyCells empties') stop) :
    Path packetLink h start (emptyCells (empties ++ empties')) stop := by
  unfold emptyCells
  rw [List.map_append]
  exact hpath.append hpath'

theorem fullCells_append {fulls' : List (Nat × Nat)} {middle : Nat}
    (hpath : Path packetLink h start (fullCells fulls) middle)
    (hpath' : Path packetLink h middle (fullCells fulls') stop) :
    Path packetLink h start (fullCells (fulls ++ fulls')) stop := by
  unfold fullCells
  rw [List.map_append]
  exact hpath.append hpath'

theorem path_emptyCell (hread : h.read node = some ⟨none, some stop⟩) :
    Path packetLink h node (emptyCells [node]) stop :=
  Path.single hread rfl

theorem path_fullCell {packet : Nat} (hread : h.read node = some ⟨some packet, some stop⟩) :
    Path packetLink h node (fullCells [(node, packet)]) stop :=
  Path.single hread rfl

theorem relink_fullCells {h' : Heap PacketNode} {packet stop' : Nat}
    (hpath : Path packetLink h start (fullCells (fulls ++ [(node, packet)])) stop)
    (hread : h'.read node = some ⟨some packet, some stop'⟩)
    (hother : ∀ other ∈ fulls.map Prod.fst, h'.read other = h.read other) :
    Path packetLink h' start (fullCells (fulls ++ [(node, packet)])) stop' := by
  apply fullCells_append _ (path_fullCell hread)
  exact frame_fullCells (fullCells_concat hpath).1 hother

end Links

namespace Ring

theorem cells_map (empties : List Nat) (fulls : List (Nat × Nat)) :
    (emptyCells empties ++ fullCells fulls).map Prod.fst = ringNodes empties fulls := by
  rw [List.map_append, fst_emptyCells, fst_fullCells]
  rfl

theorem split (h : l.Ring empties fulls) (hnodes : ringNodes empties fulls ≠ []) :
    ∃ cells cell, emptyCells empties ++ fullCells fulls = cells ++ [cell] ∧
      l.tail = some cell.1 := by
  have hcells := cells_map empties fulls
  rcases List.eq_nil_or_concat' (emptyCells empties ++ fullCells fulls) with hnil | ⟨cells, cell, hsplit⟩
  · rw [hnil] at hcells
    exact absurd hcells.symm hnodes
  · refine ⟨cells, cell, hsplit, ?_⟩
    rw [h.tail, ← hcells, hsplit, List.map_append]
    exact List.getLast?_concat

theorem tail_next (h : l.Ring empties fulls) (hnodes : ringNodes empties fulls ≠ []) :
    ∃ first start tail packet, l.head = some start ∧ l.tail = some tail ∧
      l.nodes.read tail = some ⟨packet, some first⟩ ∧
      Path packetLink l.nodes first (emptyCells empties) start ∧
      Path packetLink l.nodes start (fullCells fulls) first := by
  obtain ⟨first, start, hhead, hempties, hfulls⟩ := h.linked hnodes
  obtain ⟨cells, cell, hsplit, htail⟩ := h.split hnodes
  have hall := hempties.append hfulls
  rw [hsplit] at hall
  obtain ⟨-, ⟨packet, _⟩, hread, -, ⟨⟩⟩ := hall.last
  exact ⟨first, start, cell.1, packet, hhead, htail, hread, hempties, hfulls⟩

/-- From the tail the links lead once over every node of the ring and back to it. -/
theorem round (h : l.Ring empties fulls) {tail : Nat} (htail : l.tail = some tail) :
    ∃ cells : List (Nat × Option Nat), l.ringSize = cells.length ∧ (cells.map Prod.fst).Nodup ∧
      Path packetLink l.nodes tail cells tail := by
  have hnodes : ringNodes empties fulls ≠ [] := by
    intro hnil
    have := h.tail
    rw [htail, hnil] at this
    cases this
  obtain ⟨first, start, -, hempties, hfulls⟩ := h.linked hnodes
  obtain ⟨cells, cell, hsplit, htail'⟩ := h.split hnodes
  obtain rfl : tail = cell.1 := Option.some.inj (htail.symm.trans htail')
  have hall := hempties.append hfulls
  have hlength := congrArg List.length hsplit
  have hnodup := h.nodup
  rw [hsplit] at hall
  obtain ⟨hbefore, node, hread, hvalue, hnext⟩ := hall.last
  refine ⟨cell :: cells, ?_, ?_, rfl, node, first, hread, hvalue, hnext, hbefore⟩
  · rw [h.ringSize]
    simp only [emptyCells, fullCells, List.length_append, List.length_map, List.length_singleton] at hlength
    rw [List.length_cons]
    omega
  · rw [← cells_map, hsplit, List.map_append, List.nodup_append_comm] at hnodup
    exact hnodup

theorem live (h : l.Ring empties fulls) {node : Nat} (hnode : node ∈ ringNodes empties fulls) :
    l.nodes.Live node := by
  obtain ⟨first, start, -, hempties, hfulls⟩ := h.linked (List.ne_nil_of_mem hnode)
  rcases List.mem_append.mp hnode with hempty | hfull
  · rw [← fst_emptyCells empties] at hempty
    obtain ⟨cell, hcell, rfl⟩ := List.mem_map.mp hempty
    obtain ⟨content, hread, -⟩ := hempties.mem hcell
    exact ⟨content, hread⟩
  · rw [← fst_fullCells fulls] at hfull
    obtain ⟨cell, hcell, rfl⟩ := List.mem_map.mp hfull
    obtain ⟨content, hread, -⟩ := hfulls.mem hcell
    exact ⟨content, hread⟩

theorem getFromHead_empty (h : l.Ring empties []) :
    l.internalPacketPoolGetFromHead = .ok (none, l) := by
  have hcount := h.pktCount
  unfold internalPacketPoolGetFromHead
  rw [if_pos (by right; simp [hcount])]
  rfl

/-- The packet at the head is taken and its node joins the empty ones. -/
theorem getFromHead {packet : Nat} (h : l.Ring empties ((node, packet) :: fulls)) :
    ∃ l', l.internalPacketPoolGetFromHead = .ok (some packet, l') ∧
      l'.Ring (empties ++ [node]) fulls ∧ l'.pktCountMax = l.pktCountMax := by
  have hsame : ringNodes (empties ++ [node]) fulls = ringNodes empties ((node, packet) :: fulls) := by
    simp [ringNodes]
  have hsizes := h.ringSize
  have hcount := h.pktCount
  have hnodup := h.nodup
  rw [List.length_cons] at hsizes hcount
  rw [ringNodes, List.map_cons, List.nodup_append, List.nodup_cons] at hnodup
  obtain ⟨first, start, hhead, hempties, hfulls⟩ := h.linked (by simp [ringNodes])
  obtain ⟨rfl, next, hread, hrest⟩ := fullCells_cons hfulls
  obtain ⟨nodes, hstore, hself, hother⟩ := store_of_read hread ⟨none, some next⟩
  refine ⟨{ l with nodes := nodes, head := some next, pktCount := l.pktCount - 1 }, ?_, ?_, rfl⟩
  · unfold internalPacketPoolGetFromHead
    rw [if_neg (by omega)]
    rw [hhead] at hstore ⊢
    simp only [load_of_read hread, bind, Except.bind, pure, Except.pure, hstore]
    simp only [load, hself]
  · constructor
    case nodup => exact hsame ▸ h.nodup
    case tail => exact hsame ▸ h.tail
    case ringSize =>
      rw [List.length_append, List.length_singleton]
      change l.ringSize = _
      omega
    case pktCount =>
      change l.pktCount - 1 = _
      omega
    case idle => exact fun hnil => absurd hnil (by simp [ringNodes])
    case linked =>
      intro _
      refine ⟨first, next, rfl, emptyCells_append (frame_emptyCells hempties ?_)
        (path_emptyCell hself), frame_fullCells hrest ?_⟩
      · intro other hmem
        exact hother other (hnodup.2.2 other hmem node List.mem_cons_self)
      · rintro other hmem
        apply hother other
        rintro rfl
        exact hnodup.2.1.1 hmem

/-- The packet goes to the first empty node, which becomes the tail. -/
theorem saveNext (packet : Nat) (h : l.Ring (node :: empties) fulls) :
    ∃ l', l.saveNext packet = .ok l' ∧ l'.Ring empties (fulls ++ [(node, packet)]) ∧
      l'.pktCountMax = l.pktCountMax := by
  have hsizes := h.ringSize
  have hcount := h.pktCount
  have hnodup := h.nodup
  rw [List.length_cons] at hsizes
  rw [ringNodes, List.cons_append, List.nodup_cons] at hnodup
  have hsame : ringNodes empties (fulls ++ [(node, packet)]) = ringNodes empties fulls ++ [node] := by
    simp [ringNodes]
  obtain ⟨first, start, tail, old, hhead, htail, htailRead, hempties, hfulls⟩ :=
    h.tail_next (by simp [ringNodes])
  obtain ⟨rfl, next, hread, hrest⟩ := emptyCells_cons hempties
  obtain ⟨nodes, hstore, hself, hother⟩ := store_of_read hread ⟨some packet, some next⟩
  refine ⟨{ l with nodes := nodes, tail := some node, pktCount := l.pktCount + 1 }, ?_, ?_, rfl⟩
  · unfold PacketNodeList.saveNext
    rw [htail]
    simp only [load_of_read htailRead, load_of_read hread, bind, Except.bind, pure, Except.pure, hstore]
  · have hkept : ∀ other ∈ ringNodes empties fulls, nodes.read other = l.nodes.read other := by
      intro other hmem
      apply hother other
      rintro rfl
      exact hnodup.1 hmem
    constructor
    case nodup =>
      rw [hsame]
      exact List.nodup_append_comm.mp (List.nodup_cons.mpr hnodup)
    case tail => rw [hsame, List.getLast?_concat]
    case ringSize =>
      rw [List.length_append, List.length_singleton]
      change l.ringSize = _
      omega
    case pktCount =>
      rw [List.length_append, List.length_singleton]
      change l.pktCount + 1 = _
      omega
    case idle => exact fun hnil => absurd hnil (by simp [ringNodes])
    case linked =>
      intro _
      refine ⟨next, start, hhead, frame_emptyCells hrest ?_, fullCells_append
        (frame_fullCells hfulls ?_) (path_fullCell hself)⟩
      · exact fun other hmem => hkept other (List.mem_append_left _ hmem)
      · exact fun other hmem => hkept other (List.mem_append_right _ hmem)

theorem nodeInsert_first (h : l.Ring [] []) (hread : l.nodes.read node = some ⟨none, none⟩) :
    ∃ l', l.internalPacketPoolNodeInsert node = .ok l' ∧ l'.Ring [node] [] ∧
      l'.pktCountMax = l.pktCountMax := by
  have hsizes := h.ringSize
  obtain ⟨nodes, hstore, hself, -⟩ := store_of_read hread ⟨none, some node⟩
  refine ⟨{ l with nodes := nodes, head := some node, tail := some node
                   ringSize := l.ringSize + 1 }, ?_, ?_, rfl⟩
  · unfold internalPacketPoolNodeInsert
    rw [if_pos (by simp [hsizes])]
    simp only [load_of_read hread, bind, Except.bind, pure, Except.pure, hstore]
  · constructor
    case nodup => simp [ringNodes]
    case ringSize => simp [hsizes]
    case pktCount => exact h.pktCount
    case tail => rfl
    case idle => exact nofun
    case linked => exact fun _ => ⟨node, node, rfl, path_emptyCell hself, rfl⟩

theorem tail_full {last packet : Nat} (h : l.Ring empties (fulls ++ [(last, packet)])) :
    ∃ first start, l.head = some start ∧ l.tail = some last ∧
      l.nodes.read last = some ⟨some packet, some first⟩ ∧
      Path packetLink l.nodes first (emptyCells empties) start ∧
      Path packetLink l.nodes start (fullCells (fulls ++ [(last, packet)])) first := by
  obtain ⟨first, start, hhead, hempties, hfulls⟩ := h.linked (by simp [ringNodes])
  refine ⟨first, start, hhead, ?_, (fullCells_concat hfulls).2, hempties, hfulls⟩
  rw [h.tail, ringNodes, List.map_append, ← List.append_assoc]
  exact List.getLast?_concat

/-- A node inserted into a ring all of whose nodes hold packets is its one empty node. -/
theorem nodeInsert {last packet : Nat} (h : l.Ring [] (fulls ++ [(last, packet)]))
    (hread : l.nodes.read node = some ⟨none, none⟩)
    (hnew : node ∉ (fulls ++ [(last, packet)]).map Prod.fst) :
    ∃ l', l.internalPacketPoolNodeInsert node = .ok l' ∧
      l'.Ring [node] (fulls ++ [(last, packet)]) ∧ l'.pktCountMax = l.pktCountMax := by
  have hsizes := h.ringSize
  have hnodup := h.nodup
  have hnext : ringNodes [node] (fulls ++ [(last, packet)]) =
      node :: (fulls ++ [(last, packet)]).map Prod.fst := rfl
  have htailNode : ringNodes [] (fulls ++ [(last, packet)]) = fulls.map Prod.fst ++ [last] := by
    simp [ringNodes]
  obtain ⟨first, start, hhead, htail, hlast, hempties, hfulls⟩ := h.tail_full
  obtain rfl : first = start := hempties
  rw [htailNode, List.nodup_append_comm, List.singleton_append, List.nodup_cons] at hnodup
  have hne : last ≠ node := by
    rintro rfl
    simp at hnew
  obtain ⟨nodes, hstore, hself, hother⟩ := store_of_read hread ⟨none, some first⟩
  have hlast' : nodes.read last = some ⟨some packet, some first⟩ := by rw [hother last hne, hlast]
  obtain ⟨nodes', hstore', hself', hother'⟩ :=
    store_of_read (l := { l with nodes := nodes }) hlast' ⟨some packet, some node⟩
  refine ⟨{ l with nodes := nodes', ringSize := l.ringSize + 1 }, ?_, ?_, rfl⟩
  · unfold internalPacketPoolNodeInsert
    rw [if_neg (by simp only [hsizes, List.length_append, List.length_singleton]; omega), htail]
    rw [htail] at hstore hstore'
    simp only [load_of_read hlast, load_of_read hread, bind, Except.bind, pure, Except.pure, hstore]
    simp only [load, hlast', hstore']
  · constructor
    case nodup =>
      rw [hnext, List.nodup_cons]
      exact ⟨hnew, h.nodup⟩
    case ringSize =>
      change l.ringSize + 1 = _
      rw [hsizes, List.length_nil, List.length_singleton]
      omega
    case pktCount => exact h.pktCount
    case tail =>
      rw [hnext, List.map_append, ← List.cons_append]
      exact htail.trans List.getLast?_concat.symm
    case idle => exact nofun
    case linked =>
      intro _
      refine ⟨node, first, hhead, path_emptyCell ?_, relink_fullCells hfulls hself' ?_⟩
      · rw [hother' node hne.symm]
        exact hself
      · intro other hmem
        have hlastNot : other ≠ last := by
          rintro rfl
          exact hnodup.1 hmem
        have hnodeNot : other ≠ node := by
          rintro rfl
          simp [hmem] at hnew
        rw [hother' other hlastNot]
        exact hother other hnodeNot

theorem nodeDelete_only (h : l.Ring [node] []) :
    ∃ l', l.internalPacketPoolNodeDelete = .ok l' ∧ l'.Ring [] [] ∧
      l'.pktCountMax = l.pktCountMax := by
  have hsizes := h.ringSize
  have hlive : l.nodes.Live node := h.live (by simp [ringNodes])
  obtain ⟨content, hread⟩ := hlive
  obtain ⟨nodes, hfree, -⟩ := nodeFree_of_read hread
  have htail : l.tail = some node := h.tail
  refine ⟨{ l with nodes := nodes, head := none, tail := none, ringSize := 0 }, ?_, ?_, rfl⟩
  · unfold internalPacketPoolNodeDelete
    rw [if_neg (by simp [hsizes]), if_pos (by simp [hsizes]), htail]
    rw [htail] at hfree
    simp only [bind, Except.bind, pure, Except.pure, hfree]
  · constructor
    case nodup => exact List.nodup_nil
    case ringSize => rfl
    case pktCount => exact h.pktCount
    case tail => rfl
    case idle => exact fun _ => rfl
    case linked => exact fun hnodes => absurd rfl hnodes

/-- The node behind the tail is removed; it is empty and the head is another one. -/
theorem nodeDelete {last packet : Nat} (h : l.Ring (node :: empties) (fulls ++ [(last, packet)])) :
    ∃ l', l.internalPacketPoolNodeDelete = .ok l' ∧
      l'.Ring empties (fulls ++ [(last, packet)]) ∧ l'.pktCountMax = l.pktCountMax := by
  have hsizes := h.ringSize
  have hnodup := h.nodup
  have hnodes : ringNodes (node :: empties) (fulls ++ [(last, packet)]) =
      node :: (ringNodes empties fulls ++ [last]) := by simp [ringNodes]
  have hnodes' : ringNodes empties (fulls ++ [(last, packet)]) = ringNodes empties fulls ++ [last] := by
    simp [ringNodes]
  obtain ⟨first, start, hhead, htail, hlast, hempties, hfulls⟩ := h.tail_full
  obtain ⟨rfl, next, hread, hrest⟩ := emptyCells_cons hempties
  rw [hnodes, List.nodup_cons, List.nodup_append_comm, List.singleton_append, List.nodup_cons] at hnodup
  have hne : node ≠ last := by
    rintro rfl
    simp at hnodup
  obtain ⟨nodes, hstore, hself, hother⟩ := store_of_read hlast ⟨some packet, some next⟩
  have hread' : nodes.read node = some ⟨none, some next⟩ := by rw [hother node hne, hread]
  obtain ⟨nodes', hfree, hother'⟩ := nodeFree_of_read (l := { l with nodes := nodes }) hread'
  have hkept : ∀ other ∈ ringNodes empties fulls, nodes'.read other = l.nodes.read other := by
    intro other hmem
    have hlastNot : other ≠ last := by
      rintro rfl
      exact hnodup.2.1 hmem
    have hnodeNot : other ≠ node := by
      rintro rfl
      simp [hmem] at hnodup
    rw [hother' other hnodeNot]
    exact hother other hlastNot
  refine ⟨{ l with nodes := nodes', ringSize := l.ringSize - 1 }, ?_, ?_, rfl⟩
  · simp only [List.length_cons, List.length_append, List.length_nil] at hsizes
    unfold internalPacketPoolNodeDelete
    rw [if_neg (by omega), if_neg (by omega), htail]
    rw [htail] at hstore hfree
    simp only [load_of_read hlast, load_of_read hread, bind, Except.bind, pure, Except.pure, hstore,
      hfree]
  · constructor
    case nodup => exact (List.nodup_cons.mp h.nodup).2
    case ringSize =>
      change l.ringSize - 1 = _
      rw [hsizes, List.length_cons]
      omega
    case pktCount => exact h.pktCount
    case tail =>
      rw [hnodes']
      exact htail.trans List.getLast?_concat.symm
    case idle => exact fun hnil => absurd hnil (by simp [ringNodes])
    case linked =>
      intro _
      refine ⟨next, start, hhead, frame_emptyCells hrest ?_, relink_fullCells hfulls ?_ ?_⟩
      · exact fun other hmem => hkept other (List.mem_append_left _ hmem)
      · rw [hother' last hne.symm]
        exact hself
      · exact fun other hmem => hkept other (List.mem_append_right _ hmem)

end Ring

end PacketNodeList

end CccUpgrade
