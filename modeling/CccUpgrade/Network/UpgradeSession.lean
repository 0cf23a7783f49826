import CccUpgrade.Adapter.WholeUpgrade
import CccUpgrade.Network.ClientSession

/-! A whole upgrade over one connection, with its requests in any chunks. What the
handlers answer to the PDUs one after the other is what the client is sent. -/
namespace CccUpgrade

open Lib

def Sends (sock : Int) (replies : List Message) (sends : List (Int × TcpSend)) : Prop :=
  List.Forall₂ (fun reply r => ∃ kernel, r =
    (sock, tcpSend kernel sock (some reply.frame) reply.frame.length)) replies sends

theorem Sends.written {sock : Int} {replies : List Message} {sends : List (Int × TcpSend)}
    (h : Sends sock replies sends) (hpos : 0 < sock) (haccepted : ∀ r ∈ sends, r.2.Accepted) :
    (sends.filter (·.1 = sock)).flatMap (fun r => r.2.written) = replies.flatMap Message.frame := by
  unfold Sends at h
  induction h with
  | nil => rfl
  | @cons reply _ replies sends hsend _ ih =>
      obtain ⟨kernel, rfl⟩ := hsend
      have hne : reply.frame ≠ [] := by
        apply List.length_pos_iff.mp
        rw [Message.frame_length]
        omega
      rw [List.filter_cons_of_pos (by simp), List.flatMap_cons, List.flatMap_cons,
        tcpSend_written hpos hne (haccepted _ List.mem_cons_self),
        ih fun r hr => haccepted r (List.mem_cons_of_mem _ hr)]

namespace RecvLoop

theorem foldl_dispatched (evs : List Recv) (st : RecvLoop) :
    ∃ pdus, (evs.foldl step st).dispatched = st.dispatched ++ pdus := by
  induction evs generalizing st with
  | nil => exact ⟨[], (List.append_nil _).symm⟩
  | cons ev evs ih =>
      obtain ⟨later, hlater⟩ := ih (st.step ev)
      have hstep : ∃ pdus, (st.step ev).dispatched = st.dispatched ++ pdus := by
        unfold step
        split
        · exact ⟨[], (List.append_nil _).symm⟩
        split
        · exact ⟨[], (List.append_nil _).symm⟩
        · exact ⟨_, rfl⟩
      obtain ⟨pdus, hpdus⟩ := hstep
      exact ⟨pdus ++ later, by rw [List.foldl_cons, hlater, hpdus, List.append_assoc]⟩

theorem foldl_of_fault {st : RecvLoop} {f : Fault} (hfault : st.fault = some f) (evs : List Recv) :
    evs.foldl step st = st := by
  induction evs with
  | nil => rfl
  | cons ev evs ih => rw [List.foldl_cons, step_of_fault hfault, ih]

end RecvLoop

section Session

variable {φ : Type} {libc : Libc φ} {slot : Fin clientCountMax} {sock : Int}

theorem processAll_converses {pdus : List PDU} {replies : List Message} {st st' : Machine φ}
    (hconverses : Converses libc st pdus replies st')
    (hfits : ∀ reply ∈ replies, reply.data.length ≤ protocolDataLenMax) {out : Outbound}
    (h : Serving out.conns slot sock) {answers : Nat → Nat → Answer}
    (hallocated : ∀ i k, (answers i k).allocated = true) :
    ∃ sends, Sends sock replies sends ∧
      World.processAll libc slot.val true pdus answers ⟨st, out⟩ =
        .ok ⟨st', { out with tcp := out.tcp ++ sends }⟩ := by
  induction hconverses generalizing out answers with
  | nil st => exact ⟨[], .nil, by rw [List.append_nil]; rfl⟩
  | @cons st st₁ _ pdu pdus reply replies hfirst hsaid _ ih =>
      have hreply := replyToClient_frame h (hfits reply List.mem_cons_self) (hallocated 0 0)
      have hprocess : World.process libc slot.val true pdu (answers 0) ⟨st, out⟩ =
          .ok ⟨st₁, out.replyToClient slot.val reply.cmd reply.cmdEx reply.data (answers 0 0)⟩ := by
        unfold Machine.Says at hsaid
        simp only [World.process, hfirst, hsaid]
        rfl
      rw [hreply] at hprocess
      let r := (sock, tcpSend (answers 0 0).kernel sock (some reply.frame) reply.frame.length)
      let out₁ : Outbound := { out with tcp := out.tcp ++ [r] }
      have h₁ : Serving out₁.conns slot sock := h
      obtain ⟨sends, hsends, hrest⟩ :=
        ih (fun m hm => hfits m (List.mem_cons_of_mem _ hm)) h₁ (fun i => hallocated (i + 1))
      refine ⟨r :: sends, .cons ⟨(answers 0 0).kernel, rfl⟩ hsends, ?_⟩
      have htcp : out.tcp ++ [r] ++ sends = out.tcp ++ r :: sends := by simp
      rw [World.processAll, hprocess]
      exact hrest.trans (by rw [htcp])

theorem recv_converses {chunk : Chunk} (hallocated : ∀ i k, (chunk.answers i k).allocated = true)
    {c : Client φ} (h : Serving c.world.out.conns slot sock) {before pdus : List PDU}
    {rest : List UInt8}
    (hloop : RecvLoop.step ⟨c.mainBuf, before, none⟩ chunk.recv = ⟨rest, before ++ pdus, none⟩)
    {replies : List Message} {st' : Machine φ}
    (hconverses : Converses libc c.world.machine pdus replies st')
    (hfits : ∀ reply ∈ replies, reply.data.length ≤ protocolDataLenMax) :
    ∃ sends, Sends sock replies sends ∧ c.recv libc slot chunk =
      .ok ⟨rest, st', { c.world.out with tcp := c.world.out.tcp ++ sends }⟩ := by
  have hfitting : (RecvLoop.step ⟨c.mainBuf, before, none⟩ chunk.recv).Fits := by
    rw [hloop]
    exact nofun
  have hroom : c.mainBuf.length + chunk.recv.bytes.length ≤ 2 * recvDataBuffer := hfitting.room rfl
  obtain ⟨sends, hsends, hall⟩ := processAll_converses hconverses hfits h hallocated
  refine ⟨sends, hsends, ?_⟩
  unfold RecvLoop.step at hloop
  rw [if_neg (by simp), if_neg (Nat.not_lt.mpr hroom)] at hloop
  simp only [RecvLoop.mk.injEq, List.append_cancel_left_eq] at hloop
  obtain ⟨hrest, hdispatched, hfault⟩ := hloop
  unfold Client.recv World.clientData World.deliver
  rw [if_neg (by omega)]
  simp only [h.ix, h.login, hdispatched, hall, hfault, hrest]

theorem run_converses {chunks : List Chunk}
    (hallocated : ∀ chunk ∈ chunks, ∀ i k, (chunk.answers i k).allocated = true) {c : Client φ}
    (h : Serving c.world.out.conns slot sock) {before pdus : List PDU} {rest : List UInt8}
    (hloop : (chunks.map Chunk.recv).foldl RecvLoop.step ⟨c.mainBuf, before, none⟩ =
      ⟨rest, before ++ pdus, none⟩) {replies : List Message} {st' : Machine φ}
    (hconverses : Converses libc c.world.machine pdus replies st')
    (hfits : ∀ reply ∈ replies, reply.data.length ≤ protocolDataLenMax) :
    ∃ sends, Sends sock replies sends ∧ c.run libc slot chunks =
      .ok ⟨rest, st', { c.world.out with tcp := c.world.out.tcp ++ sends }⟩ := by
  induction chunks generalizing c before pdus replies with
  | nil =>
      simp only [List.map_nil, List.foldl_nil, RecvLoop.mk.injEq] at hloop
      obtain ⟨rfl, hnone, -⟩ := hloop
      obtain rfl : pdus = [] := by simpa using hnone
      cases hconverses
      exact ⟨[], .nil, by rw [List.append_nil]; rfl⟩
  | cons chunk chunks ih =>
      rw [List.map_cons, List.foldl_cons] at hloop
      obtain ⟨later, hlater⟩ := RecvLoop.foldl_dispatched (chunks.map Chunk.recv)
        (RecvLoop.step ⟨c.mainBuf, before, none⟩ chunk.recv)
      obtain ⟨first, hdispatched⟩ := RecvLoop.foldl_dispatched [chunk.recv] ⟨c.mainBuf, before, none⟩
      have hfault : (RecvLoop.step ⟨c.mainBuf, before, none⟩ chunk.recv).fault = none := by
        by_contra hsome
        obtain ⟨f, hf⟩ := Option.ne_none_iff_exists'.mp hsome
        rw [RecvLoop.foldl_of_fault hf] at hloop
        rw [hloop] at hf
        cases hf
      cases hfirst : RecvLoop.step ⟨c.mainBuf, before, none⟩ chunk.recv with
      | mk mainBuf dispatched fault =>
          rw [List.foldl_cons, List.foldl_nil, hfirst] at hdispatched
          rw [hfirst] at hloop hlater hfault
          subst hdispatched hfault
          rw [hloop] at hlater
          rw [List.append_assoc] at hlater
          obtain rfl := List.append_cancel_left hlater
          obtain ⟨earlier, others, st₁, rfl, hearlier, hothers⟩ := hconverses.split
          have hmem := fun m hm => hfits m (List.mem_append_left others hm)
          obtain ⟨sends, hsends, hrecv⟩ :=
            recv_converses (hallocated chunk List.mem_cons_self) h hfirst hearlier hmem
          obtain ⟨sends', hsends', hrun⟩ :=
            ih (fun e he => hallocated e (List.mem_cons_of_mem _ he))
              (c := ⟨mainBuf, st₁, { c.world.out with tcp := c.world.out.tcp ++ sends }⟩) h
              (by rw [hloop, List.append_assoc]) hothers
              (fun m hm => hfits m (List.mem_append_right earlier hm))
          refine ⟨sends ++ sends', List.rel_append hsends hsends', ?_⟩
          rw [Client.run, hrecv]
          simp only [hrun, List.append_assoc]

theorem upgradeRequests_fit {title content digits : List UInt8} {writes : List Piece}
    (htitle : IsTitle title) (hdelivers : Delivers content writes digits)
    (hshort : ∀ w ∈ writes, 4 + w.dataBuf.length ≤ protocolDataLenMax) :
    ∀ m ∈ upgradeRequests title writes digits, m.data.length ≤ protocolDataLenMax := by
  have hmax : protocolDataLenMax = 4080 := rfl
  have hdigits : digits.length = 32 := by
    have h := congrArg List.length hdelivers.digits
    rwa [List.length_map, MessageDigest.hex_length, MessageDigest.digest_length] at h
  intro m hm
  simp only [upgradeRequests, List.mem_cons, List.mem_append, List.mem_map, List.not_mem_nil,
    or_false] at hm
  rcases hm with rfl | ⟨w, hw, rfl⟩ | rfl | rfl
  · exact htitle.fits
  · have hlength : w.message.data.length = 4 + w.dataBuf.length := by
      rw [Piece.message, writeMessage, List.length_append, toBigEndian32_length]
    rw [hlength]
    exact hshort w hw
  · change digits.length + 1 ≤ _
    omega
  · exact htitle.fits

theorem upgradeReplies_fit (writes : List Piece) :
    ∀ reply ∈ upgradeReplies writes, reply.data.length ≤ protocolDataLenMax := by
  have hmax : protocolDataLenMax = 4080 := rfl
  intro reply hreply
  simp only [upgradeReplies, List.mem_cons, List.mem_append, List.mem_map, List.not_mem_nil,
    or_false] at hreply
  rcases hreply with rfl | ⟨w, -, rfl⟩ | rfl | rfl
  · decide
  · change (toBigEndian32 w.offset).length + 1 ≤ _
    rw [toBigEndian32_length]
    omega
  · decide
  · decide

def storeClient : Client Store :=
  ⟨[], storeMachine, fun _ => ⟨true, true, 0, 5, [], 0⟩, 7, [], [], []⟩

end Session

end CccUpgrade
