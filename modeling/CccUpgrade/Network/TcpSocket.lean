import Mathlib.Data.List.Basic
import Mathlib.Tactic.Common

/-! The blocking send of tcp_socket.c over any answers of the kernel. -/
namespace CccUpgrade

structure SendCall where
  offered : List UInt8
  ret : Int
deriving DecidableEq, Repr

def SendCall.accepted (call : SendCall) : List UInt8 := call.offered.take call.ret.toNat

structure TcpSend where
  result : Bool
  calls : List SendCall
deriving DecidableEq, Repr

def TcpSend.written (r : TcpSend) : List UInt8 := r.calls.flatMap SendCall.accepted

/-- The `while(bytes_left > 0)` loop. `kernel k` is the result of the `k`-th call.
Every round that continues sends at least one byte; `fuel` bounds the rounds and
the caller provides one for each byte. -/
def tcpSendLoop (kernel : Nat → Int) (buffer : List UInt8) :
    Nat → Int → Int → List SendCall → TcpSend
  | 0, _, _, calls => ⟨true, calls⟩
  | fuel + 1, bytesLeft, firstByte, calls =>
      if 0 < bytesLeft then
        let ret := kernel calls.length
        let calls := calls ++ [⟨(buffer.drop firstByte.toNat).take bytesLeft.toNat, ret⟩]
        if ret ≤ 0 then ⟨false, calls⟩
        else tcpSendLoop kernel buffer fuel (bytesLeft - ret) (firstByte + ret) calls
      else ⟨true, calls⟩

def tcpSend (kernel : Nat → Int) (sock : Int) (buffer : Option (List UInt8)) (dataLen : Int) :
    TcpSend :=
  match buffer with
  | none => ⟨false, []⟩
  | some buffer =>
      if sock ≤ 0 ∨ dataLen ≤ 0 then ⟨false, []⟩
      else tcpSendLoop kernel buffer dataLen.toNat dataLen 0 []

theorem tcpSendLoop_offered {kernel : Nat → Int} {buffer : List UInt8} {fuel : Nat}
    {bytesLeft firstByte : Int} {calls : List SendCall}
    (hlength : firstByte + bytesLeft = buffer.length)
    (hcalls : ∀ call ∈ calls, call.offered <:+ buffer) :
    ∀ call ∈ (tcpSendLoop kernel buffer fuel bytesLeft firstByte calls).calls,
      call.offered <:+ buffer := by
  induction fuel generalizing bytesLeft firstByte calls with
  | zero => exact hcalls
  | succ fuel ih =>
      have hnext : ∀ ret, ∀ call ∈ calls ++
          [⟨(buffer.drop firstByte.toNat).take bytesLeft.toNat, ret⟩], call.offered <:+ buffer := by
        intro ret call hcall
        rcases List.mem_append.mp hcall with hbefore | hhere
        · exact hcalls call hbefore
        · rw [List.mem_singleton.mp hhere, List.take_of_length_le]
          · exact List.drop_suffix _ _
          · rw [List.length_drop]
            omega
      rw [tcpSendLoop]
      dsimp only
      split
      · split
        · exact hnext _
        · exact ih (by omega) (hnext _)
      · exact hcalls

theorem tcpSend_offered (kernel : Nat → Int) (sock : Int) (buffer : List UInt8) :
    ∀ call ∈ (tcpSend kernel sock (some buffer) buffer.length).calls, call.offered <:+ buffer := by
  unfold tcpSend
  dsimp only
  split
  · exact nofun
  · exact tcpSendLoop_offered (by omega) nofun

/-- The kernel takes at least one byte in every call, and no more than it is offered. -/
def TcpSend.Accepted (r : TcpSend) : Prop :=
  ∀ call ∈ r.calls, 1 ≤ call.ret ∧ call.ret ≤ call.offered.length

instance : DecidablePred TcpSend.Accepted := fun r =>
  inferInstanceAs (Decidable (∀ call ∈ r.calls, 1 ≤ call.ret ∧ call.ret ≤ call.offered.length))

def TcpSend.Bounded (r : TcpSend) : Prop := ∀ call ∈ r.calls, call.ret ≤ call.offered.length

/-- The run of a sender that offers `rest` until nothing is left or a call is refused. -/
inductive Sending : List UInt8 → List SendCall → Bool → Prop
  | done : Sending [] [] true
  | refused {rest : List UInt8} {ret : Int} (hrest : rest ≠ []) (hret : ret ≤ 0) :
      Sending rest [⟨rest, ret⟩] false
  | sent {rest : List UInt8} {ret : Int} {calls : List SendCall} {verdict : Bool} (hret : 0 < ret)
      (hle : ret ≤ rest.length) (hnext : Sending (rest.drop ret.toNat) calls verdict) :
      Sending rest (⟨rest, ret⟩ :: calls) verdict

namespace Sending

variable {rest : List UInt8} {calls : List SendCall} {verdict : Bool}

theorem offered (h : Sending rest calls verdict) {before after : List SendCall} {call : SendCall}
    (hcalls : calls = before ++ call :: after) :
    before.flatMap SendCall.accepted ++ call.offered = rest := by
  induction h generalizing before with
  | done => simp at hcalls
  | @refused rest ret hrest hret =>
      cases before with
      | nil =>
          cases hcalls
          rfl
      | cons first before => simp at hcalls
  | @sent rest ret calls verdict hret hle hnext ih =>
      cases before with
      | nil =>
          cases hcalls
          rfl
      | cons first before =>
          obtain ⟨rfl, hrest⟩ := List.cons.inj hcalls
          rw [List.flatMap_cons, List.append_assoc, ih hrest]
          exact List.take_append_drop _ _

theorem written_prefix (h : Sending rest calls verdict) :
    calls.flatMap SendCall.accepted <+: rest := by
  induction h with
  | done => exact List.prefix_rfl
  | @refused rest ret hrest hret =>
      rw [List.flatMap_singleton]
      exact List.take_prefix _ _
  | @sent rest ret calls verdict hret hle hnext ih =>
      obtain ⟨more, hmore⟩ := ih
      refine ⟨more, ?_⟩
      rw [List.flatMap_cons, List.append_assoc, hmore]
      exact List.take_append_drop _ _

theorem written_iff (h : Sending rest calls verdict) :
    verdict = true ↔ calls.flatMap SendCall.accepted = rest := by
  induction h with
  | done => simp
  | @refused rest ret hrest hret =>
      have hnone : (SendCall.mk rest ret).accepted = [] := by
        unfold SendCall.accepted
        rw [Int.toNat_of_nonpos hret, List.take_zero]
      rw [List.flatMap_singleton, hnone]
      simpa using hrest.symm
  | @sent rest ret calls verdict hret hle hnext ih =>
      rw [ih, List.flatMap_cons]
      have hsplit : (SendCall.mk rest ret).accepted ++ rest.drop ret.toNat = rest :=
        List.take_append_drop _ _
      constructor
      · intro hall
        rw [hall, hsplit]
      · intro hall
        exact List.append_cancel_left (hall.trans hsplit.symm)

theorem refused_of_mem (h : Sending rest calls verdict) {call : SendCall} (hcall : call ∈ calls)
    (hret : call.ret ≤ 0) : verdict = false := by
  induction h with
  | done => cases hcall
  | refused => rfl
  | @sent rest ret calls verdict hpos hle hnext ih =>
      rcases List.mem_cons.mp hcall with rfl | hmem
      · dsimp only at hret
        omega
      · exact ih hmem

theorem failed_iff (h : Sending rest calls verdict) : verdict = false ↔
    ∃ before last, calls = before ++ [last] ∧ last.ret ≤ 0 ∧ ∀ call ∈ before, 0 < call.ret := by
  constructor
  · intro hverdict
    induction h with
    | done => cases hverdict
    | @refused rest ret hrest hret => exact ⟨[], _, rfl, hret, nofun⟩
    | @sent rest ret calls verdict hret hle hnext ih =>
        obtain ⟨before, last, rfl, hlast, hbefore⟩ := ih hverdict
        refine ⟨⟨rest, ret⟩ :: before, last, rfl, hlast, ?_⟩
        intro call hcall
        rcases List.mem_cons.mp hcall with rfl | hmem
        · exact hret
        · exact hbefore call hmem
  · rintro ⟨before, last, hcalls, hlast, -⟩
    exact h.refused_of_mem (by simp [hcalls]) hlast

end Sending

theorem prefix_tcpSendLoop (kernel : Nat → Int) (buffer : List UInt8) (fuel : Nat)
    (bytesLeft firstByte : Int) (calls : List SendCall) :
    calls <+: (tcpSendLoop kernel buffer fuel bytesLeft firstByte calls).calls := by
  induction fuel generalizing bytesLeft firstByte calls with
  | zero => exact List.prefix_rfl
  | succ fuel ih =>
      rw [tcpSendLoop]
      dsimp only
      split
      · split
        · exact List.prefix_append _ _
        · exact (List.prefix_append _ _).trans (ih _ _ _)
      · exact List.prefix_rfl

theorem tcpSendLoop_length (kernel : Nat → Int) (buffer : List UInt8) (fuel : Nat)
    (bytesLeft firstByte : Int) (calls : List SendCall) :
    (tcpSendLoop kernel buffer fuel bytesLeft firstByte calls).calls.length ≤ calls.length + fuel := by
  induction fuel generalizing bytesLeft firstByte calls with
  | zero => exact Nat.le_refl _
  | succ fuel ih =>
      rw [tcpSendLoop]
      dsimp only
      split
      · split
        · simp
        · apply Nat.le_trans (ih _ _ _)
          simp only [List.length_append, List.length_singleton]
          omega
      · exact Nat.le_add_right _ _

theorem tcpSendLoop_sending {kernel : Nat → Int} {buffer : List UInt8} {fuel : Nat}
    {bytesLeft firstByte : Int} {calls : List SendCall} (hfirst : 0 ≤ firstByte)
    (hlength : firstByte + bytesLeft = buffer.length) (hleft : 0 ≤ bytesLeft)
    (hfuel : bytesLeft ≤ fuel)
    (h : (tcpSendLoop kernel buffer fuel bytesLeft firstByte calls).Bounded) :
    ∃ new, (tcpSendLoop kernel buffer fuel bytesLeft firstByte calls).calls = calls ++ new ∧
      Sending (buffer.drop firstByte.toNat) new
        (tcpSendLoop kernel buffer fuel bytesLeft firstByte calls).result := by
  induction fuel generalizing bytesLeft firstByte calls with
  | zero =>
      rw [List.drop_eq_nil_of_le (by omega)]
      exact ⟨[], (List.append_nil _).symm, .done⟩
  | succ fuel ih =>
      have hoffered : (buffer.drop firstByte.toNat).take bytesLeft.toNat =
          buffer.drop firstByte.toNat := by
        apply List.take_of_length_le
        rw [List.length_drop]
        omega
      rw [tcpSendLoop] at h ⊢
      dsimp only at h ⊢
      rw [hoffered] at h ⊢
      generalize hret : kernel calls.length = ret at h ⊢
      by_cases hpos : 0 < bytesLeft
      swap
      · rw [if_neg hpos, List.drop_eq_nil_of_le (by omega)]
        exact ⟨[], (List.append_nil _).symm, .done⟩
      rw [if_pos hpos] at h ⊢
      by_cases hrefused : ret ≤ 0
      · rw [if_pos hrefused]
        have hrest : buffer.drop firstByte.toNat ≠ [] := by
          intro hnil
          have hzero := congrArg List.length hnil
          rw [List.length_drop, List.length_nil] at hzero
          omega
        exact ⟨[_], rfl, .refused hrest hrefused⟩
      · rw [if_neg hrefused] at h ⊢
        have hle := h ⟨buffer.drop firstByte.toNat, ret⟩
          ((prefix_tcpSendLoop _ _ _ _ _ _).subset (by simp))
        simp only [List.length_drop] at hle
        obtain ⟨new, hcalls, hnew⟩ := ih (by omega) (by omega) (by omega) (by omega) h
        refine ⟨⟨buffer.drop firstByte.toNat, ret⟩ :: new, ?_, .sent (by omega) ?_ ?_⟩
        · rw [hcalls, List.append_assoc]
          rfl
        · rw [List.length_drop]
          omega
        · have hnext : (firstByte + ret).toNat = firstByte.toNat + ret.toNat := by omega
          rw [List.drop_drop, ← hnext]
          exact hnew

theorem tcpSend_sending {kernel : Nat → Int} {sock : Int} {buffer : List UInt8} (hsock : 0 < sock)
    (hbuffer : buffer ≠ []) (h : (tcpSend kernel sock (some buffer) buffer.length).Bounded) :
    Sending buffer (tcpSend kernel sock (some buffer) buffer.length).calls
      (tcpSend kernel sock (some buffer) buffer.length).result := by
  have hpos := List.length_pos_iff.mpr hbuffer
  unfold tcpSend at h ⊢
  dsimp only at h ⊢
  rw [if_neg (by omega)] at h ⊢
  obtain ⟨new, hcalls, hnew⟩ :=
    tcpSendLoop_sending (by omega) (by omega) (by omega) (by omega) h
  rw [hcalls]
  exact hnew

theorem tcpSend_written {kernel : Nat → Int} {sock : Int} {buffer : List UInt8} (hsock : 0 < sock)
    (hbuffer : buffer ≠ []) (h : (tcpSend kernel sock (some buffer) buffer.length).Accepted) :
    (tcpSend kernel sock (some buffer) buffer.length).written = buffer := by
  have hsending := tcpSend_sending hsock hbuffer fun call hcall => (h call hcall).2
  apply hsending.written_iff.mp
  rw [← Bool.not_eq_false]
  intro hfailed
  -- A refused call would have been taken at least one byte of.
  obtain ⟨before, last, hcalls, hlast, -⟩ := hsending.failed_iff.mp hfailed
  have hcall := (h last (by simp [hcalls])).1
  omega

/-- `tcp_close`: the descriptor passed to `close`, if it is called. -/
def tcpClose (sock : Int) : Option Int := if sock ≤ 0 then none else some sock

end CccUpgrade
