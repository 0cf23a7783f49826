import CccUpgrade.Network.TcpSocket

/-! The two sends of tcp_socket.c on the same results of `send`. What each of them offers
is always the rest of the buffer. -/
namespace CccUpgrade

structure SendResult where
  ret : Int
  eagain : Bool
deriving DecidableEq, Repr

structure AsyncCall where
  offered : List UInt8
  result : SendResult
deriving DecidableEq, Repr

/-- What is known of `tcp_send_async` after the given results; `none` while it has not
returned. -/
structure TcpSendAsync where
  result : Option Bool
  calls : List AsyncCall
deriving DecidableEq, Repr

/-- The `while(data_len > 0)` loop, on the results of the calls it makes. -/
def tcpSendAsyncLoop (buffer : List UInt8) :
    List SendResult → Int → Int → List AsyncCall → TcpSendAsync
  | [], dataLen, _, calls => ⟨if 0 < dataLen then none else some true, calls⟩
  | r :: results, dataLen, sended, calls =>
      if 0 < dataLen then
        let calls := calls ++ [⟨(buffer.drop sended.toNat).take dataLen.toNat, r⟩]
        if r.ret ≤ 0 then
          if r.ret = 0 then ⟨some false, calls⟩
          else if r.eagain = false then ⟨some false, calls⟩
          else tcpSendAsyncLoop buffer results dataLen sended calls
        else tcpSendAsyncLoop buffer results (dataLen - r.ret) (sended + r.ret) calls
      else ⟨some true, calls⟩

/-- `tcp_send_async`; `buffer` is `none` for NULL. -/
def tcpSendAsync (results : List SendResult) (sock : Int) (buffer : Option (List UInt8))
    (dataLen : Int) : TcpSendAsync :=
  match buffer with
  | none => ⟨some false, []⟩
  | some buffer =>
      if sock ≤ 0 ∨ dataLen ≤ 0 then ⟨some false, []⟩
      else tcpSendAsyncLoop buffer results dataLen 0 []

/-- A result after which the same bytes are offered again. -/
def SendResult.retried (r : SendResult) : Bool := r.ret < 0 && r.eagain

def AsyncCall.sendCall (call : AsyncCall) : SendCall := ⟨call.offered, call.result.ret⟩

def settledCalls (calls : List AsyncCall) : List SendCall :=
  (calls.filter fun call => !call.result.retried).map AsyncCall.sendCall

section Settled

variable (calls : List AsyncCall) (call : AsyncCall)

theorem settledCalls_concat : settledCalls (calls ++ [call]) =
    if call.result.retried then settledCalls calls else settledCalls calls ++ [call.sendCall] := by
  unfold settledCalls
  rw [List.filter_append, List.map_append]
  cases hretried : call.result.retried <;> simp [hretried]

end Settled

namespace TcpSendAsync

def settled (r : TcpSendAsync) : List SendCall := settledCalls r.calls

def written (r : TcpSendAsync) : List UInt8 := r.calls.flatMap fun call => call.sendCall.accepted

theorem written_eq (r : TcpSendAsync) : r.written = r.settled.flatMap SendCall.accepted := by
  obtain ⟨result, calls⟩ := r
  unfold written settled settledCalls
  induction calls with
  | nil => rfl
  | cons call calls ih =>
      rw [List.flatMap_cons]
      cases hretried : call.result.retried with
      | false => simp [hretried, ih]
      | true =>
          have hneg : call.result.ret < 0 := by
            unfold SendResult.retried at hretried
            simp only [Bool.and_eq_true, decide_eq_true_eq] at hretried
            exact hretried.1
          have hnone : call.sendCall.accepted = [] := by
            unfold SendCall.accepted AsyncCall.sendCall
            rw [Int.toNat_of_nonpos (Int.le_of_lt hneg), List.take_zero]
          simp [hretried, hnone, ih]

/-- What `tcp_send_async` does is what `tcp_send` does on the results that are not `EAGAIN`,
of which there are `count`. Before it has returned, all of them are used up, and `tcp_send`
would go on too. -/
structure Follows (r : TcpSendAsync) (count : Nat) (other : TcpSend) : Prop where
  returned : ∀ verdict, r.result = some verdict → other.result = verdict ∧ other.calls = r.settled
  sending : r.result = none → r.settled.length = count ∧
    ∃ call, r.settled ++ [call] <+: other.calls

theorem Follows.of_returned {calls : List AsyncCall} {sent : List SendCall}
    (hcalls : settledCalls calls = sent) {verdict : Bool} {count : Nat} :
    Follows ⟨some verdict, calls⟩ count ⟨verdict, sent⟩ where
  returned := by
    rintro _ ⟨⟩
    exact ⟨rfl, hcalls.symm⟩
  sending hnone := absurd hnone (Option.some_ne_none _)

end TcpSendAsync

def settledResults (results : List SendResult) : List SendResult :=
  results.filter fun r => !r.retried

theorem settledResults_cons (r : SendResult) (results : List SendResult) :
    settledResults (r :: results) =
      if r.retried then settledResults results else r :: settledResults results := by
  unfold settledResults
  cases hretried : r.retried <;> simp [hretried]

theorem SendResult.retried_iff (r : SendResult) : r.retried = true ↔ r.ret < 0 ∧ r.eagain = true := by
  simp [SendResult.retried]

section Loop

variable {kernel : Nat → Int} {buffer : List UInt8} {fuel : Nat} {dataLen sended : Int}
  {calls : List SendCall}

theorem tcpSendLoop_done (h : ¬ 0 < dataLen) :
    tcpSendLoop kernel buffer fuel dataLen sended calls = ⟨true, calls⟩ := by
  cases fuel with
  | zero => rfl
  | succ fuel => rw [tcpSendLoop, if_neg h]

theorem tcpSendLoop_more (h : 0 < dataLen) (hfuel : dataLen ≤ fuel) :
    ∃ call, calls ++ [call] <+: (tcpSendLoop kernel buffer fuel dataLen sended calls).calls := by
  cases fuel with
  | zero => omega
  | succ fuel =>
      rw [tcpSendLoop, if_pos h]
      dsimp only
      split
      · exact ⟨_, List.prefix_rfl⟩
      · exact ⟨_, prefix_tcpSendLoop _ _ _ _ _ _⟩

theorem tcpSendAsyncLoop_done (h : ¬ 0 < dataLen) (results : List SendResult)
    (asyncCalls : List AsyncCall) :
    tcpSendAsyncLoop buffer results dataLen sended asyncCalls = ⟨some true, asyncCalls⟩ := by
  cases results <;> rw [tcpSendAsyncLoop, if_neg h]

theorem tcpSendAsyncLoop_retried {r : SendResult} (hretried : r.retried = true) (hpos : 0 < dataLen)
    (results : List SendResult) (asyncCalls : List AsyncCall) :
    tcpSendAsyncLoop buffer (r :: results) dataLen sended asyncCalls =
      tcpSendAsyncLoop buffer results dataLen sended
        (asyncCalls ++ [⟨(buffer.drop sended.toNat).take dataLen.toNat, r⟩]) := by
  obtain ⟨hneg, heagain⟩ := r.retried_iff.mp hretried
  rw [tcpSendAsyncLoop, if_pos hpos]
  dsimp only
  rw [if_pos (by omega), if_neg (by omega), if_neg (by simp [heagain])]

theorem tcpSendAsyncLoop_settled {r : SendResult} (hretried : r.retried = false) (hpos : 0 < dataLen)
    (results : List SendResult) (asyncCalls : List AsyncCall) :
    tcpSendAsyncLoop buffer (r :: results) dataLen sended asyncCalls =
      if r.ret ≤ 0 then
        ⟨some false, asyncCalls ++ [⟨(buffer.drop sended.toNat).take dataLen.toNat, r⟩]⟩
      else
        tcpSendAsyncLoop buffer results (dataLen - r.ret) (sended + r.ret)
          (asyncCalls ++ [⟨(buffer.drop sended.toNat).take dataLen.toNat, r⟩]) := by
  rw [tcpSendAsyncLoop, if_pos hpos]
  dsimp only
  split
  next hrefused =>
    have heagain : r.ret ≠ 0 → r.eagain = false := by
      intro hne
      rw [← Bool.not_eq_true]
      intro heagain
      rw [r.retried_iff.mpr ⟨by omega, heagain⟩] at hretried
      cases hretried
    exact ite_eq_left_iff.mpr fun hne => if_pos (heagain hne)
  next => rfl

theorem tcpSendAsyncLoop_follows (results : List SendResult) {asyncCalls : List AsyncCall}
    (hcalls : settledCalls asyncCalls = calls)
    (hkernel : ∀ k r, (settledResults results)[k]? = some r → kernel (calls.length + k) = r.ret)
    (hfuel : dataLen ≤ fuel) :
    (tcpSendAsyncLoop buffer results dataLen sended asyncCalls).Follows
      (calls.length + (settledResults results).length)
      (tcpSendLoop kernel buffer fuel dataLen sended calls) := by
  induction results generalizing fuel dataLen sended calls asyncCalls with
  | nil =>
      by_cases hpos : 0 < dataLen
      · rw [tcpSendAsyncLoop, if_pos hpos]
        refine ⟨?_, fun _ => ⟨congrArg List.length hcalls, ?_⟩⟩
        · rintro verdict ⟨⟩
        · rw [TcpSendAsync.settled, hcalls]
          exact tcpSendLoop_more hpos hfuel
      · rw [tcpSendAsyncLoop_done hpos, tcpSendLoop_done hpos]
        exact .of_returned hcalls
  | cons r results ih =>
      by_cases hpos : 0 < dataLen
      swap
      · rw [tcpSendAsyncLoop_done hpos, tcpSendLoop_done hpos]
        exact .of_returned hcalls
      have hconcat := settledCalls_concat asyncCalls
        ⟨(buffer.drop sended.toNat).take dataLen.toNat, r⟩
      have hsettled := settledResults_cons r results
      cases hretried : r.retried with
      | true =>
          rw [if_pos hretried] at hsettled hconcat
          rw [hsettled] at hkernel ⊢
          rw [tcpSendAsyncLoop_retried hretried hpos]
          exact ih (hconcat.trans hcalls) hkernel hfuel
      | false =>
          rw [if_neg (Bool.eq_false_iff.mp hretried)] at hsettled hconcat
          rw [hsettled] at hkernel ⊢
          have hret : kernel calls.length = r.ret := hkernel 0 r rfl
          obtain ⟨fuel, rfl⟩ : ∃ n, fuel = n + 1 := ⟨fuel - 1, by omega⟩
          rw [tcpSendAsyncLoop_settled hretried hpos, tcpSendLoop, if_pos hpos]
          dsimp only
          rw [hret]
          generalize (buffer.drop sended.toNat).take dataLen.toNat = offered at hconcat ⊢
          rw [hcalls] at hconcat
          split
          · exact .of_returned hconcat
          · have hcount : calls.length + (r :: settledResults results).length =
                (calls ++ [SendCall.mk offered r.ret]).length + (settledResults results).length := by
              simp only [List.length_append, List.length_cons, List.length_nil]
              omega
            rw [hcount]
            apply ih hconcat _ (by omega)
            intro k result hresult
            rw [List.length_append, List.length_singleton, Nat.add_assoc, Nat.add_comm 1]
            exact hkernel (k + 1) result hresult

end Loop

/-- Each call is for what is not yet taken. The send succeeds exactly if everything is taken,
in order, and fails exactly at the first call that is refused, with a prefix taken. -/
structure TcpSend.Exact (buffer : List UInt8) (r : TcpSend) : Prop where
  offered : ∀ before call after, r.calls = before ++ call :: after →
    before.flatMap SendCall.accepted ++ call.offered = buffer
  succeeded : r.result = true ↔ r.written = buffer
  failed : r.result = false ↔ ∃ before last, r.calls = before ++ [last] ∧ last.ret ≤ 0 ∧
    ∀ call ∈ before, 0 < call.ret
  taken : r.written <+: buffer

theorem Sending.exact {buffer : List UInt8} {r : TcpSend} (h : Sending buffer r.calls r.result) :
    r.Exact buffer where
  offered _ _ _ hcalls := h.offered hcalls
  succeeded := h.written_iff
  failed := h.failed_iff
  taken := h.written_prefix

section Sends

variable {sock : Int} (hsock : 0 < sock) {buffer : List UInt8} (hbuffer : buffer ≠ [])
include hsock hbuffer

theorem tcpSendAsync_follows {kernel : Nat → Int} {results : List SendResult}
    (hkernel : ∀ k r, (settledResults results)[k]? = some r → kernel k = r.ret) :
    (tcpSendAsync results sock (some buffer) buffer.length).Follows (settledResults results).length
      (tcpSend kernel sock (some buffer) buffer.length) := by
  have hpos := List.length_pos_iff.mpr hbuffer
  unfold tcpSendAsync tcpSend
  dsimp only
  rw [if_neg (by omega), if_neg (by omega)]
  have hfollows : (tcpSendAsyncLoop buffer results buffer.length 0 []).Follows
      (([] : List SendCall).length + (settledResults results).length)
      (tcpSendLoop kernel buffer buffer.length buffer.length 0 []) := by
    have hnone : settledCalls [] = [] := rfl
    apply tcpSendAsyncLoop_follows results hnone _ (Int.le_refl _)
    simpa using hkernel
  rw [List.length_nil, Nat.zero_add] at hfollows
  exact hfollows

theorem tcpSendAsync_returns {kernel : Nat → Int} {results : List SendResult}
    (hkernel : ∀ k r, (settledResults results)[k]? = some r → kernel k = r.ret)
    (hmany : buffer.length ≤ (settledResults results).length) :
    (tcpSendAsync results sock (some buffer) buffer.length).result =
        some (tcpSend kernel sock (some buffer) buffer.length).result ∧
      (tcpSendAsync results sock (some buffer) buffer.length).written =
        (tcpSend kernel sock (some buffer) buffer.length).written := by
  have hfollows := tcpSendAsync_follows hsock hbuffer hkernel
  cases hresult : (tcpSendAsync results sock (some buffer) buffer.length).result with
  | none =>
      obtain ⟨hlength, call, hmore⟩ := hfollows.sending hresult
      have hpos := List.length_pos_iff.mpr hbuffer
      have hcalls : (tcpSend kernel sock (some buffer) buffer.length).calls.length ≤ buffer.length := by
        unfold tcpSend
        dsimp only
        rw [if_neg (by omega)]
        simpa using tcpSendLoop_length kernel buffer buffer.length buffer.length 0 []
      have hle := hmore.length_le
      rw [List.length_append, hlength, List.length_singleton] at hle
      omega
  | some verdict =>
      obtain ⟨hverdict, hcalls⟩ := hfollows.returned verdict hresult
      refine ⟨congrArg some hverdict.symm, ?_⟩
      rw [TcpSendAsync.written_eq, ← hcalls]
      rfl

/-- Both sends offer what is left, and what comes of them is the same. -/
theorem tcp_sends_exact :
    (∀ kernel : Nat → Int, (tcpSend kernel sock (some buffer) buffer.length).Bounded →
      (tcpSend kernel sock (some buffer) buffer.length).Exact buffer) ∧
    ∀ (results : List SendResult) (kernel : Nat → Int),
      (∀ k r, (settledResults results)[k]? = some r → kernel k = r.ret) →
      (tcpSendAsync results sock (some buffer) buffer.length).Follows (settledResults results).length
          (tcpSend kernel sock (some buffer) buffer.length) ∧
        (buffer.length ≤ (settledResults results).length →
          (tcpSendAsync results sock (some buffer) buffer.length).result =
              some (tcpSend kernel sock (some buffer) buffer.length).result ∧
            (tcpSendAsync results sock (some buffer) buffer.length).written =
              (tcpSend kernel sock (some buffer) buffer.length).written) :=
  ⟨fun _ hbounded => (tcpSend_sending hsock hbuffer hbounded).exact, fun _ _ hkernel =>
    ⟨tcpSendAsync_follows hsock hbuffer hkernel, tcpSendAsync_returns hsock hbuffer hkernel⟩⟩

end Sends

/-- `send` would block once, and takes the three bytes in two other calls. -/
def blockedOnce : List SendResult := [⟨2, false⟩, ⟨-1, true⟩, ⟨1, false⟩, ⟨0, false⟩]

theorem tcp_sends_exact_blocked :
    (tcpSend (fun k => 2 - k) 4 (some [1, 2, 3]) 3).Exact [1, 2, 3] ∧
    (tcpSendAsync blockedOnce 4 (some [1, 2, 3]) 3).result = some true ∧
    (tcpSendAsync blockedOnce 4 (some [1, 2, 3]) 3).written = [1, 2, 3] := by
  have hsock : (0 : Int) < 4 := by decide
  have hbuffer : [1, 2, 3] ≠ ([] : List UInt8) := by decide
  have hkernel : ∀ (k : Nat) r, (settledResults blockedOnce)[k]? = some r → 2 - (k : Int) = r.ret := by
    rintro (_ | _ | _ | k) r ⟨⟩ <;> rfl
  obtain ⟨hsend, hasync⟩ := tcp_sends_exact hsock hbuffer
  obtain ⟨-, hreturns⟩ := hasync blockedOnce (fun k => 2 - k) hkernel
  obtain ⟨hresult, hwritten⟩ := hreturns (by decide)
  refine ⟨hsend (fun k => 2 - k) ?_, hresult, hwritten⟩
  unfold TcpSend.Bounded
  decide

end CccUpgrade
