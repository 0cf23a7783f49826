import CccUpgrade.Adapter.Handlers
import CccUpgrade.Protocol.Parse

/-! What the handlers read of a PDU that carries a message: within the payload they
read the message, whatever else the packet buffer holds. -/
namespace CccUpgrade

open Lib

namespace PDU.Carries

variable {pdu : PDU} {m : Message} (h : pdu.Carries m)
include h

theorem length_le : m.data.length ≤ pdu.data.length := by
  have hlength := congrArg List.length h.data
  rw [List.length_take] at hlength
  omega

theorem dataLen_toNat : pdu.dataLen.toNat = m.data.length := by rw [h.dataLen, Int.toNat_natCast]

theorem bytes {start count : Nat} (hle : start + count ≤ m.data.length) :
    pdu.bytes start count = .ok ((m.data.drop start).take count) := by
  unfold PDU.bytes
  rw [if_pos (hle.trans h.length_le), ← h.data, List.drop_take, List.take_take,
    Nat.min_eq_left (by omega)]

theorem readByte {index : Nat} (hlt : index < m.data.length) :
    CccUpgrade.readByte pdu.data index = CccUpgrade.readByte m.data index := by
  unfold CccUpgrade.readByte
  rw [← h.data, List.getElem?_take_of_lt hlt]

end PDU.Carries

variable {φ : Type} {libc : Libc φ}

theorem payloadString_eq {pdu : PDU} {m : Message} (h : pdu.Carries m) {start count : Nat}
    (hle : start + count ≤ m.data.length) (st : Machine φ) :
    payloadString libc pdu start count st =
      if (libc.malloc st.env (count + 1)).1 = true then
        .ok (cString ((m.data.drop start).take count),
          { st with env := (libc.malloc st.env (count + 1)).2 })
      else .error .null := by
  change (if (!(libc.malloc st.env (count + 1)).1) = true then Run.fault .null
    else do return cString (← Run.checked (pdu.bytes start count)) : Run φ (List UInt8)) _ = _
  rw [h.bytes hle]
  cases (libc.malloc st.env (count + 1)).1 <;> rfl

theorem triple_payload {pdu : PDU} {m : Message} (h : pdu.Carries m) {start count : Nat}
    (hle : start + count ≤ m.data.length) {γ : Type} (view : Machine φ → γ)
    (hview : ∀ n, Blind view (libc.malloc · n)) (p : γ → Prop) {E : Fault → Prop}
    (hE : ∀ env, (libc.malloc env (count + 1)).1 ≠ true → E .null) :
    Triple (fun st => p (view st)) (payloadString libc pdu start count)
      (fun content st => content = cString ((m.data.drop start).take count) ∧ p (view st)) E := by
  intro st hs
  rw [payloadString_eq h hle]
  by_cases hmalloc : (libc.malloc st.env (count + 1)).1 = true
  · rw [if_pos hmalloc]
    refine ⟨rfl, ?_⟩
    rwa [hview _ st]
  · rw [if_neg hmalloc]
    exact hE st.env hmalloc

theorem processProtocolPdu_upload {pdu : PDU} (hcmd : pdu.cmd = pcsUploadFile) :
    processProtocolPdu libc pdu true = processProtocolUploadFile libc pdu := by
  simp only [processProtocolPdu, PDU.branch, processProtocolPduAfterLogin, hcmd]
  rfl

theorem processProtocolPdu_upgrade {pdu : PDU} (hcmd : pdu.cmd = pcsUpgrade) :
    processProtocolPdu libc pdu true = processProtocolUpgrade libc pdu := by
  simp only [processProtocolPdu, PDU.branch, processProtocolPduAfterLogin, hcmd]
  rfl

/-- The PDU of a frame in a packet that holds nothing else. -/
def Message.pdu (m : Message) : PDU := ⟨m.cmd, m.cmdEx, m.data, m.data.length, 0, 0, true⟩

theorem Message.carries_pdu (m : Message) : m.pdu.Carries m := ⟨rfl, rfl, rfl, List.take_length⟩

def Message.ShortWrite (m : Message) : Prop :=
  m.cmd = pcsUploadFile ∧ m.cmdEx = pcsEx03 ∧ m.data.length < 4

section Alone

variable {pdu : PDU} {m : Message} (h : pdu.Carries m)
include h

theorem bytes_alone {start count : Nat} (hle : start + count ≤ m.data.length) :
    pdu.bytes start count = m.pdu.bytes start count := by
  rw [h.bytes hle, m.carries_pdu.bytes hle]

theorem payloadString_alone {start count : Nat} (hle : start + count ≤ m.data.length) :
    payloadString libc pdu start count = payloadString libc m.pdu start count := by
  unfold payloadString
  rw [bytes_alone h hle]

theorem dataLen_alone : pdu.dataLen = m.pdu.dataLen := h.dataLen

theorem readByte_alone {index : Nat} (hlt : index < m.data.length) :
    readByte pdu.data index = readByte m.pdu.data index := by
  rw [h.readByte hlt, m.carries_pdu.readByte hlt]

theorem clientLogin_alone :
    processProtocolClientLogin libc pdu = processProtocolClientLogin libc m.pdu := by
  unfold processProtocolClientLogin
  rw [dataLen_alone h, m.carries_pdu.dataLen_toNat, payloadString_alone h (by omega)]

theorem upgradeCmdEx01_alone :
    processProtocolUpgradeCmdEx01 libc pdu = processProtocolUpgradeCmdEx01 libc m.pdu := by
  unfold processProtocolUpgradeCmdEx01
  rw [dataLen_alone h, m.carries_pdu.dataLen_toNat, payloadString_alone h (by omega)]

theorem uploadCmdEx02_alone :
    processProtocolUploadFileCmdEx02 libc pdu = processProtocolUploadFileCmdEx02 libc m.pdu := by
  unfold processProtocolUploadFileCmdEx02
  rw [dataLen_alone h, m.carries_pdu.dataLen_toNat, payloadString_alone h (by omega)]

theorem uploadCmdEx03_alone (hlong : 4 ≤ m.data.length) :
    processProtocolUploadFileCmdEx03 libc pdu = processProtocolUploadFileCmdEx03 libc m.pdu := by
  unfold processProtocolUploadFileCmdEx03
  rw [dataLen_alone h, m.carries_pdu.dataLen_toNat, bytes_alone h (by omega), bytes_alone h (by omega)]

theorem uploadCmdEx04_alone :
    processProtocolUploadFileCmdEx04 libc pdu = processProtocolUploadFileCmdEx04 libc m.pdu := by
  unfold processProtocolUploadFileCmdEx04
  rw [dataLen_alone h, m.carries_pdu.dataLen_toNat]
  by_cases hlen : 1 < m.data.length
  · rw [readByte_alone h (by omega), payloadString_alone h (by omega)]
  · have hdataLen : ¬ 1 < m.pdu.dataLen := by
      rw [m.carries_pdu.dataLen]
      omega
    simp only [hdataLen, ↓reduceIte]

theorem uploadCmdEx05_alone :
    (processProtocolUploadFileCmdEx05 pdu : Run φ Unit) = processProtocolUploadFileCmdEx05 m.pdu := by
  unfold processProtocolUploadFileCmdEx05
  rw [dataLen_alone h]
  by_cases hlen : 1 ≤ m.data.length
  · rw [readByte_alone h (by omega)]
  · have hdataLen : ¬ 1 ≤ m.pdu.dataLen := by
      rw [m.carries_pdu.dataLen]
      omega
    simp only [hdataLen, ↓reduceIte]

theorem uploadFile_alone (hshort : m.cmdEx = pcsEx03 → 4 ≤ m.data.length) :
    processProtocolUploadFile libc pdu = processProtocolUploadFile libc m.pdu := by
  have hcmdEx : pdu.cmdEx = m.pdu.cmdEx := h.cmdEx
  unfold processProtocolUploadFile
  rw [hcmdEx, uploadCmdEx02_alone h, uploadCmdEx04_alone h, uploadCmdEx05_alone h]
  by_cases h03 : m.cmdEx = pcsEx03
  · rw [uploadCmdEx03_alone h (hshort h03)]
  · have hpdu : ¬ m.pdu.cmdEx = pcsEx03 := h03
    simp only [hpdu, ↓reduceIte]

/-- What a request does depends on its own frame, and not on what else is in the packet. -/
theorem processProtocolPdu_alone {bLogin : Bool} (hshort : bLogin = true → ¬ m.ShortWrite) :
    processProtocolPdu libc pdu bLogin = processProtocolPdu libc m.pdu bLogin := by
  have hcmd : pdu.cmd = m.pdu.cmd := h.cmd
  have hbranch : pdu.branch bLogin = m.pdu.branch bLogin := by simp only [PDU.branch, hcmd]
  unfold processProtocolPdu
  rw [hbranch, clientLogin_alone h]
  cases bLogin with
  | false =>
      cases hway : m.pdu.branch false with
      | afterLogin =>
          unfold PDU.branch at hway
          split at hway
          · cases hway
          · split at hway <;> cases hway
      | discoverDevice | clientLogin | notLogin => rfl
  | true =>
      unfold processProtocolPduAfterLogin processProtocolUpgrade
      have hcmdEx : pdu.cmdEx = m.pdu.cmdEx := h.cmdEx
      rw [hcmd, hcmdEx, upgradeCmdEx01_alone h]
      by_cases hupload : m.cmd = pcsUploadFile
      · rw [uploadFile_alone h]
        intro h03
        have hnot := hshort rfl
        unfold Message.ShortWrite at hnot
        simp only [hupload, h03, true_and] at hnot
        omega
      · have hpdu : ¬ m.pdu.cmd = pcsUploadFile := hupload
        simp only [hpdu, ↓reduceIte]

end Alone

end CccUpgrade
