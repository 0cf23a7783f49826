import CccUpgrade.Adapter.UdpIsolation

/-! What `send_ip` announces, and how it is read back. An announcement is made of two fields,
each with its length in front, the address of an interface and the name of the host. -/
namespace CccUpgrade

open Lib

def field? : List UInt8 → Option (List UInt8 × List UInt8)
  | hi :: lo :: data =>
      let len := hi.toNat * 2 ^ 8 + lo.toNat
      if len ≤ data.length then some (data.take len, data.drop len) else none
  | _ => none

theorem field?_appendData {data : List UInt8} (hdata : data.length ≤ 1024) (rest : List UInt8) :
    field? (appendData data ++ rest) = some (data, rest) := by
  have hlen : (UInt8.ofNat (data.length / 2 ^ 8)).toNat * 2 ^ 8 + (UInt8.ofNat data.length).toNat =
      data.length := by
    simp only [UInt8.toNat_ofNat']
    omega
  unfold appendData
  rw [if_neg (by omega)]
  simp only [List.cons_append, field?, hlen]
  rw [if_pos (by simp), List.take_left, List.drop_left]

structure Device where
  ipaddr : List UInt8
  hostname : List UInt8
deriving DecidableEq, Repr

namespace Device

def announcement (device : Device) : Message :=
  ⟨pcsDiscoverDevice, pcsEx01, appendData device.ipaddr ++ appendData device.hostname⟩

theorem announcement_length_le (device : Device) : device.announcement.data.length ≤ 2052 := by
  have hipaddr := appendData_length_le device.ipaddr
  have hhostname := appendData_length_le device.hostname
  unfold announcement
  rw [List.length_append]
  omega

def read? (data : List UInt8) : Option Device := do
  let (ipaddr, rest) ← field? data
  let (hostname, rest) ← field? rest
  if rest = [] then some ⟨ipaddr, hostname⟩ else none

def Short (device : Device) : Prop := device.ipaddr.length ≤ 1024 ∧ device.hostname.length ≤ 1024

theorem read?_announcement {device : Device} (h : device.Short) :
    read? device.announcement.data = some device := by
  have hhostname := field?_appendData h.2 []
  rw [List.append_nil] at hhostname
  unfold read? announcement
  simp only [field?_appendData h.1, hhostname, Option.bind_eq_bind, Option.bind_some, if_true]

end Device

/-- The address `send_ip` announces for an interface. -/
def IfAddr.announced? (ifa : IfAddr) : Option (List UInt8) :=
  if ifa.name ≠ literal "lo" ∧ ifa.running then ifa.addr.join else none

/-- The devices announced in an environment, one for each interface in use. -/
def Libc.devices {φ : Type} (libc : Libc φ) (env : φ) : List Device :=
  match libc.getifaddrs env with
  | (none, _) => []
  | (some ifList, env) =>
      match libc.gethostname env with
      | (none, _) => []
      | (some hostname, _) => (ifList.filterMap IfAddr.announced?).map (⟨·, hostname⟩)

def Effect.datagram? : Effect → Option Message
  | .replyToUdp cmd cmdEx data => some ⟨cmd, cmdEx, data⟩
  | _ => none

section Announce

variable {φ : Type} {libc : Libc φ}

theorem sendIpLoop_effects {hostname : List UInt8} {ifList : List IfAddr} {st st' : Machine φ}
    (h : sendIpLoop hostname ifList st = .ok ((), st')) :
    st'.effects.filterMap Effect.datagram? = st.effects.filterMap Effect.datagram? ++
      ((ifList.filterMap IfAddr.announced?).map fun ip => (⟨ip, hostname⟩ : Device).announcement) := by
  induction ifList generalizing st with
  | nil =>
      cases h
      simp
  | cons ifa ifList ih =>
      obtain ⟨name, running, addr⟩ := ifa
      match addr with
      | none => cases h
      | some none =>
          have hskipped : IfAddr.announced? ⟨name, running, some none⟩ = none := by
            simp [IfAddr.announced?]
          rw [List.filterMap_cons_none hskipped]
          exact ih h
      | some (some ipaddr) =>
          rw [sendIpLoop] at h
          dsimp only at h
          split at h
          · rename_i hused
            have hhere : IfAddr.announced? ⟨name, running, some (some ipaddr)⟩ = some ipaddr :=
              if_pos hused
            rw [List.filterMap_cons_some hhere, List.map_cons, List.append_cons]
            refine (ih h).trans ?_
            congr 1
            exact List.filterMap_append
          · rename_i hused
            have hskipped : IfAddr.announced? ⟨name, running, some (some ipaddr)⟩ = none :=
              if_neg hused
            rw [List.filterMap_cons_none hskipped]
            exact ih h

theorem sendIp_effects {st st' : Machine φ} {sent : Bool} (h : sendIp libc st = .ok (sent, st')) :
    st'.effects.filterMap Effect.datagram? = st.effects.filterMap Effect.datagram? ++
      (libc.devices st.env).map Device.announcement := by
  unfold sendIp at h
  rw [Run.call_bind] at h
  unfold Libc.devices
  cases hifList : libc.getifaddrs st.env with
  | mk ifList env =>
      simp only [hifList] at h
      cases ifList with
      | none =>
          cases h
          simp
      | some ifList =>
          dsimp only at h
          rw [Run.call_bind] at h
          cases hhostname : libc.gethostname env with
          | mk hostname env =>
              simp only [hhostname] at h
              cases hostname with
              | none =>
                  cases h
                  simp [hhostname]
              | some hostname =>
                  obtain ⟨⟨⟨⟩, middle⟩, hloop, hend⟩ := bind_eq_ok h
                  cases hend
                  dsimp only
                  rw [sendIpLoop_effects hloop, hhostname, List.map_map]
                  rfl

theorem discoverDevice_announces {pdu : PDU} (hcmd : pdu.cmd = pcsDiscoverDevice) {bLogin : Bool}
    {machine machine' : Machine φ}
    (h : processProtocolPdu libc pdu bLogin { machine with effects := [] } = .ok ((), machine')) :
    machine'.effects.filterMap Effect.datagram? =
      (libc.devices machine.env).map Device.announcement := by
  simp only [processProtocolPdu, PDU.branch, if_pos hcmd] at h
  obtain ⟨⟨sent, middle⟩, hsendIp, hend⟩ := bind_eq_ok h
  cases hend
  simpa using sendIp_effects hsendIp

end Announce

/-- The message in front of which there is no header, so the only one that is looked at. -/
def FirstFrame (bytes : List UInt8) (m : Message) : Prop :=
  ∃ junk rest, protocolHeader ∉ junk ∧ bytes = junk ++ (m.frame ++ rest)

theorem FirstFrame.length_le {bytes : List UInt8} {m : Message} (h : FirstFrame bytes m) :
    9 + m.data.length ≤ bytes.length := by
  obtain ⟨junk, rest, -, rfl⟩ := h
  simp only [List.length_append, Message.frame_length]
  omega

theorem FirstFrame.parsed {bytes : List UInt8} {m : Message} (h : FirstFrame bytes m) (pdu : PDU)
    (hroom : m.data.length ≤ pdu.data.length) (hlong : m.data.length ≤ 0xFFFFF) :
    ∃ n : Int, 0 < n ∧ ∃ pdu', parsePacket2 bytes pdu = .ok (n, pdu') ∧ pdu'.Carries m ∧
      pdu'.bEnable = true := by
  obtain ⟨junk, rest, hjunk, rfl⟩ := h
  have hparsed : Parsed junk.length pdu (frameLook pdu.data.length (m.frame ++ rest))
      (parsePacket2 (junk ++ (m.frame ++ rest)) pdu) :=
    parsePacket2_header hjunk pdu (m.frame.tail ++ rest)
  rw [frameLook_frame hroom hlong] at hparsed
  generalize hcount : 9 + m.data.length = count at hparsed
  generalize hresult : parsePacket2 (junk ++ (m.frame ++ rest)) pdu = result at hparsed
  cases hparsed with
  | frame hcarries _ henable => exact ⟨_, by omega, _, rfl, hcarries, henable⟩

theorem firstFrame_of_enabled {bytes : List UInt8} {pdu pdu' : PDU} {n : Int}
    (hbefore : pdu.bEnable = false) (h : parsePacket2 bytes pdu = .ok (n, pdu'))
    (henable : pdu'.bEnable = true) : ∃ m, FirstFrame bytes m ∧ pdu'.Carries m := by
  by_cases hheader : protocolHeader ∈ bytes
  · obtain ⟨junk, start, rfl, hjunk⟩ := List.eq_append_cons_of_mem hheader
    have hparsed := parsePacket2_header hjunk pdu start
    rw [h] at hparsed
    generalize hlook : frameLook pdu.data.length (protocolHeader :: start) = look at hparsed
    cases hparsed with
    | wait hkept => exact absurd (henable.symm.trans (hkept.bEnable.trans hbefore)) (by decide)
    | drop hkept => exact absurd (henable.symm.trans (hkept.bEnable.trans hbefore)) (by decide)
    | @frame pdu' m count hcarries hcapacity henable =>
        obtain ⟨rest, hrest⟩ := frameLook_event hlook
        exact ⟨m, ⟨junk, rest, hjunk, by rw [hrest]⟩, hcarries⟩
  · rw [parsePacket2_junk pdu hheader] at h
    cases h
    exact absurd (hbefore.symm.trans henable) (by decide)

/-- The datagram callback takes up the first frame, if it finds room for it. -/
theorem FirstFrame.dispatched {bytes : List UInt8} {m : Message} (h : FirstFrame bytes m)
    (lpPdu : PDU) (hroom : m.data.length ≤ lpPdu.data.length) (hlong : m.data.length ≤ 0xFFFFF) :
    ∃ pdu, (protocolAdapterProcessUdpData (some lpPdu) bytes).dispatched = [pdu] ∧ pdu.Carries m := by
  obtain ⟨n, hn, pdu, hparse, hcarries, henable⟩ :=
    h.parsed { lpPdu with bEnable := false } hroom hlong
  refine ⟨pdu, ?_, hcarries⟩
  unfold protocolAdapterProcessUdpData
  simp only [hparse, henable, if_neg (Int.not_le.mpr hn), if_true]

theorem firstFrame_of_dispatched {bytes : List UInt8} {packet : Option PDU} {pdu : PDU}
    (h : pdu ∈ (protocolAdapterProcessUdpData packet bytes).dispatched) :
    ∃ m, FirstFrame bytes m ∧ pdu.Carries m := by
  unfold protocolAdapterProcessUdpData at h
  split at h
  · cases h
  split at h
  · cases h
  next hparse =>
    split at h
    · cases h
    split at h
    next henable =>
      rw [List.mem_singleton.mp h]
      exact firstFrame_of_enabled rfl hparse henable
    · cases h

theorem FirstFrame.unique {bytes : List UInt8} {m m' : Message} (h : FirstFrame bytes m)
    (h' : FirstFrame bytes m') (hlong : bytes.length ≤ 0xFFFFF) : m = m' := by
  have hroom : ∀ n, 9 + n ≤ bytes.length → n ≤ bytes.length ∧ n ≤ 0xFFFFF := fun n hn => by omega
  let roomy : PDU := { freshPdu with data := bytes }
  obtain ⟨hfits, hbounded⟩ := hroom _ h.length_le
  obtain ⟨hfits', hbounded'⟩ := hroom _ h'.length_le
  obtain ⟨n, -, pdu, hparse, hcarries, -⟩ := h.parsed roomy hfits hbounded
  obtain ⟨n', -, pdu', hparse', hcarries', -⟩ := h'.parsed roomy hfits' hbounded'
  rw [hparse] at hparse'
  cases hparse'
  exact hcarries.message_eq.symm.trans hcarries'.message_eq

/-- The device a datagram announces, read with the parser of the program. -/
def Device.ofDatagram? (bytes : List UInt8) : Option Device :=
  match (protocolAdapterProcessUdpData (some freshPdu) bytes).dispatched with
  | [pdu] => if pdu.cmd = pcsDiscoverDevice ∧ pdu.cmdEx = pcsEx01 then read? pdu.message.data else none
  | _ => none

theorem Device.ofDatagram?_announcement {device : Device} (h : device.Short) :
    ofDatagram? device.announcement.frame = some device := by
  have hlength := device.announcement_length_le
  have hfirst : FirstFrame device.announcement.frame device.announcement :=
    ⟨[], [], List.not_mem_nil, by simp⟩
  have hroom : freshPdu.data.length = 4096 := freshPdu_data_length
  obtain ⟨pdu, hdispatched, hcarries⟩ :=
    hfirst.dispatched freshPdu (by omega) (by omega)
  unfold ofDatagram?
  simp only [hdispatched, hcarries.cmd, hcarries.cmdEx, hcarries.message_eq]
  rw [if_pos ⟨rfl, rfl⟩]
  exact read?_announcement h

end CccUpgrade
