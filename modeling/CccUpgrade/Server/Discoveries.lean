import CccUpgrade.Server.Datagrams

/-! Every discovery request that arrives in a datagram is answered, to its sender, with one
datagram for each interface in use, in order, before the next datagram is read. -/
namespace CccUpgrade

open Lib ConnectTable

def Libc.Announces {φ : Type} (libc : Libc φ) (env : φ) (bytes : List UInt8)
    (devices : List Device) : Prop :=
  (AsksFirst bytes → devices = libc.devices env) ∧ (¬ AsksFirst bytes → devices = [])

def UdpEvent.announce (to' : SockAddr) (device : Device) : UdpEvent :=
  .sent to' [⟨device.announcement.frame, device.announcement.frame.length⟩]

/-- A log, the latest event first, in which datagrams were answered one after the other.
`handling log env` says that the environment was `env` while the latest datagram of `log`
was handled and nothing had been sent. -/
inductive Discovered {φ : Type} (libc : Libc φ) (handling : List UdpEvent → φ → Prop) :
    List UdpEvent → Prop
  | nil : Discovered libc handling []
  | datagram {earlier : List UdpEvent} {src : SockAddr} {bytes : List UInt8} {env : φ}
      {devices : List Device} (hearlier : Discovered libc handling earlier)
      (hhandling : handling (.received src bytes :: earlier) env)
      (hannounces : libc.Announces env bytes devices) :
      Discovered libc handling
        ((devices.map (.announce src)).reverse ++ .received src bytes :: earlier)

/-- Where the handling of the latest datagram is: announcements for `sent` have gone out,
those for `rest` are still to come. -/
inductive Discovery {φ : Type} (libc : Libc φ) (handling : List UdpEvent → φ → Prop)
    (remoteAddr : SockAddr) : List UdpEvent → UdpPhase → Prop
  | waiting {log : List UdpEvent} (h : Discovered libc handling log) :
      Discovery libc handling remoteAddr log .recvfrom
  | received {earlier : List UdpEvent} {bytes : List UInt8} {m : Message} {pdu : PDU}
      {fault : Option Fault} (hearlier : Discovered libc handling earlier)
      (hfirst : FirstFrame bytes m) (hlong : bytes.length ≤ 0xFFFFF) (hcarries : pdu.Carries m) :
      Discovery libc handling remoteAddr (.received remoteAddr bytes :: earlier)
        (.callback [pdu] [] fault)
  | answering {earlier : List UdpEvent} {bytes : List UInt8} {env : φ} {sent rest : List Device}
      {effects : List Effect} {fault : Option Fault} (hearlier : Discovered libc handling earlier)
      (hhandling : handling (.received remoteAddr bytes :: earlier) env)
      (hannounces : libc.Announces env bytes (sent ++ rest))
      (heffects : effects.filterMap Effect.datagram? = rest.map Device.announcement) :
      Discovery libc handling remoteAddr
        ((sent.map (.announce remoteAddr)).reverse ++ .received remoteAddr bytes :: earlier)
        (.callback [] effects fault)

theorem announces_of_firstFrame {φ : Type} {libc : Libc φ} {env : φ} {bytes : List UInt8}
    {m : Message} {devices : List Device} (hfirst : FirstFrame bytes m)
    (hlong : bytes.length ≤ 0xFFFFF)
    (hasked : m.cmd = pcsDiscoverDevice → devices = libc.devices env)
    (hother : m.cmd ≠ pcsDiscoverDevice → devices = []) : libc.Announces env bytes devices := by
  refine ⟨?_, fun hnot => hother fun hcmd => hnot ⟨m, hfirst, hcmd⟩⟩
  rintro ⟨m', hfirst', hcmd⟩
  rw [hfirst'.unique hfirst hlong] at hcmd
  exact hasked hcmd

namespace Host

variable {φ : Type} {udp : UdpServer} {libc : Libc φ} {s s' : Host φ}
  {handling : List UdpEvent → φ → Prop}

def ServesUdp (s : Host φ) : HostAction → Prop
  | .datagram _ _ packet => ∃ lpPdu ∈ packet, lpPdu.data.length = protoDataLenMax
  | .effect allocated kernel =>
      allocated = true ∧ ∀ reply ∈ s.udp.next, kernel 0 = reply.frame.length
  | _ => True

instance (s : Host φ) : DecidablePred s.ServesUdp
  | .datagram _ _ packet =>
      inferInstanceAs (Decidable (∃ lpPdu ∈ packet, lpPdu.data.length = protoDataLenMax))
  | .effect allocated kernel =>
      inferInstanceAs (Decidable (allocated = true ∧ ∀ reply ∈ s.udp.next, kernel 0 = reply.frame.length))
  | .tcp _ | .process | .done => inferInstanceAs (Decidable True)

abbrev Discovering (libc : Libc φ) (handling : List UdpEvent → φ → Prop) (s : Host φ) : Prop :=
  Discovery libc handling s.remoteAddr s.udpLog s.udp

theorem datagram_discovering (h : s.Discovering libc handling) {src : SockAddr} {bytes : List UInt8}
    {lpPdu : PDU} (hroom : lpPdu.data.length = protoDataLenMax)
    (hhandling : handling (.received src bytes :: s.udpLog) s.server.machine.env)
    (hstep : s.datagram src bytes (some lpPdu) = some s') : s'.Discovering libc handling := by
  unfold datagram at hstep
  unfold Discovering at h
  cases hphase : s.udp with
  | callback todo effects fault =>
      rw [hphase] at hstep
      cases hstep
  | recvfrom =>
      rw [hphase] at hstep h
      generalize hlog : s.udpLog = log at h hhandling
      cases h with
      | waiting hearlier =>
          dsimp only at hstep
          split at hstep
          · rename_i hsize
            have hmax : udpDataBuffer = 1024 := rfl
            have hcapacity : protoDataLenMax = 4096 := rfl
            cases hstep
            unfold Discovering
            dsimp only
            rw [hlog]
            by_cases hfirst : ∃ m, FirstFrame bytes m
            · obtain ⟨m, hfirst⟩ := hfirst
              have hlength := hfirst.length_le
              obtain ⟨pdu, hdispatched, hcarries⟩ := hfirst.dispatched lpPdu (by omega) (by omega)
              rw [hdispatched]
              exact .received hearlier hfirst (by omega) hcarries
            · have hnone : (protocolAdapterProcessUdpData (some lpPdu) bytes).dispatched = [] := by
                rw [List.eq_nil_iff_forall_not_mem]
                intro pdu hpdu
                obtain ⟨m, hm, -⟩ := firstFrame_of_dispatched hpdu
                exact hfirst ⟨m, hm⟩
              rw [hnone]
              have hannounces : libc.Announces s.server.machine.env bytes ([] ++ []) :=
                ⟨fun ⟨m, hm, _⟩ => absurd ⟨m, hm⟩ hfirst, fun _ => rfl⟩
              exact .answering hearlier hhandling hannounces rfl
          · cases hstep

theorem process_discovering (h : s.Discovering libc handling)
    (hhandling : handling s.udpLog s.server.machine.env) (hstep : s.process libc = some s') :
    s'.Discovering libc handling := by
  unfold process at hstep
  unfold Discovering at h
  split at hstep
  next pdu todo fault hphase =>
    rw [hphase] at h
    generalize hlog : s.udpLog = log at h hhandling
    cases h with
    | received hearlier hfirst hlong hcarries =>
        split at hstep
        · cases hstep
          unfold Discovering
          dsimp only
          rw [hphase, hlog]
          exact .received hearlier hfirst hlong hcarries
        next machine hrun =>
          cases hstep
          unfold Discovering
          dsimp only
          rw [hlog]
          by_cases hcmd : pdu.cmd = pcsDiscoverDevice
          · have hannounces : libc.Announces s.server.machine.env _
                ([] ++ libc.devices s.server.machine.env) :=
              announces_of_firstFrame hfirst hlong (fun _ => rfl)
                fun hne => absurd (hcarries.cmd.symm.trans hcmd) hne
            exact .answering hearlier hhandling hannounces (discoverDevice_announces hcmd hrun)
          · have hannounces : libc.Announces s.server.machine.env _ ([] ++ []) :=
              announces_of_firstFrame hfirst hlong
                (fun hm => absurd (hcarries.cmd.trans hm) hcmd) fun _ => rfl
            refine .answering hearlier hhandling hannounces ?_
            rw [List.map_nil, List.filterMap_eq_nil_iff]
            intro e he
            cases e with
            | replyToUdp cmd cmdEx data => exact absurd (discover_of_replyToUdp hrun he) hcmd
            | setLogin | replyToClient => rfl
  · cases hstep

theorem replyToUdp_announces (hsock : 0 < udp.sock) (s : Host φ) {device : Device}
    {cmd cmdEx : UInt8} {data : List UInt8} (hreply : ⟨cmd, cmdEx, data⟩ = device.announcement)
    {kernel : Nat → Int} (hkernel : kernel 0 = (Message.frame ⟨cmd, cmdEx, data⟩).length) :
    s.replyToUdp udp cmd cmdEx data true kernel =
      { s with udpLog := .announce s.remoteAddr device :: s.udpLog } := by
  obtain ⟨rfl, rfl, rfl⟩ : cmd = pcsDiscoverDevice ∧ cmdEx = pcsEx01 ∧
      data = device.announcement.data :=
    ⟨congrArg Message.cmd hreply, congrArg Message.cmdEx hreply, congrArg Message.data hreply⟩
  obtain ⟨frame, hframe, hsent⟩ :=
    @replyToUdp_allocated _ udp s _ device.announcement_length_le kernel
  rw [← hframe] at hkernel
  rw [hreply] at hframe
  have hne : frame ≠ [] := by
    rw [hframe, ← List.length_pos_iff, Message.frame_length]
    omega
  rw [hsent, tcpSend_calls (.inr hkernel) hsock hne, hkernel, hframe]
  rfl

theorem effect_discovering (hslot : slot? udp.handle = none) (hsock : 0 < udp.sock)
    (h : s.Discovering libc handling) {allocated : Bool} (hallocated : allocated = true)
    {kernel : Nat → Int} (hkernel : ∀ reply ∈ s.udp.next, kernel 0 = reply.frame.length)
    (hstep : s.effect udp allocated kernel = some s') : s'.Discovering libc handling := by
  unfold effect at hstep
  unfold Discovering at h
  split at hstep
  next todo e effects fault hphase =>
    rw [hphase] at h hkernel
    generalize hlog : s.udpLog = log at h
    cases h with
    | @answering earlier bytes env sent rest _ _ hearlier hhandling hannounces heffects =>
        cases hstep
        unfold Discovering
        cases e with
        | setLogin =>
            dsimp only
            rw [setLogin_eq hslot, hlog]
            exact .answering hearlier hhandling hannounces heffects
        | replyToClient cmd cmdEx data =>
            dsimp only
            rw [replyToClient_eq hslot, hlog]
            exact .answering hearlier hhandling hannounces heffects
        | replyToUdp cmd cmdEx data =>
            have hreplies : (⟨cmd, cmdEx, data⟩ : Message) :: effects.filterMap Effect.datagram? =
                rest.map Device.announcement := heffects
            cases rest with
            | nil => cases hreplies
            | cons device rest =>
                rw [List.map_cons, List.cons.injEq] at hreplies
                obtain ⟨hhere, hrest⟩ := hreplies
                have hsent := replyToUdp_announces hsock s hhere (hkernel _ rfl)
                rw [← hallocated] at hsent
                dsimp only
                rw [hsent, hlog]
                dsimp only
                have hlog' : UdpEvent.announce s.remoteAddr device ::
                    ((sent.map (.announce s.remoteAddr)).reverse ++
                      .received s.remoteAddr bytes :: earlier) =
                    ((sent ++ [device]).map (.announce s.remoteAddr)).reverse ++
                      .received s.remoteAddr bytes :: earlier := by
                  simp
                rw [hlog']
                rw [List.append_cons] at hannounces
                exact .answering hearlier hhandling hannounces hrest
  · cases hstep

theorem done_discovering (h : s.Discovering libc handling) (hstep : s.done = some s') :
    s'.Discovering libc handling := by
  unfold done at hstep
  unfold Discovering at h
  split at hstep
  next hphase =>
    rw [hphase] at h
    generalize hlog : s.udpLog = log at h
    cases h with
    | @answering earlier bytes env sent rest _ _ hearlier hhandling hannounces heffects =>
        cases hstep
        have hrest : rest = [] := List.map_eq_nil_iff.mp heffects.symm
        rw [hrest, List.append_nil] at hannounces
        unfold Discovering
        dsimp only
        rw [hlog]
        exact .waiting (.datagram hearlier hhandling hannounces)
  next f hphase =>
    cases hstep
    exact h
  · cases hstep

def Handling (libc : Libc φ) (machine : Machine φ) (udp : UdpServer) (log : List UdpEvent)
    (env : φ) : Prop :=
  ∃ s, (host libc machine udp).ReachableBy ServesUdp s ∧ s.udpLog = log ∧
    s.server.machine.env = env

theorem discovering_step (hslot : slot? udp.handle = none) (hsock : 0 < udp.sock)
    {machine : Machine φ} (hreach : (host libc machine udp).ReachableBy ServesUdp s)
    (h : s.Discovering libc (Handling libc machine udp)) {a : HostAction} (hserves : s.ServesUdp a)
    (hstep : s.step udp libc a = some s') : s'.Discovering libc (Handling libc machine udp) := by
  have hnext : (host libc machine udp).ReachableBy ServesUdp s' := .step hreach hserves hstep
  unfold step at hstep
  split at hstep
  · cases hstep
  cases a with
  | tcp a =>
      obtain ⟨server, -, rfl⟩ := Option.map_eq_some_iff.mp hstep
      exact h
  | datagram src bytes packet =>
      obtain ⟨lpPdu, rfl, hroom⟩ := hserves
      refine datagram_discovering h hroom ⟨s', hnext, ?_⟩ hstep
      dsimp only [datagram] at hstep
      split at hstep
      · split at hstep <;> cases hstep
        exact ⟨rfl, rfl⟩
      · cases hstep
  | process => exact process_discovering h ⟨s, hreach, rfl, rfl⟩ hstep
  | effect allocated kernel =>
      exact effect_discovering hslot hsock h hserves.1 hserves.2 hstep
  | done => exact done_discovering h hstep

def dualLibc : Libc Unit :=
  { obligingLibc with
    getifaddrs := fun env => (some [⟨literal "lo", true, some (some (literal "127.0.0.1"))⟩,
      ⟨literal "eth0", true, some (some (literal "10.0.0.2"))⟩,
      ⟨literal "eth1", false, some (some (literal "10.0.0.3"))⟩,
      ⟨literal "wlan0", true, some (some (literal "10.0.0.4"))⟩], env) }

end Host

end CccUpgrade
