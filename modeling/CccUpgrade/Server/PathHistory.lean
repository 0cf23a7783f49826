import CccUpgrade.Adapter.PathAccount
import CccUpgrade.Main.StartCcc
import CccUpgrade.Server.Datagrams
import CccUpgrade.Server.UploadHistory

/-! The paths the program uses over whole runs. Every file it opens and every script it runs
is named by a request that a logged-in client sent before, and lies where the program was
told to put its upgrades. -/
namespace CccUpgrade

open Lib

def allowance (dir : Option (List UInt8)) (log : List Event) : Allowance where
  opens path := ∃ thread pdu, .processed thread pdu .afterLogin ∈ log ∧ pdu.Names dir path
  runs path := ∃ thread pdu, .processed thread pdu .afterLogin ∈ log ∧ pdu.Commands dir path

variable {φ : Type} {libc : Libc φ}

theorem Accounted.later {dir : Option (List UInt8)} {log log' : List Event} {v : Footprint}
    (h : Accounted (allowance dir log) dir v) (hlog : log ⊆ log') :
    Accounted (allowance dir log') dir v := by
  refine h.mono ?_ ?_
  · rintro path ⟨thread, pdu, hprocessed, hnames⟩
    exact ⟨thread, pdu, hlog hprocessed, hnames⟩
  · rintro path ⟨thread, pdu, hprocessed, hcommands⟩
    exact ⟨thread, pdu, hlog hprocessed, hcommands⟩

namespace Server

variable {s s' : Server (Traced φ)}

def PathsAccounted (dir : Option (List UInt8)) (s : Server (Traced φ)) : Prop :=
  Accounted (allowance dir s.log) dir s.machine.footprint

theorem PathsAccounted.quiet {dir : Option (List UInt8)} (h : s.PathsAccounted dir)
    (hmachine : s'.machine = s.machine) (hlog : s.log ⊆ s'.log) : s'.PathsAccounted dir := by
  unfold PathsAccounted
  rw [hmachine]
  exact Accounted.later h hlog

theorem closeSlot_log_subset (s : Server (Traced φ)) (slot : Fin clientCountMax) (cause : Cause) :
    s.log ⊆ (s.closeSlot slot cause).log := by
  rcases s.closeSlot_log slot cause with heq | ⟨c, heq⟩
  · rw [heq]
    exact List.Subset.refl _
  · rw [heq]
    exact List.subset_cons_self ..

theorem pathsAccounted_moved {dir : Option (List UInt8)} {a : Action} (h : s.PathsAccounted dir)
    (hmoved : s.Moved libc.traced a s') : s'.PathsAccounted dir := by
  cases hmoved with
  | @process thread t cb pdu todo machine ht hphase heffects htodo hrun =>
      let log : List Event := .processed thread pdu (pdu.branch cb.bLogin) :: s.log
      have hbefore : Accounted (allowance dir log) dir
          ({ s.machine with effects := [] } : Machine (Traced φ)).footprint :=
        Accounted.later h (List.subset_cons_self ..)
      have hhere : pdu.branch cb.bLogin = .afterLogin →
          .processed thread pdu .afterLogin ∈ log := by
        intro hbranch
        rw [← hbranch]
        exact List.mem_cons_self
      have hwithin : Within (allowance dir log) dir
          (processProtocolPdu libc.traced pdu cb.bLogin) :=
        within_processProtocolPdu (fun hbranch path hnames => ⟨thread, pdu, hhere hbranch, hnames⟩)
          fun hbranch path hcommands => ⟨thread, pdu, hhere hbranch, hcommands⟩
      exact Triple.ok hwithin hbefore hrun
  | setLogin | endOfStream => exact h.quiet (closeSlot_machine ..) (closeSlot_log_subset ..)
  | registered | rejected | unstarted | chunk | processFault | reply =>
      exact h.quiet rfl (List.subset_cons_self ..)
  | recv | effect | done | outOfRange | halted => exact h.quiet rfl (List.Subset.refl _)

end Server

namespace Host

variable {udp : UdpServer} {s s' : Host (Traced φ)}

theorem pathsAccounted_process {dir : Option (List UInt8)} (h : s.server.PathsAccounted dir)
    (hstep : s.process libc.traced = some s') : s'.server.PathsAccounted dir := by
  unfold process at hstep
  split at hstep
  next pdu todo fault hphase =>
    split at hstep
    · cases hstep
      exact h
    next machine hrun =>
      cases hstep
      have hnot : pdu.branch false ≠ .afterLogin := by
        unfold PDU.branch
        split
        · exact nofun
        · split <;> exact nofun
      have hwithin : Within (allowance dir s.server.log) dir
          (processProtocolPdu libc.traced pdu false) :=
        within_processProtocolPdu (fun hbranch => absurd hbranch hnot)
          fun hbranch => absurd hbranch hnot
      exact Triple.ok hwithin (s := { s.server.machine with effects := [] }) h hrun
  · cases hstep

theorem pathsAccounted_step {dir : Option (List UInt8)} (h : s.server.PathsAccounted dir)
    {a : HostAction} (hstep : s.step udp libc.traced a = some s') : s'.server.PathsAccounted dir := by
  unfold step at hstep
  split at hstep
  · cases hstep
  cases a with
  | tcp a =>
      obtain ⟨server, hserver, rfl⟩ := Option.map_eq_some_iff.mp hstep
      exact Server.pathsAccounted_moved h (Server.step_moved hserver)
  | process => exact pathsAccounted_process h hstep
  | datagram src bytes packet =>
      dsimp only [datagram] at hstep
      split at hstep
      · split at hstep <;> cases hstep
        exact h
      · cases hstep
  | effect allocated kernel =>
      dsimp only [effect] at hstep
      split at hstep
      next todo e effects fault hphase =>
        cases hstep
        cases e with
        | setLogin => exact h.quiet rfl (List.Subset.refl _)
        | replyToClient cmd cmdEx data =>
            dsimp only [replyToClient]
            split
            · exact h
            · split
              · exact h
              · split <;> exact h
        | replyToUdp cmd cmdEx data =>
            dsimp only [replyToUdp]
            split
            · exact h
            · split <;> exact h
      · cases hstep
  | done =>
      dsimp only [done] at hstep
      split at hstep <;> cases hstep <;> exact h

/-- While logged-in clients name no directories, the paths stay in the upgrade directory. -/
theorem allowed_confined {dir : List UInt8} {log : List Event} {call : SysCall}
    (hcall : call.Allowed (allowance (some dir) log))
    (htitles : ∀ thread pdu, .processed thread pdu .afterLogin ∈ log →
      pdu.message.OpensFile ∨ pdu.message.RunsScript → FileTitle (cString pdu.message.data)) :
    call.Allowed ⟨Confined dir, fun path => Confined dir path ∨ path = literal "/sbin/reboot"⟩ := by
  refine hcall.mono ?_ ?_
  · rintro path ⟨thread, pdu, hprocessed, hopens, rfl⟩
    exact ⟨_, rfl, htitles thread pdu hprocessed (.inl hopens)⟩
  · rintro path ⟨thread, pdu, hprocessed, ⟨hscript, rfl⟩ | ⟨-, -, rfl⟩⟩
    · exact .inl ⟨_, rfl, htitles thread pdu hprocessed (.inr hscript)⟩
    · exact .inr rfl

/-- In every run of the program the upgrade directory stays the one in the directory it was
started in. Every file it opens is named by a PDU that was let through by the login check, as
is every script it runs, apart from the reboot that such a PDU asks for. -/
theorem paths_accounted {currentDir : Option (List UInt8)} {machine machine' : Machine (Traced φ)}
    (hcalls : machine.calls = []) (hidle : machine.upload.filenameTx = none)
    (hmain : main libc.traced currentDir true true machine = .ok (true, machine'))
    (h : (host libc.traced machine' udp).Reachable s) :
    ∃ dir upgradeDir, currentDir = some dir ∧ upgradeDir = withSlash dir ++ cccUpgradeDirectory ∧
      s.server.machine.upgradeTempDir = some upgradeDir ∧
      (∀ call ∈ s.server.machine.calls, call.Allowed (allowance (some upgradeDir) s.server.log)) ∧
      ((∀ thread pdu, .processed thread pdu .afterLogin ∈ s.server.log →
          pdu.message.OpensFile ∨ pdu.message.RunsScript → FileTitle (cString pdu.message.data)) →
        ∀ call ∈ s.server.machine.calls, call.Allowed ⟨Confined upgradeDir,
          fun path => Confined upgradeDir path ∨ path = literal "/sbin/reboot"⟩) := by
  let view : Machine (Traced φ) → List SysCall × Files := fun st => (st.calls, st.files)
  have hsilent : libc.traced.Silent view := libc.traced_silent fun _ _ => rfl
  have hstart := triple_main hsilent.malloc (fun _ _ => rfl)
    (fun v => v.1 = [] ∧ v.2.2.filenameTx = none) currentDir true true
  obtain ⟨hstarted, hnocalls, hnone⟩ := hstart.ok ⟨hcalls, hidle⟩ hmain
  obtain ⟨dir, rfl, hdir⟩ := hstarted rfl
  have hinit : (Server.init machine').PathsAccounted (some (withSlash dir ++ cccUpgradeDirectory)) := by
    refine ⟨hdir, ?_, ?_⟩
    · intro call hcall
      have hnothing : machine'.calls = [] := hnocalls
      change call ∈ machine'.calls at hcall
      rw [hnothing] at hcall
      cases hcall
    · intro token htoken
      exact absurd (hnone.symm.trans htoken) (Option.some_ne_none token).symm
  have haccounted : s.server.PathsAccounted (some (withSlash dir ++ cccUpgradeDirectory)) := by
    induction h with
    | init => exact hinit
    | step _ _ hstep ih => exact pathsAccounted_step ih hstep
  refine ⟨dir, _, rfl, rfl, haccounted.upgradeTempDir, haccounted.calls, ?_⟩
  exact fun htitles call hcall => allowed_confined (haccounted.calls call hcall) htitles

def openSchedule (title : String) : List Action :=
  Server.firstClient :: .recv 0 :: Server.loginSchedule 0 "jikongupgrade" ++
    [.effect 0 true fun _ => 10, .done 0, .recv 0, .chunk 0 (uploadOf title).frame (some freshPdu),
      .process 0]

/-- Started in `/opt`, the program gets a login and a request to open a file. -/
theorem paths_accounted_open :
    ∃ s : Host (Traced Unit), .fopenWrite (literal "/opt/upgrade/fw") (some 0) ∈ s.server.machine.calls ∧
      ∃ dir upgradeDir, some (literal "/opt") = some dir ∧
        upgradeDir = withSlash dir ++ cccUpgradeDirectory ∧
        s.server.machine.upgradeTempDir = some upgradeDir ∧
        (∀ call ∈ s.server.machine.calls, call.Allowed (allowance (some upgradeDir) s.server.log)) ∧
        ((∀ thread pdu, .processed thread pdu .afterLogin ∈ s.server.log →
            pdu.message.OpensFile ∨ pdu.message.RunsScript → FileTitle (cString pdu.message.data)) →
          ∀ call ∈ s.server.machine.calls, call.Allowed ⟨Confined upgradeDir,
            fun path => Confined upgradeDir path ∨ path = literal "/sbin/reboot"⟩) := by
  have hinit : (host obligingLibc.traced (tracedMachine (some (literal "/opt/upgrade")))
      ⟨7, 4096⟩).Reachable (Host.init _) := .init
  obtain ⟨s, hreach, hs⟩ := hinit.exec
    ((openSchedule "fw").map .tcp) (fun _ _ _ => trivial)
    (fun s => decide (.fopenWrite (literal "/opt/upgrade/fw") (some 0) ∈ s.server.machine.calls))
    (b := true) (by decide +kernel)
  exact ⟨s, of_decide_eq_true hs, @paths_accounted _ _ _ _ _ (tracedMachine none) _ rfl rfl rfl hreach⟩

end Host

end CccUpgrade
