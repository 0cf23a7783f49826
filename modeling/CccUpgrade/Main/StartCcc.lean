import CccUpgrade.Utils.UtilFunc

/-! main.c, ccc_upgrade.c and configure.c, up to the threads that serve. -/
namespace CccUpgrade

open Lib

variable {φ : Type} (libc : Libc φ)

def cccUpgradeDirectory : List UInt8 := literal "upgrade"

/-- `util_get_upgrade_dir`; `currentDir` is what `getcwd` returns. -/
def utilGetUpgradeDir (currentDir : Option (List UInt8)) : Run φ (Option (List UInt8)) :=
  utilDirAppend libc currentDir (some cccUpgradeDirectory)

/-- `load_configure`: what `get_upgrade_dir` returns afterwards, `none` when 0 is returned. -/
def loadConfigure (currentDir : Option (List UInt8)) : Run φ (Option (List UInt8)) :=
  utilGetUpgradeDir libc currentDir

def protocolAdapterInit (upgradeDir : List UInt8) : Run φ Bool := do
  let allocated ← Run.call (libc.malloc · (upgradeDir.length + 1))
  let dir := if allocated then some upgradeDir else none
  fun st => .ok (dir.isSome, { st with upgradeTempDir := dir })

/-- `start_ccc`. `tcpStarted` and `udpStarted` say whether `tcp_server_start` succeeds and
whether `udp_server_start` gets to its loop. -/
def startCcc (tcpStarted udpStarted : Bool) (upgradeDir : List UInt8) : Run φ Bool := do
  if !(← protocolAdapterInit libc upgradeDir) then return false
  if !tcpStarted then return false
  return udpStarted

/-- `main`: whether the program gets into service. -/
def main (currentDir : Option (List UInt8)) (tcpStarted udpStarted : Bool) : Run φ Bool := do
  let some upgradeDir ← loadConfigure libc currentDir | return false
  startCcc libc tcpStarted udpStarted upgradeDir

variable {libc}

/-- In service, the upgrade directory is the one in the directory the program was started in,
and nothing has been done with files. -/
theorem triple_main {γ : Type} {view : Machine φ → γ} (hmalloc : ∀ n, Blind view (libc.malloc · n))
    (hdir : ∀ st dir, view { st with upgradeTempDir := dir } = view st) (p : γ → Prop)
    (currentDir : Option (List UInt8)) (tcpStarted udpStarted : Bool) :
    Triple (fun st => p (view st)) (main libc currentDir tcpStarted udpStarted)
      (fun started st => (started = true → ∃ dir, currentDir = some dir ∧
        st.upgradeTempDir = some (withSlash dir ++ cccUpgradeDirectory)) ∧ p (view st)) noFault := by
  unfold main loadConfigure utilGetUpgradeDir
  cases currentDir with
  | none => exact Triple.pure fun _ hs => ⟨nofun, hs⟩
  | some dir =>
      apply Triple.bind (triple_utilDirAppend hmalloc p)
      intro upgradeDir
      apply Triple.assume
      intro hname
      cases upgradeDir with
      | none => exact Triple.pure fun _ hs => ⟨nofun, hs⟩
      | some upgradeDir =>
          obtain rfl := hname upgradeDir rfl
          dsimp only
          unfold startCcc protocolAdapterInit
          apply Triple.bind (Q := fun saved st => (saved = true →
            st.upgradeTempDir = some (withSlash dir ++ cccUpgradeDirectory)) ∧ p (view st))
          · apply Triple.bind ((Run.keeps_call (hmalloc _)).triple p)
            intro allocated st hs
            refine ⟨fun hsaved => ?_, ?_⟩
            · cases allocated with
              | true => rfl
              | false => cases hsaved
            · rw [hdir]
              exact hs
          intro saved
          split
          · exact Triple.pure fun _ hs => ⟨nofun, hs.2⟩
          split
          · exact Triple.pure fun _ hs => ⟨nofun, hs.2⟩
          · rename_i hsaved _
            refine Triple.pure fun st hs => ⟨fun _ => ⟨dir, rfl, hs.1 ?_⟩, hs.2⟩
            simpa using hsaved

end CccUpgrade
