import Mathlib.Data.Finset.Dedup
import DurableAgent.Configuration.Settings
import DurableAgent.Tools.Registered

/-!
# The authority of the tools

What the tools of an application may do, as its factory assembles it from the settings, and what of
it the fingerprint of the settings determines.
-/

namespace DurableAgent.Application

open Configuration Tools

/-! ## Assembly -/

/-- The permissions that the factory allows. -/
def allowedPermissions (settings : Settings) : List String :=
  ["repository.read", "artifact.write"] ++
    (if settings.allowFileWrites then ["repository.write"] else []) ++
    (if settings.allowPatch then ["repository.patch"] else []) ++
    (if settings.allowShell then ["process.execute"] else []) ++
    (if settings.networkAccess then ["network.research"] else [])

def toolPolicy (settings : Settings) : ToolPolicy where
  allowedPermissions := allowedPermissions settings
  maximumOutputBytes := settings.maximumToolOutputBytes
  maximumOutputBytes_bound := settings.maximumToolOutputBytes_bounds.1

/-- A tool that starts processes, with the sets that it keeps. -/
structure CommandRunner where
  definition : ToolDefinition
  allowedCommands : Finset String
  allowedEnvironmentVariables : Finset String

/-- `ShellCommandRunnerTool` -/
def shellCommandRunner (settings : Settings) : CommandRunner where
  definition := Tool.shellCommandRunner.definition
  allowedCommands := settings.allowedCommands.toFinset
  allowedEnvironmentVariables := settings.allowedEnvironmentVariables.toFinset

/-- `TestRunnerTool` -/
def testRunner (settings : Settings) : CommandRunner :=
  { shellCommandRunner settings with definition := Tool.testRunner.definition }

/-- The tools of the registry that start processes. -/
def commandRunners (settings : Settings) : List CommandRunner :=
  [shellCommandRunner settings, testRunner settings]

/-- What policy and registry grant: permissions, tools approved by name, and for each tool that
starts processes its commands and its environment variables. -/
structure Authority where
  permissions : Finset String
  approvedTools : Finset String
  runners : List (String × Finset String × Finset String)
  deriving DecidableEq

def authority (settings : Settings) : Authority where
  permissions := (toolPolicy settings).allowedPermissions.toFinset
  approvedTools := (toolPolicy settings).approvedHighImpactTools.toFinset
  runners := (commandRunners settings).map fun runner =>
    (runner.definition.name, runner.allowedCommands, runner.allowedEnvironmentVariables)

/-! ## Two settings -/

/-- The settings allow the same commands and the same environment variables, in any order. -/
def SameProcesses (s s' : Settings) : Prop :=
  s.allowedCommands.toFinset = s'.allowedCommands.toFinset ∧
    s.allowedEnvironmentVariables.toFinset = s'.allowedEnvironmentVariables.toFinset

instance (s s' : Settings) : Decidable (SameProcesses s s') := inferInstanceAs (Decidable (_ ∧ _))

theorem authority_eq_of_enabled {s s' : Settings} (hwrites : s.allowFileWrites = s'.allowFileWrites)
    (hshell : s.allowShell = s'.allowShell) (hpatch : s.allowPatch = s'.allowPatch)
    (hnetwork : s.networkAccess = s'.networkAccess) :
    authority s = authority s' ↔ SameProcesses s s' := by
  have hpermissions : allowedPermissions s = allowedPermissions s' := by
    simp only [allowedPermissions, hwrites, hshell, hpatch, hnetwork]
  have hpolicy : (toolPolicy s).allowedPermissions = (toolPolicy s').allowedPermissions :=
    hpermissions
  unfold authority SameProcesses
  rw [Authority.mk.injEq, hpolicy]
  simp [commandRunners, shellCommandRunner, testRunner, toolPolicy]

/-- Settings of one fingerprint grant the same authority exactly where they allow the same
commands and environment variables. -/
theorem authority_eq_iff {resolve resolve' sha256Digest : String → String}
    (hinj : Function.Injective sha256Digest) {s s' : Settings}
    (h : s.fingerprint resolve sha256Digest = s'.fingerprint resolve' sha256Digest) :
    authority s = authority s' ↔ SameProcesses s s' := by
  obtain ⟨hwrites, hshell, hpatch, hnetwork⟩ := Settings.enabled_of_fingerprint hinj h
  exact authority_eq_of_enabled hwrites hshell hpatch hnetwork

end DurableAgent.Application
