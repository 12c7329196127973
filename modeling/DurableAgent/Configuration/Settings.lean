import DurableAgent.Domain.Commitment
import DurableAgent.Recovery.Manager

/-!
# Settings

The validated settings of one process, as far as the modelled parts read them, and the fingerprint
that a run is created under.
-/

namespace DurableAgent.Configuration

/-- `plain_command_names` refuses the command. -/
def notPlain (command : String) : Bool :=
  '/' ∈ command.toList || '\\' ∈ command.toList || command.isEmpty

theorem default_threshold : (1 : ℚ) / 5 < 4 / 5 ∧ (4 : ℚ) / 5 ≤ 19 / 20 := by norm_num

structure Settings where
  databaseUrl : String := "sqlite+aiosqlite:///./durable-agent.db"
  repositoryRoot : String := "."
  llmProvider : String := "deterministic"
  modelName : String := "offline-baseline"
  modelContextLimit : Nat := 32768
  reservedOutputTokens : Nat := 4096
  systemInstructionTokens : Nat := 2048
  userRequestTokens : Nat := 4096
  contextCompressionThreshold : ℚ := 4 / 5
  retry : RetryPolicy
  checkpointEveryTasks : Nat := 1
  maximumConcurrency : Nat := 1
  leaseTtlSeconds : Int := 60
  leaseRenewalSeconds : Int := 20
  allowFileWrites : Bool := false
  allowShell : Bool := false
  allowPatch : Bool := false
  networkAccess : Bool := false
  allowedCommands : List String := ["python", "python3", "pytest", "ruff", "mypy"]
  allowedEnvironmentVariables : List String := ["PATH", "LANG", "LC_ALL", "TERM"]
  maximumToolOutputBytes : Nat := 1000000
  maximumFileBytes : Nat := 2000000
  maximumRepositoryBytes : Nat := 100000000
  repositoryDriftPolicy : RepositoryDriftPolicy := .REINDEX
  modelContextLimit_bounds : 2048 ≤ modelContextLimit ∧ modelContextLimit ≤ 10000000
  fixedBudget_bounds :
    128 ≤ reservedOutputTokens ∧ 128 ≤ systemInstructionTokens ∧ 128 ≤ userRequestTokens
  contextCompressionThreshold_bounds :
    1 / 5 < contextCompressionThreshold ∧ contextCompressionThreshold ≤ 19 / 20
  checkpointEveryTasks_bounds : 1 ≤ checkpointEveryTasks ∧ checkpointEveryTasks ≤ 100
  maximumConcurrency_bounds : 1 ≤ maximumConcurrency ∧ maximumConcurrency ≤ 128
  leaseTtlSeconds_bounds : 5 ≤ leaseTtlSeconds ∧ leaseTtlSeconds ≤ 3600
  leaseRenewalSeconds_bounds : 1 ≤ leaseRenewalSeconds ∧ leaseRenewalSeconds ≤ 1800
  maximumToolOutputBytes_bounds :
    1024 ≤ maximumToolOutputBytes ∧ maximumToolOutputBytes ≤ 100000000
  plain_command_names : ∀ command ∈ allowedCommands, notPlain command = false
  reserved_below_limit :
    reservedOutputTokens + systemInstructionTokens + userRequestTokens < modelContextLimit
  renewal_below_half_ttl : leaseRenewalSeconds * 2 < leaseTtlSeconds

namespace Settings

variable (resolve : String → String) (sha256Digest : String → String) (settings : Settings)

/-- `database_url.split(":", maxsplit=1)[0]` -/
def databaseDialect : String :=
  String.ofList (settings.databaseUrl.toList.takeWhile fun c => c ≠ ':')

/-- What `fingerprint` hashes. -/
def fingerprintKeys : Json :=
  .obj [("database_dialect", .str settings.databaseDialect),
    ("repository_root", .str (resolve settings.repositoryRoot)),
    ("llm_provider", .str settings.llmProvider),
    ("model_name", .str settings.modelName),
    ("model_context_limit", .int settings.modelContextLimit),
    ("reserved_output_tokens", .int settings.reservedOutputTokens),
    ("maximum_concurrency", .int settings.maximumConcurrency),
    ("tool_permissions", .obj [("write", .bool settings.allowFileWrites),
      ("shell", .bool settings.allowShell), ("patch", .bool settings.allowPatch),
      ("network", .bool settings.networkAccess)]),
    ("maximum_file_bytes", .int settings.maximumFileBytes),
    ("maximum_repository_bytes", .int settings.maximumRepositoryBytes),
    ("repository_drift_policy",
      .str (Orchestration.RepositoryDriftPolicy.value settings.repositoryDriftPolicy))]

/-- `Settings.fingerprint`; paths are resolved, and texts hashed, outside. -/
def fingerprint : String := sha256Digest (canonicalJson (settings.fingerprintKeys resolve))

/-- What the loop and the recovery read. -/
def loop : Orchestration.Settings where
  leaseTtlSeconds := settings.leaseTtlSeconds
  leaseRenewalSeconds := settings.leaseRenewalSeconds
  maximumConcurrency := settings.maximumConcurrency
  checkpointEveryTasks := settings.checkpointEveryTasks
  retry := settings.retry
  repositoryDriftPolicy := settings.repositoryDriftPolicy
  repositoryRoot := settings.repositoryRoot
  fingerprint := settings.fingerprint resolve sha256Digest
  leaseTtlSeconds_bounds := settings.leaseTtlSeconds_bounds
  leaseRenewalSeconds_bounds := settings.leaseRenewalSeconds_bounds
  maximumConcurrency_bounds := settings.maximumConcurrency_bounds
  checkpointEveryTasks_bounds := settings.checkpointEveryTasks_bounds
  renewal_below_half_ttl := settings.renewal_below_half_ttl

end Settings

/-- Settings of one fingerprint enable the same tools, when no two texts share a digest. -/
theorem Settings.enabled_of_fingerprint {resolve resolve' sha256Digest : String → String}
    (hinj : Function.Injective sha256Digest) {s s' : Settings}
    (h : s.fingerprint resolve sha256Digest = s'.fingerprint resolve' sha256Digest) :
    s.allowFileWrites = s'.allowFileWrites ∧ s.allowShell = s'.allowShell ∧
      s.allowPatch = s'.allowPatch ∧ s.networkAccess = s'.networkAccess := by
  have hkeys := sorted_eq_of_canonicalJson_eq (hinj h)
  simp [fingerprintKeys, Json.sorted, Json.sortedFields, List.insertionSort,
    List.orderedInsert] at hkeys
  tauto

end DurableAgent.Configuration
