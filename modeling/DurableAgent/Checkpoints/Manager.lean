import DurableAgent.Checkpoints.Store
import DurableAgent.Library.Lineage

/-!
# The checkpoint manager

`CheckpointManager.recover_latest` and `CheckpointManager.write` as programs over the checkpoint
table.
-/

namespace DurableAgent.Checkpoints

open Library Library.Prog

structure CheckpointManager where
  retentionCount : Nat := 100
  retention_at_least_two : 2 ≤ retentionCount := by decide

/-! ## Chain checks -/

section Chain

variable (sha256Digest : String → String)

/-- How envelopes are verified and linked to their parents. -/
def lineage : Lineage CheckpointEnvelope String where
  valid e := e.Verified sha256Digest
  sequence e := e.sequence
  hash e := e.chainHash sha256Digest
  parent e := e.parentHash

/-- `_chain_is_valid` of the candidate at an index of the parsed rows -/
def chainIsValid (parsed : List (Option CheckpointEnvelope)) (index : Nat) : Bool :=
  (lineage sha256Digest).walk none (parsed.drop index)

/-- A rejected candidate, as the events report it. -/
structure Rejection where
  position : Nat
  checkpointId : Option String
  reason : String

def Rejection.payload (r : Rejection) : Json :=
  .obj [("position", .int r.position), ("checkpoint_id", .ofOption r.checkpointId),
    ("reason", .str r.reason)]

/-- Why the candidate at an index is not accepted. -/
def rejection (parsed : List (Option CheckpointEnvelope)) (index : Nat)
    (candidate : Option CheckpointEnvelope) : Option Rejection :=
  match candidate with
  | none => some ⟨index, none, "checkpoint JSON/schema is invalid"⟩
  | some e =>
    if chainIsValid sha256Digest parsed index then none
    else some ⟨index, some e.checkpointId, "checkpoint parent chain is invalid"⟩

/-- The loop over the candidates from an index on: the first accepted one, and the rejections
before it. -/
def candidates (parsed : List (Option CheckpointEnvelope)) :
    Nat → List (Option CheckpointEnvelope) → List Rejection →
      List Rejection × Option CheckpointEnvelope
  | _, [], failures => (failures, none)
  | index, candidate :: older, failures =>
    match rejection sha256Digest parsed index candidate with
    | none => (failures, candidate)
    | some r => candidates parsed (index + 1) older (failures ++ [r])

end Chain

section Manager

variable {Text : Type} (codec : Codec Text) (sha256Digest : String → String)

/-- `CheckpointManager.recover_latest` -/
def recoverLatest (runId : String) : Prog (CheckpointOp Text) Exn CheckpointEnvelope := do
  let raw ← perform (.listCheckpointJson runId)
  if raw.isEmpty then raise (.of .corruptCheckpoint s!"run {runId} has no checkpoints")
  else
    let parsed := raw.map codec.modelValidateJson
    let (failures, accepted) := candidates sha256Digest parsed 0 parsed []
    let rejected := Json.arr (failures.map Rejection.payload)
    match accepted with
    | some candidate =>
      if failures.isEmpty then pure candidate
      else
        perform (.publish
          { runId, eventType := "checkpoint.recovered", taskId := none
            payload := .obj [("selected_checkpoint_id", .str candidate.checkpointId),
              ("selected_sequence", .int candidate.sequence), ("rejected", rejected)] })
        pure candidate
    | none =>
      perform (.publish
        { runId, eventType := "checkpoint.recovery_failed", taskId := none
          payload := .obj [("rejected", rejected)] })
      raise (.of .corruptCheckpoint s!"run {runId} has no valid checkpoint")

/-- `_merge_ids` -/
def mergeIds (persisted supplied : List String) : List String := (persisted ++ supplied).eraseDups

/-- The tool calls by identifier, the supplied ones replacing the persisted ones. -/
def mergeToolCalls (persisted supplied : List ToolCall) : List ToolCall :=
  let toolById := Dict.ofPairs ((persisted ++ supplied).map fun call => (call.toolCallId, call))
  (toolById.entries.insertionSort fun a b => a.1 ≤ b.1).map Prod.snd

/-- The identifiers of the tasks in the states asked for, sorted. -/
def sortedTaskIds (states : Dict String TaskState) (wanted : TaskState → Bool) : List String :=
  ((states.entries.filter fun entry => wanted entry.2).map Prod.fst).insertionSort (· ≤ ·)

theorem mem_sortedTaskIds {states : Dict String TaskState} {wanted : TaskState → Bool}
    {t : String} :
    t ∈ sortedTaskIds states wanted ↔ ∃ s, (t, s) ∈ states.entries ∧ wanted s = true := by
  simp [sortedTaskIds]

theorem sortedTaskIds_disjoint (states : Dict String TaskState) :
    ∀ t ∈ sortedTaskIds states (· = .SUCCEEDED), t ∉ sortedTaskIds states (· ≠ .SUCCEEDED) := by
  intro t hdone hpending
  obtain ⟨s, hs, hwanted⟩ := mem_sortedTaskIds.mp hdone
  obtain ⟨s', hs', hwanted'⟩ := mem_sortedTaskIds.mp hpending
  rw [states.value_unique hs hs'] at hwanted
  simp_all

theorem sortedTaskIds_known (states : Dict String TaskState) (wanted : TaskState → Bool) :
    ∀ t ∈ sortedTaskIds states wanted, t ∈ states.keys := by
  intro t ht
  obtain ⟨s, hs, -⟩ := mem_sortedTaskIds.mp ht
  exact List.mem_map.mpr ⟨(t, s), hs, rfl⟩

theorem sortedTaskIds_succeeded (states : Dict String TaskState) (t : String) :
    t ∈ sortedTaskIds states (· = .SUCCEEDED) ↔ (t, TaskState.SUCCEEDED) ∈ states.entries := by
  rw [mem_sortedTaskIds]
  simp

/-- What the caller of a write knows besides what the store lists. -/
structure Known where
  contextIds : List String := []
  summaryIds : List String := []
  toolCalls : List ToolCall := []
  artifactIds : List String := []
  evidenceIds : List String := []
  error : Option ErrorCheckpoint := none
  repositoryManifestHash : Option String := none

/-- The payload of a write, from the merged references. -/
def checkpointPayload (run : RunRecord) (plan : PlanSpec) (tasks : List TaskRecord)
    (known : Known) : CheckpointPayload :=
  let states := Dict.ofPairs (tasks.map fun task => (task.spec.taskId, task.state))
  { runId := run.runId
    runState := run.state
    activeTaskId := run.activeTaskId
    taskStates := states
    completedTaskIds := sortedTaskIds states (· = .SUCCEEDED)
    pendingTaskIds := sortedTaskIds states (· ≠ .SUCCEEDED)
    planId := plan.planId
    planVersion := plan.version
    contextIds := known.contextIds
    summaryIds := known.summaryIds
    toolCalls := known.toolCalls.map fun call =>
      ⟨call.toolCallId, call.idempotencyKey, call.status, call.sideEffectClass.value⟩
    artifactIds := known.artifactIds
    evidenceIds := known.evidenceIds
    retryCounters := Dict.ofPairs (tasks.map fun task => (task.spec.taskId, task.attemptCount))
    error := known.error
    repositorySnapshotId := run.repositorySnapshotId
    repositoryManifestHash := known.repositoryManifestHash
    configurationFingerprint := run.configurationFingerprint
    planVersion_pos := plan.version_pos
    completed_not_pending := sortedTaskIds_disjoint states
    pending_known := sortedTaskIds_known states _
    completed_iff := sortedTaskIds_succeeded states }

/-- The manifest of the run's snapshot, unless the caller knows one. -/
def resolveManifestHash (run : RunRecord) (known : Known) :
    Prog (CheckpointOp Text) Exn (Option String) :=
  match known.repositoryManifestHash, run.repositorySnapshotId with
  | none, some snapshotId => do
    let manifestHash ← perform (.getRepositoryIndex snapshotId)
    pure (some manifestHash)
  | given, _ => pure given

/-- The latest error of the run, unless the caller knows one. -/
def resolveError (run : RunRecord) (known : Known) :
    Prog (CheckpointOp Text) Exn (Option ErrorCheckpoint) :=
  match known.error with
  | none => perform (.latestError run.runId)
  | given => pure given

/-- The references of a write: what the store lists, then what the caller knows. -/
def gatherReferences (run : RunRecord) (known : Known) : Prog (CheckpointOp Text) Exn Known := do
  let manifestHash ← resolveManifestHash run known
  let (contexts, summaries) ← perform (.listContextReferences run.runId)
  let toolCalls ← perform (.listToolCalls run.runId)
  let artifacts ← perform (.listArtifactIds run.runId)
  let evidence ← perform (.getEvidence run.runId)
  let error ← resolveError run known
  pure
    { contextIds := mergeIds contexts known.contextIds
      summaryIds := mergeIds summaries known.summaryIds
      toolCalls := mergeToolCalls toolCalls known.toolCalls
      artifactIds := mergeIds artifacts known.artifactIds
      evidenceIds := mergeIds evidence known.evidenceIds
      error := error
      repositoryManifestHash := manifestHash }

/-- The tip that a write extends: its sequence, and the digest of the recovered envelope. -/
def recoverTip (runId : String) : Prog (CheckpointOp Text) Exn (Nat × Option String) := do
  let raw ← perform (.listCheckpointJson runId)
  if raw.isEmpty then pure (0, none)
  else
    let latest ← recoverLatest codec sha256Digest runId
    let tip ← perform (.checkpointTipSequence runId)
    pure (tip, some (latest.chainHash sha256Digest))

/-- `CheckpointManager.write` -/
def CheckpointManager.write (manager : CheckpointManager) (run : RunRecord) (plan : PlanSpec)
    (tasks : List TaskRecord) (known : Known) :
    Prog (CheckpointOp Text) Exn CheckpointEnvelope := do
  let references ← gatherReferences run known
  let (expectedSequence, parentHash) ← recoverTip codec sha256Digest run.runId
  let payload := checkpointPayload run plan tasks references
  let checkpointId ← perform (.newId "checkpoint")
  let createdAt ← perform .now
  let envelope := CheckpointEnvelope.create sha256Digest checkpointId (expectedSequence + 1)
    (Nat.le_add_left 1 expectedSequence) payload parentHash createdAt
  perform (.appendCheckpoint envelope expectedSequence)
  perform (.publish
    { runId := run.runId, eventType := "checkpoint.written", taskId := run.activeTaskId
      payload := .obj [("checkpoint_id", .str envelope.checkpointId),
        ("sequence", .int envelope.sequence)] })
  let _ ← perform (.pruneCheckpoints run.runId manager.retentionCount)
  pure envelope

end Manager

end DurableAgent.Checkpoints
