import DurableAgent.Domain.Models
import DurableAgent.Library.Dict

/-!
# Checkpoint schemas and the integrity envelope

Payload, envelope, and the digests they carry. The digest of a text is a parameter: nothing here
depends on which function it is, so every result holds for digests that collide as well.
-/

namespace DurableAgent

open Library

/-- `CURRENT_CHECKPOINT_SCHEMA_VERSION` -/
def currentCheckpointSchemaVersion : Nat := 1

structure ToolCallCheckpoint where
  toolCallId : String
  idempotencyKey : String
  status : ToolCallStatus
  sideEffectClass : String
  deriving DecidableEq

structure ErrorCheckpoint where
  errorId : String
  category : String
  message : String
  retryable : Bool
  deriving DecidableEq

/-- All durable references required for a safe resume; the fields at the end are what
`task_sets_are_consistent` and the bound of the plan version check. -/
@[ext]
structure CheckpointPayload where
  runId : String
  runState : RunState
  activeTaskId : Option String
  taskStates : Dict String TaskState
  completedTaskIds : List String
  pendingTaskIds : List String
  planId : String
  planVersion : Nat
  contextIds : List String := []
  summaryIds : List String := []
  toolCalls : List ToolCallCheckpoint := []
  artifactIds : List String := []
  evidenceIds : List String := []
  retryCounters : Dict String Nat := .empty
  error : Option ErrorCheckpoint := none
  repositorySnapshotId : Option String := none
  repositoryManifestHash : Option String := none
  configurationFingerprint : String
  planVersion_pos : 1 ≤ planVersion
  completed_not_pending : ∀ t ∈ completedTaskIds, t ∉ pendingTaskIds
  pending_known : ∀ t ∈ pendingTaskIds, t ∈ taskStates.keys
  completed_iff : ∀ t, t ∈ completedTaskIds ↔ (t, TaskState.SUCCEEDED) ∈ taskStates.entries

instance : DecidableEq CheckpointPayload := fun _ _ =>
  decidable_of_iff _ CheckpointPayload.ext_iff.symm

/-- Hash-chained persisted checkpoint document. -/
@[ext]
structure CheckpointEnvelope where
  checkpointId : String
  runId : String
  schemaVersion : Nat := currentCheckpointSchemaVersion
  sequence : Nat
  parentHash : Option String := none
  payload : CheckpointPayload
  payloadHash : String
  createdAt : Timestamp
  schemaVersion_current : schemaVersion = currentCheckpointSchemaVersion
  sequence_pos : 1 ≤ sequence
  identifiers_agree : runId = payload.runId

instance : DecidableEq CheckpointEnvelope := fun _ _ =>
  decidable_of_iff _ CheckpointEnvelope.ext_iff.symm

/-! ## Dumps -/

def ToolCallCheckpoint.modelDump (c : ToolCallCheckpoint) : Json :=
  .obj [("tool_call_id", .str c.toolCallId), ("idempotency_key", .str c.idempotencyKey),
    ("status", .str c.status.value), ("side_effect_class", .str c.sideEffectClass)]

def ErrorCheckpoint.modelDump (e : ErrorCheckpoint) : Json :=
  .obj [("error_id", .str e.errorId), ("category", .str e.category), ("message", .str e.message),
    ("retryable", .bool e.retryable)]

def CheckpointPayload.modelDump (p : CheckpointPayload) : Json :=
  .obj [("run_id", .str p.runId), ("run_state", .str p.runState.value),
    ("active_task_id", .ofOption p.activeTaskId),
    ("task_states", .obj (p.taskStates.entries.map fun e => (e.1, .str e.2.value))),
    ("completed_task_ids", .ofStrings p.completedTaskIds),
    ("pending_task_ids", .ofStrings p.pendingTaskIds), ("plan_id", .str p.planId),
    ("plan_version", .int p.planVersion), ("context_ids", .ofStrings p.contextIds),
    ("summary_ids", .ofStrings p.summaryIds),
    ("tool_calls", .arr (p.toolCalls.map ToolCallCheckpoint.modelDump)),
    ("artifact_ids", .ofStrings p.artifactIds), ("evidence_ids", .ofStrings p.evidenceIds),
    ("retry_counters", .obj (p.retryCounters.entries.map fun e => (e.1, .int e.2))),
    ("error", (p.error.map ErrorCheckpoint.modelDump).getD .null),
    ("repository_snapshot_id", .ofOption p.repositorySnapshotId),
    ("repository_manifest_hash", .ofOption p.repositoryManifestHash),
    ("configuration_fingerprint", .str p.configurationFingerprint)]

def CheckpointEnvelope.modelDump (e : CheckpointEnvelope) : Json :=
  .obj [("checkpoint_id", .str e.checkpointId), ("run_id", .str e.runId),
    ("schema_version", .int e.schemaVersion), ("sequence", .int e.sequence),
    ("parent_hash", .ofOption e.parentHash), ("payload", e.payload.modelDump),
    ("payload_hash", .str e.payloadHash), ("created_at", .str e.createdAt.jsonFormat)]

/-! ## Integrity -/

section Digest

variable (sha256Digest : String → String)

/-- The digest of the canonical JSON of a payload. -/
def CheckpointPayload.digest (p : CheckpointPayload) : String :=
  sha256Digest (canonicalJson p.modelDump)

/-- `CheckpointEnvelope.create` -/
def CheckpointEnvelope.create (checkpointId : String) (sequence : Nat) (hseq : 1 ≤ sequence)
    (payload : CheckpointPayload) (parentHash : Option String) (createdAt : Timestamp) :
    CheckpointEnvelope where
  checkpointId := checkpointId
  runId := payload.runId
  sequence := sequence
  parentHash := parentHash
  payload := payload
  payloadHash := payload.digest sha256Digest
  createdAt := createdAt
  schemaVersion_current := rfl
  sequence_pos := hseq
  identifiers_agree := rfl

/-- `CheckpointEnvelope.verify` -/
def CheckpointEnvelope.verify (e : CheckpointEnvelope) : Except Exn Unit :=
  if e.schemaVersion ≠ currentCheckpointSchemaVersion then
    .error (.of .unsupportedSchemaVersion s!"unsupported checkpoint schema {e.schemaVersion}")
  else if e.payload.digest sha256Digest ≠ e.payloadHash then
    .error (.of .corruptCheckpoint s!"checkpoint {e.checkpointId} payload hash mismatch")
  else .ok ()

/-- `CheckpointEnvelope.chain_hash` -/
def CheckpointEnvelope.chainHash (e : CheckpointEnvelope) : String :=
  sha256Digest (canonicalJson e.modelDump)

/-- The envelope passes `verify`. -/
def CheckpointEnvelope.Verified (e : CheckpointEnvelope) : Prop :=
  e.payload.digest sha256Digest = e.payloadHash

instance (e : CheckpointEnvelope) : Decidable (e.Verified sha256Digest) :=
  inferInstanceAs (Decidable (_ = _))

variable {sha256Digest}

theorem CheckpointEnvelope.verify_eq_ok {e : CheckpointEnvelope} :
    e.verify sha256Digest = .ok () ↔ e.Verified sha256Digest := by
  unfold verify Verified
  rw [if_neg (not_not.mpr e.schemaVersion_current)]
  by_cases h : e.payload.digest sha256Digest = e.payloadHash
  · simp [h]
  · simp [h]

theorem CheckpointEnvelope.create_verified {checkpointId : String} {sequence : Nat}
    {hseq : 1 ≤ sequence} {payload : CheckpointPayload} {parentHash : Option String}
    {createdAt : Timestamp} : (CheckpointEnvelope.create sha256Digest checkpointId sequence hseq
      payload parentHash createdAt).Verified sha256Digest := rfl

end Digest

/-- Reading and writing of stored envelopes by the schema library: whatever text stands for an
envelope, reading it gives that envelope back. -/
structure Codec (Text : Type) where
  modelDumpJson : CheckpointEnvelope → Text
  modelValidateJson : Text → Option CheckpointEnvelope
  validate_dump : ∀ e, modelValidateJson (modelDumpJson e) = some e

/-- `CheckpointEnvelope.from_untrusted_json`, without the reason of a refusal -/
def Codec.fromUntrustedJson {Text : Type} (codec : Codec Text) (sha256Digest : String → String)
    (text : Text) : Option CheckpointEnvelope :=
  (codec.modelValidateJson text).filter fun e => e.Verified sha256Digest

end DurableAgent
