import Mathlib.Algebra.Ring.Int.Defs
import Mathlib.Data.Finset.Basic
import Mathlib.Tactic.Common
import DurableAgent.Domain.Base
import DurableAgent.Domain.StateMachine

/-!
# Core schemas

Records as the store keeps them and the workers pass them around. A field validator that the
constructors always run is a field of the record; copies made with `model_copy` run none, so the
bound on a task's attempts is a predicate that is checked where a row is read back.
-/

namespace DurableAgent

/-- Versions, fences and attempts start at one. -/
theorem counter_start : 1 ≤ 1 := Nat.le_refl 1

inductive FailurePolicy where
  | RETRY | FAIL_RUN | SKIP_DEPENDENTS | MANUAL_REVIEW
  deriving DecidableEq, Repr

inductive CheckpointPolicy where
  | BEFORE_AND_AFTER | AFTER | RUN_BOUNDARY
  deriving DecidableEq, Repr

inductive RepositoryDriftPolicy where
  | FAIL | REINDEX | REPLAN
  deriving DecidableEq, Repr

/-- Immutable intent for one executable node in a plan. -/
structure TaskSpec where
  taskId : String
  title : String
  description : String
  dependencies : List String := []
  priority : Nat := 100
  maximumAttempts : Nat := 3
  inputReferences : List String := []
  expectedOutputs : List String := ["output"]
  acceptanceCriteria : List String := ["accepted"]
  requiredEvidence : List String := ["evidence"]
  requiredTools : List String := []
  toolPermissions : Finset String := ∅
  estimatedContextTokens : Nat := 2048
  checkpointPolicy : CheckpointPolicy := .BEFORE_AND_AFTER
  failurePolicy : FailurePolicy := .RETRY
  parallelizable : Bool := false
  unique_dependencies : dependencies.Nodup := by decide
  reject_self_dependency : taskId ∉ dependencies := by decide
  maximumAttempts_bounds : 1 ≤ maximumAttempts ∧ maximumAttempts ≤ 20 := by decide
  deriving DecidableEq

theorem TaskSpec.three_attempts : 1 ≤ 3 ∧ 3 ≤ 20 := by decide

theorem PlanSpec.first_version : 1 ≤ 1 := Nat.le_refl 1

/-- A complete immutable task graph revision; the descriptive fields of a plan that no
scheduling step reads are left out. -/
structure PlanSpec where
  planId : String
  runId : String
  version : Nat
  tasks : List TaskSpec
  revisionReason : String := "initial plan"
  previousPlanId : Option String := none
  createdAt : Timestamp := 0
  version_pos : 1 ≤ version := by decide
  deriving DecidableEq

/-- Materialized run state. -/
structure RunRecord where
  runId : String
  ownerId : String
  objective : String
  state : RunState := .CREATED
  activePlanId : Option String := none
  activeTaskId : Option String := none
  repositoryRoot : Option String := none
  repositorySnapshotId : Option String := none
  configurationFingerprint : String
  version : Nat := 1
  createdAt : Timestamp
  updatedAt : Timestamp
  finishedAt : Option Timestamp := none
  deriving DecidableEq

/-- Materialized execution state for a task spec. -/
structure TaskRecord where
  runId : String
  planId : String
  spec : TaskSpec
  state : TaskState := .PENDING
  attemptCount : Nat := 0
  version : Nat := 1
  lastErrorId : Option String := none
  startedAt : Option Timestamp := none
  finishedAt : Option Timestamp := none
  deriving DecidableEq

/-- `attempts_within_bound`, run whenever a record is built from a row. -/
def TaskRecord.attemptsWithinBound (task : TaskRecord) : Prop :=
  task.attemptCount ≤ task.spec.maximumAttempts

instance (task : TaskRecord) : Decidable task.attemptsWithinBound :=
  inferInstanceAs (Decidable (_ ≤ _))

/-- The primary key of a task row. -/
def TaskRecord.taskPk (task : TaskRecord) : String × String × String :=
  (task.runId, task.planId, task.spec.taskId)

/-- Renewable execution ownership. -/
structure LeaseRecord where
  runId : String
  ownerId : String
  expiresAt : Timestamp
  fencingToken : Nat
  version : Nat
  acquiredAt : Timestamp
  renewedAt : Timestamp
  fencingToken_pos : 1 ≤ fencingToken := by decide
  version_pos : 1 ≤ version := by decide
  deriving DecidableEq

inductive ToolCallStatus where
  | INTENT_RECORDED | RUNNING | SUCCEEDED | FAILED | UNCERTAIN | NEEDS_REVIEW
  deriving DecidableEq, Repr

inductive SideEffectClass where
  | NONE | IDEMPOTENT | REVERSIBLE | NON_IDEMPOTENT
  deriving DecidableEq, Repr

def ToolCallStatus.value : ToolCallStatus → String
  | .INTENT_RECORDED => "INTENT_RECORDED"
  | .RUNNING => "RUNNING"
  | .SUCCEEDED => "SUCCEEDED"
  | .FAILED => "FAILED"
  | .UNCERTAIN => "UNCERTAIN"
  | .NEEDS_REVIEW => "NEEDS_REVIEW"

def SideEffectClass.value : SideEffectClass → String
  | .NONE => "NONE"
  | .IDEMPOTENT => "IDEMPOTENT"
  | .REVERSIBLE => "REVERSIBLE"
  | .NON_IDEMPOTENT => "NON_IDEMPOTENT"

/-- Security and recovery contract declared by a tool. -/
structure ToolDefinition where
  name : String
  inputSchema : Json
  outputSchema : Json
  requiredPermissions : List String
  sideEffectClass : SideEffectClass
  retrySafe : Bool
  non_idempotent_not_retry_safe : ¬ (sideEffectClass = .NON_IDEMPOTENT ∧ retrySafe = true) := by
    decide

/-- Durable tool intent and lifecycle. -/
structure ToolCall where
  toolCallId : String
  runId : String
  taskId : String
  toolName : String
  arguments : Json
  argumentsHash : String
  idempotencyKey : String
  sideEffectClass : SideEffectClass
  status : ToolCallStatus := .INTENT_RECORDED
  attempt : Nat := 1
  createdAt : Timestamp
  startedAt : Option Timestamp := none
  finishedAt : Option Timestamp := none
  attempt_pos : 1 ≤ attempt := by decide

theorem no_duration : (0 : Int) ≤ 0 := Int.le_refl 0

/-- Bounded and redacted durable result for a tool call; its duration is in microseconds. -/
structure ToolResult where
  toolResultId : String
  toolCallId : String
  success : Bool
  output : Json
  outputHash : String
  exitCode : Option Int := none
  truncated : Bool := false
  duration : Int
  createdAt : Timestamp
  duration_nonneg : 0 ≤ duration := by decide

inductive LifecycleKind where
  | pause | cancel
  deriving DecidableEq, Repr

inductive LifecycleStatus where
  | PENDING | APPLIED | REJECTED
  deriving DecidableEq, Repr

/-- Durable pause or cancellation request. -/
structure LifecycleRequest where
  requestId : String
  runId : String
  kind : LifecycleKind
  reason : String
  requestedBy : String
  status : LifecycleStatus := .PENDING
  createdAt : Timestamp
  appliedAt : Option Timestamp := none
  deriving DecidableEq

/-- Retrieved content with primary provenance; what retrieves it decides on its scores and its
metadata. -/
structure RetrievalItem (κ μ : Type) where
  itemId : String
  sourceType : String
  source : String
  sourceLocation : String
  content : String
  contentHash : String
  score : κ
  snapshotId : Option String := none
  metadata : μ

end DurableAgent
