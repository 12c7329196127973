import DurableAgent.Orchestration.Orchestrator

/-!
# Restart recovery

`RecoveryManager.resume` with the plan revision after a drift of the repository.
-/

namespace DurableAgent.Orchestration

open Library Library.Prog Store

variable {Text : Type} (A : Agent Text)

structure RecoveryResult where
  run : RunRecord
  tasks : List TaskRecord
  checkpoint : CheckpointEnvelope
  lease : LeaseRecord
  repositoryDrifted : Bool
  reconciledToolResultIds : List String

/-- A run that is not recovering yet enters recovery. -/
def enterRecovery (run : RunRecord) : StoreProg Text RunRecord :=
  if run.state = .RECOVERING then pure run
  else do
    let state ← ofExcept (transitionRun run.state .RECOVERING)
    let now ← sql .now
    sql (.updateRun { run with state := state, updatedAt := now } run.version)

/-- The settings must be those of the checkpoint. -/
def Agent.requireConfiguration (runId : String) (checkpoint : CheckpointEnvelope) :
    StoreProg Text Unit :=
  if checkpoint.payload.configurationFingerprint = A.settings.fingerprint then pure ()
  else do
    publish runId "recovery.configuration_incompatible" none
      [("checkpoint_fingerprint", .str checkpoint.payload.configurationFingerprint),
        ("current_fingerprint", .str A.settings.fingerprint)]
    raise (.of .domainValidation "current configuration is incompatible with checkpoint")

def RepositoryDriftPolicy.value : RepositoryDriftPolicy → String
  | .FAIL => "FAIL"
  | .REINDEX => "REINDEX"
  | .REPLAN => "REPLAN"

/-- The repository has changed since the snapshot: the policy decides. -/
def Agent.acceptDrift (run : RunRecord) (snapshotId manifestHash : String)
    (current : String × String) : StoreProg Text (RunRecord × Bool) := do
  publish run.runId "repository.drift_detected" none
    [("previous_snapshot_id", .str snapshotId), ("previous_manifest_hash", .str manifestHash),
      ("current_manifest_hash", .str current.2),
      ("policy", .str (RepositoryDriftPolicy.value A.settings.repositoryDriftPolicy))]
  if A.settings.repositoryDriftPolicy = .FAIL then
    raise (.of .repositoryChanged "repository changed since the checkpoint")
  else do
    sql (.saveRepositoryIndex current.1)
    sql (.invalidateSummaries run.runId "repository content changed during pause")
    let now ← sql .now
    let run ← sql (.updateRun
      { run with repositorySnapshotId := some current.1, updatedAt := now } run.version)
    pure (run, true)

/-- A text that is there and not empty. -/
def present (text : Option String) : Option String := text.filter fun s => s ≠ ""

/-- `_validate_repository` -/
def Agent.validateRepository (run : RunRecord) (checkpoint : CheckpointEnvelope) :
    StoreProg Text (RunRecord × Bool) :=
  match present checkpoint.payload.repositorySnapshotId,
    present checkpoint.payload.repositoryManifestHash, present run.repositoryRoot with
  | some snapshotId, some manifestHash, some _ => do
    let previous ← sql (.getRepositoryIndex snapshotId)
    let current ← sql (.indexRepository A.settings.repositoryRoot (some previous))
    if current.2 = manifestHash then pure (run, false)
    else A.acceptDrift run snapshotId manifestHash current
  | _, _, _ => pure (run, false)

/-- The record of a revised plan's task: carried over where the task was there with the same
spec, and new otherwise. -/
def revisedTask (runId planId : String) (priorTasks : List TaskRecord) (spec : TaskSpec) :
    TaskRecord :=
  match recordById priorTasks spec.taskId with
  | some prior =>
    if prior.spec = spec then { prior with planId := planId, version := 1 }
    else { runId, planId, spec }
  | none => { runId, planId, spec }

def revisedTasks (runId : String) (revised : PlanSpec) (priorTasks : List TaskRecord) :
    List TaskRecord :=
  revised.tasks.map (revisedTask runId revised.planId priorTasks)

/-- `_revise_plan_after_drift` -/
def revisePlanAfterDrift (run : RunRecord) : StoreProg Text RunRecord := do
  let previous ← sql (.getPlan run.runId)
  let priorTasks ← getTasks .recovery run.runId
  let revised ← sql (.revisePlan previous
    "repository drift invalidated indexed assumptions during recovery")
  sql (.savePlan revised)
  sql (.saveTasks (revisedTasks run.runId revised priorTasks))
  let now ← sql .now
  let run ← sql (.updateRun
    { run with activePlanId := some revised.planId, updatedAt := now } run.version)
  publish run.runId "plan.revised" none
    [("plan_id", .str revised.planId), ("previous_plan_id", .str previous.planId),
      ("version", .int revised.version), ("reason", .str revised.revisionReason)]
  pure run

def Agent.reviseIf (drifted : Bool) (run : RunRecord) : StoreProg Text RunRecord :=
  if drifted ∧ A.settings.repositoryDriftPolicy = .REPLAN then revisePlanAfterDrift run
  else pure run

/-- The task of an abandoned attempt is made ready again where it may be retried. -/
def readyIf (retryable : Bool) (task : TaskRecord) : StoreProg Text TaskRecord :=
  if retryable then do
    let state ← ofExcept (transitionTask task.state .READY)
    sql (.updateTask { task with state := state } task.version)
  else pure task

/-- `_recover_abandoned_task` -/
def recoverAbandonedTask (task : TaskRecord) : StoreProg Text TaskRecord := do
  let error : DurableAgentError :=
    ⟨.concurrencyConflict, "worker ownership ended before the task attempt completed"⟩
  let errorId ← sql (.recordError task.runId (some task.spec.taskId) error)
  let retryable : Bool := task.attemptCount < task.spec.maximumAttempts
  let target : TaskState := if retryable then .FAILED_RETRYABLE else .FAILED_TERMINAL
  let _ ← sql (.finishOpenTaskAttempts task.runId task.spec.taskId target errorId)
  let state ← ofExcept (transitionTask task.state target)
  let finishedAt ← finishedWhen target
  let task ← sql (.updateTask
    { task with state := state, lastErrorId := some errorId, finishedAt := finishedAt }
    task.version)
  let task ← readyIf retryable task
  publish task.runId "recovery.abandoned_attempt" (some task.spec.taskId)
    [("error_id", .str errorId), ("attempt", .int task.attemptCount),
      ("retryable", .bool retryable)]
  pure task

/-- One task of `resume`. -/
def recoverTask (task : TaskRecord) : StoreProg Text TaskRecord :=
  if task.state = .PAUSED ∨ task.state = .WAITING then do
    let state ← ofExcept (transitionTask task.state .READY)
    sql (.updateTask { task with state := state } task.version)
  else if task.state = .RUNNING then recoverAbandonedTask task
  else pure task

/-- `resume` from the checkpoint on. -/
def Agent.resumeFrom (lease : LeaseRecord) (run : RunRecord) (checkpoint : CheckpointEnvelope) :
    StoreProg Text RecoveryResult := do
  A.requireConfiguration run.runId checkpoint
  let (run, drifted) ← A.validateRepository run checkpoint
  let run ← A.reviseIf drifted run
  let reconciled ← ofTools (A.tools.reconcileUncertain run.runId)
  let tasks ← getTasks .recovery run.runId
  let tasks ← tasks.mapM' recoverTask
  let state ← ofExcept (transitionRun run.state .RUNNING)
  let now ← sql .now
  let run ← sql (.updateRun { run with state := state, activeTaskId := none, updatedAt := now }
    run.version)
  let activePlan ← sql (.getPlan run.runId)
  let postRecovery ← A.writeCheckpoint run activePlan tasks {}
  let resultIds := reconciled.map ToolResult.toolResultId
  publish run.runId "recovery.completed" none
    [("checkpoint_id", .str checkpoint.checkpointId), ("repository_drifted", .bool drifted),
      ("reconciled_tool_results", .ofStrings resultIds),
      ("fencing_token", .int lease.fencingToken),
      ("post_recovery_checkpoint_id", .str postRecovery.checkpointId)]
  pure
    { run, tasks, checkpoint, lease, repositoryDrifted := drifted
      reconciledToolResultIds := resultIds }

/-- `resume` under the lease. -/
def Agent.resumeHeld (runId : String) (lease : LeaseRecord) : StoreProg Text RecoveryResult := do
  let run ← sql (.getRun runId)
  if run.state ≠ .PAUSED ∧ run.state ≠ .RUNNING ∧ run.state ≠ .RECOVERING then
    raise (.of .domainValidation s!"run in state {run.state.value} cannot be resumed")
  else do
    let run ← enterRecovery run
    let checkpoint ← ofCheckpoint (Checkpoints.recoverLatest A.codec A.sha256Digest runId)
    A.resumeFrom lease run checkpoint

/-- `RecoveryManager.resume` -/
def Agent.resume (runId workerId : String) : StoreProg Text RecoveryResult := do
  let lease ← A.acquireLease runId workerId
  releasing lease (A.resumeHeld runId lease)

end DurableAgent.Orchestration
