import DurableAgent.Persistence.Store

/-!
# The agent loop

`AgentOrchestrator` as programs over the store. Metrics and logs are left out; what a report or
a context contains is not modelled, only that it is saved.
-/

namespace DurableAgent.Orchestration

open Library Library.Prog Store

/-- The settings that the loop and the recovery read. -/
structure Settings where
  leaseTtlSeconds : Int := 60
  leaseRenewalSeconds : Int := 20
  maximumConcurrency : Nat := 1
  checkpointEveryTasks : Nat := 1
  retry : RetryPolicy
  repositoryDriftPolicy : RepositoryDriftPolicy := .REINDEX
  repositoryRoot : String
  fingerprint : String
  leaseTtlSeconds_bounds : 5 ≤ leaseTtlSeconds ∧ leaseTtlSeconds ≤ 3600
  leaseRenewalSeconds_bounds : 1 ≤ leaseRenewalSeconds ∧ leaseRenewalSeconds ≤ 1800
  maximumConcurrency_bounds : 1 ≤ maximumConcurrency ∧ maximumConcurrency ≤ 128
  checkpointEveryTasks_bounds : 1 ≤ checkpointEveryTasks ∧ checkpointEveryTasks ≤ 100
  renewal_below_half_ttl : leaseRenewalSeconds * 2 < leaseTtlSeconds

/-- The collaborators of one process. Fuel bounds the turns of its unbounded loops: a process
that runs out of it takes no further step, like one that crashes. -/
structure Agent (Text : Type) where
  settings : Settings
  codec : Codec Text
  sha256Digest : String → String
  /-- The first half of the digest of a text as a fraction of one. -/
  digestUnit : String → ℚ
  checkpoints : Checkpoints.CheckpointManager
  tools : Tools.ToolExecutor
  fuel : Nat

abbrev StoreProg (Text α : Type) : Type 1 := Prog (StoreOp Text) Exn α

section Calls

variable {Text α : Type}

def sql (op : SqlOp α) : StoreProg Text α := perform (.sql op)

def ofLease (p : Prog Leases.LeaseOp Exn α) : StoreProg Text α := p.mapOp fun _ => .lease

def ofCheckpoint (p : Prog (Checkpoints.CheckpointOp Text) Exn α) : StoreProg Text α :=
  p.mapOp fun _ => .checkpoint

def ofTools (p : Prog Tools.JournalOp Exn α) : StoreProg Text α := p.mapOp fun _ => .tools

/-- `SqlStore.publish` -/
def publish (runId eventType : String) (taskId : Option String) (payload : List (String × Json)) :
    StoreProg Text Unit :=
  perform (.checkpoint (.publish ⟨runId, eventType, .obj payload, taskId⟩))

/-- The result or the exception of a program, as a value. -/
def attempt (p : StoreProg Text α) : StoreProg Text (Except Exn α) :=
  (p >>= fun a => pure (.ok a)).tryCatch fun e => pure (.error e)

/-- The plan whose tasks `SqlStore.get_tasks` reads. -/
def requestedPlanId (run : RunRecord) : StoreProg Text (Option String) :=
  match run.activePlanId with
  | some planId => pure (some planId)
  | none => sql (.latestPlanId run.runId)

def tasksOfPlan (reader : Reader) (runId : String) :
    Option String → StoreProg Text (List TaskRecord)
  | some planId => sql (.selectTasks reader runId planId)
  | none => pure []

/-- `SqlStore.get_tasks` without a plan -/
def getTasks (reader : Reader) (runId : String) : StoreProg Text (List TaskRecord) := do
  let run ← sql (.getRun runId)
  let planId ← requestedPlanId run
  tasksOfPlan reader runId planId

/-- A pending cancellation comes before a pending pause. -/
def orPause (runId : String) : Option LifecycleRequest → StoreProg Text (Option LifecycleRequest)
  | some request => pure (some request)
  | none => sql (.pendingRequest runId .pause)

/-- `SqlStore.pending_lifecycle_request` -/
def pendingLifecycleRequest (runId : String) : StoreProg Text (Option LifecycleRequest) := do
  let cancel ← sql (.pendingRequest runId .cancel)
  orPause runId cancel

/-- `_generate_report`, without the content of the report -/
def generateReport (run : RunRecord) (isPartial : Bool) : StoreProg Text String := do
  let reportId ← sql (.newId "report")
  sql (.saveReport s!"{reportId}-markdown" run.runId "markdown" isPartial)
  sql (.saveReport s!"{reportId}-json" run.runId "json" isPartial)
  pure reportId

end Calls

variable {Text : Type} (A : Agent Text)

def Agent.acquireLease (runId workerId : String) : StoreProg Text LeaseRecord :=
  ofLease (Leases.acquireLease runId workerId A.settings.leaseTtlSeconds)

def Agent.renewLease (lease : LeaseRecord) : StoreProg Text LeaseRecord :=
  ofLease (Leases.renewLease lease A.settings.leaseTtlSeconds)

def releaseLease (lease : LeaseRecord) : StoreProg Text Unit := ofLease (Leases.releaseLease lease)

def Agent.writeCheckpoint (run : RunRecord) (plan : PlanSpec) (tasks : List TaskRecord)
    (known : Checkpoints.Known) : StoreProg Text CheckpointEnvelope :=
  ofCheckpoint (A.checkpoints.write A.codec A.sha256Digest run plan tasks known)

/-! ## Scheduling -/

/-- One task of `_promote_ready`. -/
def promoteTask (candidateIds : List String) (task : TaskRecord) : StoreProg Text TaskRecord :=
  if task.spec.taskId ∉ candidateIds then pure task
  else do
    let state ← ofExcept (transitionTask task.state .READY)
    sql (.updateTask { task with state := state } task.version)

/-- `_promote_ready` -/
def promoteReady (tasks : List TaskRecord) : StoreProg Text (List TaskRecord) := do
  let candidates ← ofExcept (readyTasks tasks)
  tasks.mapM' (promoteTask (candidates.map fun item => item.spec.taskId))

/-- `_select_batch` -/
def Agent.selectBatch (candidates : List TaskRecord) (executed : Nat) (maximumTasks : Option Nat) :
    List TaskRecord :=
  let limit := match maximumTasks with
    | none => A.settings.maximumConcurrency
    | some maximum => min A.settings.maximumConcurrency (maximum - executed)
  match candidates with
  | [] => []
  | first :: _ =>
    if limit ≤ 1 ∨ first.spec.parallelizable = false then [first]
    else (candidates.take limit).takeWhile fun candidate => candidate.spec.parallelizable

/-- A started attempt: where its task stands in the list, the task, and the attempt. -/
structure Started where
  index : Nat
  task : TaskRecord
  attemptId : String

/-- One task of `_start_batch`: its attempt is persisted before it runs. -/
def startTask (runId : String) (batchSize : Nat) (tasks : List TaskRecord)
    (candidate : TaskRecord) : StoreProg Text (List TaskRecord × Started) := do
  let index := tasks.findIdx fun item => item.spec.taskId = candidate.spec.taskId
  let state ← ofExcept (transitionTask candidate.state .RUNNING)
  let now ← sql .now
  let task ← sql (.updateTask
    { candidate with
      state := state, attemptCount := candidate.attemptCount + 1, startedAt := some now }
    candidate.version)
  let attemptId ← sql (.startTaskAttempt runId task.spec.taskId task.attemptCount)
  publish runId "task.started" (some task.spec.taskId)
    [("attempt", .int task.attemptCount), ("batch_size", .int batchSize)]
  pure (tasks.set index task, ⟨index, task, attemptId⟩)

def startTasks (runId : String) (batchSize : Nat) :
    List TaskRecord → List TaskRecord → StoreProg Text (List TaskRecord × List Started)
  | [], tasks => pure (tasks, [])
  | candidate :: rest, tasks => do
    let (tasks, started) ← startTask runId batchSize tasks candidate
    let (tasks, others) ← startTasks runId batchSize rest tasks
    pure (tasks, started :: others)

/-- The identifier of a checkpoint that is written if it is asked for. -/
def Agent.checkpointIf (wanted : Bool) (run : RunRecord) (plan : PlanSpec)
    (tasks : List TaskRecord) (known : Checkpoints.Known) : StoreProg Text (Option String) :=
  if wanted then do
    let checkpoint ← A.writeCheckpoint run plan tasks known
    pure (some checkpoint.checkpointId)
  else pure none

/-- `_start_batch` -/
def Agent.startBatch (run : RunRecord) (plan : PlanSpec) (tasks batch : List TaskRecord) :
    StoreProg Text (RunRecord × List TaskRecord × List Started × Option String) := do
  let (tasks, started) ← startTasks run.runId batch.length batch tasks
  let currentRun ← sql (.getRun run.runId)
  let activeTaskId := match started with
    | [only] => some only.task.spec.taskId
    | _ => none
  let now ← sql .now
  let run ← sql (.updateRun { currentRun with activeTaskId := activeTaskId, updatedAt := now }
    currentRun.version)
  let checkpointId ← A.checkpointIf
    (started.any fun item => item.task.spec.checkpointPolicy = .BEFORE_AND_AFTER) run plan tasks {}
  pure (run, tasks, started, checkpointId)

/-! ## The batch under a heartbeat -/

/-- The renewals while the batch runs; a renewal that fails ends them. -/
def Agent.heartbeat : Nat → LeaseRecord → StoreProg Text (LeaseRecord × Except Exn Unit)
  | 0, _ => .halt
  | fuel + 1, lease => do
    if ← sql .heartbeatDue then
      match ← attempt (A.renewLease lease) with
      | .ok lease => heartbeat fuel lease
      | .error e => pure (lease, .error e)
    else pure (lease, .ok ())

/-- What one worker ends in. -/
abbrev WorkerResult := Except Exn (Option TaskOutcome)

/-- `execute_one` -/
def executeOne (run : RunRecord) (task : TaskRecord) : StoreProg Text WorkerResult :=
  attempt (sql (.executeTask run task))

/-- The renewal after the batch, without which no outcome is used. -/
def Agent.renewAfterBatch (lease : LeaseRecord) (results : List WorkerResult) :
    Except Exn Unit → StoreProg Text (LeaseRecord × Except Exn (List WorkerResult))
  | .error e => pure (lease, .error e)
  | .ok () => do
    match ← attempt (A.renewLease lease) with
    | .ok lease => pure (lease, .ok results)
    | .error e => pure (lease, .error e)

/-- `_execute_batch_with_heartbeat`, with the lease last held and the exception as a value. The
workers touch none of the tables here, so they may be taken to run after the renewals. -/
def Agent.executeBatch (run : RunRecord) (tasks : List TaskRecord) (lease : LeaseRecord) :
    StoreProg Text (LeaseRecord × Except Exn (List WorkerResult)) := do
  let (lease, beat) ← A.heartbeat A.fuel lease
  let results ← tasks.mapM' (executeOne run)
  A.renewAfterBatch lease results beat

/-! ## Outcomes -/

/-- The variables of the loop in `advance`. -/
structure Progress where
  run : RunRecord
  tasks : List TaskRecord
  outcomes : List TaskOutcome := []
  executed : Nat := 0
  checkpointId : Option String := none
  reportId : Option String := none

structure Failure where
  started : Started
  error : DurableAgentError
  forceTerminal : Bool

/-- How the loop reads what a worker ended in. -/
def readResult (started : Started) : WorkerResult → Failure ⊕ TaskOutcome
  | .error (.agent e) => .inl ⟨started, e, false⟩
  | .error (.other text) =>
    .inl ⟨started, ⟨.toolExecution, s!"unexpected task worker failure: {text}"⟩, true⟩
  | .ok none => .inl ⟨started, ⟨.toolExecution, "task worker returned no outcome"⟩, true⟩
  | .ok (some outcome) => .inr outcome

/-- The only running task, if there is exactly one. -/
def singleRunning (tasks : List TaskRecord) : Option String :=
  match tasks.filter fun item => item.state = .RUNNING with
  | [only] => some only.spec.taskId
  | _ => none

/-- The checkpoint that a success calls for. -/
def Agent.checkpointDue (task : TaskRecord) (tasks : List TaskRecord) : Bool :=
  task.spec.checkpointPolicy = .AFTER ∨ task.spec.checkpointPolicy = .BEFORE_AND_AFTER ∨
    (tasks.countP fun item => item.state = .SUCCEEDED) % A.settings.checkpointEveryTasks = 0

/-- One success of the batch. -/
def Agent.succeedTask (plan : PlanSpec) (p : Progress) (started : Started) (outcome : TaskOutcome) :
    StoreProg Text Progress := do
  let state ← ofExcept (transitionTask started.task.state .SUCCEEDED)
  let now ← sql .now
  let task ← sql (.updateTaskAndFinishAttempt
    { started.task with state := state, finishedAt := some now } started.task.version
    started.attemptId .SUCCEEDED none)
  let tasks := p.tasks.set started.index task
  let currentRun ← sql (.getRun p.run.runId)
  let now ← sql .now
  let run ← sql (.updateRun
    { currentRun with
      activeTaskId := singleRunning tasks, updatedAt := now
      repositorySnapshotId := outcome.repositorySnapshotId <|> currentRun.repositorySnapshotId }
    currentRun.version)
  let (contextId, summaryIds) ← sql (.saveContext run.runId task.spec.taskId outcome)
  let outcomes := p.outcomes ++ [outcome]
  let written ← A.checkpointIf (A.checkpointDue task tasks) run plan tasks
    { contextIds := [contextId], summaryIds := summaryIds
      artifactIds := outcomes.flatMap TaskOutcome.artifactIds
      evidenceIds := outcomes.flatMap TaskOutcome.evidenceIds }
  let checkpointId := written <|> p.checkpointId
  publish run.runId "task.succeeded" (some task.spec.taskId)
    [("attempt", .int task.attemptCount), ("checkpoint_id", .ofOption checkpointId),
      ("evidence_ids", .ofStrings outcome.evidenceIds)]
  pure { p with
    run := run, tasks := tasks, outcomes := outcomes, executed := p.executed + 1
    checkpointId := checkpointId }

/-- The results of the batch in order: successes are committed, failures collected. -/
def Agent.collectResults (plan : PlanSpec) :
    List (Started × WorkerResult) → Progress → StoreProg Text (Progress × List Failure)
  | [], p => pure (p, [])
  | (started, result) :: rest, p =>
    match readResult started result with
    | .inl failure => do
      let (p, failures) ← collectResults plan rest p
      pure (p, failure :: failures)
    | .inr outcome => do
      let p ← A.succeedTask plan p started outcome
      collectResults plan rest p

/-! ## Failures -/

/-- A failure that waits for a review. -/
def Failure.requiresReview (f : Failure) : Bool :=
  f.started.task.spec.failurePolicy = .MANUAL_REVIEW ∧ f.forceTerminal = false

/-- A failure that another attempt follows. -/
def Agent.retries (f : Failure) : Bool :=
  f.forceTerminal = false ∧ f.started.task.spec.failurePolicy = .RETRY ∧
    A.settings.retry.shouldRetry f.started.task.attemptCount f.error.cls.retryable ∧
    f.started.task.attemptCount < f.started.task.spec.maximumAttempts

/-- The state that a failure leaves its task in. -/
def Agent.failureTarget (f : Failure) : TaskState :=
  if f.requiresReview then .WAITING else if A.retries f then .FAILED_RETRYABLE else .FAILED_TERMINAL

/-- A failure whose dependents are skipped while other work goes on. -/
def Agent.continuesIndependent (f : Failure) : Bool :=
  f.started.task.spec.failurePolicy = .SKIP_DEPENDENTS ∧ f.forceTerminal = false ∧
    A.retries f = false

def Agent.failureEvent (f : Failure) : String :=
  if f.requiresReview then "manual_review.required"
  else if A.retries f then "task.failed_retryable" else "task.failed_terminal"

/-- What the failures of a batch come to. -/
structure Disposition where
  tasks : List TaskRecord
  retryTasks : List TaskRecord := []
  skipDependents : List String := []
  manualReview : Bool := false
  failRun : Bool := false

def ErrorCategory.value : ErrorCategory → String
  | .VALIDATION => "VALIDATION"
  | .PROVIDER_RETRYABLE => "PROVIDER_RETRYABLE"
  | .RATE_LIMIT => "RATE_LIMIT"
  | .TIMEOUT => "TIMEOUT"
  | .TOOL_EXECUTION => "TOOL_EXECUTION"
  | .DATABASE => "DATABASE"
  | .CONCURRENCY => "CONCURRENCY"
  | .REPOSITORY_CHANGED => "REPOSITORY_CHANGED"
  | .CORRUPT_CHECKPOINT => "CORRUPT_CHECKPOINT"
  | .UNSUPPORTED_SCHEMA => "UNSUPPORTED_SCHEMA"
  | .SECURITY_POLICY => "SECURITY_POLICY"
  | .TERMINAL_DOMAIN => "TERMINAL_DOMAIN"

/-- The time a task is finished at, which only a terminal failure has. -/
def finishedWhen (target : TaskState) : StoreProg Text (Option Timestamp) :=
  if target = .FAILED_TERMINAL then do
    let now ← sql .now
    pure (some now)
  else pure none

/-- One failure of `_handle_batch_failures`. -/
def Agent.handleFailure (runId : String) (d : Disposition) (f : Failure) :
    StoreProg Text Disposition := do
  let task := f.started.task
  let errorId ← sql (.recordError runId (some task.spec.taskId) f.error)
  let state ← ofExcept (transitionTask task.state (A.failureTarget f))
  let finishedAt ← finishedWhen (A.failureTarget f)
  let task ← sql (.updateTaskAndFinishAttempt
    { task with state := state, finishedAt := finishedAt, lastErrorId := some errorId }
    task.version f.started.attemptId (A.failureTarget f) (some errorId))
  publish runId (A.failureEvent f) (some task.spec.taskId)
    [("attempt", .int task.attemptCount), ("error_id", .str errorId),
      ("category", .str (ErrorCategory.value f.error.cls.category)),
      ("message", .str f.error.message), ("retryable", .bool (A.retries f))]
  pure
    { tasks := d.tasks.set f.started.index task
      retryTasks := if A.retries f then d.retryTasks ++ [task] else d.retryTasks
      skipDependents :=
        if A.continuesIndependent f then d.skipDependents ++ [task.spec.taskId]
        else d.skipDependents
      manualReview := d.manualReview || f.requiresReview
      failRun := d.failRun ||
        (!A.continuesIndependent f && !A.retries f && !f.requiresReview) }

def Agent.handleFailures (runId : String) :
    List Failure → Disposition → StoreProg Text Disposition
  | [], d => pure d
  | f :: rest, d => do
    let d ← A.handleFailure runId d f
    handleFailures runId rest d

/-- One pass of the loop that collects what depends on a failed task. -/
def blockPass (tasks : List TaskRecord) (blocked : List String) : List String :=
  tasks.foldl
    (fun blocked task =>
      if task.spec.taskId ∈ blocked then blocked
      else if ∃ d ∈ task.spec.dependencies, d ∈ blocked then blocked ++ [task.spec.taskId]
      else blocked)
    blocked

/-- The tasks that depend on a failed one. A pass that changes nothing ends the loop, and every
other pass adds a task, so as many passes as there are tasks reach its end. -/
def blockedBy (tasks : List TaskRecord) (failedTaskId : String) : List String :=
  ((blockPass tasks)^[tasks.length] [failedTaskId]).filter fun taskId => taskId ≠ failedTaskId

/-- A blocked task that has not been started. -/
def Skippable (blocked : List String) (task : TaskRecord) : Prop :=
  task.spec.taskId ∈ blocked ∧
    (task.state = .PENDING ∨ task.state = .READY ∨ task.state = .WAITING)

instance (blocked : List String) (task : TaskRecord) : Decidable (Skippable blocked task) :=
  inferInstanceAs (Decidable (_ ∧ _))

def skipTask (blocked : List String) (task : TaskRecord) : StoreProg Text TaskRecord :=
  if Skippable blocked task then do
    let state ← ofExcept (transitionTask task.state .SKIPPED)
    let now ← sql .now
    sql (.updateTask { task with state := state, finishedAt := some now } task.version)
  else pure task

/-- `_skip_transitive_dependents` -/
def skipTransitiveDependents (tasks : List TaskRecord) (failedTaskId : String) :
    StoreProg Text (List TaskRecord) := do
  let blocked := blockedBy tasks failedTaskId
  let skipped := (tasks.filter fun task => Skippable blocked task).map fun task => task.spec.taskId
  let updated ← tasks.mapM' (skipTask blocked)
  publish ((updated.head?.map TaskRecord.runId).getD "") "task.dependents_skipped"
    (some failedTaskId) [("skipped_task_ids", .ofStrings (skipped.insertionSort (· ≤ ·)))]
  pure updated

def skipAll : List String → List TaskRecord → StoreProg Text (List TaskRecord)
  | [], tasks => pure tasks
  | taskId :: rest, tasks => do
    let tasks ← skipTransitiveDependents tasks taskId
    skipAll rest tasks

/-- The state a pause leads to, from where it is asked for. -/
def pausedState (state : RunState) : Except Exn RunState :=
  if state = .RUNNING then do
    let state ← transitionRun state .PAUSE_REQUESTED
    transitionRun state .PAUSED
  else transitionRun state .PAUSED

/-- The run after the failures of a batch. -/
def disposedRun (d : Disposition) (run : RunRecord) : StoreProg Text RunRecord :=
  if d.failRun then do
    let state ← ofExcept (transitionRun run.state .FAILED)
    let finished ← sql .now
    pure { run with state := state, finishedAt := some finished }
  else if d.manualReview then do
    let state ← ofExcept (pausedState run.state)
    pure { run with state := state }
  else pure run

/-- What `_handle_batch_failures` returns. -/
structure Handled where
  run : RunRecord
  tasks : List TaskRecord
  checkpointId : String
  ends : Bool
  retryTasks : List TaskRecord

/-- `_handle_batch_failures` -/
def Agent.handleBatchFailures (run : RunRecord) (plan : PlanSpec) (tasks : List TaskRecord)
    (failures : List Failure) : StoreProg Text Handled := do
  let d ← A.handleFailures run.runId failures { tasks := tasks }
  let tasks ← skipAll d.skipDependents d.tasks
  let currentRun ← sql (.getRun run.runId)
  let now ← sql .now
  let disposed ← disposedRun d currentRun
  let run ← sql (.updateRun { disposed with activeTaskId := none, updatedAt := now }
    currentRun.version)
  let checkpoint ← A.writeCheckpoint run plan tasks {}
  pure
    { run, tasks, checkpointId := checkpoint.checkpointId, ends := d.failRun || d.manualReview
      retryTasks := d.retryTasks }

/-! ## Requests and endings -/

/-- `_pause` -/
def Agent.pause (run : RunRecord) (plan : PlanSpec) (tasks : List TaskRecord)
    (request : LifecycleRequest) : StoreProg Text (RunRecord × String) := do
  let run ← sql (.getRun run.runId)
  let state ← ofExcept (pausedState run.state)
  let now ← sql .now
  let run ← sql (.updateRun { run with state := state, activeTaskId := none, updatedAt := now }
    run.version)
  let _ ← sql (.applyLifecycleRequest request)
  let checkpoint ← A.writeCheckpoint run plan tasks {}
  publish run.runId "run.paused" none
    [("reason", .str request.reason), ("checkpoint_id", .str checkpoint.checkpointId)]
  pure (run, checkpoint.checkpointId)

/-- A state that a cancellation leaves as it is. -/
def Settled (state : TaskState) : Prop :=
  state = .SUCCEEDED ∨ state = .FAILED_TERMINAL ∨ state = .CANCELLED ∨ state = .SKIPPED

instance (state : TaskState) : Decidable (Settled state) :=
  inferInstanceAs (Decidable (_ ∨ _))

/-- One task of `_cancel`. -/
def cancelTask (task : TaskRecord) : StoreProg Text TaskRecord :=
  if Settled task.state then pure task
  else do
    let state ← ofExcept (transitionTask task.state .CANCELLED)
    let now ← sql .now
    sql (.cancelTaskAndOpenAttempts { task with state := state, finishedAt := some now }
      task.version)

/-- A run that ends in a state now. -/
def endRun (run : RunRecord) (target : RunState) (activeTaskId : Option String) :
    StoreProg Text RunRecord := do
  let state ← ofExcept (transitionRun run.state target)
  let updated ← sql .now
  let finished ← sql .now
  sql (.updateRun
    { run with
      state := state, activeTaskId := activeTaskId, updatedAt := updated
      finishedAt := some finished }
    run.version)

/-- `_cancel` -/
def Agent.cancel (run : RunRecord) (plan : PlanSpec) (tasks : List TaskRecord)
    (request : LifecycleRequest) : StoreProg Text (RunRecord × List TaskRecord × String) := do
  let updated ← tasks.mapM' cancelTask
  let run ← sql (.getRun run.runId)
  let run ← endRun run .CANCELLED none
  let _ ← sql (.applyLifecycleRequest request)
  let checkpoint ← A.writeCheckpoint run plan updated {}
  publish run.runId "run.cancelled" none
    [("reason", .str request.reason), ("checkpoint_id", .str checkpoint.checkpointId)]
  pure (run, updated, checkpoint.checkpointId)

/-- `_fail_stuck_run` -/
def Agent.failStuckRun (run : RunRecord) (plan : PlanSpec) (tasks : List TaskRecord) :
    StoreProg Text (RunRecord × String) := do
  let run ← sql (.getRun run.runId)
  let run ← endRun run .FAILED run.activeTaskId
  publish run.runId "run.failed" none [("reason", .str "no ready tasks and plan is incomplete")]
  let checkpoint ← A.writeCheckpoint run plan tasks {}
  pure (run, checkpoint.checkpointId)

/-- Every task has succeeded or was skipped. -/
def AllSettled (tasks : List TaskRecord) : Prop :=
  ∀ task ∈ tasks, task.state = .SUCCEEDED ∨ task.state = .SKIPPED

instance (tasks : List TaskRecord) : Decidable (AllSettled tasks) :=
  inferInstanceAs (Decidable (∀ _ ∈ _, _))

/-- The end of a run whose tasks are all settled. -/
def Agent.completeRun (run : RunRecord) (plan : PlanSpec) (p : Progress) :
    StoreProg Text Progress := do
  let run ← endRun run .COMPLETED none
  let checkpoint ← A.writeCheckpoint run plan p.tasks {}
  let reportId ← generateReport run false
  publish run.runId "run.completed" none [("report_id", .str reportId)]
  pure { p with
    run := run, checkpointId := some checkpoint.checkpointId, reportId := some reportId }

/-! ## The loop -/

/-- What a turn of the loop comes to before a batch runs. -/
inductive Turn where
  | ended (p : Progress)
  | again (p : Progress)
  | batch (p : Progress) (started : List Started)

/-- A pending request ends the loop. -/
def Agent.handleRequest (plan : PlanSpec) (p : Progress) (request : LifecycleRequest) :
    StoreProg Text Progress :=
  match request.kind with
  | .cancel => do
    let (run, tasks, checkpointId) ← A.cancel p.run plan p.tasks request
    let reportId ← generateReport run true
    pure { p with
      run := run, tasks := tasks, checkpointId := some checkpointId, reportId := some reportId }
  | .pause => do
    let (run, checkpointId) ← A.pause p.run plan p.tasks request
    pure { p with run := run, checkpointId := some checkpointId }

/-- No task is ready and no request pends: the run has completed or is stuck. -/
def Agent.concludeRun (plan : PlanSpec) (p : Progress) : StoreProg Text Progress := do
  let run ← sql (.getRun p.run.runId)
  if AllSettled p.tasks then A.completeRun run plan p
  else do
    let (run, checkpointId) ← A.failStuckRun run plan p.tasks
    let reportId ← generateReport run true
    pure { p with run := run, checkpointId := some checkpointId, reportId := some reportId }

def Agent.concludeTurn (plan : PlanSpec) (p : Progress) :
    Option LifecycleRequest → StoreProg Text Turn
  | some _ => pure (.again p)
  | none => do
    let p ← A.concludeRun plan p
    pure (.ended p)

/-- A turn without a pending request. -/
def Agent.scheduleTurn (plan : PlanSpec) (maximumTasks : Option Nat) (p : Progress) :
    StoreProg Text Turn := do
  let tasks ← promoteReady p.tasks
  let candidates ← ofExcept (readyTasks tasks)
  if candidates.isEmpty then do
    let request ← pendingLifecycleRequest p.run.runId
    A.concludeTurn plan { p with tasks := tasks } request
  else do
    let batch := A.selectBatch candidates p.executed maximumTasks
    let (run, tasks, started, before) ← A.startBatch p.run plan tasks batch
    pure (.batch { p with run := run, tasks := tasks, checkpointId := before <|> p.checkpointId }
      started)

/-- The caller's bound is reached. -/
def boundReached (maximumTasks : Option Nat) (executed : Nat) : Bool :=
  maximumTasks.any fun maximum => maximum ≤ executed

def Agent.turnFor (plan : PlanSpec) (maximumTasks : Option Nat) (p : Progress) :
    Option LifecycleRequest → StoreProg Text Turn
  | some request => do
    let p ← A.handleRequest plan p request
    pure (.ended p)
  | none =>
    if boundReached maximumTasks p.executed then pure (.ended p)
    else A.scheduleTurn plan maximumTasks p

/-- The loop body up to the batch. -/
def Agent.turn (plan : PlanSpec) (maximumTasks : Option Nat) (p : Progress) :
    StoreProg Text Turn := do
  let request ← pendingLifecycleRequest p.run.runId
  A.turnFor plan maximumTasks p request

/-- The delays before the next attempts, one after the other. -/
def Agent.backOff (runId : String) : List TaskRecord → StoreProg Text Unit
  | [] => pure ()
  | task :: rest => do
    let delay ← ofExcept (A.settings.retry.delayFor A.digestUnit task.attemptCount
      s!"{runId}:{task.spec.taskId}")
    sql (.sleep delay)
    backOff runId rest

/-- The disposition of the failures, if there are any. -/
def Agent.settleFailures (plan : PlanSpec) (p : Progress) (failures : List Failure) :
    StoreProg Text (Progress × Bool) :=
  if failures.isEmpty then pure (p, false)
  else do
    let h ← A.handleBatchFailures p.run plan p.tasks failures
    A.backOff h.run.runId h.retryTasks
    let p := { p with run := h.run, tasks := h.tasks, checkpointId := some h.checkpointId }
    if h.ends then do
      let reportId ← generateReport h.run true
      pure ({ p with reportId := some reportId }, true)
    else pure (p, false)

/-- The loop body after the batch; the second component says whether the loop ends. -/
def Agent.settleBatch (plan : PlanSpec) (p : Progress) (started : List Started)
    (results : Except Exn (List WorkerResult)) : StoreProg Text (Progress × Bool) := do
  let results ← ofExcept results
  let (p, failures) ← A.collectResults plan (started.zip results) p
  A.settleFailures plan p failures

/-- The `finally` clause for an exception raised while the lease is the one last held. -/
def releasing {α : Type} (lease : LeaseRecord) (p : StoreProg Text α) : StoreProg Text α :=
  p.tryCatch fun e => releaseLease lease >>= fun _ => raise e

/-- The `while` loop with its `finally` clause. -/
def Agent.loop (plan : PlanSpec) (maximumTasks : Option Nat) :
    Nat → LeaseRecord → Progress → StoreProg Text Progress
  | 0, _, _ => .halt
  | fuel + 1, lease, p => do
    match ← releasing lease (A.turn plan maximumTasks p) with
    | .ended p => do
      releaseLease lease
      pure p
    | .again p => loop plan maximumTasks fuel lease p
    | .batch p started => do
      let (lease, results) ← A.executeBatch p.run (started.map Started.task) lease
      match ← releasing lease (A.settleBatch plan p started results) with
      | (p, true) => do
        releaseLease lease
        pure p
      | (p, false) => loop plan maximumTasks fuel lease p

structure RunAdvanceResult where
  run : RunRecord
  tasks : List TaskRecord
  tasksExecuted : Nat
  checkpointId : Option String := none
  reportId : Option String := none

/-- The answer for a run that is not to be advanced. -/
def unadvanced (lease : LeaseRecord) (run : RunRecord) : StoreProg Text RunAdvanceResult := do
  releaseLease lease
  let tasks ← getTasks .answer run.runId
  pure { run := run, tasks := tasks, tasksExecuted := 0 }

/-- `advance` of a run that may be advanced. -/
def Agent.advanceRun (lease : LeaseRecord) (run : RunRecord) (maximumTasks : Option Nat) :
    StoreProg Text RunAdvanceResult := do
  let plan ← sql (.getPlan run.runId)
  let tasks ← getTasks .advance run.runId
  sql (.latestContext run.runId)
  let p ← A.loop plan maximumTasks A.fuel lease { run := run, tasks := tasks }
  pure
    { run := p.run, tasks := p.tasks, tasksExecuted := p.executed
      checkpointId := p.checkpointId, reportId := p.reportId }

/-- A paused run is advanced for a pending cancellation only. -/
def Agent.advancePaused (lease : LeaseRecord) (run : RunRecord) (maximumTasks : Option Nat)
    (pending : Option LifecycleRequest) : StoreProg Text RunAdvanceResult :=
  if pending.map LifecycleRequest.kind = some .cancel then A.advanceRun lease run maximumTasks
  else unadvanced lease run

/-- `AgentOrchestrator.advance` -/
def Agent.advance (runId workerId : String) (maximumTasks : Option Int) :
    StoreProg Text RunAdvanceResult :=
  if maximumTasks.any fun maximum => maximum < 0 then
    raise (.other "maximum_tasks cannot be negative")
  else do
    let maximumTasks := maximumTasks.map Int.toNat
    let lease ← A.acquireLease runId workerId
    let run ← sql (.getRun runId)
    if run.state = .PAUSED then do
      let pending ← pendingLifecycleRequest runId
      A.advancePaused lease run maximumTasks pending
    else if run.state = .RUNNING ∨ run.state = .PAUSE_REQUESTED then
      A.advanceRun lease run maximumTasks
    else unadvanced lease run

end DurableAgent.Orchestration
