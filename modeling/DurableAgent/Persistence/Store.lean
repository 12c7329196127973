import DurableAgent.Library.Table
import DurableAgent.Domain.Plan
import DurableAgent.Domain.Retry
import DurableAgent.Persistence.Leases
import DurableAgent.Checkpoints.Manager
import DurableAgent.Tools.Executor

/-!
# The store of runs, plans and tasks

The calls that the service, the orchestrator and the recovery issue. A call to the store is one
SQL statement, or the statements that one transaction commits together; the calls of leases,
checkpoints and tools are those of their own interfaces. What lies outside (clock, identifiers,
the planner, the workers, the repository, the context) is supplied from outside. Foreign keys
hold wherever these callers write and are left out.
-/

namespace DurableAgent.Store

open Library

/-- A row of `task_attempts`. -/
structure TaskAttempt where
  attemptId : String
  runId : String
  taskId : String
  attemptNumber : Nat
  state : TaskState
  startedAt : Timestamp
  finishedAt : Option Timestamp := none
  errorId : Option String := none
  deriving DecidableEq

/-- A row of `idempotency_keys`. -/
structure IdempotencyKey where
  idempotencyPk : String
  ownerId : String
  action : String
  idempotencyKey : String
  requestHash : String
  resourceId : String
  createdAt : Timestamp
  deriving DecidableEq

/-- A row of `errors`. -/
structure ErrorRow where
  errorId : String
  runId : String
  taskId : Option String
  error : DurableAgentError
  createdAt : Timestamp

/-- A row of `reports`, without the content. -/
structure ReportRow where
  reportId : String
  runId : String
  format : String
  isPartial : Bool
  createdAt : Timestamp

/-- Durable references produced by one successful task attempt. -/
structure TaskOutcome where
  evidenceIds : List String := []
  artifactIds : List String := []
  repositorySnapshotId : Option String := none
  contextNote : String := "task completed"

/-- Pauses and cancellations are kept in tables of their own. -/
def requestPk (request : LifecycleRequest) : LifecycleKind × String :=
  (request.kind, request.requestId)

structure StoreState (Text : Type) where
  runs : Table RunRecord.runId
  plans : Table PlanSpec.planId
  tasks : Table TaskRecord.taskPk
  attempts : Table TaskAttempt.attemptId
  requests : Table requestPk
  keys : Table IdempotencyKey.idempotencyPk
  errors : List ErrorRow
  reports : List ReportRow
  leases : Leases.LeaseTable
  checkpoints : Checkpoints.CheckpointStore Text
  tools : Tools.World

/-- What a call takes from outside the store. -/
structure Supply where
  now : Timestamp
  freshId : String
  /-- The renewal period ends before the batch does. -/
  heartbeatDue : Bool
  outcome : Except Exn (Option TaskOutcome)
  plan : Except Exn PlanSpec
  path : Except Exn (String × Bool)
  /-- Snapshot and manifest hash of an index of the repository. -/
  index : Except Exn (String × String)
  /-- Context and summaries of a context that was built. -/
  context : Except Exn (String × List String)
  checkpoint : Checkpoints.Supply
  tools : Tools.Supply

/-- On whose behalf the tasks of a run are read. -/
inductive Reader where
  | advance | recovery | answer
  deriving DecidableEq, Repr

inductive SqlOp : Type → Type where
  | now : SqlOp Timestamp
  | newId (kind : String) : SqlOp String
  | getRun (runId : String) : SqlOp RunRecord
  | findRun (runId : String) : SqlOp (Option RunRecord)
  | getIdempotencyKey (pk : String) : SqlOp (Option IdempotencyKey)
  /-- The commit of `create_run` and of `claim_idempotent_action`; `false` is an
  `IntegrityError`. -/
  | insertRun (run : RunRecord) (key : IdempotencyKey) : SqlOp Bool
  | insertIdempotencyKey (key : IdempotencyKey) : SqlOp Bool
  | updateRun (run : RunRecord) (expectedVersion : Nat) : SqlOp RunRecord
  | savePlan (plan : PlanSpec) : SqlOp Unit
  | getPlan (runId : String) : SqlOp PlanSpec
  | latestPlanId (runId : String) : SqlOp (Option String)
  | saveTasks (tasks : List TaskRecord) : SqlOp Unit
  /-- The answer does not depend on the reader. -/
  | selectTasks (reader : Reader) (runId planId : String) : SqlOp (List TaskRecord)
  | updateTask (task : TaskRecord) (expectedVersion : Nat) : SqlOp TaskRecord
  | startTaskAttempt (runId taskId : String) (attemptNumber : Nat) : SqlOp String
  | updateTaskAndFinishAttempt (task : TaskRecord) (expectedVersion : Nat) (attemptId : String)
      (attemptState : TaskState) (errorId : Option String) : SqlOp TaskRecord
  | finishOpenTaskAttempts (runId taskId : String) (state : TaskState) (errorId : String) :
      SqlOp Nat
  | cancelTaskAndOpenAttempts (task : TaskRecord) (expectedVersion : Nat) :
      SqlOp TaskRecord
  | recordError (runId : String) (taskId : Option String) (error : DurableAgentError) :
      SqlOp String
  | getLifecycleRequest (kind : LifecycleKind) (requestId : String) :
      SqlOp (Option LifecycleRequest)
  /-- The commit of `create_lifecycle_request`. -/
  | insertLifecycleRequest (request : LifecycleRequest) (key : IdempotencyKey) :
      SqlOp Unit
  | pendingRequest (runId : String) (kind : LifecycleKind) :
      SqlOp (Option LifecycleRequest)
  | applyLifecycleRequest (request : LifecycleRequest) : SqlOp LifecycleRequest
  | saveReport (reportId runId format : String) (isPartial : Bool) : SqlOp Unit
  /-- `TaskWorker.execute` -/
  | executeTask (run : RunRecord) (task : TaskRecord) : SqlOp (Option TaskOutcome)
  | heartbeatDue : SqlOp Bool
  /-- `Clock.sleep` -/
  | sleep (seconds : ℚ) : SqlOp Unit
  /-- `Planner.plan` -/
  | planRun (runId objective : String) : SqlOp PlanSpec
  /-- `Planner.revise` -/
  | revisePlan (plan : PlanSpec) (reason : String) : SqlOp PlanSpec
  /-- `Path.resolve` and `Path.is_dir` -/
  | resolvePath (path : String) : SqlOp (String × Bool)
  | indexRepository (root : String) (previous : Option String) : SqlOp (String × String)
  | saveRepositoryIndex (snapshotId : String) : SqlOp Unit
  | getRepositoryIndex (snapshotId : String) : SqlOp String
  | invalidateSummaries (runId reason : String) : SqlOp Unit
  | latestContext (runId : String) : SqlOp Unit
  /-- The context of a succeeded task, built and saved. -/
  | saveContext (runId taskId : String) (outcome : TaskOutcome) :
      SqlOp (String × List String)

/-- The calls of all interfaces together. -/
inductive StoreOp (Text β : Type) : Type where
  | sql (op : SqlOp β)
  | lease (op : Leases.LeaseOp β)
  | checkpoint (op : Checkpoints.CheckpointOp Text β)
  | tools (op : Tools.JournalOp β)

abbrev conflict (message : String) : Exn := .of .concurrencyConflict message

section Calls

variable {Text : Type} (s : StoreState Text)

/-- `SqlStore.get_run` -/
def StoreState.getRun (runId : String) : Except Exn RunRecord :=
  match s.runs.find runId with
  | some run => .ok run
  | none => .error (.of .notFound s!"run not found: {runId}")

/-- The INSERTs that `SqlStore.create_run` commits. -/
def StoreState.insertRun (run : RunRecord) (key : IdempotencyKey) : Option (StoreState Text) := do
  let runs ← s.runs.insert run
  let keys ← s.keys.insert key
  some { s with runs := runs, keys := keys }

/-- A run under the version that its update leaves. -/
def withVersion (run : RunRecord) (expectedVersion : Nat) : RunRecord :=
  { run with version := expectedVersion + 1 }

/-- `SqlStore.update_run` -/
def StoreState.updateRun (run : RunRecord) (expectedVersion : Nat) :
    Except Exn (RunRecord × StoreState Text) :=
  match s.runs.swap RunRecord.version run.runId expectedVersion
      fun _ => withVersion run expectedVersion with
  | some runs => .ok (withVersion run expectedVersion, { s with runs := runs })
  | none => .error (conflict s!"run {run.runId} version changed from {expectedVersion}")

/-- `SqlStore.save_plan` -/
def StoreState.savePlan (plan : PlanSpec) : Except Exn (Unit × StoreState Text) :=
  if s.plans.rows.any fun row => row.runId = plan.runId ∧ row.version = plan.version then
    .error (invalidPlan "plan ID or run version already exists")
  else
    match s.plans.insert plan with
    | some plans => .ok ((), { s with plans := plans })
    | none => .error (invalidPlan "plan ID or run version already exists")

/-- The plans of a run by descending version. -/
def StoreState.plansOf (runId : String) : List PlanSpec :=
  (s.plans.rows.filter fun row => row.runId = runId).insertionSort fun a b => b.version ≤ a.version

/-- `SqlStore.get_plan` without a version -/
def StoreState.getPlan (runId : String) : Except Exn PlanSpec :=
  match (s.plansOf runId).head? with
  | some plan => .ok plan
  | none => .error (.of .notFound s!"plan not found for run: {runId}")

/-- `SqlStore.save_tasks` -/
def StoreState.saveTasks (tasks : List TaskRecord) : Except Exn (Unit × StoreState Text) :=
  match s.tasks.insertAll tasks with
  | some rows => .ok ((), { s with tasks := rows })
  | none => .error (invalidPlan "duplicate task or task dependency")

/-- The last statement of `SqlStore.get_tasks`; every row read is validated. -/
def StoreState.selectTasks (runId planId : String) : Except Exn (List TaskRecord) :=
  let rows := (s.tasks.rows.filter fun row => row.runId = runId ∧ row.planId = planId).insertionSort
    fun a b => a.spec.taskId ≤ b.spec.taskId
  if ∀ row ∈ rows, row.attemptsWithinBound then .ok rows
  else .error (.other "attempt_count exceeds maximum_attempts")

/-- The row with the columns that every update of a task writes. -/
def written (task : TaskRecord) (expectedVersion : Nat) (row : TaskRecord) : TaskRecord :=
  { row with
    state := task.state, attemptCount := task.attemptCount, lastErrorId := task.lastErrorId
    startedAt := task.startedAt, finishedAt := task.finishedAt, version := expectedVersion + 1 }

/-- The UPDATE of a task row. -/
def StoreState.writeTask (task : TaskRecord) (expectedVersion : Nat) :
    Option (Table TaskRecord.taskPk) :=
  s.tasks.swap TaskRecord.version task.taskPk expectedVersion (written task expectedVersion)

/-- The copy of a task that its update returns. -/
def taskWithVersion (task : TaskRecord) (expectedVersion : Nat) : TaskRecord :=
  { task with version := expectedVersion + 1 }

/-- `SqlStore.update_task` -/
def StoreState.updateTask (task : TaskRecord) (expectedVersion : Nat) :
    Except Exn (TaskRecord × StoreState Text) :=
  match s.writeTask task expectedVersion with
  | some tasks => .ok (taskWithVersion task expectedVersion, { s with tasks := tasks })
  | none => .error (conflict s!"task {task.spec.taskId} version changed from {expectedVersion}")

/-- `SqlStore.start_task_attempt` -/
def StoreState.startTaskAttempt (attemptId runId taskId : String) (attemptNumber : Nat)
    (now : Timestamp) : Except Exn (String × StoreState Text) :=
  if s.attempts.rows.any fun row =>
      row.runId = runId ∧ row.taskId = taskId ∧ row.attemptNumber = attemptNumber then
    .error (conflict "task attempt already exists")
  else
    match s.attempts.insert
        { attemptId, runId, taskId, attemptNumber, state := .RUNNING, startedAt := now } with
    | some attempts => .ok (attemptId, { s with attempts := attempts })
    | none => .error (conflict "task attempt already exists")

/-- The open attempts among those asked for. -/
def openAttempt (which : TaskAttempt → Bool) (row : TaskAttempt) : Bool :=
  which row ∧ row.finishedAt = none

/-- The attempts with the open ones among those asked for closed. -/
def StoreState.closeAttempts (which : TaskAttempt → Bool) (state : TaskState)
    (errorId : TaskAttempt → Option String) (now : Timestamp) : Table TaskAttempt.attemptId :=
  s.attempts.modify
    (fun row => if openAttempt which row then
        { row with state := state, errorId := errorId row, finishedAt := some now }
      else row)
    fun row => by split <;> rfl

/-- `SqlStore.update_task_and_finish_attempt` -/
def StoreState.updateTaskAndFinishAttempt (task : TaskRecord) (expectedVersion : Nat)
    (attemptId : String) (attemptState : TaskState) (errorId : Option String) (now : Timestamp) :
    Except Exn (TaskRecord × StoreState Text) :=
  let which (row : TaskAttempt) : Bool := row.attemptId = attemptId
  match s.writeTask task expectedVersion, s.attempts.rows.any (openAttempt which) with
  | some tasks, true => .ok (taskWithVersion task expectedVersion,
      { s with
        tasks := tasks, attempts := s.closeAttempts which attemptState (fun _ => errorId) now })
  | _, _ => .error (conflict "task outcome or attempt changed concurrently")

/-- The attempts of one task of a run. -/
def attemptsOf (runId taskId : String) (row : TaskAttempt) : Bool :=
  row.runId = runId ∧ row.taskId = taskId

/-- `SqlStore.cancel_task_and_open_attempts` -/
def StoreState.cancelTaskAndOpenAttempts (task : TaskRecord) (expectedVersion : Nat)
    (now : Timestamp) : Except Exn (TaskRecord × StoreState Text) :=
  match s.writeTask task expectedVersion with
  | some tasks => .ok (taskWithVersion task expectedVersion,
      { s with
        tasks := tasks
        attempts := s.closeAttempts (attemptsOf task.runId task.spec.taskId) .CANCELLED
          TaskAttempt.errorId now })
  | none => .error (conflict s!"task {task.spec.taskId} changed during cancellation")

/-- The pending requests of a kind, oldest first. -/
def StoreState.pendingRequest (runId : String) (kind : LifecycleKind) : Option LifecycleRequest :=
  ((s.requests.rows.filter fun row => row.kind = kind ∧ row.runId = runId ∧
    row.status = .PENDING).insertionSort fun a b => a.createdAt ≤ b.createdAt).head?

/-- The INSERTs that `SqlStore.create_lifecycle_request` commits; a violated key is not caught
there. -/
def StoreState.insertLifecycleRequest (request : LifecycleRequest) (key : IdempotencyKey) :
    Except Exn (Unit × StoreState Text) :=
  match s.requests.insert request, s.keys.insert key with
  | some requests, some keys => .ok ((), { s with requests := requests, keys := keys })
  | _, _ => .error (.other "IntegrityError")

/-- `SqlStore.apply_lifecycle_request` -/
def StoreState.applyLifecycleRequest (request : LifecycleRequest) (now : Timestamp) :
    Except Exn (LifecycleRequest × StoreState Text) :=
  let named (row : LifecycleRequest) : Bool :=
    requestPk row = requestPk request ∧ row.status = .PENDING
  let applied (row : LifecycleRequest) : LifecycleRequest :=
    { row with status := .APPLIED, appliedAt := some now }
  if s.requests.rows.any named then
    .ok (applied request, { s with
      requests := s.requests.modify (fun row => if named row then applied row else row)
        fun row => by split <;> rfl })
  else .error (conflict "lifecycle request was already handled")

end Calls

/-- The plan that a planner comes to, after the checks that planners end with. -/
def checkedPlan (runId : String) (plan : PlanSpec) : Except Exn PlanSpec :=
  if plan.runId ≠ runId then .error (invalidPlan "provider plan run ID does not match")
  else validatePlan plan 20

section Handle

variable {Text : Type}

/-- The answer and the state of a call that may be refused. -/
def settle {α σ : Type} (s : σ) : Except Exn (α × σ) → Except Exn α × σ
  | .ok (a, s') => (.ok a, s')
  | .error e => (.error e, s)

/-- Whether a commit went through. -/
def committed {σ : Type} (s : σ) : Option σ → Except Exn Bool × σ
  | some s' => (.ok true, s')
  | none => (.ok false, s)

/-- The effect of each call to the store. -/
def handleSql : Handler SqlOp Exn Supply (StoreState Text)
  | _, .now, t, s => (.ok t.now, s)
  | _, .newId kind, t, s => (.ok s!"{kind}-{t.freshId}", s)
  | _, .getRun runId, _, s => (s.getRun runId, s)
  | _, .findRun runId, _, s => (.ok (s.runs.find runId), s)
  | _, .getIdempotencyKey pk, _, s => (.ok (s.keys.find pk), s)
  | _, .insertRun run key, _, s => committed s (s.insertRun run key)
  | _, .insertIdempotencyKey key, _, s =>
    committed s ((s.keys.insert key).map fun keys => { s with keys := keys })
  | _, .updateRun run expectedVersion, _, s => settle s (s.updateRun run expectedVersion)
  | _, .savePlan plan, _, s => settle s (s.savePlan plan)
  | _, .getPlan runId, _, s => (s.getPlan runId, s)
  | _, .latestPlanId runId, _, s => (.ok ((s.plansOf runId).head?.map PlanSpec.planId), s)
  | _, .saveTasks tasks, _, s => settle s (s.saveTasks tasks)
  | _, .selectTasks _ runId planId, _, s => (s.selectTasks runId planId, s)
  | _, .updateTask task expectedVersion, _, s => settle s (s.updateTask task expectedVersion)
  | _, .startTaskAttempt runId taskId attemptNumber, t, s =>
    settle s (s.startTaskAttempt s!"attempt-{t.freshId}" runId taskId attemptNumber t.now)
  | _, .updateTaskAndFinishAttempt task expectedVersion attemptId attemptState errorId, t, s =>
    settle s
      (s.updateTaskAndFinishAttempt task expectedVersion attemptId attemptState errorId t.now)
  | _, .finishOpenTaskAttempts runId taskId state errorId, t, s =>
    (.ok (s.attempts.rows.countP (openAttempt (attemptsOf runId taskId))),
      { s with
        attempts := s.closeAttempts (attemptsOf runId taskId) state (fun _ => some errorId) t.now })
  | _, .cancelTaskAndOpenAttempts task expectedVersion, t, s =>
    settle s (s.cancelTaskAndOpenAttempts task expectedVersion t.now)
  | _, .recordError runId taskId error, t, s =>
    (.ok s!"error-{t.freshId}",
      { s with errors := ⟨s!"error-{t.freshId}", runId, taskId, error, t.now⟩ :: s.errors })
  | _, .getLifecycleRequest kind requestId, _, s => (.ok (s.requests.find (kind, requestId)), s)
  | _, .insertLifecycleRequest request key, _, s => settle s (s.insertLifecycleRequest request key)
  | _, .pendingRequest runId kind, _, s => (.ok (s.pendingRequest runId kind), s)
  | _, .applyLifecycleRequest request, t, s => settle s (s.applyLifecycleRequest request t.now)
  | _, .saveReport reportId runId format isPartial, t, s =>
    (.ok (), { s with reports := ⟨reportId, runId, format, isPartial, t.now⟩ :: s.reports })
  | _, .executeTask _ _, t, s => (t.outcome, s)
  | _, .heartbeatDue, t, s => (.ok t.heartbeatDue, s)
  | _, .sleep _, _, s => (.ok (), s)
  | _, .planRun runId _, t, s => (t.plan.bind (checkedPlan runId), s)
  | _, .revisePlan plan _, t, s => (t.plan.bind (checkedPlan plan.runId), s)
  | _, .resolvePath _, t, s => (t.path, s)
  | _, .indexRepository _ _, t, s => (t.index, s)
  | _, .saveRepositoryIndex _, _, s => (.ok (), s)
  | _, .getRepositoryIndex snapshotId, _, s => (.ok snapshotId, s)
  | _, .invalidateSummaries _ _, _, s => (.ok (), s)
  | _, .latestContext _, _, s => (.ok (), s)
  | _, .saveContext _ _ _, t, s => (t.context, s)

variable (codec : Codec Text) (sha256Digest : String → String)

/-- The effect of each call. -/
def handle : Handler (StoreOp Text) Exn Supply (StoreState Text)
  | _, .sql op, t, s => handleSql _ op t s
  | _, .lease op, t, s =>
    let (x, leases) := Leases.handle _ op t.now s.leases
    (x, { s with leases := leases })
  | _, .checkpoint op, t, s =>
    let (x, checkpoints) := Checkpoints.handle codec sha256Digest _ op t.checkpoint s.checkpoints
    (x, { s with checkpoints := checkpoints })
  | _, .tools op, t, s =>
    let (x, tools) := Tools.handle _ op t.tools s.tools
    (x, { s with tools := tools })

end Handle

end DurableAgent.Store
