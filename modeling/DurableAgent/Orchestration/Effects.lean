import DurableAgent.Orchestration.Orchestrator

/-!
# The effects of the loop

What kind of call each part of the loop may issue, whatever it is answered.
-/

namespace DurableAgent.Orchestration

open Library Library.Prog Store

variable {Text : Type}

/-- The kinds of calls. Everything that leaves the tables here as they are is a `read`. -/
inductive Effect where
  | read
  | selectTasks (reader : Reader)
  | check (kind : LifecycleKind)
  | insertRun | insertIdempotencyKey | updateRun | savePlan | saveTasks | updateTask
  | startTaskAttempt | finishAttempt (state : TaskState) | finishOpenTaskAttempts | cancelTask
  | recordError | insertLifecycleRequest | applyLifecycleRequest | saveReport | executeTask | sleep
  | lease | checkpoint | publish (eventType : String) | tools
  deriving DecidableEq

def sqlEffect : (β : Type) → SqlOp β → Effect
  | _, .selectTasks reader _ _ => .selectTasks reader
  | _, .pendingRequest _ kind => .check kind
  | _, .insertRun _ _ => .insertRun
  | _, .insertIdempotencyKey _ => .insertIdempotencyKey
  | _, .updateRun _ _ => .updateRun
  | _, .savePlan _ => .savePlan
  | _, .saveTasks _ => .saveTasks
  | _, .updateTask _ _ => .updateTask
  | _, .startTaskAttempt _ _ _ => .startTaskAttempt
  | _, .updateTaskAndFinishAttempt _ _ _ state _ => .finishAttempt state
  | _, .finishOpenTaskAttempts _ _ _ _ => .finishOpenTaskAttempts
  | _, .cancelTaskAndOpenAttempts _ _ => .cancelTask
  | _, .recordError _ _ _ => .recordError
  | _, .insertLifecycleRequest _ _ => .insertLifecycleRequest
  | _, .applyLifecycleRequest _ => .applyLifecycleRequest
  | _, .saveReport _ _ _ _ => .saveReport
  | _, .executeTask _ _ => .executeTask
  | _, .sleep _ => .sleep
  | _, _ => .read

def checkpointEffect : (β : Type) → Checkpoints.CheckpointOp Text β → Effect
  | _, .publish event => .publish event.eventType
  | _, _ => .checkpoint

def effectOf : (β : Type) → StoreOp Text β → Effect
  | _, .sql op => sqlEffect _ op
  | _, .lease _ => .lease
  | _, .checkpoint op => checkpointEffect _ op
  | _, .tools _ => .tools

/-- The call is one of the listed kinds. -/
def Within (E : List Effect) (β : Type) (op : StoreOp Text β) : Prop :=
  decide (effectOf β op ∈ E) = true

section Effects

variable {α β : Type} {E F : List Effect} {p : StoreProg Text α}

theorem Within.mono (h : E ⊆ F) {op : StoreOp Text β} (hop : Within E β op) : Within F β op :=
  decide_eq_true (h (of_decide_eq_true hop))

theorem within_mono (hp : p.Calls (Within E)) (h : E ⊆ F) : p.Calls (Within F) :=
  hp.mono fun _ _ hop => hop.mono h

/-- What all listed kinds satisfy, all calls satisfy. -/
theorem calls_of_within {φ : (δ : Type) → StoreOp Text δ → Prop} (hp : p.Calls (Within E))
    {good : Effect → Bool} (hE : E.all good = true)
    (hφ : ∀ δ op, good (effectOf δ op) = true → φ δ op) : p.Calls φ :=
  hp.mono fun δ op hop => hφ δ op (List.all_eq_true.mp hE _ (of_decide_eq_true hop))

theorem within_sql {op : SqlOp α} (hop : Within E α (.sql op : StoreOp Text α)) :
    (sql op : StoreProg Text α).Calls (Within E) :=
  calls_perform.mpr hop

theorem within_publish {runId eventType : String} {taskId : Option String}
    {payload : List (String × Json)} (h : Effect.publish eventType ∈ E) :
    (publish runId eventType taskId payload : StoreProg Text Unit).Calls (Within E) :=
  calls_perform.mpr (decide_eq_true h)

variable {runId : String} {A : Agent Text} {run : RunRecord} {plan : PlanSpec}
  {tasks : List TaskRecord} {p : Progress}

/-! ## Parts of several steps -/

/-- The calls of a checkpoint program are the listed kinds. -/
def CheckpointWithin (E : List Effect) (β : Type) (op : Checkpoints.CheckpointOp Text β) : Prop :=
  decide (checkpointEffect β op ∈ E) = true

theorem within_ofCheckpoint {p : Prog (Checkpoints.CheckpointOp Text) Exn α}
    (hp : p.Calls (CheckpointWithin E)) : (ofCheckpoint p).Calls (Within E) :=
  hp.mapOp_of fun _ _ hop => hop

def recoverEffects : List Effect :=
  [.checkpoint, .publish "checkpoint.recovered", .publish "checkpoint.recovery_failed"]

theorem recoverLatest_calls (codec : Codec Text) (sha256Digest : String → String) :
    (Checkpoints.recoverLatest codec sha256Digest runId).Calls
      (CheckpointWithin recoverEffects) := by
  refine Calls.bind (calls_perform.mpr rfl) fun raw => ?_
  split
  · trivial
  · dsimp only
    split
    · split
      · trivial
      · exact Calls.bind (calls_perform.mpr rfl) fun _ => trivial
    · exact Calls.bind (calls_perform.mpr rfl) fun _ => trivial

theorem within_recoverLatest (codec : Codec Text) (sha256Digest : String → String) :
    (ofCheckpoint (Checkpoints.recoverLatest codec sha256Digest runId)).Calls
      (Within recoverEffects) :=
  within_ofCheckpoint (recoverLatest_calls codec sha256Digest)

def writeEffects : List Effect := recoverEffects ++ [.publish "checkpoint.written"]

theorem within_writeCheckpoint {known : Checkpoints.Known} :
    (A.writeCheckpoint run plan tasks known).Calls (Within writeEffects) := by
  refine within_ofCheckpoint (Calls.bind ?_ fun references => Calls.bind ?_ fun tip => ?_)
  · refine Calls.bind ?_ fun manifestHash => Calls.bind (calls_perform.mpr rfl) fun _ => ?_
    · unfold Checkpoints.resolveManifestHash
      split
      · exact Calls.bind (calls_perform.mpr rfl) fun _ => trivial
      · trivial
    · refine Calls.bind (calls_perform.mpr rfl) fun _ => Calls.bind (calls_perform.mpr rfl) fun _ => ?_
      refine Calls.bind (calls_perform.mpr rfl) fun _ => Calls.bind ?_ fun _ => trivial
      unfold Checkpoints.resolveError
      split
      · exact calls_perform.mpr rfl
      · trivial
  · refine Calls.bind (calls_perform.mpr rfl) fun raw => ?_
    split
    · trivial
    · refine Calls.bind ((recoverLatest_calls A.codec A.sha256Digest).mono fun δ op hop => ?_)
        fun latest => Calls.bind (calls_perform.mpr rfl) fun tip => trivial
      exact decide_eq_true (List.mem_append_left _ (of_decide_eq_true hop))
  · refine Calls.bind (calls_perform.mpr rfl) fun _ => Calls.bind (calls_perform.mpr rfl) fun _ => ?_
    refine Calls.bind (calls_perform.mpr rfl) fun _ => Calls.bind (calls_perform.mpr rfl) fun _ => ?_
    exact Calls.bind (calls_perform.mpr rfl) fun _ => trivial

theorem within_checkpointIf {wanted : Bool} {known : Checkpoints.Known} :
    (A.checkpointIf wanted run plan tasks known).Calls (Within writeEffects) := by
  unfold Agent.checkpointIf
  split
  · exact Calls.bind within_writeCheckpoint fun _ => trivial
  · trivial

theorem within_ofLease (p : Prog Leases.LeaseOp Exn α) :
    (ofLease p : StoreProg Text α).Calls (Within [.lease]) :=
  Calls.mapOp (fun _ _ => rfl) p

theorem within_attempt {p : StoreProg Text α} (hp : p.Calls (Within E)) :
    (attempt p).Calls (Within E) :=
  Calls.tryCatch (Calls.bind hp fun _ => trivial) fun _ => trivial

theorem within_pendingLifecycleRequest :
    (pendingLifecycleRequest runId : StoreProg Text _).Calls
      (Within [.check .cancel, .check .pause]) := by
  refine Calls.bind (within_sql rfl) fun cancel => ?_
  cases cancel with
  | some request => trivial
  | none => exact within_sql rfl

theorem within_requestedPlanId : (requestedPlanId run : StoreProg Text _).Calls (Within [.read]) := by
  unfold requestedPlanId
  split
  · trivial
  · exact within_sql rfl

theorem within_getTasks {reader : Reader} :
    (getTasks reader runId : StoreProg Text _).Calls (Within [.read, .selectTasks reader]) := by
  refine Calls.bind (within_sql rfl) fun run => Calls.bind ?_ fun planId => ?_
  · exact within_mono within_requestedPlanId (by simp)
  · cases planId with
    | some planId => exact within_sql (decide_eq_true (by simp [effectOf, sqlEffect]))
    | none => trivial

def reportEffects : List Effect := [.read, .saveReport]

theorem within_generateReport {isPartial : Bool} :
    (generateReport run isPartial : StoreProg Text _).Calls (Within reportEffects) := by
  refine Calls.bind (within_sql rfl) fun _ => Calls.bind (within_sql rfl) fun _ => ?_
  exact Calls.bind (within_sql rfl) fun _ => trivial

/-! ## Up to a batch -/

theorem within_promoteReady :
    (promoteReady tasks : StoreProg Text _).Calls (Within [.updateTask]) := by
  refine Calls.bind trivial fun candidates => Calls.mapM' (fun task => ?_) tasks
  unfold promoteTask
  split
  · trivial
  · exact Calls.bind trivial fun _ => within_sql rfl

def startEffects : List Effect :=
  [.read, .updateTask, .startTaskAttempt, .publish "task.started"]

theorem within_startTask {batchSize : Nat} {candidate : TaskRecord} :
    (startTask runId batchSize tasks candidate : StoreProg Text _).Calls (Within startEffects) := by
  refine Calls.bind trivial fun _ => Calls.bind (within_sql rfl) fun _ => ?_
  refine Calls.bind (within_sql rfl) fun _ => Calls.bind (within_sql rfl) fun _ => ?_
  exact Calls.bind (within_publish (by decide)) fun _ => trivial

theorem within_startTasks {batchSize : Nat} {batch : List TaskRecord} :
    (startTasks runId batchSize batch tasks : StoreProg Text _).Calls (Within startEffects) := by
  induction batch generalizing tasks with
  | nil => trivial
  | cons candidate rest ih =>
    exact Calls.bind within_startTask fun _ => Calls.bind ih fun _ => trivial

def endEffects : List Effect := [.read, .updateRun]

theorem within_endRun {target : RunState} {activeTaskId : Option String} :
    (endRun run target activeTaskId : StoreProg Text _).Calls (Within endEffects) := by
  refine Calls.bind trivial fun _ => Calls.bind (within_sql rfl) fun _ => ?_
  exact Calls.bind (within_sql rfl) fun _ => within_sql rfl

theorem within_cancelTask {task : TaskRecord} :
    (cancelTask task : StoreProg Text _).Calls (Within [.read, .cancelTask]) := by
  unfold cancelTask
  split
  · trivial
  · exact Calls.bind trivial fun _ => Calls.bind (within_sql rfl) fun _ => within_sql rfl

/-! ## The batch and what follows it -/

def batchEffects : List Effect := [.read, .lease, .executeTask]

theorem within_heartbeat {fuel : Nat} {lease : LeaseRecord} :
    (A.heartbeat fuel lease).Calls (Within batchEffects) := by
  induction fuel generalizing lease with
  | zero => trivial
  | succ fuel ih =>
    refine Calls.bind (within_sql rfl) fun due => ?_
    split
    · refine Calls.bind (within_attempt (within_mono (within_ofLease _) (by decide))) fun r => ?_
      cases r with
      | ok lease => exact ih
      | error e => trivial
    · trivial

theorem within_executeBatch {lease : LeaseRecord} :
    (A.executeBatch run tasks lease).Calls (Within batchEffects) := by
  refine Calls.bind within_heartbeat fun beat => ?_
  have hone (task : TaskRecord) :
      (executeOne run task : StoreProg Text _).Calls (Within batchEffects) :=
    within_attempt (within_sql rfl)
  refine Calls.bind (Calls.mapM' hone tasks) fun results => ?_
  obtain ⟨lease, beat⟩ := beat
  cases beat with
  | error e => trivial
  | ok u =>
    refine Calls.bind (within_attempt (within_mono (within_ofLease _) (by decide))) fun r => ?_
    cases r <;> trivial

def succeedEffects : List Effect :=
  [.read, .finishAttempt .SUCCEEDED, .updateRun, .publish "task.succeeded"] ++ writeEffects

theorem within_succeedTask {started : Started} {outcome : TaskOutcome} :
    (A.succeedTask plan p started outcome).Calls (Within succeedEffects) := by
  refine Calls.bind trivial fun _ => Calls.bind (within_sql rfl) fun _ => ?_
  refine Calls.bind (within_sql rfl) fun _ => Calls.bind (within_sql rfl) fun _ => ?_
  refine Calls.bind (within_sql rfl) fun _ => Calls.bind (within_sql rfl) fun _ => ?_
  refine Calls.bind (within_sql rfl) fun saved => ?_
  refine Calls.bind (within_mono within_checkpointIf (List.subset_append_right _ _)) fun _ => ?_
  exact Calls.bind (within_publish (by decide)) fun _ => trivial

theorem within_collectResults {results : List (Started × WorkerResult)} :
    (A.collectResults plan results p).Calls (Within succeedEffects) := by
  induction results generalizing p with
  | nil => trivial
  | cons result rest ih =>
    obtain ⟨started, result⟩ := result
    unfold Agent.collectResults
    split
    · exact Calls.bind ih fun _ => trivial
    · exact Calls.bind within_succeedTask fun _ => ih

def failEffects : List Effect :=
  [.read, .recordError, .finishAttempt .WAITING, .finishAttempt .FAILED_RETRYABLE,
    .finishAttempt .FAILED_TERMINAL, .publish "manual_review.required",
    .publish "task.failed_retryable", .publish "task.failed_terminal"]

theorem within_finishedWhen {target : TaskState} :
    (finishedWhen target : StoreProg Text _).Calls (Within [.read]) := by
  unfold finishedWhen
  split
  · exact Calls.bind (within_sql rfl) fun _ => trivial
  · trivial

theorem within_handleFailure {d : Disposition} {f : Failure} :
    (A.handleFailure runId d f).Calls (Within failEffects) := by
  have htarget : Effect.finishAttempt (A.failureTarget f) ∈ failEffects := by
    unfold Agent.failureTarget
    split
    · decide
    · split <;> decide
  have hevent : Effect.publish (A.failureEvent f) ∈ failEffects := by
    unfold Agent.failureEvent
    split
    · decide
    · split <;> decide
  refine Calls.bind (within_sql rfl) fun _ => Calls.bind trivial fun _ => ?_
  refine Calls.bind (within_mono within_finishedWhen (by decide)) fun _ => ?_
  refine Calls.bind (within_sql (decide_eq_true htarget)) fun _ => ?_
  exact Calls.bind (within_publish hevent) fun _ => trivial

theorem within_handleFailures {failures : List Failure} {d : Disposition} :
    (A.handleFailures runId failures d).Calls (Within failEffects) := by
  induction failures generalizing d with
  | nil => trivial
  | cons f rest ih => exact Calls.bind within_handleFailure fun _ => ih

def skipEffects : List Effect := [.read, .updateTask, .publish "task.dependents_skipped"]

theorem within_skipAll {taskIds : List String} :
    (skipAll taskIds tasks : StoreProg Text _).Calls (Within skipEffects) := by
  induction taskIds generalizing tasks with
  | nil => trivial
  | cons taskId rest ih =>
    refine Calls.bind ?_ fun _ => ih
    refine Calls.bind (Calls.mapM' (fun task => ?_) tasks) fun _ => ?_
    · unfold skipTask
      split
      · exact Calls.bind trivial fun _ => Calls.bind (within_sql rfl) fun _ => within_sql rfl
      · trivial
    · exact Calls.bind (within_publish (by decide)) fun _ => trivial

theorem within_disposedRun {d : Disposition} :
    (disposedRun d run : StoreProg Text _).Calls (Within [.read]) := by
  unfold disposedRun
  split
  · exact Calls.bind trivial fun _ => Calls.bind (within_sql rfl) fun _ => trivial
  · split
    · exact Calls.bind trivial fun _ => trivial
    · trivial

theorem within_backOff : (A.backOff runId tasks).Calls (Within [.sleep]) := by
  induction tasks with
  | nil => trivial
  | cons task rest ih =>
    exact Calls.bind trivial fun _ => Calls.bind (within_sql rfl) fun _ => ih

/-! ## The loop -/

def requestEffects : List Effect :=
  [.read, .cancelTask, .updateRun, .applyLifecycleRequest, .saveReport, .publish "run.paused",
    .publish "run.cancelled"] ++ writeEffects

theorem within_pause {request : LifecycleRequest} :
    (A.pause run plan tasks request).Calls (Within requestEffects) := by
  refine Calls.bind (within_sql rfl) fun _ => Calls.bind trivial fun _ => ?_
  refine Calls.bind (within_sql rfl) fun _ => Calls.bind (within_sql rfl) fun _ => ?_
  refine Calls.bind (within_sql rfl) fun _ => ?_
  refine Calls.bind (within_mono within_writeCheckpoint (by decide)) fun _ => ?_
  exact Calls.bind (within_publish (by decide)) fun _ => trivial

theorem within_cancel {request : LifecycleRequest} :
    (A.cancel run plan tasks request).Calls (Within requestEffects) := by
  refine Calls.bind (Calls.mapM' (fun _ => within_mono within_cancelTask (by decide)) tasks)
    fun _ => Calls.bind (within_sql rfl) fun _ => ?_
  refine Calls.bind (within_mono within_endRun (by decide)) fun _ => ?_
  refine Calls.bind (within_sql rfl) fun _ => ?_
  refine Calls.bind (within_mono within_writeCheckpoint (by decide)) fun _ => ?_
  exact Calls.bind (within_publish (by decide)) fun _ => trivial

theorem within_handleRequest {request : LifecycleRequest} :
    (A.handleRequest plan p request).Calls (Within requestEffects) := by
  unfold Agent.handleRequest
  split
  · refine Calls.bind within_cancel fun _ => ?_
    exact Calls.bind (within_mono within_generateReport (by decide)) fun _ => trivial
  · exact Calls.bind within_pause fun _ => trivial

def concludeEffects : List Effect :=
  [.read, .updateRun, .saveReport, .publish "run.completed", .publish "run.failed"] ++ writeEffects

theorem within_completeRun : (A.completeRun run plan p).Calls (Within concludeEffects) := by
  refine Calls.bind (within_mono within_endRun (by decide)) fun _ => ?_
  refine Calls.bind (within_mono within_writeCheckpoint (by decide)) fun _ => ?_
  refine Calls.bind (within_mono within_generateReport (by decide)) fun _ => ?_
  exact Calls.bind (within_publish (by decide)) fun _ => trivial

theorem within_failStuckRun :
    (A.failStuckRun run plan tasks).Calls (Within concludeEffects) := by
  refine Calls.bind (within_sql rfl) fun _ => ?_
  refine Calls.bind (within_mono within_endRun (by decide)) fun _ => ?_
  refine Calls.bind (within_publish (by decide)) fun _ => ?_
  exact Calls.bind (within_mono within_writeCheckpoint (by decide)) fun _ => trivial

theorem within_concludeRun : (A.concludeRun plan p).Calls (Within concludeEffects) := by
  refine Calls.bind (within_sql rfl) fun run => ?_
  split
  · exact within_completeRun
  · refine Calls.bind within_failStuckRun fun _ => ?_
    exact Calls.bind (within_mono within_generateReport (by decide)) fun _ => trivial

def startBatchEffects : List Effect := startEffects ++ [.updateRun] ++ writeEffects

theorem within_startBatch {batch : List TaskRecord} :
    (A.startBatch run plan tasks batch).Calls (Within startBatchEffects) := by
  refine Calls.bind (within_mono within_startTasks (by decide)) fun _ => ?_
  refine Calls.bind (within_sql rfl) fun _ => Calls.bind (within_sql rfl) fun _ => ?_
  refine Calls.bind (within_sql rfl) fun _ => ?_
  exact Calls.bind (within_mono within_checkpointIf (by decide)) fun _ => trivial

def turnEffects : List Effect :=
  [.check .cancel, .check .pause] ++ requestEffects ++ concludeEffects ++ startBatchEffects

theorem within_turn {maximumTasks : Option Nat} :
    (A.turn plan maximumTasks p).Calls (Within turnEffects) := by
  refine Calls.bind (within_mono within_pendingLifecycleRequest (by decide)) fun request => ?_
  unfold Agent.turnFor
  split
  · exact Calls.bind (within_mono within_handleRequest (by decide)) fun _ => trivial
  · split
    · trivial
    · refine Calls.bind (within_mono within_promoteReady (by decide)) fun tasks => ?_
      refine Calls.bind trivial fun candidates => ?_
      split
      · refine Calls.bind (within_mono within_pendingLifecycleRequest (by decide)) fun request => ?_
        cases request with
        | some request => trivial
        | none => exact Calls.bind (within_mono within_concludeRun (by decide)) fun _ => trivial
      · exact Calls.bind (within_mono within_startBatch (by decide)) fun _ => trivial

def handleEffects : List Effect := failEffects ++ skipEffects ++ [.updateRun] ++ writeEffects

theorem within_handleBatchFailures {failures : List Failure} :
    (A.handleBatchFailures run plan tasks failures).Calls (Within handleEffects) := by
  refine Calls.bind (within_mono within_handleFailures (by decide)) fun _ => ?_
  refine Calls.bind (within_mono within_skipAll (by decide)) fun _ => ?_
  refine Calls.bind (within_sql rfl) fun _ => Calls.bind (within_sql rfl) fun _ => ?_
  refine Calls.bind (within_mono within_disposedRun (by decide)) fun _ => ?_
  refine Calls.bind (within_sql rfl) fun _ => ?_
  exact Calls.bind (within_mono within_writeCheckpoint (by decide)) fun _ => trivial

def settleEffects : List Effect := succeedEffects ++ handleEffects ++ [.sleep, .saveReport]

theorem within_settleFailures {failures : List Failure} :
    (A.settleFailures plan p failures).Calls (Within settleEffects) := by
  unfold Agent.settleFailures
  split
  · trivial
  · refine Calls.bind (within_mono within_handleBatchFailures (by decide)) fun handled => ?_
    refine Calls.bind (within_mono within_backOff (by decide)) fun _ => ?_
    dsimp only
    split
    · exact Calls.bind (within_mono within_generateReport (by decide)) fun _ => trivial
    · trivial

theorem within_settleBatch {started : List Started} {results : Except Exn (List WorkerResult)} :
    (A.settleBatch plan p started results).Calls (Within settleEffects) := by
  refine Calls.bind trivial fun results => ?_
  refine Calls.bind (within_mono within_collectResults (by decide)) fun r => ?_
  exact within_settleFailures

end Effects

end DurableAgent.Orchestration
