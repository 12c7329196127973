import DurableAgent.Recovery.Manager

/-!
# The application service

The operations of `AgentService` that create and drive runs.
-/

namespace DurableAgent.Orchestration

open Library Library.Prog Store

variable {Text : Type} (A : Agent Text)

/-- `str.strip` -/
def strip (text : String) : String :=
  String.ofList (((text.toList.dropWhile isSpace).reverse.dropWhile isSpace).reverse)

/-- `_idempotency_pk` -/
def Agent.idempotencyPk (owner action key : String) : String :=
  A.sha256Digest s!"{owner}:{action}:{key}"

/-- `_new_worker_id` -/
def newWorkerId (ownerId : String) : StoreProg Text String := do
  let worker ← sql (.newId "worker")
  pure s!"{worker}:{ownerId}"

/-- `_owned_run` -/
def ownedRun (runId ownerId : String) : StoreProg Text RunRecord := do
  let run ← sql (.getRun runId)
  if run.ownerId ≠ ownerId then raise (.of .securityPolicy "run is owned by another principal")
  else pure run

/-! ## Creation -/

/-- The run that an idempotency record refers to. -/
def referencedRun (key : IdempotencyKey) : StoreProg Text RunRecord := do
  match ← sql (.findRun key.resourceId) with
  | some run => pure run
  | none => raise (.of .database "idempotency record references a missing run")

/-- The run of an earlier request under the same key. -/
def earlierRun (requestHash : String) : Option IdempotencyKey → StoreProg Text (Option RunRecord)
  | none => pure none
  | some key =>
    if key.requestHash ≠ requestHash then
      raise (.of .idempotencyConflict "idempotency key was reused with a different run request")
    else do
      let run ← referencedRun key
      pure (some run)

/-- `SqlStore.find_idempotent_run` -/
def Agent.findIdempotentRun (ownerId idempotencyKey requestHash : String) :
    StoreProg Text (Option RunRecord) := do
  let existing ← sql (.getIdempotencyKey (A.idempotencyPk ownerId "create_run" idempotencyKey))
  earlierRun requestHash existing

/-- A concurrent identical request may have won. -/
def winningRun (requestHash : String) : Option IdempotencyKey → StoreProg Text RunRecord
  | some key =>
    if key.requestHash = requestHash then do
      match ← sql (.findRun key.resourceId) with
      | some run => pure run
      | none => raise (conflict "concurrent run creation conflict")
    else raise (conflict "concurrent run creation conflict")
  | none => raise (conflict "concurrent run creation conflict")

/-- `SqlStore.create_run` after its first look at the key. -/
def insertRun (run : RunRecord) (key : IdempotencyKey) :
    Option RunRecord → StoreProg Text RunRecord
  | some earlier => pure earlier
  | none => do
    if ← sql (.insertRun run key) then pure run
    else do
      let existing ← sql (.getIdempotencyKey key.idempotencyPk)
      winningRun key.requestHash existing

/-- `SqlStore.create_run` -/
def Agent.storeRun (run : RunRecord) (idempotencyKey requestHash : String) :
    StoreProg Text RunRecord := do
  let pk := A.idempotencyPk run.ownerId "create_run" idempotencyKey
  let existing ← sql (.getIdempotencyKey pk)
  let earlier ← earlierRun requestHash existing
  let now ← sql .now
  insertRun run ⟨pk, run.ownerId, "create_run", idempotencyKey, requestHash, run.runId, now⟩ earlier

/-- A new run is planned, its tasks are materialized, and it is left ready for execution. -/
def Agent.planRun (run : RunRecord) (objective : String) (index : String × String) :
    StoreProg Text RunRecord := do
  publish run.runId "run.created" none
    [("objective_hash", .str (A.sha256Digest objective)), ("snapshot_id", .str index.1)]
  let state ← ofExcept (transitionRun run.state .PLANNING)
  let now ← sql .now
  let run ← sql (.updateRun { run with state := state, updatedAt := now } run.version)
  let plan ← sql (.planRun run.runId objective)
  sql (.savePlan plan)
  let tasks := plan.tasks.map fun spec =>
    ({ runId := run.runId, planId := plan.planId, spec := spec } : TaskRecord)
  sql (.saveTasks tasks)
  let state ← ofExcept (transitionRun run.state .RUNNING)
  let now ← sql .now
  let run ← sql (.updateRun
    { run with state := state, activePlanId := some plan.planId, updatedAt := now } run.version)
  let _ ← A.writeCheckpoint run plan tasks { repositoryManifestHash := some index.2 }
  publish run.runId "plan.created" none
    [("plan_id", .str plan.planId), ("version", .int plan.version),
      ("task_count", .int tasks.length)]
  pure run

/-- The run repository must be the configured root. -/
def Agent.resolveRepository (repositoryPath : Option String) : StoreProg Text String := do
  let (repository, isDir) ← sql (.resolvePath (repositoryPath.getD A.settings.repositoryRoot))
  if isDir = false then raise (.of .domainValidation "repository path must be a directory")
  else do
    let (configuredRoot, _) ← sql (.resolvePath A.settings.repositoryRoot)
    if repository ≠ configuredRoot then
      raise (.of .securityPolicy "run repository must equal the configured tool sandbox root")
    else pure repository

/-- `create_run` for a key that no earlier request has used. -/
def Agent.createNewRun (objective ownerId idempotencyKey requestHash repository : String) :
    StoreProg Text RunRecord := do
  let index ← sql (.indexRepository repository none)
  sql (.saveRepositoryIndex index.1)
  let now ← sql .now
  let runId ← sql (.newId "run")
  let run ← A.storeRun
    { runId, ownerId, objective, repositoryRoot := some repository
      repositorySnapshotId := some index.1, configurationFingerprint := A.settings.fingerprint
      createdAt := now, updatedAt := now }
    idempotencyKey requestHash
  if run.activePlanId ≠ none then pure run else A.planRun run objective index

def Agent.createRunUnlessFound (objective ownerId idempotencyKey requestHash repository : String) :
    Option RunRecord → StoreProg Text RunRecord
  | some existing => pure existing
  | none => A.createNewRun objective ownerId idempotencyKey requestHash repository

/-- `AgentService.create_run` -/
def Agent.createRun (objective ownerId idempotencyKey : String) (repositoryPath : Option String) :
    StoreProg Text RunRecord := do
  let objective := strip objective
  if objective = "" then raise (.of .domainValidation "objective must not be blank")
  else if strip idempotencyKey = "" then
    raise (.of .domainValidation "idempotency key must not be blank")
  else do
    let repository ← A.resolveRepository repositoryPath
    let requestHash := A.sha256Digest (canonicalJson
      (.obj [("owner_id", .str ownerId), ("objective", .str objective),
        ("repository", .str repository)]))
    let existing ← A.findIdempotentRun ownerId idempotencyKey requestHash
    A.createRunUnlessFound objective ownerId idempotencyKey requestHash repository existing

/-! ## Lifecycle requests -/

def LifecycleKind.value : LifecycleKind → String
  | .pause => "pause"
  | .cancel => "cancel"

/-- The request of an earlier call under the same key. -/
def earlierRequest (kind : LifecycleKind) (requestHash : String) :
    Option IdempotencyKey → StoreProg Text (Option LifecycleRequest)
  | none => pure none
  | some key =>
    if key.requestHash ≠ requestHash then
      raise (.of .idempotencyConflict "lifecycle idempotency key was reused with different input")
    else do
      match ← sql (.getLifecycleRequest kind key.resourceId) with
      | some request => pure (some request)
      | none => raise (.of .database "idempotency record references a missing request")

def Agent.lifecyclePk (ownerId runId : String) (kind : LifecycleKind) (idempotencyKey : String) :
    String :=
  A.idempotencyPk ownerId s!"{LifecycleKind.value kind}:{runId}" idempotencyKey

/-- `SqlStore.find_idempotent_lifecycle_request` -/
def Agent.findLifecycleRequest (ownerId runId : String) (kind : LifecycleKind)
    (idempotencyKey requestHash : String) : StoreProg Text (Option LifecycleRequest) := do
  let existing ← sql (.getIdempotencyKey (A.lifecyclePk ownerId runId kind idempotencyKey))
  earlierRequest kind requestHash existing

def insertRequest (request : LifecycleRequest) (key : IdempotencyKey) :
    Option LifecycleRequest → StoreProg Text LifecycleRequest
  | some earlier => pure earlier
  | none => do
    sql (.insertLifecycleRequest request key)
    pure request

/-- `SqlStore.create_lifecycle_request` -/
def Agent.storeRequest (request : LifecycleRequest) (idempotencyKey requestHash : String) :
    StoreProg Text LifecycleRequest := do
  let pk := A.lifecyclePk request.requestedBy request.runId request.kind idempotencyKey
  let existing ← sql (.getIdempotencyKey pk)
  let earlier ← earlierRequest request.kind requestHash existing
  let now ← sql .now
  insertRequest request
    ⟨pk, request.requestedBy, s!"{LifecycleKind.value request.kind}:{request.runId}",
      idempotencyKey, requestHash, request.requestId, now⟩
    earlier

/-- The request that is stored for a call: a new one, or that of an identical concurrent call. -/
def Agent.newRequest (run : RunRecord) (ownerId : String) (kind : LifecycleKind)
    (reason idempotencyKey requestHash : String) : StoreProg Text LifecycleRequest := do
  let requestId ← sql (.newId (LifecycleKind.value kind))
  let createdAt ← sql .now
  A.storeRequest
    { requestId, runId := run.runId, kind, reason, requestedBy := ownerId, createdAt }
    idempotencyKey requestHash

def Agent.requestHash (runId reason : String) : String :=
  A.sha256Digest (canonicalJson (.obj [("run_id", .str runId), ("reason", .str reason)]))

/-- A running run learns that a pause is requested. -/
def requestPause (run : RunRecord) : StoreProg Text Unit :=
  if run.state = .RUNNING then do
    let state ← ofExcept (transitionRun run.state .PAUSE_REQUESTED)
    let now ← sql .now
    let _ ← sql (.updateRun { run with state := state, updatedAt := now } run.version)
  else pure ()

def Agent.pauseUnlessFound (run : RunRecord) (ownerId reason idempotencyKey : String) :
    Option LifecycleRequest → StoreProg Text LifecycleRequest
  | some existing => pure existing
  | none =>
    if run.state ≠ .RUNNING ∧ run.state ≠ .PAUSE_REQUESTED then
      raise (.of .domainValidation s!"run in state {run.state.value} cannot be paused")
    else do
      let request ← A.newRequest run ownerId .pause reason idempotencyKey
        (A.requestHash run.runId reason)
      requestPause run
      publish run.runId "pause.requested" none
        [("request_id", .str request.requestId), ("reason", .str reason)]
      pure request

/-- `AgentService.pause` -/
def Agent.requestPauseOf (runId ownerId reason idempotencyKey : String) :
    StoreProg Text LifecycleRequest := do
  let run ← ownedRun runId ownerId
  if strip idempotencyKey = "" then
    raise (.of .domainValidation "idempotency key must not be blank")
  else do
    let existing ← A.findLifecycleRequest ownerId runId .pause idempotencyKey
      (A.requestHash runId reason)
    A.pauseUnlessFound run ownerId reason idempotencyKey existing

def Agent.cancelUnlessFound (run : RunRecord) (ownerId reason idempotencyKey : String) :
    Option LifecycleRequest → StoreProg Text LifecycleRequest
  | some existing => pure existing
  | none =>
    if run.state = .COMPLETED ∨ run.state = .FAILED ∨ run.state = .CANCELLED then
      raise (.of .domainValidation
        s!"terminal run in state {run.state.value} cannot be cancelled")
    else do
      let request ← A.newRequest run ownerId .cancel reason idempotencyKey
        (A.requestHash run.runId reason)
      publish run.runId "cancellation.requested" none
        [("request_id", .str request.requestId), ("reason", .str reason)]
      pure request

/-- `AgentService.cancel` -/
def Agent.requestCancelOf (runId ownerId reason idempotencyKey : String) :
    StoreProg Text LifecycleRequest := do
  let run ← ownedRun runId ownerId
  if strip idempotencyKey = "" then
    raise (.of .domainValidation "idempotency key must not be blank")
  else do
    let existing ← A.findLifecycleRequest ownerId runId .cancel idempotencyKey
      (A.requestHash runId reason)
    A.cancelUnlessFound run ownerId reason idempotencyKey existing

/-! ## Driving a run -/

/-- `AgentService.advance` -/
def Agent.advanceOwned (runId ownerId : String) (maximumTasks : Option Int) :
    StoreProg Text RunAdvanceResult := do
  let _ ← ownedRun runId ownerId
  let workerId ← newWorkerId ownerId
  A.advance runId workerId maximumTasks

/-- An intent that is stored already, against the request that repeats it. -/
def priorIntent (requestHash resourceId : String) (key : IdempotencyKey) : StoreProg Text Bool :=
  if key.requestHash ≠ requestHash then
    raise (.of .idempotencyConflict "idempotency key was reused with different action input")
  else if key.resourceId ≠ resourceId then
    raise (.of .database "idempotency intent references another resource")
  else pure false

/-- The intent of a concurrent request that won. -/
def concurrentIntent (requestHash resourceId : String) :
    Option IdempotencyKey → StoreProg Text Bool
  | some key =>
    if key.requestHash = requestHash ∧ key.resourceId = resourceId then pure false
    else raise (conflict "concurrent idempotency intent conflict")
  | none => raise (conflict "concurrent idempotency intent conflict")

def claimUnlessFound (key : IdempotencyKey) : Option IdempotencyKey → StoreProg Text Bool
  | some existing => priorIntent key.requestHash key.resourceId existing
  | none => do
    if ← sql (.insertIdempotencyKey key) then pure true
    else do
      let existing ← sql (.getIdempotencyKey key.idempotencyPk)
      concurrentIntent key.requestHash key.resourceId existing

/-- `SqlStore.claim_idempotent_action`; `false` is an identical prior intent. -/
def Agent.claimAction (ownerId action idempotencyKey requestHash resourceId : String) :
    StoreProg Text Bool := do
  let pk := A.idempotencyPk ownerId action idempotencyKey
  let existing ← sql (.getIdempotencyKey pk)
  let now ← sql .now
  claimUnlessFound ⟨pk, ownerId, action, idempotencyKey, requestHash, resourceId, now⟩ existing

/-- Whether the request repeats one that was claimed under its key. -/
def Agent.isReplay (runId ownerId : String) (maximumTasks : Option Int) :
    Option String → StoreProg Text Bool
  | none => pure false
  | some idempotencyKey =>
    if strip idempotencyKey = "" then
      raise (.of .domainValidation "idempotency key must not be blank")
    else do
      let requestHash := A.sha256Digest (canonicalJson (.obj [("run_id", .str runId),
        ("maximum_tasks", (maximumTasks.map Json.int).getD .null)]))
      let claimed ← A.claimAction ownerId s!"resume:{runId}" idempotencyKey requestHash runId
      pure (!claimed)

/-- The answer of a resume that does nothing. -/
def currentResult (run : RunRecord) : StoreProg Text RunAdvanceResult := do
  let tasks ← getTasks .answer run.runId
  pure { run := run, tasks := tasks, tasksExecuted := 0 }

/-- A conflict ends a replay with the state the other request has reached. -/
def replayConflict (runId ownerId : String) (replay : Bool) (e : Exn) :
    StoreProg Text RunAdvanceResult :=
  match e with
  | .agent ⟨.concurrencyConflict, message⟩ =>
    if replay then do
      let current ← ownedRun runId ownerId
      currentResult current
    else raise (conflict message)
  | other => raise other

/-- Recovery, then the loop under the lease that the recovery has acquired. -/
def Agent.resumeAndAdvance (runId workerId : String) (maximumTasks : Option Int) :
    StoreProg Text RunAdvanceResult := do
  let _ ← A.resume runId workerId
  A.advance runId workerId maximumTasks

/-- `AgentService.resume` -/
def Agent.resumeOwned (runId ownerId : String) (maximumTasks : Option Int)
    (idempotencyKey : Option String) : StoreProg Text RunAdvanceResult := do
  let run ← ownedRun runId ownerId
  let replay ← A.isReplay runId ownerId maximumTasks idempotencyKey
  if replay ∧ run.state ≠ .PAUSED ∧ run.state ≠ .RECOVERING then currentResult run
  else do
    let workerId ← newWorkerId ownerId
    (A.resumeAndAdvance runId workerId maximumTasks).tryCatch (replayConflict runId ownerId replay)

/-! ## Calls -/

/-- One call of the service, with any arguments. -/
inductive ServiceCall where
  | createRun (objective ownerId idempotencyKey : String) (repositoryPath : Option String)
  | advance (runId ownerId : String) (maximumTasks : Option Int)
  | pause (runId ownerId reason idempotencyKey : String)
  | resume (runId ownerId : String) (maximumTasks : Option Int) (idempotencyKey : Option String)
  | cancel (runId ownerId reason idempotencyKey : String)

def ServiceCall.program : ServiceCall → StoreProg Text Unit
  | .createRun objective ownerId idempotencyKey repositoryPath => do
    let _ ← A.createRun objective ownerId idempotencyKey repositoryPath
  | .advance runId ownerId maximumTasks => do
    let _ ← A.advanceOwned runId ownerId maximumTasks
  | .pause runId ownerId reason idempotencyKey => do
    let _ ← A.requestPauseOf runId ownerId reason idempotencyKey
  | .resume runId ownerId maximumTasks idempotencyKey => do
    let _ ← A.resumeOwned runId ownerId maximumTasks idempotencyKey
  | .cancel runId ownerId reason idempotencyKey => do
    let _ ← A.requestCancelOf runId ownerId reason idempotencyKey

end DurableAgent.Orchestration
