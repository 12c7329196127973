import DurableAgent.Orchestration.Orchestrator

/-!
# What the parts of the loop return

The answers of the store depend on its state, but not all of what they say does: the run that is
read under an identifier carries it, and an update answers the copy that was written. What the
parts of the loop return follows from this alone, whatever the others do meanwhile.
-/

namespace DurableAgent.Orchestration

open Library Library.Prog Store

variable {Text : Type}

/-- What is known of an answer without the state that it was given in. -/
def Answered : (β : Type) → StoreOp Text β → Except Exn β → Prop
  | _, .sql (.getRun runId), .ok run => run.runId = runId
  | _, .sql (.updateRun run expectedVersion), .ok run' => run' = withVersion run expectedVersion
  | _, .sql (.pendingRequest _ kind), .ok (some request) => request.kind = kind
  | _, .sql (.updateTask task expectedVersion), .ok task' =>
    task' = taskWithVersion task expectedVersion
  | _, .sql (.updateTaskAndFinishAttempt task expectedVersion _ _ _), .ok task' =>
    task' = taskWithVersion task expectedVersion
  | _, .sql (.cancelTaskAndOpenAttempts task expectedVersion), .ok task' =>
    task' = taskWithVersion task expectedVersion
  | _, _, _ => True

variable {α β : Type} {A : Agent Text} {plan : PlanSpec} {p : Progress} {runId : String}
  {codec : Codec Text} {sha256Digest : String → String}

theorem settle_eq_ok {σ : Type} {s : σ} {r : Except Exn (α × σ)} {a : α}
    (h : (settle s r).1 = .ok a) : ∃ s', r = .ok (a, s') := by
  cases r with
  | error e => cases h
  | ok r =>
    cases h
    exact ⟨r.2, rfl⟩

theorem answered_getRun {s : StoreState Text} {run : RunRecord} (h : s.getRun runId = .ok run) :
    run.runId = runId := by
  unfold StoreState.getRun at h
  split at h
  · next found hfound =>
    cases h
    exact (Table.find_eq_some.mp hfound).2
  · cases h

theorem answered_pendingRequest {s : StoreState Text} {kind : LifecycleKind}
    {request : LifecycleRequest} (h : s.pendingRequest runId kind = some request) :
    request ∈ s.requests.rows ∧ request.kind = kind ∧ request.runId = runId ∧
      request.status = .PENDING := by
  have hmem := List.mem_of_mem_head? h
  rw [List.mem_insertionSort, List.mem_filter, decide_eq_true_eq] at hmem
  exact hmem

theorem answered_handleSql {op : SqlOp β} {t : Supply} {s : StoreState Text} :
    Answered β (.sql op : StoreOp Text β) (handleSql β op t s).1 := by
  cases hx : (handleSql β op t s).1 with
  | error e => cases op <;> exact trivial
  | ok b =>
    cases op with
    | getRun runId => exact answered_getRun hx
    | pendingRequest runId kind =>
      cases b with
      | none => exact trivial
      | some request =>
        cases hx' : s.pendingRequest runId kind with
        | none =>
          rw [show (handleSql _ (.pendingRequest runId kind) t s).1 =
            .ok (s.pendingRequest runId kind) from rfl, hx'] at hx
          cases hx
        | some found =>
          rw [show (handleSql _ (.pendingRequest runId kind) t s).1 =
            .ok (s.pendingRequest runId kind) from rfl, hx'] at hx
          cases hx
          exact (answered_pendingRequest hx').2.1
    | updateRun run v =>
      obtain ⟨s', h⟩ := settle_eq_ok hx
      unfold StoreState.updateRun at h
      split at h
      · cases h
        exact rfl
      · cases h
    | updateTask task v =>
      obtain ⟨s', h⟩ := settle_eq_ok hx
      unfold StoreState.updateTask at h
      split at h
      · cases h
        exact rfl
      · cases h
    | updateTaskAndFinishAttempt task v attemptId state errorId =>
      obtain ⟨s', h⟩ := settle_eq_ok hx
      unfold StoreState.updateTaskAndFinishAttempt at h
      dsimp only at h
      split at h
      · cases h
        exact rfl
      · cases h
    | cancelTaskAndOpenAttempts task v =>
      obtain ⟨s', h⟩ := settle_eq_ok hx
      unfold StoreState.cancelTaskAndOpenAttempts at h
      split at h
      · cases h
        exact rfl
      · cases h
    | _ => exact trivial

theorem answered_handle {op : StoreOp Text β} {t : Supply} {s : StoreState Text} :
    Answered β op (handle codec sha256Digest β op t s).1 := by
  cases op with
  | sql op => exact answered_handleSql
  | _ => exact trivial

theorem answered_error {op : StoreOp Text β} {e : Exn} : Answered β op (.error e) := by
  cases op with
  | sql op => cases op <;> exact trivial
  | _ => exact trivial

/-! ## The run that is driven -/

theorem getRun_yields : (sql (.getRun runId) : StoreProg Text RunRecord).Yields Answered
    fun run => run.runId = runId :=
  yields_perform fun _ h => h

theorem updateRun_yields {run : RunRecord} {v : Nat} :
    (sql (.updateRun run v) : StoreProg Text RunRecord).Yields Answered
      fun run' => run' = withVersion run v :=
  yields_perform fun _ h => h

/-- What precedes the part that decides says nothing of it. -/
theorem yields_after {E : β → Prop} {p : StoreProg Text α} {f : α → StoreProg Text β}
    (hf : ∀ a, (f a).Yields Answered E) : (p >>= f).Yields Answered E :=
  Yields.bind (yields_true p) fun a _ => hf a

theorem startBatch_yields {run : RunRecord} {tasks batch : List TaskRecord} :
    (A.startBatch run plan tasks batch).Yields Answered fun r => r.1.runId = run.runId := by
  refine yields_after fun started => Yields.bind getRun_yields fun current hcurrent => ?_
  refine yields_after fun now => Yields.bind updateRun_yields fun run' hrun' => ?_
  refine yields_after fun written => ?_
  change run'.runId = run.runId
  rw [hrun']
  exact hcurrent

/-- A turn stays with the run. -/
def TurnOf (runId : String) : Turn → Prop
  | .ended _ => True
  | .again p => p.run.runId = runId
  | .batch p _ => p.run.runId = runId

theorem turn_yields {maximumTasks : Option Nat} (hrun : p.run.runId = runId) :
    (A.turn plan maximumTasks p).Yields Answered (TurnOf runId) := by
  refine yields_after fun request => ?_
  unfold Agent.turnFor
  split
  · exact yields_after fun _ => trivial
  · split
    · exact trivial
    · refine yields_after fun tasks => yields_after fun candidates => ?_
      split
      · refine yields_after fun request => ?_
        cases request with
        | some request => exact hrun
        | none => exact yields_after fun _ => trivial
      · refine Yields.bind startBatch_yields fun r hr => ?_
        exact hr.trans hrun

theorem succeedTask_yields {started : Started} {outcome : TaskOutcome} :
    (A.succeedTask plan p started outcome).Yields Answered
      fun p' => p'.run.runId = p.run.runId := by
  refine yields_after fun state => yields_after fun now => yields_after fun task => ?_
  refine Yields.bind getRun_yields fun current hcurrent => yields_after fun now => ?_
  refine Yields.bind updateRun_yields fun run' hrun' => yields_after fun saved => ?_
  refine yields_after fun written => yields_after fun _ => ?_
  change run'.runId = p.run.runId
  rw [hrun']
  exact hcurrent

theorem collectResults_yields {results : List (Started × WorkerResult)} :
    (A.collectResults plan results p).Yields Answered
      fun r => r.1.run.runId = p.run.runId := by
  induction results generalizing p with
  | nil => exact rfl
  | cons result rest ih =>
    obtain ⟨started, result⟩ := result
    unfold Agent.collectResults
    split
    · exact Yields.bind ih fun r hr => hr
    · refine Yields.bind succeedTask_yields fun p' hp' => ih.mono fun r hr => ?_
      exact hr.trans hp'

theorem disposedRun_yields {d : Disposition} {run : RunRecord} :
    (disposedRun d run : StoreProg Text _).Yields Answered
      fun run' => run'.runId = run.runId := by
  unfold disposedRun
  split
  · exact yields_after fun state => yields_after fun now => rfl
  · split
    · exact yields_after fun state => rfl
    · exact rfl

theorem handleBatchFailures_yields {run : RunRecord} {tasks : List TaskRecord}
    {failures : List Failure} :
    (A.handleBatchFailures run plan tasks failures).Yields Answered
      fun handled => handled.run.runId = run.runId := by
  refine yields_after fun d => yields_after fun tasks => ?_
  refine Yields.bind getRun_yields fun current hcurrent => yields_after fun now => ?_
  refine Yields.bind disposedRun_yields fun disposed hdisposed => ?_
  refine Yields.bind updateRun_yields fun run' hrun' => yields_after fun written => ?_
  change run'.runId = run.runId
  rw [hrun']
  exact hdisposed.trans hcurrent

theorem settleBatch_yields {started : List Started} {results : Except Exn (List WorkerResult)}
    (hrun : p.run.runId = runId) :
    (A.settleBatch plan p started results).Yields Answered fun r => r.1.run.runId = runId := by
  refine yields_after fun results => Yields.bind collectResults_yields fun r hr => ?_
  obtain ⟨p', failures⟩ := r
  change (A.settleFailures plan p' failures).Yields Answered _
  unfold Agent.settleFailures
  split
  · exact hr.trans hrun
  · refine Yields.bind handleBatchFailures_yields fun handled hhandled => yields_after fun _ => ?_
    have hdriven := hhandled.trans (hr.trans hrun)
    dsimp only
    split
    · exact yields_after fun _ => hdriven
    · exact hdriven

end DurableAgent.Orchestration
