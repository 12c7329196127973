import DurableAgent.Application.Dependencies

/-!
# The attempt bound

A start counts an attempt, and promotion, retries and the recovery of abandoned tasks leave a
task ready only while it has one left. A resume makes a waiting task ready without a look at the
count: where it has no attempt left, the next start exceeds the bound, and its row can no longer
be read.
-/

namespace DurableAgent.Orchestration

open Library Library.Prog Store

variable {Text ι : Type} [DecidableEq ι] {codec : Codec Text} {sha256Digest : String → String}
  {P P' : Pool (StoreOp Text) Exn (StoreState Text) ι} {processes : ι → Process Text}
  {journal : Tools.World} {s : StoreState Text}

/-- A waiting task is made ready only while it has attempts left. -/
def sparesAttempts (β : Type) (op : StoreOp Text β) (s : StoreState Text) : Prop :=
  ∀ update ∈ taskUpdate _ op, update.1.state = .READY → ∀ row ∈ s.tasks.rows,
    row.taskPk = update.1.taskPk → row.version = update.2 → row.state = .WAITING →
      row.attemptCount < row.spec.maximumAttempts

instance (β : Type) (op : StoreOp Text β) (s : StoreState Text) :
    Decidable (sparesAttempts β op s) :=
  inferInstanceAs (Decidable (∀ _ ∈ _, _ → ∀ _ ∈ _, _ → _ → _ → _))

abbrev spareAttempts : Assumed := ⟨False, True, False⟩

theorem admits_spareAttempts {w : Watch} {β : Type} {op : StoreOp Text β} {s : StoreState Text}
    (h : sparesAttempts β op s) : Admits spareAttempts w op s :=
  ⟨False.elim, False.elim, fun _ => h, False.elim⟩

/-! ## Reading tasks back -/

instance nonempty_supply : Nonempty Supply := ⟨plainSupply ""⟩

theorem selectTasks_of_bound (hbound : ∀ task ∈ s.tasks.rows, task.attemptsWithinBound)
    (runId planId : String) : ∃ tasks, s.selectTasks runId planId = .ok tasks := by
  unfold StoreState.selectTasks
  dsimp only
  rw [if_pos]
  · exact ⟨_, rfl⟩
  · intro row hrow
    rw [List.mem_insertionSort] at hrow
    exact hbound row (List.mem_of_mem_filter hrow)

/-- What `get_tasks` reads of a run. -/
def readBack (s : StoreState Text) (run : RunRecord) : Except Exn (List TaskRecord) :=
  match run.activePlanId <|> (s.plansOf run.runId).head?.map PlanSpec.planId with
  | some planId => s.selectTasks run.runId planId
  | none => .ok []

/-- Of a stored run, `get_tasks` reads what the store holds, and nothing else. -/
theorem getTasks_returns {run : RunRecord} (hrun : run ∈ s.runs.rows) (reader : Reader) :
    Returns (handle codec sha256Digest).exec (getTasks reader run.runId) s (readBack s run) := by
  have hget : s.getRun run.runId = .ok run := by
    unfold StoreState.getRun
    rw [Table.find_eq_some.mpr ⟨hrun, rfl⟩]
  have hplan : Reads (handle codec sha256Digest).exec (requestedPlanId run) s
      (.ok (run.activePlanId <|> (s.plansOf run.runId).head?.map PlanSpec.planId)) := by
    unfold requestedPlanId
    cases run.activePlanId with
    | some planId => exact Reads.pure
    | none => exact Handler.reads fun t => rfl
  have hselect (planId : Option String) : Reads (handle codec sha256Digest).exec
      (tasksOfPlan reader run.runId planId) s
      (match planId with
        | some planId => s.selectTasks run.runId planId
        | none => .ok []) := by
    cases planId with
    | some planId => exact Handler.reads fun t => rfl
    | none => exact Reads.pure
  have hrun : Reads (handle codec sha256Digest).exec (sql (.getRun run.runId)) s (.ok run) :=
    Handler.reads fun t => by rw [← hget]; rfl
  exact (hrun.bind (hplan.bind (hselect _))).returns

theorem readBack_of_bound (hbound : ∀ task ∈ s.tasks.rows, task.attemptsWithinBound)
    (run : RunRecord) : ∃ tasks, readBack s run = .ok tasks := by
  unfold readBack
  split
  · exact selectTasks_of_bound hbound _ _
  · exact ⟨[], rfl⟩

/-! ## Every run -/

/-- Along every interleaving of service calls in which no waiting task without an attempt left is
made ready: the attempts of every task stay within its bound, and the tasks of every run can be
read. -/
theorem service_attemptBound
    (hreach : PoolRuns (guardedExec sparesAttempts codec sha256Digest)
      (servicePool processes (freshStore journal)) P) :
    (∀ task ∈ P.shared.tasks.rows, task.attemptsWithinBound) ∧
    ∀ run ∈ P.shared.runs.rows, ∀ reader, ∃ tasks,
      Returns (handle codec sha256Digest).exec (getTasks reader run.runId) P.shared
        (.ok tasks) := by
  have hsound := @sound_freshStore Text spareAttempts journal
  have hserved : Served spareAttempts (fun _ => unwatched) codec sha256Digest
    (servicePool processes (freshStore journal)) := served_servicePool hsound
  have hevolves : Evolves spareAttempts (ledger (freshStore journal)) (ledger P.shared) :=
    hserved.evolves (apart_of_not id)
      (admitted_of_guarded (fun _ _ _ _ => admits_spareAttempts) (threadRuns_of_poolRuns hreach))
  obtain ⟨hsound', -⟩ := hevolves.invariant (I := fun _ => True) hsound trivial
    fun _ _ _ _ _ => trivial
  have hbound : ∀ task ∈ P.shared.tasks.rows, task.attemptsWithinBound :=
    fun task htask => ((hsound'.facts task htask).budget trivial).1
  refine ⟨hbound, fun run hrun reader => ?_⟩
  obtain ⟨tasks, htasks⟩ := readBack_of_bound hbound run
  exact ⟨tasks, htasks ▸ getTasks_returns hrun reader⟩

/-! ## A review of the only attempt -/

/-- A task with one attempt, whose failure is reviewed. -/
def reviewedTask : TaskSpec :=
  { taskId := "A", title := "task", description := "one small task", maximumAttempts := 1
    failurePolicy := .MANUAL_REVIEW, unique_dependencies := List.nodup_nil
    reject_self_dependency := List.not_mem_nil }

def reviewedPlan : PlanSpec :=
  { plainPlan with tasks := [reviewedTask] }

/-- A turn of one process for each identifier, in which its task fails. -/
def failingTurns {κ : Type} (i : κ) (freshIds : List String) : List (κ × Supply) :=
  freshIds.map fun freshId =>
    (i, { plainSupply freshId with outcome := .error (.of .toolExecution "failed") })

/-- A creation, an advance, and a resume. -/
def reviewPool : Pool (StoreOp CheckpointEnvelope) Exn (StoreState CheckpointEnvelope) Nat :=
  plainPool fun
    | 0 => .createRun "objective" "owner" "key" none
    | 1 => .advance "run-r" "owner" none
    | _ => .resume "run-r" "owner" none none

def reviewTurns : List (Nat × Supply) :=
  planTurns reviewedPlan 0 (List.replicate 38 "r") ++
    failingTurns 1 ((List.range 120).map toString)

/-- The resume of a run that waits for the review of its only attempt ends in a second attempt,
and the tasks of the run can no longer be read. -/
theorem service_attemptBound_exceeded : ∃ P, PoolRuns plainExec reviewPool P ∧
    (∃ task ∈ P.shared.tasks.rows, ¬ task.attemptsWithinBound) ∧
    ∃ run ∈ P.shared.runs.rows, ∃ e, ∀ reader,
      Returns (handle plainCodec plainAgent.sha256Digest).exec (getTasks reader run.runId) P.shared
        (.error e) := by
  have hreach := plainPlay_runs
    (reviewTurns ++ turns 2 ((List.range 60).map fun n => toString (n + 200))) reviewPool
  refine ⟨_, hreach, by decide +kernel, ?_⟩
  obtain ⟨run, hrun, hunread⟩ : ∃ run ∈ (plainPlay (reviewTurns ++ turns 2
      ((List.range 60).map fun n => toString (n + 200))) reviewPool).shared.runs.rows,
      (readBack (plainPlay (reviewTurns ++ turns 2
        ((List.range 60).map fun n => toString (n + 200))) reviewPool).shared run).toOption = none := by
    decide +kernel
  obtain ⟨e, he⟩ : ∃ e, readBack _ run = .error e := by
    cases h : readBack (plainPlay (reviewTurns ++ turns 2
      ((List.range 60).map fun n => toString (n + 200))) reviewPool).shared run with
    | error e => exact ⟨e, h⟩
    | ok tasks => rw [h] at hunread; cases hunread
  exact ⟨run, hrun, e, fun reader => he ▸ getTasks_returns hrun reader⟩

/-- Up to the review every step meets the condition. -/
theorem service_attemptBound_review : ∃ P,
    PoolRuns (guardedExec sparesAttempts plainCodec plainAgent.sha256Digest) reviewPool P ∧
    (P.shared.tasks.rows.map TaskRecord.state) = [.WAITING] ∧
    ∀ task ∈ P.shared.tasks.rows, task.attemptsWithinBound := by
  have hreach : PoolRuns (guardedExec sparesAttempts plainCodec plainAgent.sha256Digest) reviewPool
      (plainPlay reviewTurns reviewPool) :=
    (Pool.play_guarded _ sparesAttempts reviewTurns reviewPool (by decide +kernel)).mono
      fun _ _ _ _ _ => .inl
  exact ⟨_, hreach, by decide +kernel, (service_attemptBound hreach).1⟩

end DurableAgent.Orchestration
