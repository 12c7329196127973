import DurableAgent.Orchestration.Disposition
import DurableAgent.Application.Transitions

/-!
# Failures of a batch in any order

Whatever the order in which the failures of a batch are handled, the tasks, the attempts and the
run end in the same states and the same retries are asked for. A failure that is forced to be
terminal fails the run even where its task would let independent work go on.
-/

namespace DurableAgent.Orchestration

open Library Library.Prog Store

variable {Text : Type} {codec : Codec Text} {sha256Digest : String → String} {A : Agent Text}
  {s : StoreState Text} {failures : List Failure} {state : RunState}

/-! ## The state of the run -/

/-- A run that goes on, or that is asked to pause. -/
def Underway (state : RunState) : Prop := state = .RUNNING ∨ state = .PAUSE_REQUESTED

/-- A failure that is terminal, and is forced or does not let independent work go on. -/
def Agent.EndsRun (A : Agent Text) (f : Failure) : Prop :=
  A.failureTarget f = .FAILED_TERMINAL ∧
    (f.started.task.spec.failurePolicy ≠ .SKIP_DEPENDENTS ∨ f.forceTerminal = true)

theorem any_fatal_iff : failures.any A.fatal = true ↔ ∃ f ∈ failures, A.EndsRun f := by
  rw [List.any_eq_true]
  simp only [Agent.fatal_iff, Agent.EndsRun]

theorem disposedState_failed (hstate : Underway state) (h : ∃ f ∈ failures, A.EndsRun f) :
    A.disposedState failures state = .ok .FAILED := by
  unfold Agent.disposedState
  rw [if_pos (any_fatal_iff.mpr h)]
  rcases hstate with rfl | rfl <;> rfl

theorem disposedState_paused (hstate : Underway state) (h : ¬ ∃ f ∈ failures, A.EndsRun f)
    (hreview : ∃ f ∈ failures, f.requiresReview = true) :
    A.disposedState failures state = .ok .PAUSED := by
  unfold Agent.disposedState
  rw [if_neg (any_fatal_iff.not.mpr h), if_pos (List.any_eq_true.mpr hreview)]
  rcases hstate with rfl | rfl <;> rfl

theorem disposedState_unchanged (h : ¬ ∃ f ∈ failures, A.EndsRun f)
    (hreview : ¬ ∃ f ∈ failures, f.requiresReview = true) :
    A.disposedState failures state = .ok state := by
  unfold Agent.disposedState
  rw [if_neg (any_fatal_iff.not.mpr h), if_neg (List.any_eq_true.not.mpr hreview)]

/-! ## The order -/

/-- Failed attempts of distinct tasks of a validated plan, of any policies, errors and counts.
Every order of the failures leaves what the failures as a set call for, with all of them committed,
so that any two orders have one outcome. A run under way fails after a failure that ends it, pauses
after one that waits for a review, and goes on otherwise. -/
theorem handleBatchFailures_order {plan checked : PlanSpec} {maximumDepth : Int}
    (hplan : validatePlan plan maximumDepth = .ok checked) (tasks : List TaskRecord)
    (htasks : (tasks.map TaskRecord.spec).Perm plan.tasks) (hbatch : FailedBatch tasks failures s)
    (given run : RunRecord) (hrun : run ∈ s.runs.rows) (hid : run.runId = given.runId) :
    (∀ failures' : List Failure, failures'.Perm failures →
      (A.handleBatchFailures given plan tasks failures').Fulfils (handle codec sha256Digest).exec
        (Disposal A (tasks.map TaskRecord.spec) tasks failures run s) s) ∧
    (∀ failures₁ failures₂ : List Failure, failures₁.Perm failures → failures₂.Perm failures →
      ∀ r₁ s₁ r₂ s₂, Runs (handle codec sha256Digest).exec
          (A.handleBatchFailures given plan tasks failures₁) s r₁ s₁ →
        Runs (handle codec sha256Digest).exec
          (A.handleBatchFailures given plan tasks failures₂) s r₂ s₂ →
        SameOutcome tasks run.runId r₁ s₁ r₂ s₂) ∧
    ∀ state, Underway state →
      ((∃ f ∈ failures, A.EndsRun f) → A.disposedState failures state = .ok .FAILED) ∧
      ((¬ ∃ f ∈ failures, A.EndsRun f) → (∃ f ∈ failures, f.requiresReview = true) →
        A.disposedState failures state = .ok .PAUSED) ∧
      ((¬ ∃ f ∈ failures, A.EndsRun f) → (¬ ∃ f ∈ failures, f.requiresReview = true) →
        A.disposedState failures state = .ok state) := by
  have hacyclic : Acyclic (DependsOn (tasks.map TaskRecord.spec)) := by
    have hspecs : DependsOn (tasks.map TaskRecord.spec) = DependsOn plan.tasks := by
      funext a b
      unfold DependsOn
      simp only [htasks.mem_iff]
    rw [hspecs]
    exact (executable_of_validatePlan hplan).acyclic
  have hdisposal (failures' : List Failure) (hperm : failures'.Perm failures) :
      (A.handleBatchFailures given plan tasks failures').Fulfils (handle codec sha256Digest).exec
        (Disposal A (tasks.map TaskRecord.spec) tasks failures run s) s :=
    (handleBatchFailures_fulfils hacyclic (hbatch.perm hperm) hrun hid).mono
      fun _ _ h => h.perm hperm
  refine ⟨hdisposal, ?_, fun state hstate => ⟨?_, ?_, ?_⟩⟩
  · intro failures₁ failures₂ hperm₁ hperm₂ r₁ s₁ r₂ s₂ hrun₁ hrun₂
    exact ((hdisposal failures₁ hperm₁).runs hrun₁).sameOutcome
      ((hdisposal failures₂ hperm₂).runs hrun₂)
  · exact disposedState_failed hstate
  · exact disposedState_paused hstate
  · exact disposedState_unchanged

/-! ## Small batches -/

def pairRun : RunRecord :=
  { runId := "run", ownerId := "owner", objective := "objective", state := .RUNNING
    configurationFingerprint := "f", createdAt := 0, updatedAt := 0 }

/-- The two tasks of the small plan, both running. -/
def runningPair : List TaskRecord :=
  (pairRecords .RUNNING).map fun task => { task with state := .RUNNING }

/-- A store that holds the run, its tasks and the open attempts of some of them. -/
def batchStore (tasks : Table TaskRecord.taskPk) (attempts : Table TaskAttempt.attemptId) :
    StoreState CheckpointEnvelope :=
  { taskStore tasks with runs := ⟨[pairRun], by decide⟩, attempts := attempts }

/-- An open attempt, under the identifier of its task. -/
def openedAttempt (taskId : String) : TaskAttempt :=
  { attemptId := taskId, runId := "run", taskId, attemptNumber := 1, state := .RUNNING
    startedAt := 0 }

def pairStore : StoreState CheckpointEnvelope :=
  batchStore ⟨runningPair, by decide⟩ ⟨[openedAttempt "a", openedAttempt "b"], by decide⟩

/-- A failure of a task at a place of a list. -/
def failureAt (index : Nat) (task : TaskRecord) (forceTerminal : Bool) : Failure :=
  ⟨⟨index, task, task.spec.taskId⟩, ⟨.toolExecution, "failed"⟩, forceTerminal⟩

def pairFailures : List Failure :=
  [failureAt 0 runningPair[0] false, failureAt 1 runningPair[1] true]

theorem failedBatch_pair : FailedBatch runningPair pairFailures pairStore where
  held _ h := h
  unique := by decide
  distinct := by decide
  placed := by decide
  running := by decide
  attempts := by decide
  opened := by decide

/-- One failure first, or the other. -/
theorem handleBatchFailures_order_pair : ∃ r₁ s₁ r₂ s₂,
    Runs (handle plainCodec id).exec
      (plainAgent.handleBatchFailures pairRun pairPlan runningPair pairFailures) pairStore r₁ s₁ ∧
    Runs (handle plainCodec id).exec
      (plainAgent.handleBatchFailures pairRun pairPlan runningPair pairFailures.reverse) pairStore
      r₂ s₂ ∧ SameOutcome runningPair "run" r₁ s₁ r₂ s₂ := by
  obtain ⟨hdisposal, hsame, -⟩ := @handleBatchFailures_order _ plainCodec id plainAgent _ _ _ _ _
    validatePlan_pairPlan runningPair (.refl _) failedBatch_pair pairRun pairRun
    List.mem_cons_self rfl
  obtain ⟨r₁, s₁, hrun₁⟩ := (hdisposal pairFailures (.refl _)).exists_run
  obtain ⟨r₂, s₂, hrun₂⟩ :=
    (hdisposal pairFailures.reverse (List.reverse_perm pairFailures)).exists_run
  exact ⟨r₁, s₁, r₂, s₂, hrun₁, hrun₂, hsame pairFailures pairFailures.reverse (.refl _)
    (List.reverse_perm pairFailures) r₁ s₁ r₂ s₂ hrun₁ hrun₂⟩

theorem pair_second : 1 < pairTasks.length := by decide

/-- A task whose failures let independent work go on. -/
def independentTask : TaskRecord :=
  { runId := "run", planId := "plan", state := .RUNNING
    spec := { pairTasks.get ⟨1, pair_second⟩ with failurePolicy := .SKIP_DEPENDENTS } }

def forcedFailure : Failure := failureAt 0 independentTask true

def forcedStore : StoreState CheckpointEnvelope :=
  batchStore ⟨[independentTask], by decide⟩ ⟨[openedAttempt "a"], by decide⟩

theorem failedBatch_forced : FailedBatch [independentTask] [forcedFailure] forcedStore where
  held _ h := h
  unique := by decide
  distinct := by decide
  placed := by decide
  running := by decide
  attempts := by decide
  opened := by decide

/-- A forced failure of a task whose policy is to skip its dependents fails the run, although no
failure of the batch is terminal without that policy and none waits for a review. -/
theorem handleBatchFailures_forced : pairRun.state = .RUNNING ∧
    (¬ ∃ f ∈ [forcedFailure], plainAgent.failureTarget f = .FAILED_TERMINAL ∧
      f.started.task.spec.failurePolicy ≠ .SKIP_DEPENDENTS) ∧
    (¬ ∃ f ∈ [forcedFailure], f.requiresReview = true) ∧
    ∃ r s', Runs (handle plainCodec id).exec
      (plainAgent.handleBatchFailures pairRun pairPlan [independentTask] [forcedFailure])
      forcedStore r s' ∧ ∃ row ∈ s'.runs.rows, row.runId = pairRun.runId ∧ row.state = .FAILED := by
  refine ⟨rfl, by decide, by decide, ?_⟩
  have hacyclic : Acyclic (DependsOn ([independentTask].map TaskRecord.spec)) := by
    refine @acyclic_of_rank _ _ (fun _ => 0) ?_
    rintro a b ⟨task, htask, -, hb⟩
    rw [List.mem_singleton.mp htask] at hb
    cases hb
  have hfulfils : Fulfils (handle plainCodec id).exec
      (plainAgent.handleBatchFailures pairRun pairPlan [independentTask] [forcedFailure])
      (Disposal plainAgent _ _ _ pairRun forcedStore) forcedStore :=
    handleBatchFailures_fulfils hacyclic failedBatch_forced List.mem_cons_self rfl
  obtain ⟨r, s', hrun⟩ := hfulfils.exists_run
  obtain ⟨row, hrow, hid, hstate, -⟩ := (hfulfils.runs hrun).run
  exact ⟨r, s', hrun, row, hrow, hid, hstate .FAILED rfl⟩

end DurableAgent.Orchestration
