import DurableAgent.Persistence.Store

/-!
# The lifecycle of runs and tasks

What one committed step may do to the tables of runs, plans, tasks and attempts. The store
checks versions only; that a step is one of these moves comes from the programs, which compute
every row they write from a copy that the version proves to be current.
-/

namespace DurableAgent.Orchestration

open Library Store

/-- The tables that the lifecycle is about. -/
structure Ledger where
  runs : Table RunRecord.runId
  plans : Table PlanSpec.planId
  tasks : Table TaskRecord.taskPk
  attempts : Table TaskAttempt.attemptId

/-- What is assumed of the steps beyond what the code sees to: that the tasks which an advance
reads are at rest and of the plan that is active when it fails the run, that no resume readies a
task whose attempts are spent, and that no start counts to a number that was counted to before. -/
structure Assumed where
  calm : Prop
  budget : Prop
  numbered : Prop

/-! ## Copies of rows -/

/-- What a run row may become. -/
def RunLater (a b : RunRecord) : Prop := RunLegal a.state b.state

/-- What a task row may become. -/
def TaskLater (a b : TaskRecord) : Prop :=
  b.spec = a.spec ∧ TaskLegal a.state b.state ∧ a.attemptCount ≤ b.attemptCount

instance : IsTrans RunRecord RunLater := ⟨fun _ _ _ hab hbc => Relation.ReflTransGen.trans hab hbc⟩

instance : IsTrans TaskRecord TaskLater :=
  ⟨fun _ _ _ hab hbc => ⟨hbc.1.trans hab.1, Relation.ReflTransGen.trans hab.2.1 hbc.2.1,
    Nat.le_trans hab.2.2 hbc.2.2⟩⟩

abbrev Ledger.RunCopy (s : Ledger) (run : RunRecord) : Prop :=
  s.runs.Copy RunRecord.version RunLater run

abbrev Ledger.TaskCopy (s : Ledger) (task : TaskRecord) : Prop :=
  s.tasks.Copy TaskRecord.version TaskLater task

/-- A state that a run has only after its plan was made active. -/
def Planned (state : RunState) : Prop := state ≠ .CREATED ∧ state ≠ .PLANNING

theorem Planned.legal {s t : RunState} (hs : Planned s) (h : RunLegal s t) : Planned t := by
  induction h with
  | refl => exact hs
  | @tail s t _ hedge ih =>
    obtain ⟨hc, hp⟩ := ih
    cases s <;> cases t <;> simp_all [Edge, runTransitions, Planned]

/-! ## Facts about rows -/

/-- A state at rest: no worker holds the task and no review is awaited. -/
def AtRest (state : TaskState) : Prop := state ≠ .RUNNING ∧ state ≠ .WAITING

instance (state : TaskState) : Decidable (AtRest state) := inferInstanceAs (Decidable (_ ∧ _))

/-- What every task record satisfies by itself. -/
structure TaskFacts (g : Assumed) (task : TaskRecord) : Prop where
  unpaused : task.state ≠ .PAUSED ∧ task.state ≠ .PAUSE_REQUESTED
  attempted : task.state = .RUNNING ∨ task.state = .SUCCEEDED → 1 ≤ task.attemptCount
  budget : g.budget → task.attemptCount ≤ task.spec.maximumAttempts ∧
    (Schedulable task.state → task.attemptCount < task.spec.maximumAttempts)

/-- The row of a plan's task. -/
def InPlan (plan : PlanSpec) (task : TaskRecord) : Prop :=
  task.runId = plan.runId ∧ task.planId = plan.planId

/-- The plan is stored with all its tasks. -/
def Materialized (s : Ledger) (plan : PlanSpec) : Prop :=
  plan ∈ s.plans.rows ∧ ∀ spec ∈ plan.tasks, ∃ row ∈ s.tasks.rows, InPlan plan row ∧ row.spec = spec

/-- Rows of the plan that bear the dependencies of a task have succeeded. -/
def DependenciesDone (s : Ledger) (task : TaskRecord) : Prop :=
  ∀ d ∈ task.spec.dependencies, ∃ row ∈ s.tasks.rows, row.runId = task.runId ∧
    row.planId = task.planId ∧ row.spec.taskId = d ∧ row.state = .SUCCEEDED

/-- Some task beside this one has failed for good. -/
def FailedBeside (s : Ledger) (runId planId : String) : Prop :=
  ∃ row ∈ s.tasks.rows, row.runId = runId ∧ row.planId = planId ∧ row.state = .FAILED_TERMINAL

/-- A list of records that were read from the rows of a plan, one for each of its tasks. -/
structure TaskView (g : Assumed) (s : Ledger) (home : PlanSpec) (tasks : List TaskRecord) :
    Prop where
  stored : home ∈ s.plans.rows
  inPlan : ∀ task ∈ tasks, InPlan home task
  copies : ∀ task ∈ tasks, s.TaskCopy task
  facts : ∀ task ∈ tasks, TaskFacts g task
  known : ∀ task ∈ tasks, task.spec ∈ home.tasks
  covers : ∀ spec ∈ home.tasks, spec ∈ tasks.map TaskRecord.spec
  nodup : (tasks.map fun task => task.spec.taskId).Nodup

/-- Every record is at rest. -/
def Calm (tasks : List TaskRecord) : Prop := ∀ task ∈ tasks, AtRest task.state

/-- Some view of the plan shows nothing ready and not everything settled. -/
def Stuck (g : Assumed) (s : Ledger) (home : PlanSpec) : Prop :=
  ∃ tasks, TaskView g s home tasks ∧ readyTasks tasks = .ok [] ∧
    (∃ task ∈ tasks, task.state ≠ .SUCCEEDED ∧ task.state ≠ .SKIPPED) ∧ (g.calm → Calm tasks)

/-- The plan leaves nothing to do or has a task that has failed for good. -/
def Hopeless (g : Assumed) (s : Ledger) (home : PlanSpec) : Prop :=
  home ∈ s.plans.rows ∧ (Stuck g s home ∨ FailedBeside s home.runId home.planId)

/-- All tasks of some plan of the run have succeeded or were skipped. -/
def Finished (s : Ledger) (runId : String) : Prop :=
  ∃ home ∈ s.plans.rows, home.runId = runId ∧ ∀ spec ∈ home.tasks, ∃ row ∈ s.tasks.rows,
    InPlan home row ∧ row.spec = spec ∧ (row.state = .SUCCEEDED ∨ row.state = .SKIPPED)

/-! ## Steps of rows -/

/-- The plan that becomes active is a plan of the run and stored with its tasks. -/
def Activates (s : Ledger) (run : RunRecord) : Prop :=
  ∃ plan, run.activePlanId = some plan.planId ∧ plan.runId = run.runId ∧ Materialized s plan

structure RunStep (g : Assumed) (s : Ledger) (old new : RunRecord) : Prop where
  runId : new.runId = old.runId
  version : new.version = old.version + 1
  legal : RunLegal old.state new.state
  plan : (new.activePlanId = old.activePlanId ∧ (Planned new.state → Planned old.state)) ∨
    ((old.state = .PLANNING ∨ old.state = .RECOVERING) ∧ Activates s new)
  completed : new.state = .COMPLETED → old.state = .COMPLETED ∨ Finished s new.runId
  failed : new.state = .FAILED → old.state = .FAILED ∨ ∃ home, home.runId = new.runId ∧
    (g.calm → new.activePlanId = some home.planId) ∧ Hopeless g s home

structure TaskStep (g : Assumed) (s : Ledger) (old new : TaskRecord) : Prop where
  runId : new.runId = old.runId
  planId : new.planId = old.planId
  spec : new.spec = old.spec
  version : new.version = old.version + 1
  legal : TaskLegal old.state new.state
  started : new.state = .RUNNING →
    new.attemptCount = old.attemptCount + 1 ∧ old.state = .READY ∧ DependenciesDone s old
  counted : new.state ≠ .RUNNING → new.attemptCount = old.attemptCount
  skipped : new.state = .SKIPPED → FailedBeside s old.runId old.planId
  facts : TaskFacts g new

/-- A row that is inserted: of a plan of its run, and either new or carried over from a record
of the run under the same spec. -/
structure NewTask (g : Assumed) (s : Ledger) (task : TaskRecord) : Prop where
  placed : ∃ plan ∈ s.plans.rows, InPlan plan task ∧ task.spec ∈ plan.tasks
  origin : (task.state = .PENDING ∧ task.attemptCount = 0) ∨
    ∃ prior, s.TaskCopy prior ∧ prior.runId = task.runId ∧ prior.spec = task.spec ∧
      prior.state = task.state ∧ prior.attemptCount = task.attemptCount
  facts : TaskFacts g task

/-- No attempt is added, and those that change are closed. -/
def Closes (attempts attempts' : Table TaskAttempt.attemptId) : Prop :=
  ∀ a ∈ attempts'.rows, a ∈ attempts.rows ∨ (a.finishedAt ≠ none ∧ ∃ b ∈ attempts.rows,
    b.attemptId = a.attemptId ∧ b.runId = a.runId ∧ b.taskId = a.taskId ∧
      b.attemptNumber = a.attemptNumber)

/-- What one committed step may do. -/
inductive Move (g : Assumed) (s : Ledger) : Ledger → Prop where
  | quiet : Move g s s
  | newRun {run : RunRecord} {runs : Table RunRecord.runId} (hstate : run.state = .CREATED)
      (hrows : runs.rows = run :: s.runs.rows) : Move g s { s with runs := runs }
  | run {old new : RunRecord} (hold : old ∈ s.runs.rows) (hstep : RunStep g s old new) :
      Move g s { s with runs := s.runs.replace new }
  | newPlan {plan : PlanSpec} {plans : Table PlanSpec.planId}
      (hvalid : validatePlan plan 20 = .ok plan) (hrows : plans.rows = plan :: s.plans.rows) :
      Move g s { s with plans := plans }
  | newTasks {new : List TaskRecord} {tasks : Table TaskRecord.taskPk}
      (hnew : ∀ task ∈ new, NewTask g s task)
      (hrows : ∀ a, a ∈ tasks.rows ↔ a ∈ new ∨ a ∈ s.tasks.rows) :
      Move g s { s with tasks := tasks }
  | task {old new : TaskRecord} {attempts : Table TaskAttempt.attemptId}
      (hold : old ∈ s.tasks.rows) (hstep : TaskStep g s old new)
      (hattempts : Closes s.attempts attempts) :
      Move g s { s with tasks := s.tasks.replace new, attempts := attempts }
  | openAttempt {a : TaskAttempt} {attempts : Table TaskAttempt.attemptId}
      (hstarted : ∃ row ∈ s.tasks.rows, row.runId = a.runId ∧ row.spec.taskId = a.taskId ∧
        a.attemptNumber ≤ row.attemptCount ∧ 1 ≤ a.attemptNumber)
      (hrows : attempts.rows = a :: s.attempts.rows) : Move g s { s with attempts := attempts }
  | closeAttempts {attempts : Table TaskAttempt.attemptId} (hattempts : Closes s.attempts attempts) :
      Move g s { s with attempts := attempts }

/-- Any number of moves. -/
def Evolves (g : Assumed) : Ledger → Ledger → Prop := Relation.ReflTransGen (Move g)

/-! ## What moves preserve -/

variable {g : Assumed} {s s' : Ledger}

theorem RunStep.later {old new : RunRecord} (h : RunStep g s old new) (hold : old ∈ s.runs.rows) :
    s.runs.Evolves RunRecord.version RunLater (s.runs.replace new) := by
  have hv := h.version
  exact Table.replace_evolves hold h.runId (by omega) h.legal

theorem TaskStep.taskPk {old new : TaskRecord} (h : TaskStep g s old new) :
    new.taskPk = old.taskPk := by
  rw [TaskRecord.taskPk, TaskRecord.taskPk, h.runId, h.planId, h.spec]

theorem TaskStep.le_count {old new : TaskRecord} (h : TaskStep g s old new) :
    old.attemptCount ≤ new.attemptCount := by
  by_cases hrunning : new.state = .RUNNING
  · rw [(h.started hrunning).1]
    omega
  · rw [h.counted hrunning]

theorem TaskStep.later {old new : TaskRecord} (h : TaskStep g s old new)
    (hold : old ∈ s.tasks.rows) :
    s.tasks.Evolves TaskRecord.version TaskLater (s.tasks.replace new) := by
  have hv := h.version
  exact Table.replace_evolves hold h.taskPk (by omega) ⟨h.spec, h.legal, h.le_count⟩

/-- Rows are never deleted, and change along the declared transitions under growing versions. -/
theorem Move.grows (h : Move g s s') :
    s.runs.Evolves RunRecord.version RunLater s'.runs ∧
      s.tasks.Evolves TaskRecord.version TaskLater s'.tasks ∧
      ∀ plan ∈ s.plans.rows, plan ∈ s'.plans.rows := by
  cases h with
  | quiet => exact ⟨.refl _, .refl _, fun _ h => h⟩
  | newRun hstate hrows =>
    exact ⟨.of_subset fun a ha => by simp [hrows, ha], .refl _, fun _ h => h⟩
  | run hold hstep => exact ⟨hstep.later hold, .refl _, fun _ h => h⟩
  | newPlan hvalid hrows => exact ⟨.refl _, .refl _, fun a ha => by simp [hrows, ha]⟩
  | newTasks hnew hrows =>
    exact ⟨.refl _, .of_subset fun a ha => (hrows a).mpr (.inr ha), fun _ h => h⟩
  | task hold hstep => exact ⟨.refl _, hstep.later hold, fun _ h => h⟩
  | openAttempt => exact ⟨.refl _, .refl _, fun _ h => h⟩
  | closeAttempts => exact ⟨.refl _, .refl _, fun _ h => h⟩

theorem Evolves.grows (h : Evolves g s s') :
    s.runs.Evolves RunRecord.version RunLater s'.runs ∧
      s.tasks.Evolves TaskRecord.version TaskLater s'.tasks ∧
      ∀ plan ∈ s.plans.rows, plan ∈ s'.plans.rows := by
  induction h with
  | refl => exact ⟨.refl _, .refl _, fun _ h => h⟩
  | tail _ hmove ih =>
    obtain ⟨hruns, htasks, hplans⟩ := hmove.grows
    exact ⟨ih.1.trans hruns, ih.2.1.trans htasks, fun plan hplan => hplans plan (ih.2.2 plan hplan)⟩

/-! ## Knowledge that moves keep -/

theorem Evolves.runCopy (h : Evolves g s s') {run : RunRecord} (hrun : s.RunCopy run) :
    s'.RunCopy run :=
  Table.Copy.evolve hrun h.grows.1

theorem Evolves.taskCopy (h : Evolves g s s') {task : TaskRecord} (htask : s.TaskCopy task) :
    s'.TaskCopy task :=
  Table.Copy.evolve htask h.grows.2.1

/-- A row keeps its identity and, once its state is terminal, its state. -/
theorem Evolves.row (h : Evolves g s s') {row : TaskRecord} (hrow : row ∈ s.tasks.rows) :
    ∃ row' ∈ s'.tasks.rows, row'.runId = row.runId ∧ row'.planId = row.planId ∧
      row'.spec = row.spec ∧ (Terminal taskTransitions row.state → row'.state = row.state) := by
  obtain ⟨row', hrow', hkey, hlater⟩ := h.grows.2.1 row hrow
  have hkey' := Prod.mk.inj hkey
  have hplan := (Prod.mk.inj hkey'.2).1
  rcases hlater with rfl | ⟨-, hspec, hlegal, -⟩
  · exact ⟨row', hrow', rfl, rfl, rfl, fun _ => rfl⟩
  · exact ⟨row', hrow', hkey'.1, hplan, hspec, fun hterminal => hlegal.eq_of_terminal hterminal⟩

/-- What has been counted to stays counted to. -/
theorem Evolves.counted (h : Evolves g s s') {runId taskId : String} {n : Nat}
    (hrow : ∃ row ∈ s.tasks.rows, row.runId = runId ∧ row.spec.taskId = taskId ∧
      n ≤ row.attemptCount) :
    ∃ row ∈ s'.tasks.rows, row.runId = runId ∧ row.spec.taskId = taskId ∧
      n ≤ row.attemptCount := by
  obtain ⟨row, hrow, rfl, rfl, hle⟩ := hrow
  obtain ⟨row', hrow', hkey, hlater⟩ := h.grows.2.1 row hrow
  have hkey' := Prod.mk.inj hkey
  refine ⟨row', hrow', hkey'.1, (Prod.mk.inj hkey'.2).2, ?_⟩
  rcases hlater with rfl | ⟨-, -, -, hle'⟩
  · exact hle
  · exact Nat.le_trans hle hle'

theorem Evolves.materialized (h : Evolves g s s') {plan : PlanSpec} (hplan : Materialized s plan) :
    Materialized s' plan := by
  refine ⟨h.grows.2.2 plan hplan.1, fun spec hspec => ?_⟩
  obtain ⟨row, hrow, hin, rfl⟩ := hplan.2 spec hspec
  obtain ⟨row', hrow', hrun, hid, hsame, -⟩ := h.row hrow
  exact ⟨row', hrow', ⟨hrun.trans hin.1, hid.trans hin.2⟩, hsame⟩

theorem Evolves.dependenciesDone (h : Evolves g s s') {task : TaskRecord}
    (htask : DependenciesDone s task) : DependenciesDone s' task := by
  intro d hd
  obtain ⟨row, hrow, hrun, hplan, hid, hstate⟩ := htask d hd
  obtain ⟨row', hrow', hrun', hplan', hspec, hsame⟩ := h.row hrow
  refine ⟨row', hrow', hrun'.trans hrun, hplan'.trans hplan, by rw [hspec, hid], ?_⟩
  rw [hsame ((terminal_task_iff _).mpr (.inl hstate)), hstate]

theorem Evolves.failedBeside (h : Evolves g s s') {runId planId : String}
    (hfailed : FailedBeside s runId planId) : FailedBeside s' runId planId := by
  obtain ⟨row, hrow, hrun, hplan, hstate⟩ := hfailed
  obtain ⟨row', hrow', hrun', hplan', -, hsame⟩ := h.row hrow
  refine ⟨row', hrow', hrun'.trans hrun, hplan'.trans hplan, ?_⟩
  rw [hsame ((terminal_task_iff _).mpr (.inr (.inl hstate))), hstate]

theorem Evolves.taskView (h : Evolves g s s') {home : PlanSpec} {tasks : List TaskRecord}
    (hview : TaskView g s home tasks) : TaskView g s' home tasks :=
  { hview with
    stored := h.grows.2.2 home hview.stored
    copies := fun task htask => h.taskCopy (hview.copies task htask) }

/-! ## Soundness of the ledger -/

structure Sound (g : Assumed) (s : Ledger) : Prop where
  activated : ∀ run ∈ s.runs.rows, Planned run.state → Activates s run
  placed : ∀ task ∈ s.tasks.rows, ∃ plan ∈ s.plans.rows, InPlan plan task ∧ task.spec ∈ plan.tasks
  facts : ∀ task ∈ s.tasks.rows, TaskFacts g task
  valid : ∀ plan ∈ s.plans.rows, validatePlan plan 20 = .ok plan
  counted : ∀ a ∈ s.attempts.rows, ∃ row ∈ s.tasks.rows, row.runId = a.runId ∧
    row.spec.taskId = a.taskId ∧ a.attemptNumber ≤ row.attemptCount

theorem Evolves.activates (h : Evolves g s s') {run : RunRecord} (hrun : Activates s run) :
    Activates s' run := by
  obtain ⟨plan, hactive, howner, hplan⟩ := hrun
  exact ⟨plan, hactive, howner, h.materialized hplan⟩

theorem TaskStep.placed {old new : TaskRecord} (h : TaskStep g s old new) {plan : PlanSpec}
    (hold : InPlan plan old ∧ old.spec ∈ plan.tasks) : InPlan plan new ∧ new.spec ∈ plan.tasks :=
  ⟨⟨h.runId.trans hold.1.1, h.planId.trans hold.1.2⟩, h.spec ▸ hold.2⟩

/-- A move leads from a sound ledger to a sound ledger. -/
theorem Move.sound (h : Move g s s') (hs : Sound g s) : Sound g s' := by
  have hevolves : Evolves g s s' := .single h
  have hactivated : ∀ run ∈ s.runs.rows, Planned run.state → Activates s' run :=
    fun run hrun hplanned => hevolves.activates (hs.activated run hrun hplanned)
  have hcounted : ∀ a ∈ s.attempts.rows, ∃ row ∈ s'.tasks.rows, row.runId = a.runId ∧
      row.spec.taskId = a.taskId ∧ a.attemptNumber ≤ row.attemptCount :=
    fun a ha => hevolves.counted (hs.counted a ha)
  have hclosed : ∀ attempts : Table TaskAttempt.attemptId, Closes s.attempts attempts →
      ∀ a ∈ attempts.rows, ∃ row ∈ s'.tasks.rows, row.runId = a.runId ∧
        row.spec.taskId = a.taskId ∧ a.attemptNumber ≤ row.attemptCount := by
    intro attempts hattempts a ha
    rcases hattempts a ha with hmem | ⟨-, b, hb, -, hrun, htask, hnumber⟩
    · exact hcounted a hmem
    · rw [← hrun, ← htask, ← hnumber]
      exact hcounted b hb
  cases h with
  | quiet => exact hs
  | @newRun run runs hstate hrows =>
    refine { hs with activated := fun r hr hplanned => ?_ }
    change r ∈ runs.rows at hr
    rw [hrows] at hr
    rcases List.mem_cons.mp hr with rfl | hr
    · exact absurd hstate hplanned.1
    · exact hactivated r hr hplanned
  | @run old new hold hstep =>
    refine { hs with activated := fun r hr hplanned => ?_ }
    rcases (Table.mem_replace hold hstep.runId r).mp hr with rfl | ⟨hr, -⟩
    · rcases hstep.plan with ⟨hsame, hplanned'⟩ | ⟨-, hactive⟩
      · obtain ⟨plan, hactive, howner, hplan⟩ := hactivated old hold (hplanned' hplanned)
        exact ⟨plan, hsame.trans hactive, howner.trans hstep.runId.symm, hplan⟩
      · exact hevolves.activates hactive
    · exact hactivated r hr hplanned
  | @newPlan plan plans hvalid hrows =>
    have hmem : ∀ p ∈ s.plans.rows, p ∈ plans.rows := fun p hp => by simp [hrows, hp]
    refine ⟨hactivated, fun task htask => ?_, hs.facts, fun p hp => ?_, hcounted⟩
    · obtain ⟨p, hp, hin⟩ := hs.placed task htask
      exact ⟨p, hmem p hp, hin⟩
    · change p ∈ plans.rows at hp
      rw [hrows] at hp
      rcases List.mem_cons.mp hp with rfl | hp
      · exact hvalid
      · exact hs.valid p hp
  | @newTasks new tasks hnew hrows =>
    refine ⟨hactivated, fun task htask => ?_, fun task htask => ?_, hs.valid, hcounted⟩
    · rcases (hrows task).mp htask with htask | htask
      · exact (hnew task htask).placed
      · exact hs.placed task htask
    · rcases (hrows task).mp htask with htask | htask
      · exact (hnew task htask).facts
      · exact hs.facts task htask
  | @task old new attempts hold hstep hattempts =>
    refine ⟨hactivated, fun task htask => ?_, fun task htask => ?_, hs.valid,
      hclosed attempts hattempts⟩
    · rcases (Table.mem_replace hold hstep.taskPk task).mp htask with rfl | ⟨htask, -⟩
      · obtain ⟨plan, hplan, hin⟩ := hs.placed old hold
        exact ⟨plan, hplan, hstep.placed hin⟩
      · exact hs.placed task htask
    · rcases (Table.mem_replace hold hstep.taskPk task).mp htask with rfl | ⟨htask, -⟩
      · exact hstep.facts
      · exact hs.facts task htask
  | @openAttempt a attempts hstarted hrows =>
    refine ⟨hactivated, hs.placed, hs.facts, hs.valid, fun b hb => ?_⟩
    change b ∈ attempts.rows at hb
    rw [hrows] at hb
    rcases List.mem_cons.mp hb with rfl | hb
    · obtain ⟨row, hrow, hrun, htask, hle, -⟩ := hstarted
      exact ⟨row, hrow, hrun, htask, hle⟩
    · exact hcounted b hb
  | @closeAttempts attempts hattempts =>
    exact ⟨hactivated, hs.placed, hs.facts, hs.valid, hclosed attempts hattempts⟩

/-- What each move from a sound ledger preserves, any number of moves preserves. -/
theorem Evolves.invariant {I : Ledger → Prop} (h : Evolves g s s') (hs : Sound g s)
    (hinv : I s) (hstep : ∀ l l', Move g l l' → Sound g l → I l → I l') :
    Sound g s' ∧ I s' := by
  induction h with
  | refl => exact ⟨hs, hinv⟩
  | tail _ hmove ih => exact ⟨hmove.sound ih.1, hstep _ _ hmove ih.1 ih.2⟩

end DurableAgent.Orchestration
