import DurableAgent.Application.Transitions

/-!
# Dependency safety

In a run whose plan was never revised, a task has attempts only after its dependencies have
succeeded, and a completed run has no skipped task: tasks are skipped beside a task that has
failed for good only, and that task is not settled.
-/

namespace DurableAgent.Orchestration

open Library Library.Prog Store

variable {Text ι : Type} [DecidableEq ι] {codec : Codec Text} {sha256Digest : String → String}
  {P P' : Pool (StoreOp Text) Exn (StoreState Text) ι} {processes : ι → Process Text}
  {journal : Tools.World} {g : Assumed} {s s' : Ledger} {runId : String}

/-- The run has no two plans. -/
def Unrevised (s : Ledger) (runId : String) : Prop :=
  ∀ p ∈ s.plans.rows, ∀ q ∈ s.plans.rows, p.runId = runId → q.runId = runId → p = q

instance (s : Ledger) (runId : String) : Decidable (Unrevised s runId) :=
  inferInstanceAs (Decidable (∀ _ ∈ _, ∀ _ ∈ _, _))

theorem Unrevised.before (h : Unrevised s' runId) (hevolves : Evolves g s s') :
    Unrevised s runId := by
  intro p hp q hq
  exact h p (hevolves.grows.2.2 p hp) q (hevolves.grows.2.2 q hq)

/-- What holds of the tasks and the runs of one plan. -/
structure Ordered (s : Ledger) (runId : String) : Prop where
  begun : ∀ task ∈ s.tasks.rows, task.runId = runId → 0 < task.attemptCount → DependenciesDone s task
  skipped : ∀ task ∈ s.tasks.rows, task.runId = runId → task.state = .SKIPPED →
    FailedBeside s task.runId task.planId

/-- A task of an unrevised run is inserted as a new one, if it was not there already. -/
theorem NewTask.fresh {new : List TaskRecord} {tasks : Table TaskRecord.taskPk} {task : TaskRecord}
    (h : NewTask g s task) (hs : Sound g s) (hplans : Unrevised s task.runId)
    (hrows : ∀ a, a ∈ tasks.rows ↔ a ∈ new ∨ a ∈ s.tasks.rows) (htask : task ∈ new) :
    (task.state = .PENDING ∧ task.attemptCount = 0) ∨ task ∈ s.tasks.rows := by
  rcases h.origin with hnew | ⟨prior, ⟨row, hrow, hkey, -⟩, hrun, hspec, -⟩
  · exact .inl hnew
  · right
    obtain ⟨plan, hplan, hin, -⟩ := h.placed
    obtain ⟨home, hhome, hrowin, -⟩ := hs.placed row hrow
    have hkey' := Prod.mk.inj hkey
    have hrowrun : row.runId = task.runId := hkey'.1.trans hrun
    obtain rfl : home = plan :=
      hplans home hhome plan hplan (hrowin.1.symm.trans hrowrun) hin.1.symm
    have hid : row.spec.taskId = task.spec.taskId := by rw [(Prod.mk.inj hkey'.2).2, hspec]
    have hsame : row = task := by
      refine tasks.row_unique ((hrows row).mpr (.inr hrow)) ((hrows task).mpr (.inl htask)) ?_
      rw [TaskRecord.taskPk, TaskRecord.taskPk, hrowrun, hrowin.2.trans hin.2.symm, hid]
    exact hsame ▸ hrow

theorem TaskStep.dependenciesDone {old new : TaskRecord} (h : TaskStep g s old new)
    (hold : DependenciesDone s old) : DependenciesDone s new := by
  intro d hd
  rw [h.spec] at hd
  obtain ⟨row, hrow, hrun, hplan, hid, hstate⟩ := hold d hd
  exact ⟨row, hrow, hrun.trans h.runId.symm, hplan.trans h.planId.symm, hid, hstate⟩

/-- One move keeps the order of an unrevised run. -/
theorem Move.ordered (h : Move g s s') (hs : Sound g s) (hplans : Unrevised s' runId)
    (hordered : Ordered s runId) : Ordered s' runId := by
  have hevolves : Evolves g s s' := .single h
  have hkept : ∀ task ∈ s.tasks.rows, task.runId = runId → 0 < task.attemptCount →
      DependenciesDone s' task :=
    fun task htask hrun hcount => hevolves.dependenciesDone (hordered.begun task htask hrun hcount)
  have hkept' : ∀ task ∈ s.tasks.rows, task.runId = runId → task.state = .SKIPPED →
      FailedBeside s' task.runId task.planId :=
    fun task htask hrun hstate => hevolves.failedBeside (hordered.skipped task htask hrun hstate)
  have hbefore : Unrevised s runId := hplans.before hevolves
  cases h with
  | quiet => exact hordered
  | newRun hstate hrows => exact ⟨hkept, hkept'⟩
  | run hold hstep => exact ⟨hkept, hkept'⟩
  | newPlan hvalid hrows => exact ⟨hkept, hkept'⟩
  | openAttempt hstarted hrows => exact ⟨hkept, hkept'⟩
  | closeAttempts hattempts => exact ⟨hkept, hkept'⟩
  | @newTasks new tasks hnew hrows =>
    have hfresh : ∀ task ∈ tasks.rows, task.runId = runId →
        (task.state = .PENDING ∧ task.attemptCount = 0) ∨ task ∈ s.tasks.rows := by
      intro task htask hrun
      rcases (hrows task).mp htask with hmem | hmem
      · exact (hnew task hmem).fresh hs (hrun ▸ hbefore) hrows hmem
      · exact .inr hmem
    refine ⟨fun task htask hrun hcount => ?_, fun task htask hrun hstate => ?_⟩
    · rcases hfresh task htask hrun with ⟨-, hzero⟩ | hmem
      · omega
      · exact hkept task hmem hrun hcount
    · rcases hfresh task htask hrun with ⟨hpending, -⟩ | hmem
      · rw [hpending] at hstate
        cases hstate
      · exact hkept' task hmem hrun hstate
  | @task old new attempts hold hstep hattempts =>
    refine ⟨fun task htask hrun hcount => ?_, fun task htask hrun hstate => ?_⟩
    · rcases (Table.mem_replace hold hstep.taskPk task).mp htask with rfl | ⟨hmem, -⟩
      · refine hevolves.dependenciesDone (hstep.dependenciesDone ?_)
        by_cases hrunning : task.state = .RUNNING
        · exact (hstep.started hrunning).2.2
        · rw [hstep.counted hrunning] at hcount
          exact hordered.begun old hold (hstep.runId.symm.trans hrun) hcount
      · exact hkept task hmem hrun hcount
    · rcases (Table.mem_replace hold hstep.taskPk task).mp htask with rfl | ⟨hmem, -⟩
      · rw [hstep.runId, hstep.planId]
        exact hevolves.failedBeside (hstep.skipped hstate)
      · exact hkept' task hmem hrun hstate

theorem Evolves.ordered (h : Evolves g s s') (hs : Sound g s) (hplans : Unrevised s' runId)
    (hordered : Ordered s runId) : Ordered s' runId :=
  (h.invariant (I := fun l => Unrevised l runId → Ordered l runId) hs (fun _ => hordered)
    fun _ _ hmove hsound ih hunrevised =>
      hmove.ordered hsound hunrevised (ih (hunrevised.before (.single hmove)))).2 hplans

/-! ## Completed runs -/

theorem Evolves.finished (h : Evolves g s s') (hfinished : Finished s runId) :
    Finished s' runId := by
  obtain ⟨home, hhome, hrun, hall⟩ := hfinished
  refine ⟨home, h.grows.2.2 home hhome, hrun, fun spec hspec => ?_⟩
  obtain ⟨row, hrow, hin, rfl, hstate⟩ := hall spec hspec
  obtain ⟨row', hrow', hrun', hplan', hsame, hkept⟩ := h.row hrow
  refine ⟨row', hrow', ⟨hrun'.trans hin.1, hplan'.trans hin.2⟩, hsame, ?_⟩
  rw [hkept ((terminal_task_iff _).mpr (by rcases hstate with h | h <;> simp [h]))]
  exact hstate

/-- The completed runs have a plan whose tasks are settled. -/
def Completed (s : Ledger) : Prop :=
  ∀ run ∈ s.runs.rows, run.state = .COMPLETED → Finished s run.runId

theorem Move.completed (h : Move g s s') (hcompleted : Completed s) : Completed s' := by
  have hevolves : Evolves g s s' := .single h
  have hkept : ∀ run ∈ s.runs.rows, run.state = .COMPLETED → Finished s' run.runId :=
    fun run hrun hstate => hevolves.finished (hcompleted run hrun hstate)
  cases h with
  | quiet => exact hcompleted
  | @newRun run runs hstate hrows =>
    intro r hr hdone
    change r ∈ runs.rows at hr
    rw [hrows] at hr
    rcases List.mem_cons.mp hr with rfl | hr
    · rw [hstate] at hdone
      cases hdone
    · exact hkept r hr hdone
  | @run old new hold hstep =>
    intro r hr hdone
    rcases (Table.mem_replace hold hstep.runId r).mp hr with rfl | ⟨hr, -⟩
    · rcases hstep.completed hdone with hdone' | hfinished
      · rw [hstep.runId]
        exact hkept old hold hdone'
      · exact hevolves.finished hfinished
    · exact hkept r hr hdone
  | newPlan hvalid hrows => exact hkept
  | newTasks hnew hrows => exact hkept
  | task hold hstep hattempts => exact hkept
  | openAttempt hstarted hrows => exact hkept
  | closeAttempts hattempts => exact hkept

/-- A settled task of an unrevised run has succeeded: a skipped one has a failed one beside it,
which is settled nowhere. -/
theorem Ordered.succeeded (hordered : Ordered s runId) (hs : Sound g s)
    (hplans : Unrevised s runId) (hfinished : Finished s runId) :
    ∀ task ∈ s.tasks.rows, task.runId = runId → task.state = .SUCCEEDED := by
  obtain ⟨home, hhome, hrun, hall⟩ := hfinished
  have hsettled : ∀ task ∈ s.tasks.rows, task.runId = runId →
      task.state = .SUCCEEDED ∨ task.state = .SKIPPED := by
    intro task htask htaskrun
    obtain ⟨plan, hplan, hin, hspec⟩ := hs.placed task htask
    obtain rfl : plan = home := hplans plan hplan home hhome (hin.1.symm.trans htaskrun) hrun
    obtain ⟨row, hrow, hrowin, hrowspec, hstate⟩ := hall task.spec hspec
    have hsame : row = task := by
      refine s.tasks.row_unique hrow htask ?_
      rw [TaskRecord.taskPk, TaskRecord.taskPk, hrowin.1, hrowin.2, hin.1, hin.2, hrowspec]
    exact hsame ▸ hstate
  intro task htask htaskrun
  rcases hsettled task htask htaskrun with hsucceeded | hskipped
  · exact hsucceeded
  · obtain ⟨row, hrow, hrowrun, -, hfailed⟩ := hordered.skipped task htask htaskrun hskipped
    rcases hsettled row hrow (hrowrun.trans htaskrun) with h | h <;> simp [h] at hfailed

/-! ## Every run -/

/-- Along every interleaving of service calls, with failing calls and stopping processes: in a run
whose plan was not revised, a task that is running, has succeeded or has attempts has all its
dependencies succeeded, and if the run is completed, all tasks of its plan have succeeded. -/
theorem service_dependencies
    (hreach : PoolRuns (faultyExec codec sha256Digest)
      (servicePool processes (freshStore journal)) P)
    (hplans : Unrevised (ledger P.shared) runId) :
    (∀ task ∈ P.shared.tasks.rows, task.runId = runId →
      task.state = .RUNNING ∨ task.state = .SUCCEEDED ∨ 0 < task.attemptCount →
        ∀ d ∈ task.spec.dependencies, ∃ row ∈ P.shared.tasks.rows, row.runId = task.runId ∧
          row.planId = task.planId ∧ row.spec.taskId = d ∧ row.state = .SUCCEEDED) ∧
    ∀ run ∈ P.shared.runs.rows, run.runId = runId → run.state = .COMPLETED →
      ∀ plan ∈ P.shared.plans.rows, plan.runId = runId → ∀ spec ∈ plan.tasks,
        ∃ row ∈ P.shared.tasks.rows, InPlan plan row ∧ row.spec = spec ∧
          row.state = .SUCCEEDED := by
  have hsound := @sound_freshStore Text unassumed journal
  have hevolves : Evolves unassumed (ledger (freshStore journal)) (ledger P.shared) :=
    (served_servicePool hsound).evolves (apart_of_not id) (assumed_of_faulty hreach)
  have hordered : Ordered (ledger P.shared) runId := hevolves.ordered hsound hplans
    { begun := fun task htask => by cases htask
      skipped := fun task htask => by cases htask }
  obtain ⟨hsound', hcompleted⟩ := hevolves.invariant (I := Completed) hsound
    (fun run hrun => by cases hrun) fun _ _ hmove _ => hmove.completed
  refine ⟨fun task htask hrun hbegun => ?_, fun run hrun hid hstate plan hplan hplanrun spec hspec => ?_⟩
  · refine hordered.begun task htask hrun ?_
    have hattempted := (hsound'.facts task htask).attempted
    rcases hbegun with h | h | h
    · exact hattempted (.inl h)
    · exact hattempted (.inr h)
    · exact h
  · have hfinished : Finished (ledger P.shared) runId := hid ▸ hcompleted run hrun hstate
    have hsucceeded := hordered.succeeded hsound' hplans hfinished
    obtain ⟨home, hhome, hhomerun, hall⟩ := hfinished
    obtain rfl : plan = home := hplans plan hplan home hhome hplanrun hhomerun
    obtain ⟨row, hrow, hin, hrowspec, -⟩ := hall spec hspec
    exact ⟨row, hrow, hin, hrowspec, hsucceeded row hrow (hin.1.trans hplanrun)⟩

/-- A second task that waits for the first. -/
def secondTask : TaskSpec :=
  { taskId := "B", title := "task", description := "one later task", dependencies := ["A"]
    maximumAttempts_bounds := TaskSpec.three_attempts }

def pairPlan : PlanSpec :=
  { plainPlan with tasks := [plainTask, secondTask] }

/-- A turn of one process for each identifier, with a planner that comes to the given plan. -/
def planTurns {κ : Type} (plan : PlanSpec) (i : κ) (freshIds : List String) : List (κ × Supply) :=
  freshIds.map fun freshId => (i, { plainSupply freshId with plan := .ok plan })

-- a created run has the one plan it was created with
example : Unrevised (ledger (plainPlay (planTurns pairPlan 0 (List.replicate 38 "r"))
    (plainPool fun _ => .createRun "objective" "owner" "key" none)).shared) "run-r" := by
  decide +kernel

/-- Two tasks, one after the other, to the end of the run. -/
theorem service_dependencies_pair : ∃ P,
    PoolRuns plainExec
      (plainPool fun i => if i = 0 then .createRun "objective" "owner" "key" none
        else .advance "run-r" "owner" none) P ∧
    (P.shared.runs.rows.map RunRecord.state) = [.COMPLETED] ∧
    ∀ run ∈ P.shared.runs.rows, run.runId = "run-r" → run.state = .COMPLETED →
      ∀ plan ∈ P.shared.plans.rows, plan.runId = "run-r" → ∀ spec ∈ plan.tasks,
        ∃ row ∈ P.shared.tasks.rows, InPlan plan row ∧ row.spec = spec ∧
          row.state = .SUCCEEDED := by
  have hreach := plainPlay_runs
    (planTurns pairPlan 0 (List.replicate 38 "r") ++ turns 1 ((List.range 120).map toString))
    (plainPool fun i => if i = 0 then .createRun "objective" "owner" "key" none
      else .advance "run-r" "owner" none)
  exact ⟨_, hreach, by decide +kernel,
    (service_dependencies hreach (by decide +kernel : Unrevised (ledger _) "run-r")).2⟩

end DurableAgent.Orchestration
