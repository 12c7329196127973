import DurableAgent.Application.OpenAttempts
import DurableAgent.Domain.PlanOrder

/-!
# Runs that are failed as stuck

The loop fails a run in which nothing is ready and something is unsettled. Of tasks at rest this
is so only beside a task that has ended badly. An advance that reads a task which a dead worker
left running, or one that waits for a review, fails the run for no other reason.
-/

namespace DurableAgent.Orchestration

open Library Library.Prog Store

variable {Text ι : Type} [DecidableEq ι] {codec : Codec Text} {sha256Digest : String → String}
  {P P' : Pool (StoreOp Text) Exn (StoreState Text) ι} {processes : ι → Process Text}
  {journal : Tools.World} {g : Assumed} {s s' : Ledger} {home : PlanSpec}

/-- The tasks that a process reads for its loop are at rest, and those of the given plan, which is
the active one where the process fails the run. -/
def readsAtRest (planRead : String) (β : Type) (op : StoreOp Text β) (s : StoreState Text) : Prop :=
  (∀ read ∈ loopRead _ op, read.2 = planRead ∧
    ∀ row ∈ s.tasks.rows, row.runId = read.1 ∧ row.planId = read.2 → AtRest row.state) ∧
  ∀ run ∈ runUpdate _ op, run.state = .FAILED → run.activePlanId = some planRead

instance (planRead : String) (β : Type) (op : StoreOp Text β) (s : StoreState Text) :
    Decidable (readsAtRest planRead β op s) :=
  inferInstanceAs (Decidable ((∀ _ ∈ _, _ ∧ ∀ _ ∈ _, _ ∧ _ → AtRest _) ∧ ∀ _ ∈ _, _ → _))

abbrev readingAtRest : Assumed := ⟨True, False, False⟩

theorem admits_readingAtRest {planRead : String} {opens : Numbered → Prop} {β : Type}
    {op : StoreOp Text β} {s : StoreState Text} (h : readsAtRest planRead β op s) :
    Admits readingAtRest ⟨planRead, opens⟩ op s :=
  ⟨fun _ => h.1, fun _ => h.2, False.elim, False.elim⟩

/-! ## What stands in the way -/

/-- An end that is no success. -/
def EndedBadly (state : TaskState) : Prop :=
  state = .FAILED_TERMINAL ∨ state = .CANCELLED ∨ state = .SKIPPED

instance (state : TaskState) : Decidable (EndedBadly state) :=
  inferInstanceAs (Decidable (_ ∨ _))

theorem EndedBadly.terminal {state : TaskState} (h : EndedBadly state) :
    Terminal taskTransitions state := by
  rw [terminal_task_iff]
  rcases h with h | h | h <;> simp [h]

/-- Some task of the plan has ended badly. -/
def Obstructed (s : Ledger) (runId : String) (planId : String) : Prop :=
  ∃ task ∈ s.tasks.rows, task.runId = runId ∧ task.planId = planId ∧ EndedBadly task.state

theorem Evolves.obstructed (h : Evolves g s s') {runId planId : String}
    (hs : Obstructed s runId planId) : Obstructed s' runId planId := by
  obtain ⟨task, htask, hrun, hplan, hended⟩ := hs
  obtain ⟨row, hrow, hrun', hplan', -, hsame⟩ := h.row htask
  refine ⟨row, hrow, hrun'.trans hrun, hplan'.trans hplan, ?_⟩
  rwa [hsame hended.terminal]

/-- The dependencies of the records of a view are among its records. -/
theorem TaskView.dependency {tasks : List TaskRecord} (h : TaskView g s home tasks)
    (hvalid : validatePlan home 20 = .ok home) {task : TaskRecord} (htask : task ∈ tasks)
    {d : String} (hd : d ∈ task.spec.dependencies) : ∃ record ∈ tasks, record.spec.taskId = d := by
  have hmem := (validatePlan_eq_ok hvalid).2.2 task.spec (h.known task htask) d hd
  obtain ⟨spec, hspec, hid⟩ := List.mem_map.mp hmem
  obtain ⟨record, hrecord, rfl⟩ := List.mem_map.mp (h.covers spec hspec)
  exact ⟨record, hrecord, hid⟩

/-- A stuck view of tasks at rest has one that has ended badly. -/
theorem Stuck.obstructed (h : Stuck g s home) (hg : g.calm)
    (hvalid : validatePlan home 20 = .ok home) : Obstructed s home.runId home.planId := by
  obtain ⟨tasks, hview, hready, ⟨task, htask, hunsettled, -⟩, hcalm⟩ := h
  obtain ⟨rank, hrank⟩ := validatePlan_ranked hvalid
  obtain ⟨record, hrecord, hsucceeded, hschedulable⟩ := exists_unschedulable hready hview.nodup
    (fun task htask d hd => hview.dependency hvalid htask hd)
    (fun task htask => hrank task.spec (hview.known task htask)) ⟨task, htask, hunsettled⟩
  have hrest := hcalm hg record hrecord
  have hpaused := (hview.facts record hrecord).unpaused
  have hended : EndedBadly record.state := by
    cases hstate : record.state <;> simp_all [EndedBadly, AtRest, Schedulable]
  obtain ⟨row, hrow, hrun, hplan, -, hsame⟩ :=
    row_of_terminal (hview.copies record hrecord) hended.terminal
  have hin := hview.inPlan record hrecord
  exact ⟨row, hrow, hrun.trans hin.1, hplan.trans hin.2, hsame ▸ hended⟩

theorem Hopeless.obstructed (h : Hopeless g s home) (hg : g.calm) (hs : Sound g s) :
    Obstructed s home.runId home.planId := by
  obtain ⟨hstored, hstuck | ⟨row, hrow, hrun, hplan, hfailed⟩⟩ := h
  · exact hstuck.obstructed hg (hs.valid home hstored)
  · exact ⟨row, hrow, hrun, hplan, .inl hfailed⟩

/-! ## Every run -/

/-- The failed runs have a task of their active plan that has ended badly. -/
def FailsRightly (s : Ledger) : Prop :=
  ∀ run ∈ s.runs.rows, run.state = .FAILED →
    ∃ planId, run.activePlanId = some planId ∧ Obstructed s run.runId planId

theorem Move.failsRightly (h : Move g s s') (hg : g.calm) (hs : Sound g s)
    (hrightly : FailsRightly s) : FailsRightly s' := by
  have hevolves : Evolves g s s' := .single h
  have hkept : ∀ run ∈ s.runs.rows, run.state = .FAILED →
      ∃ planId, run.activePlanId = some planId ∧ Obstructed s' run.runId planId := by
    intro run hrun hstate
    obtain ⟨planId, hactive, hobstructed⟩ := hrightly run hrun hstate
    exact ⟨planId, hactive, hevolves.obstructed hobstructed⟩
  cases h with
  | quiet => exact hrightly
  | @newRun run runs hstate hrows =>
    intro r hr hfailed
    change r ∈ runs.rows at hr
    rw [hrows] at hr
    rcases List.mem_cons.mp hr with rfl | hr
    · rw [hstate] at hfailed
      cases hfailed
    · exact hkept r hr hfailed
  | @run old new hold hstep =>
    intro r hr hfailed
    rcases (Table.mem_replace hold hstep.runId r).mp hr with rfl | ⟨hr, -⟩
    · rcases hstep.failed hfailed with hfailed' | ⟨home, hrun, hactive, hhopeless⟩
      · obtain ⟨planId, hactive, hobstructed⟩ := hkept old hold hfailed'
        rcases hstep.plan with ⟨hsame, -⟩ | ⟨hstate, -⟩
        · rw [hstep.runId, hsame]
          exact ⟨planId, hactive, hobstructed⟩
        · rcases hstate with h | h <;> simp [h] at hfailed'
      · refine ⟨home.planId, hactive hg, ?_⟩
        rw [← hrun]
        exact hevolves.obstructed (hhopeless.obstructed hg hs)
    · exact hkept r hr hfailed
  | newPlan hvalid hrows => exact hkept
  | newTasks hnew hrows => exact hkept
  | task hold hstep hattempts => exact hkept
  | openAttempt hstarted hrows => exact hkept
  | closeAttempts hattempts => exact hkept

/-- Along every interleaving of service calls in which each process reads for its loop tasks at
rest, of the plan that is active wherever it fails the run: every failed run has a task of its
active plan that failed for good, was cancelled or was skipped. -/
theorem service_stuckRuns {planRead : ι → String}
    (hreach : ThreadRuns (fun i => guardedExec (readsAtRest (planRead i)) codec sha256Digest)
      (servicePool processes (freshStore journal)) P) :
    ∀ run ∈ P.shared.runs.rows, run.state = .FAILED → ∃ task ∈ P.shared.tasks.rows,
      task.runId = run.runId ∧ run.activePlanId = some task.planId ∧
        (task.state = .FAILED_TERMINAL ∨ task.state = .CANCELLED ∨ task.state = .SKIPPED) := by
  have hsound := @sound_freshStore Text readingAtRest journal
  have hadmitted : AdmittedRuns readingAtRest (fun i => ⟨planRead i, fun _ => False⟩) codec
      sha256Digest (servicePool processes (freshStore journal)) P :=
    admitted_of_guarded (fun _ _ _ _ => admits_readingAtRest) hreach
  have hevolves : Evolves readingAtRest (ledger (freshStore journal)) (ledger P.shared) :=
    (served_servicePool hsound).evolves (apart_of_not id) hadmitted
  obtain ⟨-, hrightly⟩ := hevolves.invariant (I := FailsRightly) hsound
    (fun run hrun => by cases hrun) fun _ _ hmove => hmove.failsRightly trivial
  intro run hrun hfailed
  obtain ⟨planId, hactive, task, htask, htaskrun, rfl, hended⟩ := hrightly run hrun hfailed
  exact ⟨task, htask, htaskrun, hactive, hended⟩

/-- A task whose failure fails the run. -/
def fatalTask : TaskSpec :=
  { plainTask with failurePolicy := .FAIL_RUN }

def fatalPlan : PlanSpec :=
  { plainPlan with tasks := [fatalTask] }

/-- A creation, and advances of the run. -/
def advancingPool : Pool (StoreOp CheckpointEnvelope) Exn (StoreState CheckpointEnvelope) Nat :=
  plainPool fun i => if i = 0 then .createRun "objective" "owner" "key" none
    else .advance "run-r" "owner" none

-- a run goes on as long as its task waits to be executed
example : ((plainPlay (planTurns fatalPlan 0 (List.replicate 38 "r"))
    advancingPool).shared.runs.rows.map RunRecord.state) = [.RUNNING] := by
  decide +kernel

/-- A run that fails with its task. -/
theorem service_stuckRuns_fatal : ∃ P,
    ThreadRuns (fun _ => guardedExec (readsAtRest "plan") plainCodec plainAgent.sha256Digest)
      advancingPool P ∧
    (P.shared.runs.rows.map RunRecord.state) = [.FAILED] ∧
    ∀ run ∈ P.shared.runs.rows, run.state = .FAILED → ∃ task ∈ P.shared.tasks.rows,
      task.runId = run.runId ∧ run.activePlanId = some task.planId ∧
        (task.state = .FAILED_TERMINAL ∨ task.state = .CANCELLED ∨ task.state = .SKIPPED) := by
  have hreach : ThreadRuns
      (fun _ => guardedExec (readsAtRest "plan") plainCodec plainAgent.sha256Digest) advancingPool
      (plainPlay (planTurns fatalPlan 0 (List.replicate 38 "r") ++
        failingTurns 1 ((List.range 60).map toString)) advancingPool) :=
    threadRuns_of_poolRuns ((Pool.play_guarded _ (readsAtRest "plan") _ advancingPool
      (by decide +kernel)).mono fun _ _ _ _ _ => .inl)
  exact ⟨_, hreach, by decide +kernel, service_stuckRuns hreach⟩

/-- A turn of one process for each identifier, an hour later. -/
def laterTurns {κ : Type} (i : κ) (freshIds : List String) : List (κ × Supply) :=
  freshIds.map fun freshId => (i, { plainSupply freshId with now := 3600000000 })

/-- A worker stops while its task is running. The advance that comes after its lease fails the
run, whose only task is running still. -/
theorem service_stuckRuns_abandoned : ∃ P, PoolRuns plainExec advancingPool P ∧
    ∃ run ∈ P.shared.runs.rows, run.state = .FAILED ∧
      ¬ ∃ task ∈ P.shared.tasks.rows, task.runId = run.runId ∧
        run.activePlanId = some task.planId ∧
          (task.state = .FAILED_TERMINAL ∨ task.state = .CANCELLED ∨ task.state = .SKIPPED) := by
  have hreach := plainPlay_runs
    (turns 0 (List.replicate 38 "r") ++ turns 1 (List.replicate 16 "r") ++
      laterTurns 2 ((List.range 60).map toString)) advancingPool
  refine ⟨_, hreach, ?_⟩
  decide +kernel

end DurableAgent.Orchestration
