import DurableAgent.Orchestration.Advancing
import DurableAgent.Recovery.Manager

/-!
# Recovery under the lifecycle

A resume moves the run through recovery, takes up abandoned tasks, and may put a revised plan in
the place of the active one.
-/

namespace DurableAgent.Orchestration

open Library Library.Prog Store

variable {Text : Type} {g : Assumed} {w : Watch} {codec : Codec Text}
  {sha256Digest : String → String}
  {s s' : StoreState Text} {A : Agent Text}

/-! ## The run -/

/-- A run that recovery holds a copy of. -/
structure Recovering (runId : String) (run : RunRecord) (l : Ledger) : Prop
    extends ReadRun runId run l where
  recovering : run.state = .RECOVERING

theorem persists_recovering {runId : String} (run : RunRecord) :
    Persists g (Recovering runId run) :=
  fun _ _ h hrun => { hrun with copy := h.runCopy hrun.copy }

theorem Recovering.planned {runId : String} {run : RunRecord} {l : Ledger}
    (h : Recovering runId run l) : Planned run.state := by
  simp [Planned, h.recovering]

theorem does_enterRecovery {runId : String} {run : RunRecord}
    (hrun : ReadRun runId run (ledger s)) (hplanned : Planned run.state) :
    Does g w codec sha256Digest (enterRecovery run) (Recovering runId) s := by
  unfold enterRecovery
  split
  · next hstate => exact Does.pure (persists_recovering run) ⟨hrun, hstate⟩
  · refine Does.ofExcept (persists_readRun run) hrun fun state s₁ htransition _ hrun => ?_
    obtain ⟨rfl, hlegal⟩ := transitionRun_legal htransition
    refine Does.after (persists_readRun run) hrun (calls_sql trivial) fun now s₂ _ hrun => ?_
    refine Does.mono (does_updateRun (persists_const True) trivial hrun.copy rfl fun l _ _ _ _ =>
      runStep_to rfl rfl hplanned hlegal (by simp) (by simp)) fun run' l _ h => ?_
    refine ⟨⟨?_, h.2⟩, ?_⟩
    · rw [h.1]
      exact hrun.runId
    · rw [h.1]
      rfl

theorem does_acceptDrift {runId : String} {run : RunRecord} {snapshotId manifestHash : String}
    {current : String × String} (hrun : Recovering runId run (ledger s)) :
    Does g w codec sha256Digest (A.acceptDrift run snapshotId manifestHash current)
      (fun r l => Recovering runId r.1 l) s := by
  unfold Agent.acceptDrift
  refine Does.after (persists_recovering run) hrun calls_publish fun _ s₁ _ hrun => ?_
  split
  · exact Does.raise
  · refine Does.after (persists_recovering run) hrun (calls_sql trivial) fun _ s₂ _ hrun => ?_
    refine Does.after (persists_recovering run) hrun (calls_sql trivial) fun _ s₃ _ hrun => ?_
    refine Does.after (persists_recovering run) hrun (calls_sql trivial) fun now s₄ _ hrun => ?_
    refine Does.seq (persists_const True) trivial (does_touchRun hrun.copy rfl rfl rfl)
      fun run' s₅ _ _ h => ?_
    refine Does.pure (persists_recovering run') ⟨⟨?_, h.2⟩, ?_⟩
    · rw [h.1]
      exact hrun.runId
    · rw [h.1]
      exact hrun.recovering

theorem does_validateRepository {runId : String} {run : RunRecord}
    {checkpoint : CheckpointEnvelope} (hrun : Recovering runId run (ledger s)) :
    Does g w codec sha256Digest (A.validateRepository run checkpoint)
      (fun r l => Recovering runId r.1 l) s := by
  unfold Agent.validateRepository
  split
  · refine Does.after (persists_recovering run) hrun (calls_sql trivial) fun _ s₁ _ hrun => ?_
    refine Does.after (persists_recovering run) hrun (calls_sql trivial) fun current s₂ _ hrun => ?_
    split
    · exact Does.pure (persists_recovering run) hrun
    · exact does_acceptDrift hrun
  · exact Does.pure (persists_recovering run) hrun

/-! ## Revised plans -/

/-- Records of a run, of whatever plan. -/
def ReadTasks (g : Assumed) (runId : String) (tasks : List TaskRecord) (l : Ledger) : Prop :=
  ∀ task ∈ tasks, ReadTask g runId task.planId task l

theorem persists_readTasks {runId : String} (tasks : List TaskRecord) :
    Persists g (ReadTasks g runId tasks) :=
  fun _ _ h hall task htask => persists_readTask task h (hall task htask)

theorem does_getTasks {reader : Reader} {runId : String} :
    Does g w codec sha256Digest (getTasks reader runId) (ReadTasks g runId) s := by
  unfold getTasks
  refine Does.after (persists_const True) trivial (calls_sql trivial) fun run s₁ _ _ => ?_
  have hplan : (requestedPlanId run : StoreProg Text _).Calls Quiet := by
    unfold requestedPlanId
    split
    · trivial
    · exact calls_sql trivial
  refine Does.after (persists_const True) trivial hplan fun planId s₂ _ _ => ?_
  cases planId with
  | none => exact Does.pure (persists_readTasks []) (by simp [ReadTasks])
  | some planId =>
    refine Does.mono (does_selectTasks reader runId planId) fun tasks l _ h task htask => ?_
    exact { h task htask with planId := rfl }

theorem revisedTask_spec (runId planId : String) (prior : List TaskRecord) (spec : TaskSpec) :
    (revisedTask runId planId prior spec).spec = spec := by
  unfold revisedTask
  split
  · split
    · next h => exact h
    · rfl
  · rfl

/-- A task that nobody has worked on. -/
theorem taskFacts_fresh {task : TaskRecord} (hstate : task.state = .PENDING)
    (hcount : task.attemptCount = 0) : TaskFacts g task where
  unpaused := by simp [hstate]
  attempted := by simp [hstate]
  budget _ := by
    have hbound := task.spec.maximumAttempts_bounds.1
    rw [hcount]
    omega

/-- What a revision makes of a task is of the revised plan, and new or carried over. -/
theorem revisedTask_newTask {l : Ledger} {runId : String} {revised : PlanSpec}
    {prior : List TaskRecord} {spec : TaskSpec} (hrun : revised.runId = runId)
    (hplan : revised ∈ l.plans.rows) (hspec : spec ∈ revised.tasks)
    (hprior : ReadTasks g runId prior l) :
    InPlan revised (revisedTask runId revised.planId prior spec) ∧
      NewTask g l (revisedTask runId revised.planId prior spec) := by
  have hfresh : NewTask g l { runId := runId, planId := revised.planId, spec := spec } :=
    { placed := ⟨revised, hplan, ⟨hrun.symm, rfl⟩, hspec⟩
      origin := .inl ⟨rfl, rfl⟩
      facts := taskFacts_fresh rfl rfl }
  unfold revisedTask
  split
  · next record hrecord =>
    split
    · next hsame =>
      have hread := hprior record (recordById_mem hrecord).1
      have hin : InPlan revised { record with planId := revised.planId, version := 1 } :=
        ⟨hread.runId.trans hrun.symm, rfl⟩
      refine ⟨hin, ⟨revised, hplan, hin, ?_⟩, ?_, ?_⟩
      · change record.spec ∈ revised.tasks
        rw [hsame]
        exact hspec
      · exact .inr ⟨record, hread.copy, rfl, rfl, rfl, rfl⟩
      · exact ⟨hread.facts.unpaused, hread.facts.attempted, hread.facts.budget⟩
    · exact ⟨⟨hrun.symm, rfl⟩, hfresh⟩
  · exact ⟨⟨hrun.symm, rfl⟩, hfresh⟩

/-- The step that makes a stored plan active. -/
theorem runStep_activate {l : Ledger} {old new : RunRecord} {plan : PlanSpec}
    (hid : new.runId = old.runId) (hold : old.state = .PLANNING ∨ old.state = .RECOVERING)
    (hactive : new.activePlanId = some plan.planId)
    (howner : plan.runId = old.runId) (hplan : Materialized l plan)
    (hlegal : RunLegal old.state new.state)
    (hends : new.state = .COMPLETED ∨ new.state = .FAILED → old.state = new.state) :
    RunStep g l old (withVersion new old.version) where
  runId := hid
  version := rfl
  legal := hlegal
  plan := .inr ⟨hold, plan, hactive, howner.trans hid.symm, hplan⟩
  completed h := .inl ((hends (.inl h)).trans h)
  failed h := .inl ((hends (.inr h)).trans h)

theorem does_revisePlanAfterDrift {runId : String} {run : RunRecord}
    (hrun : Recovering runId run (ledger s)) :
    Does g w codec sha256Digest (revisePlanAfterDrift run) (Recovering runId) s := by
  unfold revisePlanAfterDrift
  refine Does.seq (persists_recovering run) hrun (does_getPlan run.runId)
    fun previous s₁ _ hrun hprevious => ?_
  refine Does.seq (persists_recovering run) hrun does_getTasks fun prior s₂ _ hrun hprior => ?_
  refine Does.seq ((persists_recovering run).and (persists_readTasks prior)) ⟨hrun, hprior⟩
    (does_revisePlan previous _) fun revised s₃ _ h hrevised => ?_
  rw [hprevious.1] at hrevised
  refine Does.seq ((persists_recovering run).and (persists_readTasks prior)) h
    (does_savePlan hrevised.2) fun _ s₄ _ h hstored => ?_
  have hspecs : (revisedTasks run.runId revised prior).map TaskRecord.spec = revised.tasks := by
    rw [revisedTasks, List.map_map]
    conv_rhs => rw [← List.map_id revised.tasks]
    exact List.map_congr_left fun spec _ => revisedTask_spec _ _ _ spec
  have hsave : Does g w codec sha256Digest (sql (.saveTasks (revisedTasks run.runId revised prior)))
      (fun _ l => Materialized l revised) s₄ := by
    refine does_saveTasks ((persists_readTasks prior).and (persists_stored revised))
      ⟨h.2, hstored⟩ hspecs (fun task htask => ?_) (fun l hl task htask => ?_) hstored
    · obtain ⟨spec, hspec, rfl⟩ := List.mem_map.mp htask
      exact (revisedTask_newTask hrevised.1 hstored hspec h.2).1
    · obtain ⟨spec, hspec, rfl⟩ := List.mem_map.mp htask
      exact (revisedTask_newTask hrevised.1 hl.2 hspec hl.1).2
  refine Does.seq (persists_recovering run) h.1 hsave fun _ s₅ _ hrun hmaterialized => ?_
  have hkeep : Persists g fun l => Recovering runId run l ∧ Materialized l revised :=
    (persists_recovering run).and (persists_materialized revised)
  refine Does.after hkeep ⟨hrun, hmaterialized⟩ (calls_sql trivial) fun now s₆ _ h => ?_
  refine Does.seq (persists_const True) trivial (does_updateRun hkeep h h.1.copy rfl
    fun l _ hl _ _ => runStep_activate rfl (.inr hrun.recovering) rfl hrevised.1 hl.2 .refl fun _ => rfl)
    fun run' s₇ _ _ hwritten => ?_
  have hrun' : Recovering runId run' (ledger s₇) := by
    refine ⟨⟨?_, hwritten.2⟩, ?_⟩
    · rw [hwritten.1]
      exact hrun.runId
    · rw [hwritten.1]
      exact hrun.recovering
  refine Does.after (persists_recovering run') hrun' calls_publish fun _ s₈ _ hrun' => ?_
  exact Does.pure (persists_recovering run') hrun'

/-! ## Tasks -/

theorem does_readyIf {retryable : Bool} {planId : String} {task : TaskRecord}
    (hread : ReadTask g task.runId planId task (ledger s))
    (hretryable : retryable = true → task.attemptCount < task.spec.maximumAttempts) :
    Does g w codec sha256Digest (readyIf retryable task) (fun _ _ => True) s := by
  unfold readyIf
  split
  · next hretry =>
    refine Does.ofExcept (persists_readTask task) hread fun state s₁ htransition _ hread => ?_
    exact Does.trivially (does_updateTask (persists_const True) trivial hread.copy ⟨rfl, rfl, rfl⟩
      fun s _ _ _ _ => taskStep_ready htransition hread.facts fun _ => hretryable hretry)
  · exact Does.pure (persists_const True) trivial

theorem does_recoverAbandonedTask {runId planId : String} {task : TaskRecord}
    (hread : ReadTask g runId planId task (ledger s)) :
    Does g w codec sha256Digest (recoverAbandonedTask task) (fun _ _ => True) s := by
  unfold recoverAbandonedTask
  dsimp only
  set retryable : Bool := decide (task.attemptCount < task.spec.maximumAttempts) with hretryable
  set target : TaskState := if retryable then .FAILED_RETRYABLE else .FAILED_TERMINAL with htarget
  have hcases : (target = .FAILED_RETRYABLE ∧ task.attemptCount < task.spec.maximumAttempts) ∨
      target = .FAILED_TERMINAL := by
    by_cases h : task.attemptCount < task.spec.maximumAttempts
    · exact .inl ⟨by simp [htarget, hretryable, h], h⟩
    · exact .inr (by simp [htarget, hretryable, h])
  refine Does.after (persists_readTask task) hread (calls_sql trivial) fun errorId s₁ _ hread => ?_
  refine Does.seq (persists_readTask task) hread does_finishOpenTaskAttempts
    fun _ s₂ _ hread _ => ?_
  refine Does.ofExcept (persists_readTask task) hread fun state s₃ htransition _ hread => ?_
  obtain ⟨hstate, hlegal⟩ := transitionTask_legal htransition
  refine Does.after (persists_readTask task) hread (calls_finishedWhen _)
    fun finishedAt s₄ _ hread => ?_
  have hrewrites : Rewrites task
      { task with state := state, lastErrorId := some errorId, finishedAt := finishedAt } :=
    ⟨rfl, rfl, rfl⟩
  have hstep (l : Ledger) : TaskStep g l task (taskWithVersion
      { task with state := state, lastErrorId := some errorId, finishedAt := finishedAt }
      task.version) := by
    refine taskStep_to hrewrites hread.facts (hstate ▸ hlegal) rfl ?_ ?_ ?_ ?_ fun _ hschedulable => ?_
    · rcases hcases with h | h <;> simp [hstate, h]
    · rcases hcases with h | h <;> simp [hstate, h]
    · rcases hcases with h | h <;> simp [hstate, h]
    · rcases hcases with h | h <;> simp [hstate, h]
    · rcases hcases with h | h
      · exact h.2
      · simp [hstate, h, Schedulable] at hschedulable
  refine Does.seq (persists_const True) trivial (does_updateTask (persists_const True) trivial
    hread.copy hrewrites fun s _ _ _ _ => hstep (ledger s)) fun task' s₅ _ _ hwritten => ?_
  have hread' : ReadTask g task'.runId task'.planId task' (ledger s₅) := by
    refine ⟨rfl, rfl, hwritten.2, ?_⟩
    rw [hwritten.1]
    exact (hstep (ledger s₅)).facts
  have hready : retryable = true → task'.attemptCount < task'.spec.maximumAttempts := by
    intro h
    rw [hwritten.1]
    change task.attemptCount < task.spec.maximumAttempts
    simpa [hretryable] using h
  refine Does.seq (persists_const True) trivial (does_readyIf hread' hready) fun _ s₆ _ _ _ => ?_
  refine Does.after (persists_const True) trivial calls_publish fun _ s₇ _ _ => ?_
  exact Does.pure (persists_const True) trivial

theorem does_recoverTask {runId planId : String} {task : TaskRecord}
    (hread : ReadTask g runId planId task (ledger s)) :
    Does g w codec sha256Digest (recoverTask task) (fun _ _ => True) s := by
  unfold recoverTask
  split
  · next hstate =>
    have hwaiting : task.state = .WAITING := hstate.resolve_left hread.facts.unpaused.1
    refine Does.ofExcept (persists_readTask task) hread fun state s₁ htransition _ hread => ?_
    have hready := (transitionTask_legal htransition).1
    refine Does.trivially (does_updateTask (persists_const True) trivial hread.copy ⟨rfl, rfl, rfl⟩
      fun s _ _ hrow hadmits => taskStep_ready htransition hread.facts fun hb => ?_)
    exact hadmits.spare hb (_, task.version) rfl hready task hrow rfl rfl hwaiting
  · split
    · exact does_recoverAbandonedTask hread
    · exact Does.pure (persists_const True) trivial

/-! ## Resuming -/

theorem does_resumeFrom {runId : String} {lease : LeaseRecord} {run : RunRecord}
    {checkpoint : CheckpointEnvelope} (hrun : Recovering runId run (ledger s)) :
    Does g w codec sha256Digest (A.resumeFrom lease run checkpoint) (fun _ _ => True) s := by
  have hconfiguration : (A.requireConfiguration run.runId checkpoint).Calls Quiet := by
    unfold Agent.requireConfiguration
    split
    · trivial
    · exact Calls.bind calls_publish fun _ => trivial
  unfold Agent.resumeFrom
  refine Does.after (persists_recovering run) hrun hconfiguration fun _ s₁ _ hrun => ?_
  refine Does.seq (persists_const True) trivial (does_validateRepository hrun)
    fun r s₂ _ _ hrun => ?_
  obtain ⟨run, drifted⟩ := r
  have hrevise : Does g w codec sha256Digest (A.reviseIf drifted run) (Recovering runId) s₂ := by
    unfold Agent.reviseIf
    split
    · exact does_revisePlanAfterDrift hrun
    · exact Does.pure (persists_recovering run) hrun
  refine Does.seq (persists_const True) trivial hrevise fun run s₃ _ _ hrun => ?_
  refine Does.after (persists_recovering run) hrun (calls_ofTools _) fun reconciled s₄ _ hrun => ?_
  refine Does.seq (persists_recovering run) hrun does_getTasks fun tasks s₅ hs₅ hrun htasks => ?_
  refine Does.seq (persists_recovering run) hrun (Does.mapM'
    (K := fun task l => ReadTask g run.runId task.planId task l)
    (fun task => persists_readTask task) (fun _ _ => persists_const True)
    (fun task s _ h => does_recoverTask h) hs₅ fun task htask => htasks task htask)
    fun updated s₆ _ hrun _ => ?_
  refine Does.ofExcept (persists_recovering run) hrun fun state s₇ htransition _ hrun => ?_
  obtain ⟨rfl, hlegal⟩ := transitionRun_legal htransition
  refine Does.after (persists_recovering run) hrun (calls_sql trivial) fun now s₈ _ hrun => ?_
  refine Does.seq (persists_const True) trivial (does_updateRun (persists_recovering run) hrun
    hrun.copy rfl fun l _ hl _ _ => runStep_to rfl rfl hl.planned hlegal (by simp) (by simp))
    fun run' s₉ _ _ _ => ?_
  refine Does.after (persists_const True) trivial (calls_sql trivial) fun plan s₁₀ _ _ => ?_
  refine Does.after (persists_const True) trivial calls_writeCheckpoint fun _ s₁₁ _ _ => ?_
  refine Does.after (persists_const True) trivial calls_publish fun _ s₁₂ _ _ => ?_
  exact Does.pure (persists_const True) trivial

theorem does_resume {runId workerId : String} :
    Does g w codec sha256Digest (A.resume runId workerId) (fun _ _ => True) s := by
  unfold Agent.resume
  refine Does.after (persists_const True) trivial (calls_ofLease _) fun lease s₁ _ _ => ?_
  refine does_releasing ?_
  unfold Agent.resumeHeld
  refine Does.seq (persists_const True) trivial (does_getRun runId) fun run s₂ _ _ hrun => ?_
  split
  · exact Does.raise
  · next hstate =>
    have hplanned : Planned run.state := by
      by_contra hnot
      rw [Planned, not_and_or, not_not, not_not] at hnot
      rcases hnot with h | h <;> simp [h] at hstate
    refine Does.seq (persists_const True) trivial (does_enterRecovery hrun hplanned)
      fun run s₃ _ _ hrun => ?_
    refine Does.after (persists_recovering run) hrun (calls_ofCheckpoint _)
      fun checkpoint s₄ _ hrun => ?_
    exact does_resumeFrom hrun

end DurableAgent.Orchestration
