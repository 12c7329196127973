import DurableAgent.Orchestration.Outcomes

/-!
# What the failures of a batch come to

Each failure leaves its task waiting, to be retried, or failed for good. Tasks are skipped and
runs fail only beside a task that has failed for good.
-/

namespace DurableAgent.Orchestration

open Library Library.Prog Store

variable {Text : Type} {g : Assumed} {w : Watch} {codec : Codec Text}
  {sha256Digest : String → String}
  {s s' : StoreState Text} {A : Agent Text} {home : PlanSpec} {specs : List TaskSpec}
  {pending : List Nat}

/-! ## One failure -/

theorem Agent.retries_lt {f : Failure} (h : A.retries f = true) :
    f.started.task.attemptCount < f.started.task.spec.maximumAttempts := by
  simp only [Agent.retries, decide_eq_true_eq] at h
  exact h.2.2.2

theorem Agent.continuesIndependent_spec {f : Failure} (h : A.continuesIndependent f = true) :
    f.requiresReview = false ∧ A.retries f = false := by
  simp only [Agent.continuesIndependent, decide_eq_true_eq] at h
  refine ⟨?_, h.2.2⟩
  rw [Failure.requiresReview, h.1]
  simp

theorem Agent.failureTarget_terminal {f : Failure} (hreview : f.requiresReview = false)
    (hretries : A.retries f = false) : A.failureTarget f = .FAILED_TERMINAL := by
  simp [Agent.failureTarget, hreview, hretries]

theorem Agent.failureTarget_cases (f : Failure) :
    (f.requiresReview = true ∧ A.failureTarget f = .WAITING) ∨
      (A.retries f = true ∧ A.failureTarget f = .FAILED_RETRYABLE) ∨
        A.failureTarget f = .FAILED_TERMINAL := by
  unfold Agent.failureTarget
  by_cases hreview : f.requiresReview = true
  · exact .inl ⟨hreview, by simp [hreview]⟩
  · by_cases hretries : A.retries f = true
    · exact .inr (.inl ⟨hretries, by simp [hreview, hretries]⟩)
    · exact .inr (.inr (by simp [hreview, hretries]))

/-- What is known of a disposition. -/
structure Disposes (g : Assumed) (home : PlanSpec) (specs : List TaskSpec) (pending : List Nat)
    (d : Disposition) (l : Ledger) : Prop where
  view : View g home specs d.tasks l
  failed : d.failRun = true → FailedBeside l home.runId home.planId
  skips : d.skipDependents ≠ [] → FailedBeside l home.runId home.planId
  calm : g.calm → d.manualReview = true ∨ CalmBut pending d.tasks

theorem persists_disposes (d : Disposition) : Persists g (Disposes g home specs pending d) :=
  fun _ _ h hd =>
    { view := persists_view d.tasks h hd.view
      failed := fun hfail => h.failedBeside (hd.failed hfail)
      skips := fun hskip => h.failedBeside (hd.skips hskip)
      calm := hd.calm }

theorem calls_finishedWhen (target : TaskState) :
    (finishedWhen target : StoreProg Text _).Calls Quiet := by
  unfold finishedWhen
  split
  · exact Calls.bind (calls_sql trivial) fun _ => trivial
  · trivial

/-- The disposition after one more failure whose task has been updated. -/
theorem Disposes.add {l : Ledger} {d : Disposition} {f : Failure} {task : TaskRecord}
    (hd : Disposes g home specs (f.started.index :: pending) d l)
    (htask : ReadTask g home.runId home.planId task l)
    (hplace : specs[f.started.index]? = some task.spec)
    (hstate : task.state = A.failureTarget f) (retryTasks : List TaskRecord) :
    Disposes g home specs pending
      { tasks := d.tasks.set f.started.index task
        retryTasks := retryTasks
        skipDependents :=
          if A.continuesIndependent f then d.skipDependents ++ [task.spec.taskId]
          else d.skipDependents
        manualReview := d.manualReview || f.requiresReview
        failRun := d.failRun ||
          (!A.continuesIndependent f && !A.retries f && !f.requiresReview) } l := by
  have hfailed (h : A.failureTarget f = .FAILED_TERMINAL) :
      FailedBeside l home.runId home.planId := by
    rw [← htask.runId, ← htask.planId]
    exact failedBeside_of_copy htask.copy (hstate.trans h)
  refine ⟨hd.view.set htask hplace, fun hfail => ?_, fun hskips => ?_, fun hg => ?_⟩
  · simp only [Bool.or_eq_true, Bool.and_eq_true, Bool.not_eq_true'] at hfail
    rcases hfail with h | ⟨⟨-, hretries⟩, hreview⟩
    · exact hd.failed h
    · exact hfailed (Agent.failureTarget_terminal hreview hretries)
  · by_cases hcontinues : A.continuesIndependent f = true
    · obtain ⟨hreview, hretries⟩ := Agent.continuesIndependent_spec hcontinues
      exact hfailed (Agent.failureTarget_terminal hreview hretries)
    · exact hd.skips (by simpa [hcontinues] using hskips)
  · rcases hd.calm hg with h | h
    · exact .inl (by simp [h])
    · rcases Agent.failureTarget_cases (A := A) f with ⟨hreview, -⟩ | ⟨-, htarget⟩ | htarget
      · exact .inl (by simp [hreview])
      · exact .inr (h.settle (by simp [AtRest, hstate, htarget]) (by simp))
      · exact .inr (h.settle (by simp [AtRest, hstate, htarget]) (by simp))

theorem does_handleFailure {runId : String} {d : Disposition} {f : Failure}
    (hd : Disposes g home specs (f.started.index :: pending) d (ledger s))
    (hstarted : Running g home specs f.started (ledger s)) :
    Does g w codec sha256Digest (A.handleFailure runId d f)
      (fun d' l => Disposes g home specs pending d' l) s := by
  have hkeep : Persists g fun l =>
      Disposes g home specs (f.started.index :: pending) d l ∧ Running g home specs f.started l :=
    (persists_disposes d).and (persists_running f.started)
  unfold Agent.handleFailure
  dsimp only
  refine Does.after hkeep ⟨hd, hstarted⟩ (calls_sql trivial) fun errorId s₁ _ h => ?_
  refine Does.ofExcept hkeep h fun state s₂ htransition _ h => ?_
  obtain ⟨rfl, hlegal⟩ := transitionTask_legal htransition
  refine Does.after hkeep h (calls_finishedWhen _) fun finishedAt s₃ _ h => ?_
  have hrewrites : Rewrites f.started.task
      { f.started.task with
        state := A.failureTarget f, finishedAt := finishedAt, lastErrorId := some errorId } :=
    ⟨rfl, rfl, rfl⟩
  have hstep := h.2.taskStep hrewrites rfl hlegal
    (by rcases Agent.failureTarget_cases (A := A) f with h | h | h <;> simp [h])
    fun _ htarget => by
      rcases Agent.failureTarget_cases (A := A) f with h | h | h
      · rw [show A.failureTarget f = .FAILED_RETRYABLE from htarget] at h
        simp at h
      · exact Agent.retries_lt h.1
      · rw [show A.failureTarget f = .FAILED_RETRYABLE from htarget] at h
        cases h
  refine Does.seq hkeep h (does_updateTaskAndFinishAttempt (persists_const True) trivial
    h.2.read.copy hrewrites fun l _ _ _ => hstep l) fun task s₄ _ h hwritten => ?_
  obtain ⟨hread, hplace⟩ := hwritten.read hrewrites h.2 (hstep (ledger s₄)).facts
  have hstate : task.state = A.failureTarget f := by rw [hwritten.1]; rfl
  refine Does.after ((persists_disposes d).and (persists_readTask task)) ⟨h.1, hread⟩ calls_publish
    fun _ s₅ _ h => ?_
  exact Does.pure (persists_disposes _) (h.1.add h.2 hplace hstate _)

theorem does_handleFailures {runId : String} (failures : List Failure) {d : Disposition}
    (hd : Disposes g home specs (failures.map fun f => f.started.index) d (ledger s))
    (hrunning : ∀ f ∈ failures, Running g home specs f.started (ledger s)) :
    Does g w codec sha256Digest (A.handleFailures runId failures d)
      (fun d' l => Disposes g home specs [] d' l) s := by
  induction failures generalizing d s with
  | nil =>
    unfold Agent.handleFailures
    exact Does.pure (persists_disposes d) hd
  | cons f rest ih =>
    have hkeep : Persists g fun l => ∀ f ∈ rest, Running g home specs f.started l :=
      fun _ _ h hall f hf => persists_running f.started h (hall f hf)
    unfold Agent.handleFailures
    refine Does.seq hkeep (fun f hf => hrunning f (List.mem_cons_of_mem _ hf))
      (does_handleFailure hd (hrunning f List.mem_cons_self)) fun d' s₁ _ hrest hd' => ?_
    exact ih hd' hrest

/-! ## Skipping -/

theorem does_skipTask {blocked : List String} {task : TaskRecord}
    (hread : ReadTask g home.runId home.planId task (ledger s))
    (hfailed : FailedBeside (ledger s) home.runId home.planId) :
    Does g w codec sha256Digest (skipTask blocked task) (fun b l => Continues g l task b) s := by
  have hkeep : Persists g fun l =>
      ReadTask g home.runId home.planId task l ∧ FailedBeside l home.runId home.planId :=
    (persists_readTask task).and (persists_failedBeside _ _)
  unfold skipTask
  split
  · refine Does.ofExcept hkeep ⟨hread, hfailed⟩ fun state s₁ htransition _ h => ?_
    obtain ⟨rfl, hlegal⟩ := transitionTask_legal htransition
    refine Does.after hkeep h (calls_sql trivial) fun now s₂ _ h => ?_
    have hrewrites : Rewrites task { task with state := .SKIPPED, finishedAt := some now } :=
      ⟨rfl, rfl, rfl⟩
    have hstep (l : Ledger) (h : FailedBeside l home.runId home.planId) : TaskStep g l task
        (taskWithVersion { task with state := .SKIPPED, finishedAt := some now } task.version) := by
      refine taskStep_to hrewrites hread.facts hlegal rfl (by simp) (by simp) (fun _ => ?_)
        (by simp) (by simp [Schedulable])
      rw [hread.runId, hread.planId]
      exact h
    have hfacts := (hstep (ledger s₂) h.2).facts
    refine Does.mono (does_updateTask (persists_failedBeside home.runId home.planId) h.2
      h.1.copy hrewrites fun s _ h _ _ => hstep (ledger s) h) fun b l _ hb => ?_
    refine ⟨hb.follows hrewrites hfacts, fun _ => ?_⟩
    rw [hb.1]
    exact ⟨by simp [taskWithVersion], by simp [taskWithVersion]⟩
  · exact Does.pure (persists_continues task task) ⟨⟨rfl, rfl, rfl, hread.copy, hread.facts⟩, id⟩

theorem does_skipTransitiveDependents {tasks : List TaskRecord} {failedTaskId : String}
    (hs : Sound g (ledger s)) (hview : View g home specs tasks (ledger s))
    (hfailed : FailedBeside (ledger s) home.runId home.planId) :
    Does g w codec sha256Digest (skipTransitiveDependents tasks failedTaskId)
      (fun updated l => View g home specs updated l ∧ (Calm tasks → Calm updated)) s := by
  have hkeep (task : TaskRecord) : Persists g fun l =>
      ReadTask g home.runId home.planId task l ∧ FailedBeside l home.runId home.planId :=
    (persists_readTask task).and (persists_failedBeside _ _)
  have hskip : Does g w codec sha256Digest
      (tasks.mapM' (skipTask (blockedBy tasks failedTaskId)))
      (fun bs m => List.Forall₂ (fun a b => Continues g m a b) tasks bs) s :=
    Does.mapM' hkeep persists_continues (fun task s _ h => does_skipTask h.1 h.2) hs
      fun task htask => ⟨hview.1.read htask, hfailed⟩
  unfold skipTransitiveDependents
  dsimp only
  refine Does.seq (persists_view tasks) hview hskip fun updated s₁ _ hview hall => ?_
  refine Does.after (persists_view updated)
    (hview.forall₂ (hall.imp fun a b hab => hab.toFollows)) calls_publish fun _ s₂ _ h => ?_
  exact Does.pure ((persists_view updated).and (persists_const _))
    ⟨h, fun hcalm => hcalm.forall₂ (hall.imp fun a b hab => hab.rest)⟩

theorem does_skipAll (failedIds : List String) {tasks : List TaskRecord} (hs : Sound g (ledger s))
    (hview : View g home specs tasks (ledger s))
    (hfailed : failedIds ≠ [] → FailedBeside (ledger s) home.runId home.planId) :
    Does g w codec sha256Digest (skipAll failedIds tasks)
      (fun updated l => View g home specs updated l ∧ (Calm tasks → Calm updated)) s := by
  induction failedIds generalizing tasks s with
  | nil => exact Does.pure ((persists_view tasks).and (persists_const _)) ⟨hview, id⟩
  | cons taskId rest ih =>
    have hbeside := hfailed (List.cons_ne_nil _ _)
    unfold skipAll
    refine Does.seq (persists_failedBeside _ _) hbeside
      (does_skipTransitiveDependents hs hview hbeside) fun updated s₁ hs₁ hbeside h => ?_
    exact Does.mono (ih hs₁ h.1 fun _ => hbeside) fun _ _ _ h' =>
      ⟨h'.1, fun hcalm => h'.2 (h.2 hcalm)⟩

/-! ## The run after the failures -/

/-- A step that keeps the active plan of a run. -/
theorem runStep_to {l : Ledger} {old new : RunRecord} (hid : new.runId = old.runId)
    (hplan : new.activePlanId = old.activePlanId) (hplanned : Planned old.state)
    (hlegal : RunLegal old.state new.state)
    (hcompleted : new.state = .COMPLETED → old.state = .COMPLETED ∨ Finished l old.runId)
    (hfailed : new.state = .FAILED → old.state = .FAILED ∨ ∃ home, home.runId = old.runId ∧
      (g.calm → new.activePlanId = some home.planId) ∧ Hopeless g l home) :
    RunStep g l old (withVersion new old.version) where
  runId := hid
  version := rfl
  legal := hlegal
  plan := .inl ⟨hplan, fun _ => hplanned⟩
  completed h := by
    change _ ∨ Finished l new.runId
    rw [hid]
    exact hcompleted h
  failed h := by
    change _ ∨ ∃ home : PlanSpec, home.runId = new.runId ∧
      (g.calm → new.activePlanId = some home.planId) ∧ Hopeless g l home
    rw [hid]
    exact hfailed h

theorem pausedState_eq_ok {state target : RunState} (h : pausedState state = .ok target) :
    target = .PAUSED ∧ RunLegal state target := by
  unfold pausedState at h
  split at h
  · obtain ⟨middle, hmiddle, h⟩ := of_bind_ok h
    obtain ⟨-, hlegal⟩ := transitionRun_legal hmiddle
    obtain ⟨rfl, hlegal'⟩ := transitionRun_legal h
    exact ⟨rfl, hlegal.trans ((transitionRun_legal hmiddle).1 ▸ hlegal')⟩
  · obtain ⟨rfl, hlegal⟩ := transitionRun_legal h
    exact ⟨rfl, hlegal⟩

/-- What disposing of failures makes of a run. -/
structure Disposed (failRun : Bool) (old new : RunRecord) : Prop where
  runId : new.runId = old.runId
  plan : new.activePlanId = old.activePlanId
  legal : RunLegal old.state new.state
  completed : new.state = .COMPLETED → old.state = .COMPLETED
  failed : new.state = .FAILED → old.state = .FAILED ∨ failRun = true

theorem does_disposedRun {d : Disposition} {run : RunRecord} :
    Does g w codec sha256Digest (disposedRun d run) (fun r _ => Disposed d.failRun run r) s := by
  unfold disposedRun
  split
  · next hfail =>
    refine Does.ofExcept (persists_const True) trivial fun state s₁ htransition _ _ => ?_
    obtain ⟨rfl, hlegal⟩ := transitionRun_legal htransition
    refine Does.after (persists_const True) trivial (calls_sql trivial) fun now s₂ _ _ => ?_
    exact Does.pure (persists_const _) ⟨rfl, rfl, hlegal, by simp, fun _ => .inr hfail⟩
  · split
    · refine Does.ofExcept (persists_const True) trivial fun state s₁ htransition _ _ => ?_
      obtain ⟨rfl, hlegal⟩ := pausedState_eq_ok htransition
      exact Does.pure (persists_const _) ⟨rfl, rfl, hlegal, by simp, by simp⟩
    · exact Does.pure (persists_const _) ⟨rfl, rfl, .refl, id, .inl⟩

theorem calls_writeCheckpoint {run : RunRecord} {plan : PlanSpec} {tasks : List TaskRecord}
    {known : Checkpoints.Known} : (A.writeCheckpoint run plan tasks known).Calls Quiet :=
  calls_ofCheckpoint _

/-- What is known once the failures are disposed of. -/
structure HandledBy (g : Assumed) (home : PlanSpec) (specs : List TaskSpec) (h : Handled)
    (l : Ledger) : Prop where
  view : View g home specs h.tasks l
  runId : h.run.runId = home.runId
  planned : PlannedRun l home.runId
  calm : g.calm → h.ends = false → Calm h.tasks

theorem persists_handledBy (h : Handled) : Persists g (HandledBy g home specs h) :=
  fun _ _ hl hh => { hh with
    view := persists_view h.tasks hl hh.view
    planned := persists_plannedRun _ hl hh.planned }

theorem does_handleBatchFailures {run : RunRecord} {plan : PlanSpec} {tasks : List TaskRecord}
    {failures : List Failure} (hrun : run.runId = home.runId)
    (hview : View g home specs tasks (ledger s)) (hplanned : PlannedRun (ledger s) home.runId)
    (hrunning : ∀ f ∈ failures, Running g home specs f.started (ledger s))
    (hcalm : g.calm → CalmBut (failures.map fun f => f.started.index) tasks)
    (hread : g.calm → home.planId = w.planId) :
    Does g w codec sha256Digest (A.handleBatchFailures run plan tasks failures)
      (fun h l => HandledBy g home specs h l) s := by
  unfold Agent.handleBatchFailures
  have hstart : Disposes g home specs (failures.map fun f => f.started.index) { tasks := tasks }
      (ledger s) :=
    ⟨hview, by simp, by simp, fun hg => .inr (hcalm hg)⟩
  refine Does.seq (persists_plannedRun _) hplanned (does_handleFailures failures hstart hrunning)
    fun d s₁ hs₁ hplanned hd => ?_
  refine Does.seq ((persists_plannedRun _).and (persists_disposes d)) ⟨hplanned, hd⟩
    (does_skipAll d.skipDependents hs₁ hd.view hd.skips) fun updated s₂ _ hknown hskipped => ?_
  have hkeep : Persists g fun l => (PlannedRun l home.runId ∧ Disposes g home specs [] d l) ∧
      View g home specs updated l :=
    ((persists_plannedRun _).and (persists_disposes d)).and (persists_view updated)
  refine Does.seq hkeep ⟨hknown, hskipped.1⟩ (does_getRun_at hrun hknown.1)
    fun currentRun s₃ _ hknown hcurrent => ?_
  have hkeep' : Persists g fun l => ((PlannedRun l home.runId ∧ Disposes g home specs [] d l) ∧
      View g home specs updated l) ∧ ReadPlanned home.runId currentRun l :=
    hkeep.and (persists_readPlanned currentRun)
  refine Does.after hkeep' ⟨hknown, hcurrent⟩ (calls_sql trivial) fun now s₄ _ hknown => ?_
  refine Does.seq hkeep' hknown does_disposedRun fun disposed s₅ _ hknown hdisposed => ?_
  have hupdate : Does g w codec sha256Digest (sql (.updateRun
      { disposed with activeTaskId := none, updatedAt := now } currentRun.version))
      (fun run l => run = withVersion { disposed with activeTaskId := none, updatedAt := now }
        currentRun.version ∧ l.RunCopy run) s₅ := by
    refine does_updateRun hkeep' hknown hknown.2.copy hdisposed.runId fun l _ hl _ hactive => ?_
    refine runStep_to hdisposed.runId hdisposed.plan hl.2.planned hdisposed.legal
      (fun h => .inl (hdisposed.completed h)) fun h => (hdisposed.failed h).imp_right fun hfail => ?_
    refine ⟨home, hl.2.runId.symm, fun hg => ?_, hl.1.2.1.stored, .inr (hl.1.1.2.failed hfail)⟩
    rw [hread hg]
    exact hactive hg h
  refine Does.seq hkeep hknown.1 hupdate fun updatedRun s₆ _ hknown hwritten => ?_
  refine Does.after hkeep hknown calls_writeCheckpoint fun checkpoint s₇ _ hknown => ?_
  refine Does.pure (persists_handledBy _) ⟨hknown.2, ?_, hknown.1.1, fun hg hends => ?_⟩
  · rw [hwritten.1]
    exact hdisposed.runId.trans hcurrent.runId
  · obtain ⟨-, hreview⟩ := Bool.or_eq_false_iff.mp hends
    refine hskipped.2 (calmBut_nil.mp ((hd.calm hg).resolve_left ?_))
    rw [hreview]
    simp

theorem calls_backOff {runId : String} (tasks : List TaskRecord) :
    (A.backOff runId tasks).Calls Quiet := by
  induction tasks with
  | nil => trivial
  | cons task rest ih =>
    unfold Agent.backOff
    refine Calls.bind ?_ fun delay => Calls.bind (calls_sql trivial) fun _ => ih
    unfold Prog.ofExcept
    trivial

theorem calls_generateReport {run : RunRecord} {isPartial : Bool} :
    (generateReport run isPartial : StoreProg Text String).Calls Quiet :=
  Calls.bind (calls_sql trivial) fun _ => Calls.bind (calls_sql trivial) fun _ =>
    Calls.bind (calls_sql trivial) fun _ => trivial

theorem does_settleFailures {plan : PlanSpec} {p : Progress} {failures : List Failure}
    (h : Collected g w home specs [] p failures (ledger s)) :
    Does g w codec sha256Digest (A.settleFailures plan p failures)
      (fun r l => Tracks g w home specs r.1 l ∧ (g.calm → r.2 = false → Calm r.1.tasks)) s := by
  have hreturn (r : Progress × Bool) : Persists g fun l =>
      Tracks g w home specs r.1 l ∧ (g.calm → r.2 = false → Calm r.1.tasks) :=
    (persists_tracks r.1).and (persists_const _)
  unfold Agent.settleFailures
  split
  · next hnone =>
    obtain rfl := List.isEmpty_iff.mp hnone
    exact Does.pure (hreturn _) ⟨h.tracks, fun hg _ => calmBut_nil.mp (h.calm hg)⟩
  · refine Does.seq (persists_const True) trivial (does_handleBatchFailures h.tracks.runId
      h.tracks.view h.tracks.planned h.running h.calm h.tracks.read) fun handled s₁ _ _ hh => ?_
    refine Does.after (persists_handledBy handled) hh (calls_backOff _) fun _ s₂ _ hh => ?_
    have htracks (reportId : Option String) (l : Ledger) (hh : HandledBy g home specs handled l) :
        Tracks g w home specs { p with
          run := handled.run, tasks := handled.tasks
          checkpointId := some handled.checkpointId, reportId := reportId } l :=
      ⟨hh.view, hh.runId, hh.planned, h.tracks.read⟩
    dsimp only
    split
    · refine Does.after (persists_handledBy handled) hh calls_generateReport
        fun reportId s₃ _ hh => ?_
      exact Does.pure (hreturn _) ⟨htracks _ _ hh, by simp⟩
    · next hends =>
      exact Does.pure (hreturn _)
        ⟨htracks _ _ hh, fun hg _ => hh.calm hg (Bool.eq_false_of_not_eq_true hends)⟩

/-- The loop body after the batch. -/
theorem does_settleBatch {plan : PlanSpec} {p : Progress} {started : List Started}
    {results : Except Exn (List WorkerResult)} (hp : Tracks g w home specs p (ledger s))
    (hstarted : ∀ item ∈ started, Running g home specs item (ledger s))
    (hcalm : g.calm → CalmBut (started.map Started.index) p.tasks)
    (hlen : ∀ list, results = .ok list → list.length = started.length) :
    Does g w codec sha256Digest (A.settleBatch plan p started results)
      (fun r l => Tracks g w home specs r.1 l ∧ (g.calm → r.2 = false → Calm r.1.tasks)) s := by
  have hkeep : Persists g fun l =>
      Tracks g w home specs p l ∧ ∀ item ∈ started, Running g home specs item l :=
    (persists_tracks p).and (persists_allRunning started)
  unfold Agent.settleBatch
  refine Does.ofExcept hkeep ⟨hp, hstarted⟩ fun list s₁ hresults _ h => ?_
  have hplaces : (started.zip list).map (fun item => item.1.index) =
      started.map Started.index := by
    change (started.zip list).map (Started.index ∘ Prod.fst) = _
    rw [← List.map_map, List.map_fst_zip]
    exact (hlen list hresults).ge
  have hcalm' : g.calm →
      CalmBut ([] ++ (started.zip list).map fun item => item.1.index) p.tasks := by
    rw [hplaces]
    exact hcalm
  refine Does.seq (persists_const True) trivial (does_collectResults (started.zip list) h.1
    (fun item hitem => h.2 item.1 (List.of_mem_zip hitem).1) hcalm') fun r s₂ _ _ hcollected => ?_
  exact does_settleFailures hcollected

end DurableAgent.Orchestration
