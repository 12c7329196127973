import DurableAgent.Orchestration.Scheduling

/-!
# What the outcomes of a batch come to

Successes are committed in the order of the batch, then the failures are disposed of. Until its
own result is settled, the place of a started task is pending.
-/

namespace DurableAgent.Orchestration

open Library Library.Prog Store

variable {Text : Type} {g : Assumed} {w : Watch} {codec : Codec Text}
  {sha256Digest : String → String}
  {s s' : StoreState Text} {A : Agent Text} {home : PlanSpec} {specs : List TaskSpec}
  {pending pending' : List Nat}

/-! ## The batch -/

theorem calls_attempt {α : Type} {p : StoreProg Text α} (hp : p.Calls Quiet) :
    (attempt p).Calls Quiet :=
  Calls.tryCatch (Calls.bind hp fun _ => trivial) fun _ => trivial

theorem calls_heartbeat (fuel : Nat) (lease : LeaseRecord) :
    (A.heartbeat fuel lease).Calls Quiet := by
  induction fuel generalizing lease with
  | zero => trivial
  | succ fuel ih =>
    refine Calls.bind (calls_sql trivial) fun due => ?_
    split
    · refine Calls.bind (calls_attempt (calls_ofLease _)) fun r => ?_
      cases r with
      | ok lease => exact ih lease
      | error e => trivial
    · trivial

theorem calls_executeBatch {run : RunRecord} {tasks : List TaskRecord} {lease : LeaseRecord} :
    (A.executeBatch run tasks lease).Calls Quiet := by
  refine Calls.bind (calls_heartbeat A.fuel lease) fun beat => ?_
  have hone (task : TaskRecord) : (executeOne run task : StoreProg Text _).Calls Quiet :=
    calls_attempt (calls_sql trivial)
  refine Calls.bind (Calls.mapM' hone tasks) fun results => ?_
  unfold Agent.renewAfterBatch
  split
  · trivial
  · refine Calls.bind (calls_attempt (calls_ofLease _)) fun r => ?_
    cases r <;> trivial

/-- A batch that ends without an exception has a result for each of its tasks. -/
theorem ends_executeBatch {run : RunRecord} {tasks : List TaskRecord} {lease : LeaseRecord} :
    (A.executeBatch run tasks lease).Ends fun r =>
      ∀ results, r.2 = .ok results → results.length = tasks.length := by
  refine Ends.bind (ends_true _) fun beat _ => ?_
  refine Ends.bind (Ends.mapM' (executeOne run) tasks) fun results hlen => ?_
  unfold Agent.renewAfterBatch
  split
  · exact fun _ h => by cases h
  · refine Ends.bind (ends_true _) fun r _ => ?_
    cases r with
    | ok lease =>
      intro results' h
      rw [← Except.ok.inj h, hlen]
    | error e => exact fun _ h => by cases h

/-! ## Successes -/

/-- What the loop knows of its variables. -/
structure Tracks (g : Assumed) (w : Watch) (home : PlanSpec) (specs : List TaskSpec)
    (p : Progress) (l : Ledger) : Prop where
  view : View g home specs p.tasks l
  runId : p.run.runId = home.runId
  planned : PlannedRun l home.runId
  read : g.calm → home.planId = w.planId

theorem persists_tracks (p : Progress) : Persists g (Tracks g w home specs p) := fun _ _ h hp =>
  { hp with view := persists_view p.tasks h hp.view, planned := persists_plannedRun _ h hp.planned }

theorem persists_allRunning (items : List Started) :
    Persists g fun l => ∀ item ∈ items, Running g home specs item l :=
  fun _ _ h hall item hitem => persists_running item h (hall item hitem)

/-- A running task that its worker ends in a state. -/
theorem Running.taskStep {l : Ledger} {started : Started} {new : TaskRecord}
    (h : Running g home specs started l) (hrewrites : Rewrites started.task new)
    (hcount : new.attemptCount = started.task.attemptCount)
    (hlegal : TaskLegal started.task.state new.state)
    (hstate : new.state = .SUCCEEDED ∨ new.state = .WAITING ∨ new.state = .FAILED_RETRYABLE ∨
      new.state = .FAILED_TERMINAL)
    (hbudget : g.budget → new.state = .FAILED_RETRYABLE →
      started.task.attemptCount < started.task.spec.maximumAttempts) (l' : Ledger) :
    TaskStep g l' started.task (taskWithVersion new started.task.version) := by
  have hattempted : 1 ≤ started.task.attemptCount := h.read.facts.attempted (.inl h.running)
  refine taskStep_to hrewrites h.read.facts hlegal hcount ?_ ?_ ?_ (fun _ => hattempted)
    fun hb hschedulable => hbudget hb ?_
  · rcases hstate with h | h | h | h <;> simp [h]
  · rcases hstate with h | h | h | h <;> simp [h]
  · rcases hstate with h | h | h | h <;> simp [h]
  · rcases hstate with h | h | h | h <;> simp_all [Schedulable]

/-- The record that replaces a running one stands in its place. -/
theorem Written.read {l : Ledger} {started : Started} {new task : TaskRecord} {v : Nat}
    (h : Written new v task l) (hrewrites : Rewrites started.task new)
    (hstarted : Running g home specs started l) (hfacts : TaskFacts g (taskWithVersion new v)) :
    ReadTask g home.runId home.planId task l ∧ specs[started.index]? = some task.spec := by
  have hfollows := h.follows hrewrites hfacts
  refine ⟨⟨hfollows.runId.trans hstarted.read.runId, hfollows.planId.trans hstarted.read.planId,
    hfollows.copy, hfollows.facts⟩, ?_⟩
  rw [hstarted.place, hfollows.spec]

theorem does_succeedTask {plan : PlanSpec} {p : Progress} {started : Started}
    {outcome : TaskOutcome} (hp : Tracks g w home specs p (ledger s))
    (hstarted : Running g home specs started (ledger s))
    (hcalm : g.calm → CalmBut pending p.tasks)
    (hsub : ∀ i ∈ pending, i = started.index ∨ i ∈ pending') :
    Does g w codec sha256Digest (A.succeedTask plan p started outcome)
      (fun p' l => Tracks g w home specs p' l ∧ (g.calm → CalmBut pending' p'.tasks)) s := by
  have hkeep : Persists g fun l => Tracks g w home specs p l ∧ Running g home specs started l :=
    (persists_tracks p).and (persists_running started)
  unfold Agent.succeedTask
  refine Does.ofExcept hkeep ⟨hp, hstarted⟩ fun state s₁ htransition _ h => ?_
  obtain ⟨rfl, hlegal⟩ := transitionTask_legal htransition
  refine Does.after hkeep h (calls_sql trivial) fun now s₂ _ h => ?_
  have hrewrites : Rewrites started.task
      { started.task with state := .SUCCEEDED, finishedAt := some now } := ⟨rfl, rfl, rfl⟩
  have hstep := h.2.taskStep hrewrites rfl hlegal (.inl rfl) (fun _ h => by cases h)
  refine Does.seq hkeep h (does_updateTaskAndFinishAttempt (persists_const True) trivial
    h.2.read.copy hrewrites fun l _ _ _ => hstep l) fun task s₃ _ h hwritten => ?_
  obtain ⟨hread, hplace⟩ := hwritten.read hrewrites h.2 (hstep (ledger s₃)).facts
  have hview := h.1.view.set hread hplace
  have hrest : AtRest task.state := by
    rw [hwritten.1]
    exact ⟨by simp [taskWithVersion], by simp [taskWithVersion]⟩
  have hkeep' : Persists g fun l => View g home specs (p.tasks.set started.index task) l ∧
      PlannedRun l home.runId :=
    (persists_view _).and (persists_plannedRun _)
  refine Does.seq hkeep' ⟨hview, h.1.planned⟩ (does_getRun p.run.runId)
    fun currentRun s₄ _ h hcurrent => ?_
  refine Does.after (hkeep'.and (persists_readRun currentRun)) ⟨h, hcurrent⟩ (calls_sql trivial)
    fun now s₅ _ h => ?_
  refine Does.seq hkeep' h.1 (does_touchRun h.2.copy rfl rfl rfl) fun run s₆ _ h hrun => ?_
  have hid : run.runId = home.runId := by
    rw [hrun.1]
    exact hcurrent.runId.trans hp.runId
  refine Does.after hkeep' h (calls_sql trivial) fun context s₇ _ h => ?_
  refine Does.after hkeep' h calls_checkpointIf fun written s₈ _ h => ?_
  refine Does.after hkeep' h calls_publish fun _ s₉ _ h => ?_
  exact Does.pure ((persists_tracks _).and (persists_const _))
    ⟨⟨h.1, hid, h.2, hp.read⟩, fun hg => (hcalm hg).settle hrest hsub⟩

theorem readResult_started {started : Started} {result : WorkerResult} {failure : Failure}
    (h : readResult started result = .inl failure) : failure.started = started := by
  unfold readResult at h
  split at h
  · rw [← Sum.inl.inj h]
  · rw [← Sum.inl.inj h]
  · rw [← Sum.inl.inj h]
  · cases h

/-- What the results of a batch leave to be settled. -/
structure Collected (g : Assumed) (w : Watch) (home : PlanSpec) (specs : List TaskSpec)
    (pending : List Nat) (p : Progress) (failures : List Failure) (l : Ledger) : Prop where
  tracks : Tracks g w home specs p l
  running : ∀ f ∈ failures, Running g home specs f.started l
  calm : g.calm → CalmBut (pending ++ failures.map fun f => f.started.index) p.tasks

theorem persists_collected (p : Progress) (failures : List Failure) :
    Persists g (Collected g w home specs pending p failures) := fun _ _ h hc =>
  { tracks := persists_tracks p h hc.tracks
    running := fun f hf => persists_running f.started h (hc.running f hf)
    calm := hc.calm }

theorem does_collectResults {plan : PlanSpec} (items : List (Started × WorkerResult))
    {p : Progress} (hp : Tracks g w home specs p (ledger s))
    (hitems : ∀ item ∈ items, Running g home specs item.1 (ledger s))
    (hcalm : g.calm → CalmBut (pending ++ items.map fun item => item.1.index) p.tasks) :
    Does g w codec sha256Digest (A.collectResults plan items p)
      (fun r l => Collected g w home specs pending r.1 r.2 l) s := by
  induction items generalizing p pending s with
  | nil =>
    unfold Agent.collectResults
    exact Does.pure (persists_collected p []) ⟨hp, by simp, by simpa using hcalm⟩
  | cons item rest ih =>
    obtain ⟨started, result⟩ := item
    have hfirst : Running g home specs started (ledger s) := hitems _ List.mem_cons_self
    have hrest : ∀ item ∈ rest, Running g home specs item.1 (ledger s) :=
      fun item hitem => hitems item (List.mem_cons_of_mem _ hitem)
    have hkeep : Persists g fun l => ∀ item ∈ rest, Running g home specs item.1 l :=
      fun _ _ h hall item hitem => persists_running item.1 h (hall item hitem)
    unfold Agent.collectResults
    split
    · next failure hread =>
      have hstarted : failure.started = started := readResult_started hread
      have hcalm' : g.calm → CalmBut
          ((pending ++ [started.index]) ++ rest.map fun item => item.1.index) p.tasks := by
        simpa using hcalm
      refine Does.seq (persists_running started) hfirst (ih hp hrest hcalm')
        fun r s₁ _ hfirst h => ?_
      refine Does.pure (persists_collected _ _) ⟨h.tracks, fun f hf => ?_, fun hg => ?_⟩
      · rcases List.mem_cons.mp hf with rfl | hf
        · rw [hstarted]
          exact hfirst
        · exact h.running f hf
      · rw [List.map_cons, hstarted]
        simpa using h.calm hg
    · next outcome hread =>
      refine Does.seq hkeep hrest (does_succeedTask hp hfirst hcalm fun i hi => ?_)
        fun p' s₁ _ hrest h => ih h.1 hrest h.2
      simp only [List.map_cons, List.mem_append, List.mem_cons] at hi ⊢
      tauto

end DurableAgent.Orchestration
