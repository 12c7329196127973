import DurableAgent.Orchestration.Failures

/-!
# The loop under the lifecycle

Requests, endings and the turns of the loop. A run ends completed from a view whose records are
all settled, and failed from one that shows nothing ready and something unsettled.
-/

namespace DurableAgent.Orchestration

open Library Library.Prog Store

variable {Text : Type} {g : Assumed} {w : Watch} {codec : Codec Text}
  {sha256Digest : String → String}
  {s s' : StoreState Text} {A : Agent Text} {home : PlanSpec} {specs : List TaskSpec}
  {K : Ledger → Prop}

theorem Does.trivially {α : Type} {p : StoreProg Text α} {R : α → Ledger → Prop}
    (h : Does g w codec sha256Digest p R s) : Does g w codec sha256Digest p (fun _ _ => True) s :=
  Does.mono h fun _ _ _ _ => trivial

/-! ## Ending a run -/

theorem does_endRun {run : RunRecord} {target : RunState} {activeTaskId : Option String}
    (hK : Persists g K) (hs : K (ledger s)) (hcopy : (ledger s).RunCopy run)
    (hstep : ∀ l, K l → RunLegal run.state target →
      (g.calm → target = .FAILED → run.activePlanId = some w.planId) →
        RunStep g l run (withVersion { run with state := target } run.version)) :
    Does g w codec sha256Digest (endRun run target activeTaskId)
      (fun ended _ => ended.runId = run.runId) s := by
  have hkeep : Persists g fun l => K l ∧ l.RunCopy run := hK.and (persists_runCopy run)
  unfold endRun
  refine Does.ofExcept hkeep ⟨hs, hcopy⟩ fun state s₁ htransition _ h => ?_
  obtain ⟨rfl, hlegal⟩ := transitionRun_legal htransition
  refine Does.after hkeep h (calls_sql trivial) fun updated s₂ _ h => ?_
  refine Does.after hkeep h (calls_sql trivial) fun finished s₃ _ h => ?_
  refine Does.mono (does_updateRun hK h.1 h.2 rfl fun l _ hl _ hactive => ?_) fun ended l _ hended => ?_
  · exact { hstep l hl hlegal hactive with }
  · rw [hended.1]
    rfl

/-- A cancelled run. -/
theorem runStep_cancelled {l : Ledger} {run : RunRecord} (hplanned : Planned run.state)
    (hlegal : RunLegal run.state .CANCELLED) :
    RunStep g l run (withVersion { run with state := .CANCELLED } run.version) :=
  runStep_to rfl rfl hplanned hlegal (by simp) (by simp)

/-- All tasks of the plan are settled when all records of a view are. -/
theorem View.finished {l : Ledger} {tasks : List TaskRecord} (h : View g home specs tasks l)
    (hsettled : AllSettled tasks) : Finished l home.runId := by
  refine ⟨home, h.1.stored, rfl, fun spec hspec => ?_⟩
  obtain ⟨task, htask, rfl⟩ := List.mem_map.mp (h.1.covers spec hspec)
  have hterminal : Terminal taskTransitions task.state := by
    rw [terminal_task_iff]
    rcases hsettled task htask with h | h <;> simp [h]
  obtain ⟨row, hrow, hrun, hplan, hsame, hstate⟩ :=
    row_of_terminal (h.1.copies task htask) hterminal
  have hin := h.1.inPlan task htask
  exact ⟨row, hrow, ⟨hrun.trans hin.1, hplan.trans hin.2⟩, hsame, hstate ▸ hsettled task htask⟩

theorem does_completeRun {run : RunRecord} {plan : PlanSpec} {p : Progress}
    (hrun : ReadPlanned home.runId run (ledger s)) (hview : View g home specs p.tasks (ledger s))
    (hsettled : AllSettled p.tasks) :
    Does g w codec sha256Digest (A.completeRun run plan p) (fun _ _ => True) s := by
  unfold Agent.completeRun
  refine Does.seq (persists_const True) trivial (does_endRun
    ((persists_readPlanned run).and (persists_view p.tasks)) ⟨hrun, hview⟩ hrun.copy
    fun l hl hlegal hactive => runStep_to rfl rfl hl.1.planned hlegal (fun _ => .inr ?_) (by simp))
    fun ended s₁ _ _ _ => ?_
  · rw [hl.1.runId]
    exact hl.2.finished hsettled
  refine Does.after (persists_const True) trivial calls_writeCheckpoint fun _ s₂ _ _ => ?_
  refine Does.after (persists_const True) trivial calls_generateReport fun _ s₃ _ _ => ?_
  refine Does.after (persists_const True) trivial calls_publish fun _ s₄ _ _ => ?_
  exact Does.pure (persists_const True) trivial

theorem does_failStuckRun {run : RunRecord} {plan : PlanSpec} {tasks : List TaskRecord}
    (hid : run.runId = home.runId) (hplanned : PlannedRun (ledger s) home.runId)
    (hview : View g home specs tasks (ledger s)) (hready : readyTasks tasks = .ok [])
    (hunsettled : ¬ AllSettled tasks) (hcalm : g.calm → Calm tasks)
    (hplan : g.calm → home.planId = w.planId) :
    Does g w codec sha256Digest (A.failStuckRun run plan tasks) (fun _ _ => True) s := by
  unfold Agent.failStuckRun
  refine Does.seq (persists_view tasks) hview (does_getRun_at hid hplanned)
    fun read s₁ _ hview hread => ?_
  refine Does.seq (persists_const True) trivial (does_endRun
    ((persists_readPlanned read).and (persists_view tasks)) ⟨hread, hview⟩ hread.copy
    fun l hl hlegal hactive => runStep_to rfl rfl hl.1.planned hlegal (by simp) fun _ => .inr ?_)
    fun ended s₂ _ _ _ => ?_
  · simp only [AllSettled, not_forall, not_or] at hunsettled
    obtain ⟨task, htask, hstate⟩ := hunsettled
    refine ⟨home, hl.1.runId.symm, fun hg => ?_, hl.2.1.stored,
      .inl ⟨tasks, hl.2.1, hready, ⟨task, htask, hstate⟩, hcalm⟩⟩
    rw [hplan hg]
    exact hactive hg rfl
  refine Does.after (persists_const True) trivial calls_publish fun _ s₃ _ _ => ?_
  refine Does.after (persists_const True) trivial calls_writeCheckpoint fun _ s₄ _ _ => ?_
  exact Does.pure (persists_const True) trivial

/-! ## Requests -/

theorem does_cancelTask {task : TaskRecord}
    (hread : ReadTask g home.runId home.planId task (ledger s)) :
    Does g w codec sha256Digest (cancelTask task) (fun _ _ => True) s := by
  unfold cancelTask
  split
  · exact Does.pure (persists_const True) trivial
  · refine Does.ofExcept (persists_readTask task) hread fun state s₁ htransition _ h => ?_
    obtain ⟨rfl, hlegal⟩ := transitionTask_legal htransition
    refine Does.after (persists_readTask task) h (calls_sql trivial) fun now s₂ _ h => ?_
    have hrewrites : Rewrites task { task with state := .CANCELLED, finishedAt := some now } :=
      ⟨rfl, rfl, rfl⟩
    exact (does_cancelTaskAndOpenAttempts (persists_const True) trivial h.copy hrewrites
      fun l _ _ _ => taskStep_to hrewrites hread.facts hlegal rfl (by simp) (by simp) (by simp)
        (by simp) (by simp [Schedulable])).trivially

theorem does_cancel {run : RunRecord} {plan : PlanSpec} {tasks : List TaskRecord}
    {request : LifecycleRequest} (hs : Sound g (ledger s)) (hid : run.runId = home.runId)
    (hplanned : PlannedRun (ledger s) home.runId) (hview : View g home specs tasks (ledger s)) :
    Does g w codec sha256Digest (A.cancel run plan tasks request) (fun _ _ => True) s := by
  unfold Agent.cancel
  refine Does.seq (persists_plannedRun _) hplanned (Does.mapM' persists_readTask
    (fun _ _ => persists_const True) (fun task s _ h => does_cancelTask h) hs
    fun task htask => hview.1.read htask) fun updated s₁ _ hplanned _ => ?_
  refine Does.seq (persists_const True) trivial (does_getRun_at hid hplanned)
    fun read s₂ _ _ hread => ?_
  refine Does.seq (persists_const True) trivial (does_endRun (persists_readPlanned read) hread
    hread.copy fun l hl hlegal _ => runStep_cancelled hl.planned hlegal) fun ended s₃ _ _ _ => ?_
  refine Does.after (persists_const True) trivial (calls_sql trivial) fun _ s₄ _ _ => ?_
  refine Does.after (persists_const True) trivial calls_writeCheckpoint fun _ s₅ _ _ => ?_
  refine Does.after (persists_const True) trivial calls_publish fun _ s₆ _ _ => ?_
  exact Does.pure (persists_const True) trivial

theorem does_pause {run : RunRecord} {plan : PlanSpec} {tasks : List TaskRecord}
    {request : LifecycleRequest} (hid : run.runId = home.runId)
    (hplanned : PlannedRun (ledger s) home.runId) :
    Does g w codec sha256Digest (A.pause run plan tasks request) (fun _ _ => True) s := by
  unfold Agent.pause
  refine Does.seq (persists_const True) trivial (does_getRun_at hid hplanned)
    fun read s₁ _ _ hread => ?_
  refine Does.ofExcept (persists_readPlanned read) hread fun state s₂ htransition _ h => ?_
  obtain ⟨rfl, hlegal⟩ := pausedState_eq_ok htransition
  refine Does.after (persists_readPlanned read) h (calls_sql trivial) fun now s₃ _ h => ?_
  refine Does.seq (persists_const True) trivial (does_updateRun (persists_readPlanned read) h
    h.copy rfl fun l _ hl _ _ => runStep_to rfl rfl hl.planned hlegal (by simp) (by simp))
    fun _ s₄ _ _ _ => ?_
  refine Does.after (persists_const True) trivial (calls_sql trivial) fun _ s₅ _ _ => ?_
  refine Does.after (persists_const True) trivial calls_writeCheckpoint fun _ s₆ _ _ => ?_
  refine Does.after (persists_const True) trivial calls_publish fun _ s₇ _ _ => ?_
  exact Does.pure (persists_const True) trivial

theorem does_handleRequest {plan : PlanSpec} {p : Progress} {request : LifecycleRequest}
    (hs : Sound g (ledger s)) (hp : Tracks g w home specs p (ledger s)) :
    Does g w codec sha256Digest (A.handleRequest plan p request) (fun _ _ => True) s := by
  unfold Agent.handleRequest
  cases request.kind with
  | cancel =>
    refine Does.seq (persists_const True) trivial (does_cancel hs hp.runId hp.planned hp.view)
      fun _ s₁ _ _ _ => ?_
    refine Does.after (persists_const True) trivial calls_generateReport fun _ s₂ _ _ => ?_
    exact Does.pure (persists_const True) trivial
  | pause =>
    refine Does.seq (persists_const True) trivial (does_pause hp.runId hp.planned)
      fun _ s₁ _ _ _ => ?_
    exact Does.pure (persists_const True) trivial

/-! ## Turns -/

/-- What the loop goes on with after a turn. -/
def TurnTracks (g : Assumed) (w : Watch) (home : PlanSpec) (specs : List TaskSpec) :
    Turn → Ledger → Prop
  | .ended _, _ => True
  | .again p, l => Tracks g w home specs p l ∧ (g.calm → Calm p.tasks)
  | .batch p started, l => Tracks g w home specs p l ∧
    (∀ item ∈ started, Running g home specs item l) ∧
      (g.calm → CalmBut (started.map Started.index) p.tasks)

theorem persists_turnTracks (turn : Turn) : Persists g (TurnTracks g w home specs turn) := by
  cases turn with
  | ended p => exact persists_const True
  | again p => exact (persists_tracks p).and (persists_const _)
  | batch p started =>
    exact (persists_tracks p).and ((persists_allRunning started).and (persists_const _))

theorem calls_pendingLifecycleRequest {runId : String} :
    (pendingLifecycleRequest runId : StoreProg Text _).Calls Quiet := by
  refine Calls.bind (calls_sql trivial) fun cancel => ?_
  cases cancel with
  | some request => trivial
  | none => exact calls_sql trivial

theorem does_concludeTurn {plan : PlanSpec} {p : Progress} {request : Option LifecycleRequest}
    (hp : Tracks g w home specs p (ledger s)) (hcalm : g.calm → Calm p.tasks)
    (hready : readyTasks p.tasks = .ok []) :
    Does g w codec sha256Digest (A.concludeTurn plan p request) (TurnTracks g w home specs) s := by
  cases request with
  | some request => exact Does.pure (persists_turnTracks (.again p)) ⟨hp, hcalm⟩
  | none =>
    unfold Agent.concludeTurn Agent.concludeRun
    refine Does.seq (persists_const True) trivial (?_ : Does g w codec sha256Digest _ (fun _ _ => True) s)
      fun p' s₁ _ _ _ => Does.pure (persists_turnTracks (.ended p')) trivial
    refine Does.seq (persists_tracks p) hp (does_getRun_at hp.runId hp.planned)
      fun run s₁ _ hp hrun => ?_
    split
    · next hsettled => exact does_completeRun hrun hp.view hsettled
    · next hunsettled =>
      refine Does.seq (persists_const True) trivial (does_failStuckRun hrun.runId hp.planned
        hp.view hready hunsettled hcalm hp.read) fun _ s₂ _ _ _ => ?_
      refine Does.after (persists_const True) trivial calls_generateReport fun _ s₃ _ _ => ?_
      exact Does.pure (persists_const True) trivial

theorem does_scheduleTurn {plan : PlanSpec} {maximumTasks : Option Nat} {p : Progress}
    (hp : Tracks g w home specs p (ledger s)) (hcalm : g.calm → Calm p.tasks) :
    Does g w codec sha256Digest (A.scheduleTurn plan maximumTasks p) (TurnTracks g w home specs) s := by
  unfold Agent.scheduleTurn
  refine Does.seq (persists_plannedRun _) hp.planned (does_promoteReady hp.view hcalm)
    fun tasks s₁ _ hplanned h => ?_
  obtain ⟨hview, hcalm⟩ := h
  have hkeep : Persists g fun l => PlannedRun l home.runId ∧ View g home specs tasks l :=
    (persists_plannedRun _).and (persists_view tasks)
  refine Does.ofExcept hkeep ⟨hplanned, hview⟩ fun candidates s₂ hready _ h => ?_
  split
  · next hnone =>
    obtain rfl := List.isEmpty_iff.mp hnone
    refine Does.after hkeep h calls_pendingLifecycleRequest fun request s₃ _ h => ?_
    exact does_concludeTurn ⟨h.2, hp.runId, h.1, hp.read⟩ hcalm hready
  · have hbatch : ∀ candidate ∈ A.selectBatch candidates p.executed maximumTasks,
        Dispatchable g home specs candidate (ledger s₂) := by
      intro candidate hcandidate
      obtain ⟨hmem, hstate, hdone⟩ :=
        h.2.1.dependenciesDone hready candidate (mem_selectBatch hcandidate)
      refine ⟨h.2.1.read hmem, ?_, hstate, hdone⟩
      rw [← h.2.2]
      exact List.mem_map_of_mem hmem
    refine Does.seq (persists_plannedRun _) h.1 (does_startBatch hp.runId h.2 hbatch hcalm)
      fun r s₃ _ hplanned hstarted => ?_
    obtain ⟨run, tasks', started, before⟩ := r
    exact Does.pure (persists_turnTracks (.batch _ started))
      ⟨⟨hstarted.2.view, hstarted.1, hplanned, hp.read⟩, hstarted.2.running, hstarted.2.calm⟩

theorem does_turn {plan : PlanSpec} {maximumTasks : Option Nat} {p : Progress}
    (hp : Tracks g w home specs p (ledger s)) (hcalm : g.calm → Calm p.tasks) :
    Does g w codec sha256Digest (A.turn plan maximumTasks p) (TurnTracks g w home specs) s := by
  unfold Agent.turn
  refine Does.after (persists_tracks p) hp calls_pendingLifecycleRequest fun request s₁ hs hp => ?_
  cases request with
  | some request =>
    exact Does.seq (persists_const True) trivial (does_handleRequest hs hp)
      fun p' s₂ _ _ _ => Does.pure (persists_turnTracks (.ended p')) trivial
  | none =>
    unfold Agent.turnFor
    dsimp only
    split
    · exact Does.pure (persists_turnTracks (.ended p)) trivial
    · exact does_scheduleTurn hp hcalm

/-! ## The loop -/

theorem does_releasing {α : Type} {lease : LeaseRecord} {p : StoreProg Text α}
    {R : α → Ledger → Prop} (hp : Does g w codec sha256Digest p R s) :
    Does g w codec sha256Digest (releasing lease p) R s :=
  Does.tryCatch hp (persists_const True) trivial fun _ _ _ _ =>
    Does.after (persists_const True) trivial (calls_ofLease _) fun _ _ _ _ => Does.raise

theorem does_loop {plan : PlanSpec} {maximumTasks : Option Nat} (fuel : Nat) {lease : LeaseRecord}
    {p : Progress} (hp : Tracks g w home specs p (ledger s)) (hcalm : g.calm → Calm p.tasks) :
    Does g w codec sha256Digest (A.loop plan maximumTasks fuel lease p) (fun _ _ => True) s := by
  induction fuel generalizing lease p s with
  | zero => trivial
  | succ fuel ih =>
    have hrelease (lease : LeaseRecord) (p : Progress) (s : StoreState Text) :
        Does g w codec sha256Digest (releaseLease lease >>= fun _ => pure p) (fun _ _ => True) s :=
      Does.after (persists_const True) trivial (calls_ofLease _) fun _ _ _ _ =>
        Does.pure (persists_const True) trivial
    unfold Agent.loop
    refine Does.seq (persists_const True) trivial (does_releasing (does_turn hp hcalm))
      fun turn s₁ _ _ hturn => ?_
    cases turn with
    | ended p => exact hrelease lease p s₁
    | again p => exact ih hturn.1 hturn.2
    | batch p started =>
      have hkeep : Persists g fun l => Tracks g w home specs p l ∧
          ∀ item ∈ started, Running g home specs item l :=
        (persists_tracks p).and (persists_allRunning started)
      refine Does.seq hkeep ⟨hturn.1, hturn.2.1⟩
        (does_calls calls_executeBatch ends_executeBatch) fun r s₂ _ h hlen => ?_
      obtain ⟨lease, results⟩ := r
      have hlen' : ∀ list, results = .ok list → list.length = started.length := fun list hlist => by
        rw [hlen list hlist, List.length_map]
      refine Does.seq (persists_const True) trivial
        (does_releasing (does_settleBatch h.1 h.2 hturn.2.2 hlen')) fun r s₃ _ _ hr => ?_
      obtain ⟨p', ends⟩ := r
      cases ends with
      | true => exact hrelease lease p' s₃
      | false => exact ih hr.1 fun hg => hr.2 hg rfl

/-! ## Advancing a run -/

theorem calls_getTasks {reader : Reader} {runId : String} :
    (getTasks reader runId : StoreProg Text _).Calls Quiet := by
  refine Calls.bind (calls_sql trivial) fun run => Calls.bind ?_ fun planId => ?_
  · unfold requestedPlanId
    split
    · trivial
    · exact calls_sql trivial
  · cases planId with
    | some planId => exact calls_sql trivial
    | none => trivial

/-- Of a run with an active plan, the tasks of that plan are read. -/
theorem does_getTasks_view {reader : Reader} {runId : String}
    (hplanned : PlannedRun (ledger s) runId) :
    Does g w codec sha256Digest (getTasks reader runId)
      (fun tasks l => ∃ home, home.runId = runId ∧ View g home (tasks.map TaskRecord.spec) tasks l ∧
        (reader = .advance → g.calm → home.planId = w.planId ∧ Calm tasks)) s := by
  unfold getTasks
  refine Does.seq (persists_const True) trivial (does_getRun_planned hplanned)
    fun run s₁ _ _ hrun => ?_
  obtain ⟨home, hactive, howner, hhome⟩ := hrun.active
  unfold requestedPlanId
  rw [hactive]
  obtain rfl : home.runId = runId := howner.trans hrun.runId
  refine Does.mono (does_selectTasks_view hhome) fun tasks l _ h => ?_
  exact ⟨home, rfl, ⟨h.1, rfl⟩, h.2⟩

theorem does_unadvanced {lease : LeaseRecord} {run : RunRecord} :
    Does g w codec sha256Digest (unadvanced lease run) (fun _ _ => True) s := by
  unfold unadvanced
  refine Does.after (persists_const True) trivial (calls_ofLease _) fun _ s₁ _ _ => ?_
  refine Does.after (persists_const True) trivial calls_getTasks fun tasks s₂ _ _ => ?_
  exact Does.pure (persists_const True) trivial

theorem does_advanceRun {lease : LeaseRecord} {run : RunRecord} {maximumTasks : Option Nat}
    (hplanned : PlannedRun (ledger s) run.runId) :
    Does g w codec sha256Digest (A.advanceRun lease run maximumTasks) (fun _ _ => True) s := by
  unfold Agent.advanceRun
  refine Does.after (persists_plannedRun _) hplanned (calls_sql trivial)
    fun plan s₁ _ hplanned => ?_
  refine Does.seq (persists_plannedRun _) hplanned (does_getTasks_view hplanned)
    fun tasks s₂ _ hplanned hread => ?_
  obtain ⟨home, hid, hview, hcalm⟩ := hread
  refine Does.after ((persists_plannedRun _).and (persists_view tasks)) ⟨hplanned, hview⟩
    (calls_sql trivial) fun _ s₃ _ h => ?_
  refine Does.seq (persists_const True) trivial
    (does_loop A.fuel ⟨h.2, hid.symm, hid ▸ h.1, fun hg => (hcalm rfl hg).1⟩
      fun hg => (hcalm rfl hg).2) fun p s₄ _ _ _ => ?_
  exact Does.pure (persists_const True) trivial

theorem does_advance {runId workerId : String} {maximumTasks : Option Int} :
    Does g w codec sha256Digest (A.advance runId workerId maximumTasks) (fun _ _ => True) s := by
  unfold Agent.advance
  split
  · exact Does.raise
  · refine Does.after (persists_const True) trivial (calls_ofLease _) fun lease s₁ _ _ => ?_
    refine Does.seq (persists_const True) trivial (does_getRun runId) fun run s₂ _ _ hrun => ?_
    split
    · next hpaused =>
      refine Does.after (persists_readRun run) hrun calls_pendingLifecycleRequest
        fun pending s₃ _ hrun => ?_
      unfold Agent.advancePaused
      split
      · exact does_advanceRun (.of_copy hrun.copy (by simp [Planned, hpaused]))
      · exact does_unadvanced
    · split
      · next hstate =>
        refine does_advanceRun (.of_copy hrun.copy ?_)
        rcases hstate with h | h <;> simp [Planned, h]
      · exact does_unadvanced

end DurableAgent.Orchestration
