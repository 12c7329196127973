import Mathlib.Data.List.TakeWhile
import DurableAgent.Orchestration.TaskSteps

/-!
# The scheduling part of the loop

Promotion and dispatch move task rows from copies that form a view of one plan. The view stays a
view of that plan; which of its records are not at rest is known by their places.
-/

namespace DurableAgent.Orchestration

open Library Library.Prog Store

variable {Text : Type} {g : Assumed} {w : Watch} {codec : Codec Text}
  {sha256Digest : String → String}
  {s s' : StoreState Text} {A : Agent Text} {home : PlanSpec} {specs : List TaskSpec}

/-! ## Quiet programs -/

theorem calls_sql {α : Type} {op : SqlOp α} (h : @Quiet Text α (.sql op)) :
    (sql op : StoreProg Text α).Calls Quiet :=
  calls_perform.mpr h

theorem calls_ofLease {α : Type} (p : Prog Leases.LeaseOp Exn α) :
    (ofLease p : StoreProg Text α).Calls Quiet :=
  Calls.mapOp (fun _ _ => trivial) p

theorem calls_ofCheckpoint {α : Type} (p : Prog (Checkpoints.CheckpointOp Text) Exn α) :
    (ofCheckpoint p).Calls Quiet :=
  Calls.mapOp (fun _ _ => trivial) p

theorem calls_ofTools {α : Type} (p : Prog Tools.JournalOp Exn α) :
    (ofTools p : StoreProg Text α).Calls Quiet :=
  Calls.mapOp (fun _ _ => trivial) p

theorem calls_publish {runId eventType : String} {taskId : Option String}
    {payload : List (String × Json)} :
    (publish runId eventType taskId payload : StoreProg Text Unit).Calls Quiet :=
  calls_perform.mpr trivial

theorem calls_checkpointIf {wanted : Bool} {run : RunRecord} {plan : PlanSpec}
    {tasks : List TaskRecord} {known : Checkpoints.Known} :
    (A.checkpointIf wanted run plan tasks known).Calls Quiet := by
  unfold Agent.checkpointIf
  split
  · exact Calls.bind (calls_ofCheckpoint _) fun _ => trivial
  · trivial

/-! ## Views -/

/-- A view with the specs of its records, which stay what they are. -/
def View (g : Assumed) (home : PlanSpec) (specs : List TaskSpec) (tasks : List TaskRecord)
    (l : Ledger) : Prop :=
  TaskView g l home tasks ∧ tasks.map TaskRecord.spec = specs

theorem persists_view (tasks : List TaskRecord) : Persists g (View g home specs tasks) :=
  fun _ _ h hview => ⟨h.taskView hview.1, hview.2⟩

/-- The record at the place of another one: of the same plan and task, and sound by itself. -/
structure Follows (g : Assumed) (l : Ledger) (a b : TaskRecord) : Prop where
  runId : b.runId = a.runId
  planId : b.planId = a.planId
  spec : b.spec = a.spec
  copy : l.TaskCopy b
  facts : TaskFacts g b

theorem persists_follows (a b : TaskRecord) : Persists g fun l => Follows g l a b :=
  fun _ _ h hab => { hab with copy := h.taskCopy hab.copy }

/-- What an update answers with follows what it was computed from. -/
theorem Written.follows {l : Ledger} {old new task : TaskRecord} {v : Nat}
    (h : Written new v task l) (hrewrites : Rewrites old new)
    (hfacts : TaskFacts g (taskWithVersion new v)) : Follows g l old task := by
  obtain ⟨rfl, hcopy⟩ := h
  exact ⟨hrewrites.runId, hrewrites.planId, hrewrites.spec, hcopy, hfacts⟩

theorem TaskView.read {l : Ledger} {tasks : List TaskRecord} (h : TaskView g l home tasks)
    {task : TaskRecord} (htask : task ∈ tasks) : ReadTask g home.runId home.planId task l :=
  ⟨(h.inPlan task htask).1, (h.inPlan task htask).2, h.copies task htask, h.facts task htask⟩

/-- A view depends on the specs of its records and on what each record is by itself. -/
theorem TaskView.of_specs {l : Ledger} {tasks tasks' : List TaskRecord}
    (h : TaskView g l home tasks)
    (hspecs : tasks'.map TaskRecord.spec = tasks.map TaskRecord.spec)
    (hread : ∀ task ∈ tasks', ReadTask g home.runId home.planId task l) :
    TaskView g l home tasks' where
  stored := h.stored
  inPlan task htask := ⟨(hread task htask).runId, (hread task htask).planId⟩
  copies task htask := (hread task htask).copy
  facts task htask := (hread task htask).facts
  known task htask := by
    have hmem : task.spec ∈ tasks'.map TaskRecord.spec := List.mem_map_of_mem htask
    rw [hspecs] at hmem
    obtain ⟨old, hold, hsame⟩ := List.mem_map.mp hmem
    exact hsame ▸ h.known old hold
  covers spec hspec := by
    rw [hspecs]
    exact h.covers spec hspec
  nodup := by
    have hids : (tasks'.map fun task => task.spec.taskId) = tasks.map fun task => task.spec.taskId := by
      have hmap := congrArg (List.map TaskSpec.taskId) hspecs
      rwa [List.map_map, List.map_map] at hmap
    rw [hids]
    exact h.nodup

theorem specs_of_forall₂ {l : Ledger} {tasks tasks' : List TaskRecord}
    (h : List.Forall₂ (Follows g l) tasks tasks') :
    tasks'.map TaskRecord.spec = tasks.map TaskRecord.spec := by
  induction h with
  | nil => rfl
  | cons hab _ ih => rw [List.map_cons, List.map_cons, hab.spec, ih]

theorem exists_of_forall₂ {α β : Type} {R : α → β → Prop} {as : List α} {bs : List β}
    (h : List.Forall₂ R as bs) : ∀ b ∈ bs, ∃ a ∈ as, R a b := by
  induction h with
  | nil => simp
  | cons hab _ ih =>
    intro b hb
    rcases List.mem_cons.mp hb with rfl | hb
    · exact ⟨_, List.mem_cons_self, hab⟩
    · obtain ⟨a, ha, hab⟩ := ih b hb
      exact ⟨a, List.mem_cons_of_mem _ ha, hab⟩

/-- Records that follow those of a view are a view again. -/
theorem View.forall₂ {l : Ledger} {tasks tasks' : List TaskRecord}
    (h : View g home specs tasks l) (hall : List.Forall₂ (Follows g l) tasks tasks') :
    View g home specs tasks' l := by
  have hspecs := specs_of_forall₂ hall
  refine ⟨h.1.of_specs hspecs fun b hb => ?_, hspecs.trans h.2⟩
  obtain ⟨a, ha, hab⟩ := exists_of_forall₂ hall b hb
  have hin := h.1.inPlan a ha
  exact ⟨hab.runId.trans hin.1, hab.planId.trans hin.2, hab.copy, hab.facts⟩

/-- A record is put in the place that bears its spec. -/
theorem View.set {l : Ledger} {tasks : List TaskRecord} {task : TaskRecord} {index : Nat}
    (h : View g home specs tasks l) (htask : ReadTask g home.runId home.planId task l)
    (hindex : specs[index]? = some task.spec) : View g home specs (tasks.set index task) l := by
  have hspecs : (tasks.set index task).map TaskRecord.spec = specs := by
    rw [List.map_set, h.2]
    refine List.ext_getElem? fun i => ?_
    rw [List.getElem?_set]
    split
    · next heq =>
      subst heq
      rw [hindex]
      split
      · rfl
      · next hlen =>
        rw [List.getElem?_eq_none (not_lt.mp hlen)] at hindex
        cases hindex
    · rfl
  refine ⟨h.1.of_specs (hspecs.trans h.2.symm) fun b hb => ?_, hspecs⟩
  rcases List.mem_or_eq_of_mem_set hb with hb | rfl
  · exact h.1.read hb
  · exact htask

/-! ## Records at rest -/

/-- The records at other places than the listed ones are at rest. -/
def CalmBut (pending : List Nat) (tasks : List TaskRecord) : Prop :=
  ∀ i task, tasks[i]? = some task → i ∉ pending → AtRest task.state

theorem calmBut_nil {tasks : List TaskRecord} : CalmBut [] tasks ↔ Calm tasks := by
  constructor
  · intro h task htask
    obtain ⟨i, hi⟩ := List.mem_iff_getElem?.mp htask
    exact h i task hi List.not_mem_nil
  · exact fun h i task hi _ => h task (List.mem_of_getElem? hi)

theorem CalmBut.mono {pending pending' : List Nat} {tasks : List TaskRecord}
    (h : CalmBut pending tasks) (hsub : ∀ i ∈ pending, i ∈ pending') : CalmBut pending' tasks :=
  fun i task hi hnot => h i task hi fun hmem => hnot (hsub i hmem)

/-- A record is replaced, and its place is pending from now on. -/
theorem CalmBut.set {pending : List Nat} {tasks : List TaskRecord} (h : CalmBut pending tasks)
    (index : Nat) (task : TaskRecord) : CalmBut (index :: pending) (tasks.set index task) := by
  intro i t hi hnot
  obtain ⟨hne, hnot⟩ := not_or.mp (List.mem_cons.not.mp hnot)
  rw [List.getElem?_set_ne (Ne.symm hne)] at hi
  exact h i t hi hnot

/-- A record at rest is put in a pending place. -/
theorem CalmBut.settle {pending pending' : List Nat} {tasks : List TaskRecord} {index : Nat}
    {task : TaskRecord} (h : CalmBut pending tasks) (htask : AtRest task.state)
    (hsub : ∀ i ∈ pending, i = index ∨ i ∈ pending') : CalmBut pending' (tasks.set index task) := by
  intro i t hi hnot
  by_cases hne : index = i
  · subst hne
    have hmem := List.mem_of_getElem? hi
    rw [List.getElem?_set] at hi
    split at hi
    · split at hi
      · rw [← Option.some.inj hi]
        exact htask
      · cases hi
    · contradiction
  · rw [List.getElem?_set_ne hne] at hi
    exact h i t hi fun hmem => (hsub i hmem).elim (fun h => hne h.symm) hnot

/-- Nothing that was at rest is disturbed. -/
theorem Calm.forall₂ {tasks tasks' : List TaskRecord} (h : Calm tasks)
    (hall : List.Forall₂ (fun a b => AtRest a.state → AtRest b.state) tasks tasks') :
    Calm tasks' := by
  intro b hb
  obtain ⟨a, ha, hab⟩ := exists_of_forall₂ hall b hb
  exact hab (h a ha)

/-! ## Promotion -/

/-- A step that starts nothing. -/
theorem taskStep_to {l : Ledger} {task new : TaskRecord} (hrewrites : Rewrites task new)
    (hfacts : TaskFacts g task) (hlegal : TaskLegal task.state new.state)
    (hcount : new.attemptCount = task.attemptCount) (hstarts : new.state ≠ .RUNNING)
    (hpaused : new.state ≠ .PAUSED ∧ new.state ≠ .PAUSE_REQUESTED)
    (hskipped : new.state = .SKIPPED → FailedBeside l task.runId task.planId)
    (hsucceeded : new.state = .SUCCEEDED → 1 ≤ task.attemptCount)
    (hbudget : g.budget → Schedulable new.state → task.attemptCount < task.spec.maximumAttempts) :
    TaskStep g l task (taskWithVersion new task.version) where
  runId := hrewrites.runId
  planId := hrewrites.planId
  spec := hrewrites.spec
  version := rfl
  legal := hlegal
  started := fun h => absurd h hstarts
  counted := fun _ => hcount
  skipped := hskipped
  facts :=
    { unpaused := hpaused
      attempted := fun h => hcount ▸ hsucceeded (h.resolve_left hstarts)
      budget := fun hb => by
        change new.attemptCount ≤ new.spec.maximumAttempts ∧
          (Schedulable new.state → new.attemptCount < new.spec.maximumAttempts)
        rw [hcount, hrewrites.spec]
        exact ⟨(hfacts.budget hb).1, hbudget hb⟩ }

/-- A schedulable record may be made ready. -/
theorem taskStep_ready {l : Ledger} {task : TaskRecord} {state : TaskState}
    (htransition : transitionTask task.state .READY = .ok state) (hfacts : TaskFacts g task)
    (hbudget : g.budget → task.attemptCount < task.spec.maximumAttempts) :
    TaskStep g l task (taskWithVersion { task with state := state } task.version) := by
  obtain ⟨rfl, hlegal⟩ := transitionTask_legal htransition
  exact taskStep_to ⟨rfl, rfl, rfl⟩ hfacts hlegal rfl (by simp) (by simp) (by simp) (by simp)
    fun hb _ => hbudget hb

/-- What an update that disturbs nothing makes of a record. -/
structure Continues (g : Assumed) (l : Ledger) (a b : TaskRecord) : Prop
    extends Follows g l a b where
  rest : AtRest a.state → AtRest b.state

theorem persists_continues (a b : TaskRecord) : Persists g fun l => Continues g l a b :=
  fun _ _ h hab => { hab with copy := h.taskCopy hab.copy }

theorem does_promoteTask {candidateIds : List String} {task : TaskRecord}
    (hread : ReadTask g home.runId home.planId task (ledger s))
    (hready : task.spec.taskId ∈ candidateIds → Schedulable task.state) :
    Does g w codec sha256Digest (promoteTask candidateIds task)
      (fun b l => Continues g l task b) s := by
  unfold promoteTask
  split
  · exact Does.pure (persists_continues task task)
      ⟨⟨rfl, rfl, rfl, hread.copy, hread.facts⟩, id⟩
  · next hmem =>
    refine Does.ofExcept (persists_readTask task) hread fun state s₁ htransition _ hread => ?_
    have hstep (l : Ledger) : TaskStep g l task
        (taskWithVersion { task with state := state } task.version) :=
      taskStep_ready htransition hread.facts fun hb =>
        (hread.facts.budget hb).2 (hready (not_not.mp hmem))
    refine Does.mono (does_updateTask (persists_const True) trivial hread.copy ⟨rfl, rfl, rfl⟩
      fun s _ _ _ _ => hstep (ledger s)) fun b l _ hb => ?_
    refine ⟨hb.follows ⟨rfl, rfl, rfl⟩ (hstep l).facts, fun _ => ?_⟩
    rw [hb.1]
    obtain ⟨rfl, -⟩ := transitionTask_legal htransition
    exact ⟨by simp [taskWithVersion], by simp [taskWithVersion]⟩

theorem does_promoteReady {tasks : List TaskRecord}
    (hview : View g home specs tasks (ledger s)) (hcalm : g.calm → Calm tasks) :
    Does g w codec sha256Digest (promoteReady tasks)
      (fun promoted l => View g home specs promoted l ∧ (g.calm → Calm promoted)) s := by
  unfold promoteReady
  refine Does.ofExcept (persists_view tasks) hview fun candidates s₁ hready hsound hview => ?_
  have hids : ∀ task ∈ tasks, task.spec.taskId ∈ candidates.map (fun item => item.spec.taskId) →
      Schedulable task.state := by
    intro task htask hid
    obtain ⟨candidate, hcandidate, hsame⟩ := List.mem_map.mp hid
    obtain ⟨hmem, hstate, -⟩ := readyTasks_spec hready candidate hcandidate
    rw [← List.inj_on_of_nodup_map hview.1.nodup hmem htask hsame]
    exact hstate
  refine Does.mono (Does.keep (Does.mapM'
    (K := fun task l => ReadTask g home.runId home.planId task l ∧
      (task.spec.taskId ∈ candidates.map (fun item => item.spec.taskId) → Schedulable task.state))
    (T := fun a b l => Continues g l a b) (fun task => (persists_readTask task).and (persists_const _))
    persists_continues (fun task s _ h => does_promoteTask h.1 h.2) hsound
    fun task htask => ⟨hview.1.read htask, hids task htask⟩) (persists_view tasks) hview)
    fun promoted l _ h => ⟨?_, fun hg => ?_⟩
  · exact h.2.forall₂ (h.1.imp fun a b hab => hab.toFollows)
  · exact (hcalm hg).forall₂ (h.1.imp fun a b hab => hab.rest)

/-! ## Dispatch -/

/-- How many tasks a batch may have. -/
def Agent.batchLimit (A : Agent Text) (executed : Nat) : Option Nat → Nat
  | none => A.settings.maximumConcurrency
  | some maximum => min A.settings.maximumConcurrency (maximum - executed)

section SelectBatch

variable {candidates rest : List TaskRecord} {first task : TaskRecord} {executed : Nat}
  {maximumTasks : Option Nat}

theorem selectBatch_cons : A.selectBatch (first :: rest) executed maximumTasks =
    if A.batchLimit executed maximumTasks ≤ 1 ∨ first.spec.parallelizable = false then [first]
    else ((first :: rest).take (A.batchLimit executed maximumTasks)).takeWhile
      fun candidate => candidate.spec.parallelizable := by
  cases maximumTasks <;> rfl

/-- A batch is a prefix of the ready tasks. -/
theorem selectBatch_prefix : A.selectBatch candidates executed maximumTasks <+: candidates := by
  cases candidates with
  | nil => exact List.nil_prefix
  | cons first rest =>
    rw [selectBatch_cons]
    split
    · exact ⟨rest, rfl⟩
    · exact (List.takeWhile_prefix _).trans (List.take_prefix _ _)

theorem mem_selectBatch (h : task ∈ A.selectBatch candidates executed maximumTasks) :
    task ∈ candidates := selectBatch_prefix.subset h

/-- Where a task is ready, a batch has one. -/
theorem selectBatch_ne_nil (h : candidates ≠ []) :
    A.selectBatch candidates executed maximumTasks ≠ [] := by
  cases candidates with
  | nil => exact absurd rfl h
  | cons first rest =>
    rw [selectBatch_cons]
    split
    · exact List.cons_ne_nil _ _
    · next hmany =>
      obtain ⟨hlimit, hfirst⟩ := not_or.mp hmany
      obtain ⟨limit, hlimit'⟩ : ∃ limit, A.batchLimit executed maximumTasks = limit + 1 :=
        ⟨_, (Nat.succ_pred_eq_of_pos (by omega)).symm⟩
      rw [hlimit', List.take_succ_cons, List.takeWhile_cons, if_pos (by simpa using hfirst)]
      exact List.cons_ne_nil _ _

/-- A batch is not larger than it may be. -/
theorem selectBatch_length_le (hlimit : 1 ≤ A.batchLimit executed maximumTasks) :
    (A.selectBatch candidates executed maximumTasks).length ≤ A.batchLimit executed maximumTasks := by
  cases candidates with
  | nil => exact Nat.zero_le _
  | cons first rest =>
    rw [selectBatch_cons]
    split
    · exact hlimit
    · exact ((List.takeWhile_prefix _).length_le).trans (List.length_take_le _ _)

/-- A task that must not run beside others is a batch of its own. -/
theorem selectBatch_alone (h : task ∈ A.selectBatch candidates executed maximumTasks)
    (hserial : task.spec.parallelizable = false) :
    A.selectBatch candidates executed maximumTasks = [task] := by
  cases candidates with
  | nil => cases h
  | cons first rest =>
    rw [selectBatch_cons] at h ⊢
    split
    · next hone =>
      rw [if_pos hone, List.mem_singleton] at h
      rw [h]
    · next hmany =>
      rw [if_neg hmany] at h
      have hparallel := List.mem_takeWhile_imp h
      rw [hserial] at hparallel
      cases hparallel

end SelectBatch

/-- A task that a worker holds, and its place in the list. -/
structure Running (g : Assumed) (home : PlanSpec) (specs : List TaskSpec) (started : Started)
    (l : Ledger) : Prop where
  read : ReadTask g home.runId home.planId started.task l
  running : started.task.state = .RUNNING
  place : specs[started.index]? = some started.task.spec

theorem persists_running (started : Started) : Persists g (Running g home specs started) :=
  fun _ _ h hrunning => { hrunning with read := persists_readTask _ h hrunning.read }

/-- A task that waits for nothing but its dispatch. -/
structure Dispatchable (g : Assumed) (home : PlanSpec) (specs : List TaskSpec)
    (task : TaskRecord) (l : Ledger) : Prop where
  read : ReadTask g home.runId home.planId task l
  known : task.spec ∈ specs
  schedulable : Schedulable task.state
  done : DependenciesDone l task

theorem persists_dispatchable (task : TaskRecord) :
    Persists g (Dispatchable g home specs task) :=
  fun _ _ h htask =>
    { htask with
      read := persists_readTask task h htask.read
      done := h.dependenciesDone htask.done }

theorem taskStep_running {l : Ledger} {task : TaskRecord} {state : TaskState}
    {startedAt : Option Timestamp} (htransition : transitionTask task.state .RUNNING = .ok state)
    (hfacts : TaskFacts g task) (hschedulable : Schedulable task.state)
    (hdone : DependenciesDone l task) :
    TaskStep g l task (taskWithVersion
      { task with
        state := state, attemptCount := task.attemptCount + 1, startedAt := startedAt }
      task.version) := by
  have hready : task.state = .READY := by
    rcases hschedulable with h | h | h
    · rw [h] at htransition
      cases htransition
    · exact h
    · rw [h] at htransition
      cases htransition
  obtain ⟨rfl, hlegal⟩ := transitionTask_legal htransition
  exact
    { runId := rfl
      planId := rfl
      spec := rfl
      version := rfl
      legal := hlegal
      started := fun _ => ⟨rfl, hready, hdone⟩
      counted := fun h => absurd rfl h
      skipped := fun h => by cases h
      facts :=
        { unpaused := ⟨by simp [taskWithVersion], by simp [taskWithVersion]⟩
          attempted := fun _ => Nat.le_add_left 1 _
          budget := fun hb => ⟨(hfacts.budget hb).2 hschedulable, fun h => by
            simp [taskWithVersion, Schedulable] at h⟩ } }

/-- The place that the task's identifier is found at bears its spec. -/
theorem View.findIdx {l : Ledger} {tasks : List TaskRecord} {task : TaskRecord}
    (hview : View g home specs tasks l) (hknown : task.spec ∈ specs) :
    specs[tasks.findIdx fun item => item.spec.taskId = task.spec.taskId]? = some task.spec := by
  obtain ⟨hview, rfl⟩ := hview
  obtain ⟨item, hitem, hspec⟩ := List.mem_map.mp hknown
  have hlt : (tasks.findIdx fun item => item.spec.taskId = task.spec.taskId) < tasks.length :=
    List.findIdx_lt_length_of_exists ⟨item, hitem, by simp [hspec]⟩
  have hfound := List.findIdx_getElem (w := hlt)
  simp only [decide_eq_true_eq] at hfound
  have hsame := List.inj_on_of_nodup_map hview.nodup (List.getElem_mem hlt) hitem
    (by rw [hfound, hspec])
  rw [List.getElem?_map, List.getElem?_eq_getElem hlt, hsame, Option.map_some, hspec]

theorem does_startTask {runId : String} {batchSize : Nat} {tasks : List TaskRecord}
    {candidate : TaskRecord} {pending : List Nat} (hrun : runId = home.runId)
    (hview : View g home specs tasks (ledger s))
    (hcandidate : Dispatchable g home specs candidate (ledger s))
    (hcalm : g.calm → CalmBut pending tasks) :
    Does g w codec sha256Digest (startTask runId batchSize tasks candidate)
      (fun r l => View g home specs r.1 l ∧ Running g home specs r.2 l ∧
        (g.calm → CalmBut (r.2.index :: pending) r.1)) s := by
  have hindex := hview.findIdx hcandidate.known
  have hreturn (r : List TaskRecord × Started) : Persists g fun l =>
      View g home specs r.1 l ∧ Running g home specs r.2 l ∧
        (g.calm → CalmBut (r.2.index :: pending) r.1) :=
    (persists_view r.1).and ((persists_running r.2).and (persists_const _))
  unfold startTask
  dsimp only
  refine Does.ofExcept ((persists_view tasks).and (persists_dispatchable candidate))
    ⟨hview, hcandidate⟩ fun state s₁ htransition _ h => ?_
  refine Does.after ((persists_view tasks).and (persists_dispatchable candidate)) h
    (calls_sql trivial) fun now s₂ _ h => ?_
  obtain ⟨hview, hcandidate⟩ := h
  have hread := hcandidate.read
  have hrewrites : Rewrites candidate
      { candidate with
        state := state, attemptCount := candidate.attemptCount + 1, startedAt := some now } :=
    ⟨rfl, rfl, rfl⟩
  have hstep (l : Ledger) (hdone : DependenciesDone l candidate) :
      TaskStep g l candidate (taskWithVersion
        { candidate with
          state := state, attemptCount := candidate.attemptCount + 1, startedAt := some now }
        candidate.version) :=
    taskStep_running htransition hread.facts hcandidate.schedulable hdone
  have hfacts := (hstep (ledger s₂) hcandidate.done).facts
  have hrunning : state = .RUNNING := (transitionTask_legal htransition).1
  have hkeep : Persists g fun l =>
      View g home specs tasks l ∧ Dispatchable g home specs candidate l :=
    (persists_view tasks).and (persists_dispatchable candidate)
  rw [hrun, ← hread.runId]
  refine does_start hkeep ⟨hview, hcandidate⟩ hread.copy hrewrites hrunning
    (Nat.le_add_left 1 _) (fun l _ h _ => hstep l h.2.done) fun task attemptId s₃ _ h hwritten => ?_
  have hfollows := hwritten.follows hrewrites hfacts
  have htask : ReadTask g home.runId home.planId task (ledger s₃) :=
    ⟨hfollows.runId.trans hread.runId, hfollows.planId.trans hread.planId, hfollows.copy,
      hfollows.facts⟩
  have hstate : task.state = .RUNNING := by
    rw [hwritten.1]
    exact hrunning
  have hspec : specs[tasks.findIdx fun item => item.spec.taskId = candidate.spec.taskId]? =
      some task.spec := by rw [hindex, hfollows.spec]
  refine Does.after ((persists_view tasks).and (persists_readTask task)) ⟨h.1, htask⟩ calls_publish
    fun _ s₄ _ h => ?_
  exact Does.pure (hreturn _) ⟨h.1.set h.2 hspec, ⟨h.2, hstate, hspec⟩,
    fun hg => (hcalm hg).set _ task⟩

/-- What a batch looks like once its tasks are started. -/
structure Dispatched (g : Assumed) (home : PlanSpec) (specs : List TaskSpec)
    (pending : List Nat) (tasks : List TaskRecord) (started : List Started) (l : Ledger) :
    Prop where
  view : View g home specs tasks l
  running : ∀ item ∈ started, Running g home specs item l
  calm : g.calm → CalmBut (pending ++ started.map Started.index) tasks

theorem persists_dispatched {pending : List Nat} (tasks : List TaskRecord)
    (started : List Started) : Persists g (Dispatched g home specs pending tasks started) :=
  fun _ _ h hd =>
    { view := persists_view tasks h hd.view
      running := fun item hitem => persists_running item h (hd.running item hitem)
      calm := hd.calm }

theorem does_startTasks {runId : String} {batchSize : Nat} (hrun : runId = home.runId)
    (batch : List TaskRecord) {tasks : List TaskRecord} {pending : List Nat}
    (hview : View g home specs tasks (ledger s))
    (hbatch : ∀ candidate ∈ batch, Dispatchable g home specs candidate (ledger s))
    (hcalm : g.calm → CalmBut pending tasks) :
    Does g w codec sha256Digest (startTasks runId batchSize batch tasks)
      (fun r l => Dispatched g home specs pending r.1 r.2 l) s := by
  induction batch generalizing tasks pending s with
  | nil =>
    exact Does.pure (persists_dispatched _ _)
      ⟨hview, by simp, fun hg => by simpa using hcalm hg⟩
  | cons candidate rest ih =>
    have hkeep : Persists g fun l => ∀ c ∈ rest, Dispatchable g home specs c l :=
      fun _ _ h hall c hc => persists_dispatchable c h (hall c hc)
    unfold startTasks
    refine Does.seq hkeep (fun c hc => hbatch c (List.mem_cons_of_mem _ hc))
      (does_startTask hrun hview (hbatch candidate List.mem_cons_self) hcalm)
      fun r s₁ _ hrest h => ?_
    obtain ⟨hview, hrunning, hcalm⟩ := h
    refine Does.seq (persists_running r.2) hrunning (ih hview hrest hcalm)
      fun r' s₂ _ hrunning h => ?_
    refine Does.pure (persists_dispatched _ _) ⟨h.view, fun item hitem => ?_, fun hg => ?_⟩
    · rcases List.mem_cons.mp hitem with rfl | hitem
      · exact hrunning
      · exact h.running item hitem
    · refine (h.calm hg).mono fun i hi => ?_
      simp only [List.cons_append, List.mem_cons, List.mem_append, List.map_cons] at hi ⊢
      tauto

theorem does_startBatch {run : RunRecord} {plan : PlanSpec} {tasks batch : List TaskRecord}
    (hrun : run.runId = home.runId) (hview : View g home specs tasks (ledger s))
    (hbatch : ∀ candidate ∈ batch, Dispatchable g home specs candidate (ledger s))
    (hcalm : g.calm → Calm tasks) :
    Does g w codec sha256Digest (A.startBatch run plan tasks batch)
      (fun r l => r.1.runId = home.runId ∧ Dispatched g home specs [] r.2.1 r.2.2.1 l) s := by
  unfold Agent.startBatch
  refine Does.seq (persists_const True) trivial
    (does_startTasks hrun batch hview hbatch fun hg => calmBut_nil.mpr (hcalm hg))
    fun r s₁ _ _ hstarted => ?_
  obtain ⟨tasks', started⟩ := r
  have hkeep : Persists g (Dispatched g home specs [] tasks' started) :=
    persists_dispatched tasks' started
  refine Does.seq hkeep hstarted (does_getRun run.runId) fun currentRun s₂ _ hstarted hcurrent => ?_
  refine Does.after (hkeep.and (persists_readRun currentRun)) ⟨hstarted, hcurrent⟩
    (calls_sql trivial) fun now s₃ _ h => ?_
  refine Does.seq hkeep h.1 (does_touchRun h.2.copy rfl rfl rfl) fun run' s₄ _ hstarted hwritten => ?_
  have hid : run'.runId = home.runId := by
    rw [hwritten.1]
    exact hcurrent.runId.trans hrun
  refine Does.after hkeep hstarted calls_checkpointIf fun checkpointId s₅ _ hstarted => ?_
  exact Does.pure ((persists_const _).and hkeep) ⟨hid, hstarted⟩

end DurableAgent.Orchestration
