import DurableAgent.Library.Closure
import DurableAgent.Library.Total
import DurableAgent.Domain.PlanProgress
import DurableAgent.Orchestration.TaskSteps

/-!
# Skipping the dependents of a failed task

The sweeps over the tasks collect what leads to the failed task along the dependencies, whatever
the order of the tasks. Of these, what has not been started is skipped, and nothing else is
written.
-/

namespace DurableAgent.Orchestration

open Library Library.Prog Store

variable {Text : Type} {codec : Codec Text} {sha256Digest : String → String}
  {s s' s₁ : StoreState Text} {tasks updated : List TaskRecord}

instance : Nonempty Supply :=
  ⟨{ now := default, freshId := "", heartbeatDue := false, outcome := .ok none
     plan := .error (.other ""), path := .error (.other ""), index := .error (.other "")
     context := .error (.other ""), checkpoint := default
     tools := ⟨default, "", [], .ok [], .ok none⟩ }⟩

/-! ## The blocked tasks -/

theorem uses_iff {a b : String} :
    Uses (fun task : TaskRecord => task.spec.taskId) (fun task => task.spec.dependencies) tasks
      a b ↔ DependsOn (tasks.map TaskRecord.spec) a b := by
  constructor
  · rintro ⟨task, htask, hid, hb⟩
    exact ⟨task.spec, List.mem_map_of_mem htask, hid, hb⟩
  · rintro ⟨spec, hspec, hid, hb⟩
    obtain ⟨task, htask, rfl⟩ := List.mem_map.mp hspec
    exact ⟨task, htask, hid, hb⟩

/-- The blocked tasks are those that depend on the failed one, directly or not. -/
theorem mem_blockedBy_iff (hacyclic : Acyclic (DependsOn (tasks.map TaskRecord.spec)))
    {failedTaskId taskId : String} : taskId ∈ blockedBy tasks failedTaskId ↔
      Relation.TransGen (DependsOn (tasks.map TaskRecord.spec)) taskId failedTaskId := by
  have hsweep : blockPass tasks = sweep (fun task : TaskRecord => task.spec.taskId)
      (fun task => task.spec.dependencies) tasks := rfl
  have huses : Uses (fun task : TaskRecord => task.spec.taskId)
      (fun task => task.spec.dependencies) tasks = DependsOn (tasks.map TaskRecord.spec) :=
    funext fun a => funext fun b => propext uses_iff
  unfold blockedBy
  rw [List.mem_filter, hsweep, mem_sweeps_iff, huses, Relation.reflTransGen_iff_eq_or_transGen]
  constructor
  · rintro ⟨rfl | h, hne⟩
    · simp at hne
    · exact h
  · intro h
    refine ⟨.inr h, ?_⟩
    rw [decide_eq_true_eq]
    rintro rfl
    exact hacyclic _ h

/-! ## The rows that are written -/

/-- The rows of some tasks are rewritten, and nothing else. -/
structure TaskWrites (tasks updated : List TaskRecord) (s s' : StoreState Text) : Prop where
  held : ∀ task ∈ updated, task ∈ s'.tasks.rows
  others : ∀ row, row.taskPk ∉ tasks.map TaskRecord.taskPk →
    (row ∈ s'.tasks.rows ↔ row ∈ s.tasks.rows)
  frame : s' = { s with tasks := s'.tasks }

theorem taskWrites_nil (s : StoreState Text) : TaskWrites [] [] s s :=
  ⟨by simp, by simp, rfl⟩

/-- A task that the store holds can be rewritten. -/
theorem writeTask_held {old new : TaskRecord} (hold : old ∈ s.tasks.rows)
    (hrewrites : Rewrites old new) : s.writeTask new old.version =
      some (s.tasks.replace (taskWithVersion new old.version)) := by
  rw [← hrewrites.written]
  exact Table.swap_eq_some.mpr ⟨old, hold, hrewrites.taskPk.symm, rfl, rfl⟩

theorem updateTask_held {old new : TaskRecord} (hold : old ∈ s.tasks.rows)
    (hrewrites : Rewrites old new) :
    s.updateTask new old.version = .ok (taskWithVersion new old.version,
      { s with tasks := s.tasks.replace (taskWithVersion new old.version) }) := by
  unfold StoreState.updateTask
  rw [writeTask_held hold hrewrites]

theorem taskWrites_replace {old new : TaskRecord} (hold : old ∈ s.tasks.rows)
    (hkey : new.taskPk = old.taskPk) :
    TaskWrites [old] [new] s { s with tasks := s.tasks.replace new } where
  held task htask := by
    rw [List.mem_singleton.mp htask]
    exact (Table.mem_replace hold hkey new).mpr (.inl rfl)
  others row hrow := by
    rw [List.map_singleton, List.mem_singleton, ← hkey] at hrow
    rw [Table.mem_replace hold hkey]
    constructor
    · rintro (rfl | h)
      · exact absurd rfl hrow
      · exact h.1
    · exact fun h => .inr ⟨h, hrow⟩
  frame := rfl

theorem TaskWrites.cons {old new : TaskRecord} (h : TaskWrites [old] [new] s s₁)
    (h' : TaskWrites tasks updated s₁ s') (hkey : new.taskPk = old.taskPk)
    (hnew : old.taskPk ∉ tasks.map TaskRecord.taskPk) :
    TaskWrites (old :: tasks) (new :: updated) s s' where
  held task htask := by
    rcases List.mem_cons.mp htask with rfl | htask
    · rw [← hkey] at hnew
      exact (h'.others _ hnew).mpr (h.held _ List.mem_cons_self)
    · exact h'.held task htask
  others row hrow := by
    rw [List.map_cons, List.mem_cons, not_or] at hrow
    rw [h'.others row hrow.2]
    exact h.others row (by simpa using hrow.1)
  frame := by
    rw [h'.frame, h.frame]

/-! ## Skipping -/

/-- A state that a task is skipped in. -/
def Unstarted (state : TaskState) : Prop :=
  state = .PENDING ∨ state = .READY ∨ state = .WAITING

/-- Of the tasks named, those that are unstarted are skipped, by a declared transition. -/
structure Skips (named : String → Prop) (old new : TaskRecord) : Prop where
  skipped : named old.spec.taskId → Unstarted old.state →
    Edge taskTransitions old.state .SKIPPED ∧ ∃ now, new =
      taskWithVersion { old with state := .SKIPPED, finishedAt := some now } old.version
  kept : ¬ (named old.spec.taskId ∧ Unstarted old.state) → new = old

theorem Skips.rewrites {named : String → Prop} {old new : TaskRecord} (h : Skips named old new) :
    Rewrites old new := by
  by_cases hskipped : named old.spec.taskId ∧ Unstarted old.state
  · obtain ⟨-, now, rfl⟩ := h.skipped hskipped.1 hskipped.2
    exact ⟨rfl, rfl, rfl⟩
  · rw [h.kept hskipped]
    exact ⟨rfl, rfl, rfl⟩

theorem Skips.ne_iff {named : String → Prop} {old new : TaskRecord} (h : Skips named old new) :
    new ≠ old ↔ named old.spec.taskId ∧ Unstarted old.state := by
  constructor
  · intro hne
    by_contra hkept
    exact hne (h.kept hkept)
  · intro hskipped heq
    obtain ⟨-, now, hnew⟩ := h.skipped hskipped.1 hskipped.2
    have hversion : new.version = old.version + 1 := by
      rw [hnew]
      rfl
    rw [heq] at hversion
    omega

theorem edge_skipped {state : TaskState} (h : Unstarted state) :
    Edge taskTransitions state .SKIPPED := by
  rcases h with rfl | rfl | rfl <;> simp [Edge, taskTransitions]

theorem transitionTask_skipped {state : TaskState} (h : Unstarted state) :
    transitionTask state .SKIPPED = .ok .SKIPPED := by
  rcases h with rfl | rfl | rfl <;> rfl

theorem skipTask_fulfils {blocked : List String} {task : TaskRecord}
    (hheld : task ∈ s.tasks.rows) :
    (skipTask blocked task).Fulfils (handle codec sha256Digest).exec
      (returning fun new s' => Skips (· ∈ blocked) task new ∧ TaskWrites [task] [new] s s') s := by
  unfold skipTask
  by_cases hskip : Skippable blocked task
  · rw [if_pos hskip]
    refine Fulfils.next (Fulfils.ofExcept (R := fun state s' => state = .SKIPPED ∧ s = s')
      (transitionTask_skipped hskip.2) ⟨rfl, rfl⟩) ?_
    rintro _ _ ⟨rfl, rfl⟩
    refine Fulfils.next (R := fun _ s' => s = s') (fulfils_handler fun t => ⟨t.now, rfl, rfl⟩) ?_
    rintro now _ rfl
    refine fulfils_handler fun t => ?_
    have hrewrites : Rewrites task { task with state := .SKIPPED, finishedAt := some now } :=
      ⟨rfl, rfl, rfl⟩
    have hupdate := updateTask_held hheld hrewrites
    change returning _ (settle _ (StoreState.updateTask _ _ _)).1
      (settle _ (StoreState.updateTask _ _ _)).2
    rw [hupdate]
    refine ⟨_, rfl, ⟨fun _ hstate => ⟨edge_skipped hstate, now, rfl⟩, fun h => absurd hskip h⟩, ?_⟩
    exact taskWrites_replace hheld rfl
  · rw [if_neg hskip]
    refine Fulfils.pure ⟨⟨fun hnamed hstate => absurd ⟨hnamed, hstate⟩ hskip, fun _ => rfl⟩, ?_⟩
    exact ⟨by simpa using hheld, fun _ _ => Iff.rfl, rfl⟩

theorem skipTasks_fulfils {blocked : List String}
    (hkeys : (tasks.map TaskRecord.taskPk).Nodup) (hheld : ∀ task ∈ tasks, task ∈ s.tasks.rows) :
    (tasks.mapM' (skipTask blocked) : StoreProg Text _).Fulfils (handle codec sha256Digest).exec
      (returning fun updated s' =>
        List.Forall₂ (Skips (· ∈ blocked)) tasks updated ∧ TaskWrites tasks updated s s') s := by
  induction tasks generalizing s with
  | nil => exact Fulfils.pure ⟨.nil, taskWrites_nil s⟩
  | cons task rest ih =>
    rw [List.map_cons, List.nodup_cons] at hkeys
    refine Fulfils.next (skipTask_fulfils (hheld task List.mem_cons_self)) ?_
    rintro new s₁ ⟨hskips, hwrites⟩
    have hrest : ∀ other ∈ rest, other ∈ s₁.tasks.rows := by
      intro other hother
      apply (hwrites.others other _).mpr (hheld other (List.mem_cons_of_mem task hother))
      rw [List.map_singleton, List.mem_singleton]
      intro hkey
      rw [← hkey] at hkeys
      exact hkeys.1 (List.mem_map_of_mem hother)
    refine Fulfils.next (ih hkeys.2 hrest) ?_
    rintro updated s₂ ⟨hall, hwrites'⟩
    exact Fulfils.pure ⟨.cons hskips hall, hwrites.cons hwrites' hskips.rewrites.taskPk hkeys.1⟩

/-! ## The event -/

/-- The rows of a list are those that a list of updates pairs up. -/
theorem exists_mem_zip {α β : Type} {R : α → β → Prop} {as : List α} {bs : List β}
    (h : List.Forall₂ R as bs) {a : α} (ha : a ∈ as) : ∃ b, (a, b) ∈ as.zip bs ∧ R a b := by
  induction h with
  | nil => simp at ha
  | @cons a' b as bs hab _ ih =>
    rw [List.zip_cons_cons]
    rcases List.mem_cons.mp ha with rfl | ha
    · exact ⟨b, List.mem_cons_self, hab⟩
    · obtain ⟨b', hb', h⟩ := ih ha
      exact ⟨b', List.mem_cons_of_mem _ hb', h⟩

/-- The event that names what has been skipped. -/
def skippedEvent (tasks : List TaskRecord) (failedTaskId : String) (ids : List String) :
    Checkpoints.Event :=
  ⟨(tasks.head?.map TaskRecord.runId).getD "", "task.dependents_skipped",
    .obj [("skipped_task_ids", .ofStrings ids)], some failedTaskId⟩

/-- What the skipping of some tasks of a list leaves, and what it announces. -/
structure SkipsAll (named : String → Prop) (failedTaskId : String) (tasks : List TaskRecord)
    (s : StoreState Text) (updated : List TaskRecord) (s' : StoreState Text) : Prop where
  skips : List.Forall₂ (Skips named) tasks updated
  held : ∀ task ∈ updated, task ∈ s'.tasks.rows
  others : ∀ row, row.taskPk ∉ tasks.map TaskRecord.taskPk →
    (row ∈ s'.tasks.rows ↔ row ∈ s.tasks.rows)
  announced : ∃ ids : List String, ids.Pairwise (· < ·) ∧
    (∀ id, id ∈ ids ↔ ∃ pair ∈ tasks.zip updated, pair.1.spec.taskId = id ∧ pair.2 ≠ pair.1) ∧
    s' = { s with
      tasks := s'.tasks
      checkpoints := { s.checkpoints with
        events := s.checkpoints.events ++ [skippedEvent tasks failedTaskId ids] } }

theorem head_runId {named : String → Prop} (h : List.Forall₂ (Skips named) tasks updated) :
    updated.head?.map TaskRecord.runId = tasks.head?.map TaskRecord.runId := by
  cases h with
  | nil => rfl
  | cons hskips _ => exact congrArg some hskips.rewrites.runId

/-- The identifiers that are announced. -/
def skippedIds (blocked : List String) (tasks : List TaskRecord) : List String :=
  ((tasks.filter fun task => Skippable blocked task).map fun task =>
    task.spec.taskId).insertionSort (· ≤ ·)

theorem skippedIds_pairwise {blocked : List String}
    (hids : (tasks.map fun task => task.spec.taskId).Nodup) :
    (skippedIds blocked tasks).Pairwise (· < ·) := by
  have hsome : ((tasks.filter fun task => Skippable blocked task).map fun task =>
      task.spec.taskId).Nodup :=
    (List.filter_sublist.map fun task : TaskRecord => task.spec.taskId).nodup hids
  have hdistinct : (skippedIds blocked tasks).Nodup :=
    (List.perm_insertionSort (· ≤ ·) _).nodup_iff.mpr hsome
  have hsorted : (skippedIds blocked tasks).Pairwise (· ≤ ·) :=
    List.pairwise_insertionSort (· ≤ ·) _
  exact (hsorted.and hdistinct).imp fun h => lt_of_le_of_ne h.1 h.2

theorem mem_skippedIds_iff {blocked : List String} {id : String}
    (hall : List.Forall₂ (Skips (· ∈ blocked)) tasks updated) :
    id ∈ skippedIds blocked tasks ↔
      ∃ pair ∈ tasks.zip updated, pair.1.spec.taskId = id ∧ pair.2 ≠ pair.1 := by
  unfold skippedIds
  rw [(List.perm_insertionSort (· ≤ ·) _).mem_iff, List.mem_map]
  constructor
  · rintro ⟨task, htask, rfl⟩
    obtain ⟨htask, hskip⟩ := List.mem_filter.mp htask
    obtain ⟨new, hpair, hskips⟩ := exists_mem_zip hall htask
    have hskip : Skippable blocked task := of_decide_eq_true hskip
    exact ⟨(task, new), hpair, rfl, hskips.ne_iff.mpr hskip⟩
  · rintro ⟨⟨old, new⟩, hpair, rfl, hne⟩
    have hskips := (List.forall₂_iff_zip.mp hall).2 hpair
    have hskip : Skippable blocked old := hskips.ne_iff.mp hne
    exact ⟨old, List.mem_filter.mpr ⟨(List.of_mem_zip hpair).1, decide_eq_true hskip⟩, rfl⟩

theorem skipTransitiveDependents_fulfils {failedTaskId : String}
    (hids : (tasks.map fun task => task.spec.taskId).Nodup)
    (hheld : ∀ task ∈ tasks, task ∈ s.tasks.rows) :
    (skipTransitiveDependents tasks failedTaskId).Fulfils (handle codec sha256Digest).exec
      (returning (SkipsAll (· ∈ blockedBy tasks failedTaskId) failedTaskId tasks s)) s := by
  have hkeys : (tasks.map TaskRecord.taskPk).Nodup := by
    apply List.Nodup.of_map fun pk : String × String × String => pk.2.2
    rwa [List.map_map]
  unfold skipTransitiveDependents
  dsimp only
  refine Fulfils.next (skipTasks_fulfils hkeys hheld) ?_
  rintro updated s₁ ⟨hall, hwrites⟩
  refine Fulfils.next (R := fun _ =>
    SkipsAll (· ∈ blockedBy tasks failedTaskId) failedTaskId tasks s updated) ?_
    fun _ s₂ h => Fulfils.pure h
  refine fulfils_handler fun t => ⟨(), rfl, hall, hwrites.held, hwrites.others, ?_⟩
  refine ⟨skippedIds (blockedBy tasks failedTaskId) tasks, skippedIds_pairwise hids, ?_, ?_⟩
  · exact fun id => mem_skippedIds_iff hall
  · rw [head_runId hall, hwrites.frame]
    rfl

theorem SkipsAll.congr {named named' : String → Prop} {failedTaskId : String}
    (h : SkipsAll named failedTaskId tasks s updated s') (hnamed : ∀ id, named id ↔ named' id) :
    SkipsAll named' failedTaskId tasks s updated s' := by
  rwa [← show named = named' from funext fun id => propext (hnamed id)]

theorem skipTransitiveDependents_skips {failedTaskId : String}
    (hids : (tasks.map fun task => task.spec.taskId).Nodup)
    (hacyclic : Acyclic (DependsOn (tasks.map TaskRecord.spec)))
    (hheld : ∀ task ∈ tasks, task ∈ s.tasks.rows) :
    (skipTransitiveDependents tasks failedTaskId).Fulfils (handle codec sha256Digest).exec
      (returning (SkipsAll
        (fun id => Relation.TransGen (DependsOn (tasks.map TaskRecord.spec)) id failedTaskId)
        failedTaskId tasks s)) s :=
  (skipTransitiveDependents_fulfils hids hheld).weaken fun _ _ h =>
    h.congr fun _ => mem_blockedBy_iff hacyclic

/-- Of the tasks of a validated plan, in any order and any states: those that depend on the failed
one, directly or not, and are unstarted are skipped by a declared transition, no other row is
written, and the event names exactly what has been changed. -/
theorem skipTransitiveDependents_closure {plan checked : PlanSpec} {maximumDepth : Int}
    (hplan : validatePlan plan maximumDepth = .ok checked) (tasks : List TaskRecord)
    (htasks : (tasks.map TaskRecord.spec).Perm plan.tasks) (s : StoreState Text)
    (hheld : ∀ task ∈ tasks, task ∈ s.tasks.rows) (failed : TaskRecord) (hfailed : failed ∈ tasks) :
    (skipTransitiveDependents tasks failed.spec.taskId).Fulfils (handle codec sha256Digest).exec
      (returning fun updated s' => failed ∈ updated ∧ SkipsAll
        (fun id => Relation.TransGen (DependsOn plan.tasks) id failed.spec.taskId)
        failed.spec.taskId tasks s updated s') s := by
  have hexecutable := executable_of_validatePlan hplan
  have hspecs : DependsOn (tasks.map TaskRecord.spec) = DependsOn plan.tasks := by
    funext a b
    unfold DependsOn
    simp only [htasks.mem_iff]
  have hids : (tasks.map fun task => task.spec.taskId).Nodup := by
    have hunique := (htasks.map TaskSpec.taskId).nodup_iff.mpr hexecutable.unique
    rwa [List.map_map] at hunique
  have hacyclic : Acyclic (DependsOn (tasks.map TaskRecord.spec)) := by
    rw [hspecs]
    exact hexecutable.acyclic
  refine (skipTransitiveDependents_skips hids hacyclic hheld).weaken fun updated s' hskips => ?_
  rw [hspecs] at hskips
  refine ⟨?_, hskips⟩
  obtain ⟨new, hpair, hnew⟩ := exists_mem_zip hskips.skips hfailed
  have hkept : new = failed := hnew.kept fun hnamed => hexecutable.acyclic _ hnamed.1
  rw [← hkept]
  exact (List.of_mem_zip hpair).2

/-- A store that holds some tasks and nothing else. -/
def taskStore (tasks : Table TaskRecord.taskPk) : StoreState CheckpointEnvelope :=
  { runs := .empty, plans := .empty, tasks := tasks, attempts := .empty, requests := .empty
    keys := .empty, errors := [], reports := [], leases := fun _ => none
    checkpoints := ⟨[], []⟩, tools := ⟨⟨[], []⟩, []⟩ }

theorem skipTransitiveDependents_closure_pair : ∃ updated s',
    Runs (handle (⟨id, some, fun _ => rfl⟩ : Codec CheckpointEnvelope) id).exec
      (skipTransitiveDependents (pairRecords .FAILED_TERMINAL) "a")
      (taskStore ⟨pairRecords .FAILED_TERMINAL, by decide⟩) (.ok updated) s' ∧
    updated.map TaskRecord.state = [.SKIPPED, .FAILED_TERMINAL] := by
  have hfulfils : Fulfils (handle (⟨id, some, fun _ => rfl⟩ : Codec CheckpointEnvelope) id).exec
      _ _ _ :=
    skipTransitiveDependents_closure validatePlan_pairPlan (pairRecords .FAILED_TERMINAL) (.refl _)
      (taskStore ⟨pairRecords .FAILED_TERMINAL, by decide⟩) (fun _ htask => htask)
      (pairRecords .FAILED_TERMINAL)[1] (List.getElem_mem _)
  obtain ⟨r, s', hrun⟩ := hfulfils.exists_run
  obtain ⟨updated, rfl, -, hskips⟩ := hfulfils.runs hrun
  refine ⟨updated, s', hrun, ?_⟩
  have hwaits : DependsOn pairPlan.tasks "b" "a" :=
    ⟨pairTasks[0], List.mem_cons_self, rfl, List.mem_cons_self⟩
  cases hskips.skips with
  | cons hsecond hrest =>
    cases hrest with
    | cons hfirst hnone =>
      cases hnone
      obtain ⟨-, now, rfl⟩ := hsecond.skipped (.single hwaits) (.inl rfl)
      rw [hfirst.kept fun h => absurd h.2 (by simp [Unstarted])]
      rfl

end DurableAgent.Orchestration
