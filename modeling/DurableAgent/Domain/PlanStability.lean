import Mathlib.Algebra.BigOperators.Group.List.Basic
import DurableAgent.Domain.PlanDepth

/-!
# What the topological order depends on

Every list that the algorithm reads is sorted before it is read, so the order is one of the graph
and not of the list of tasks. Where there is no order, the tasks that are named are those that
never left the queue: the tasks on a cycle, and those behind one.
-/

namespace DurableAgent

open Library

variable {tasks tasks' : List TaskSpec}

/-- Every dependency is one of the tasks. -/
def Closed (tasks : List TaskSpec) : Prop :=
  ∀ task ∈ tasks, ∀ d ∈ task.dependencies, d ∈ tasks.map TaskSpec.taskId

/-! ## Reordered tasks -/

theorem insertionSort_congr {l l' : List String} (h : l'.Perm l) :
    l'.insertionSort (· ≤ ·) = l.insertionSort (· ≤ ·) := by
  apply List.Perm.eq_of_pairwise' (List.pairwise_insertionSort _ _)
    (List.pairwise_insertionSort _ _)
  exact ((List.perm_insertionSort _ _).trans h).trans (List.perm_insertionSort _ _).symm

theorem taskIds_perm (h : tasks'.Perm tasks) : (taskIds tasks').Perm (taskIds tasks) :=
  (h.map TaskSpec.taskId).dedup

theorem dependents_congr (h : tasks'.Perm tasks) (d : String) :
    dependents tasks' d = dependents tasks d :=
  insertionSort_congr ((h.filter _).map TaskSpec.taskId)

theorem initialIndegree_congr (h : tasks'.Perm tasks) :
    initialIndegree tasks' = initialIndegree tasks := by
  ext taskId
  exact ((h.filter _).map _).sum_eq

theorem sorted_taskIds_congr (h : tasks'.Perm tasks) (chosen : String → Bool) :
    ((taskIds tasks').filter chosen).insertionSort (· ≤ ·) =
      ((taskIds tasks).filter chosen).insertionSort (· ≤ ·) :=
  insertionSort_congr ((taskIds_perm h).filter chosen)

/-- The loop reads the tasks through their dependents only. -/
theorem drain_congr (h : tasks'.Perm tasks) (turns : Nat) (queue : List String)
    (indegree : String → Int) (result : List String) :
    drain tasks' turns queue indegree result = drain tasks turns queue indegree result := by
  induction turns generalizing queue indegree result with
  | zero => rfl
  | succ turns ih =>
    cases queue with
    | nil => rfl
    | cons taskId queue =>
      unfold drain
      rw [dependents_congr h]
      apply ih

theorem Closed.perm (h : Closed tasks) (hperm : tasks'.Perm tasks) : Closed tasks' := by
  intro task htask d hd
  rw [(hperm.map TaskSpec.taskId).mem_iff]
  exact h task (hperm.mem_iff.mp htask) d hd

/-- What the loop leaves, and the number of tasks in it. -/
def drained (tasks : List TaskSpec) : List String × (String → Int) :=
  drain tasks tasks.length
    (((taskIds tasks).filter fun taskId => initialIndegree tasks taskId = 0).insertionSort (· ≤ ·))
    (initialIndegree tasks) []

theorem drained_congr (h : tasks'.Perm tasks) : drained tasks' = drained tasks := by
  unfold drained
  rw [drain_congr h, initialIndegree_congr h, sorted_taskIds_congr h, h.length_eq]

/-- The tasks that are named where there is no order. -/
def cyclicTasks (tasks : List TaskSpec) : List String :=
  ((taskIds tasks).filter fun taskId => 0 < (drained tasks).2 taskId).insertionSort (· ≤ ·)

theorem unknown_eq_none (hunique : (tasks.map TaskSpec.taskId).Nodup) (h : Closed tasks) :
    ((tasks.flatMap TaskSpec.dependencies).find? fun d => taskById tasks d = none) = none := by
  rw [List.find?_eq_none]
  intro d hd
  obtain ⟨task, htask, hd⟩ := List.mem_flatMap.mp hd
  obtain ⟨other, hother, rfl⟩ := List.mem_map.mp (h task htask d hd)
  simp [taskById_eq_some hunique hother]

/-- The outcome where every dependency is known. -/
theorem topologicalOrder_of_closed (hunique : (tasks.map TaskSpec.taskId).Nodup)
    (h : Closed tasks) : topologicalOrder tasks =
      if (drained tasks).1.length ≠ tasks.length then
        .error (invalidPlan
          s!"task graph contains a cycle involving: {listText (cyclicTasks tasks)}")
      else .ok (drained tasks).1 := by
  unfold topologicalOrder
  rw [unknown_eq_none hunique h]
  rfl

theorem topologicalOrder_congr (hunique : (tasks.map TaskSpec.taskId).Nodup) (h : Closed tasks)
    (hperm : tasks'.Perm tasks) : topologicalOrder tasks' = topologicalOrder tasks := by
  have hunique' : (tasks'.map TaskSpec.taskId).Nodup :=
    (hperm.map TaskSpec.taskId).nodup_iff.mpr hunique
  rw [topologicalOrder_of_closed hunique h, topologicalOrder_of_closed hunique' (h.perm hperm)]
  unfold cyclicTasks
  rw [drained_congr hperm, sorted_taskIds_congr hperm, hperm.length_eq]

/-! ## Unknown dependencies -/

theorem closed_of_topologicalOrder {ordered : List String}
    (h : topologicalOrder tasks = .ok ordered) : Closed tasks := by
  unfold topologicalOrder at h
  split at h
  · cases h
  · next hknown =>
    rw [List.find?_eq_none] at hknown
    intro task htask d hd
    have hfound := hknown d (List.mem_flatMap.mpr ⟨task, htask, hd⟩)
    rw [decide_eq_true_eq, ← ne_eq, Option.ne_none_iff_exists'] at hfound
    obtain ⟨other, hother⟩ := hfound
    have hmem := List.mem_of_getLast? hother
    rw [List.mem_filter, decide_eq_true_eq] at hmem
    exact List.mem_map.mpr ⟨other, hmem.1, hmem.2⟩

/-! ## Cycles -/

/-- The loop that stops short of a task has an empty queue. -/
theorem drained_spec (hunique : (tasks.map TaskSpec.taskId).Nodup)
    (hshort : (drained tasks).1.length ≠ tasks.length) :
    (∃ queue, Draining tasks queue (drained tasks).2 (drained tasks).1) ∧
      Listed tasks [] (drained tasks).1 := by
  refine ⟨(draining_roots hunique).drain hunique tasks.length, ?_⟩
  rcases drain_listed hunique tasks.length (draining_roots hunique) (listed_roots hunique) with
    hlisted | hturns
  · exact hlisted
  · rw [List.length_nil, Nat.zero_add] at hturns
    exact absurd hturns hshort

/-- A task is named exactly if it has not left the queue. -/
theorem mem_cyclicTasks (hunique : (tasks.map TaskSpec.taskId).Nodup)
    (hshort : (drained tasks).1.length ≠ tasks.length) {task : TaskSpec} (htask : task ∈ tasks) :
    task.taskId ∈ cyclicTasks tasks ↔ task.taskId ∉ (drained tasks).1 := by
  obtain ⟨⟨queue, hdraining⟩, hlisted⟩ := drained_spec hunique hshort
  have hcounted := hdraining.counted task htask
  have hknown : task.taskId ∈ taskIds tasks := by
    rw [taskIds, List.mem_dedup]
    exact List.mem_map_of_mem htask
  rw [cyclicTasks, List.mem_insertionSort, List.mem_filter, decide_eq_true_eq]
  constructor
  · rintro ⟨-, hopen⟩ hmem
    have hreleased := hdraining.released task.taskId (List.mem_append_left _ hmem)
    omega
  · intro hnot
    refine ⟨hknown, ?_⟩
    by_contra hopen
    have hmem := hlisted task htask (by omega)
    rw [List.append_nil] at hmem
    exact hnot hmem

/-- What depends on nothing but listed tasks is behind them, so no cycle leads into the list. -/
theorem not_mem_of_cycle (hunique : (tasks.map TaskSpec.taskId).Nodup)
    (hshort : (drained tasks).1.length ≠ tasks.length) {t : String}
    (hcycle : Relation.TransGen (DependsOn tasks) t t) : t ∉ (drained tasks).1 := by
  obtain ⟨⟨queue, hdraining⟩, -⟩ := drained_spec hunique hshort
  have hbefore : ∀ c, Relation.TransGen (DependsOn tasks) t c → t ∈ (drained tasks).1 →
      c ∈ (drained tasks).1 ∧ (drained tasks).1.idxOf c < (drained tasks).1.idxOf t := by
    intro c htc ht
    have hstep : ∀ a b, DependsOn tasks a b → a ∈ (drained tasks).1 →
        b ∈ (drained tasks).1 ∧ (drained tasks).1.idxOf b < (drained tasks).1.idxOf a := by
      rintro a b ⟨task, htask, rfl, hb⟩ ha
      exact ⟨hdraining.dependencies htask (List.mem_append_left _ ha) b hb,
        hdraining.ordered task htask ha b hb⟩
    induction htc with
    | single htc => exact hstep _ _ htc ht
    | tail _ hcd ih =>
      obtain ⟨hc, hlt⟩ := ih
      obtain ⟨hd, hlt'⟩ := hstep _ _ hcd hc
      exact ⟨hd, hlt'.trans hlt⟩
  intro ht
  exact lt_irrefl _ (hbefore t hcycle ht).2

/-- A task on a cycle is named. -/
theorem cycle_mem_cyclicTasks (hunique : (tasks.map TaskSpec.taskId).Nodup)
    (hshort : (drained tasks).1.length ≠ tasks.length) {t : String}
    (hcycle : Relation.TransGen (DependsOn tasks) t t) : t ∈ cyclicTasks tasks := by
  have hfirst : ∃ task ∈ tasks, task.taskId = t := by
    obtain ⟨-, ⟨task, htask, hid, -⟩, -⟩ := Relation.TransGen.head'_iff.mp hcycle
    exact ⟨task, htask, hid⟩
  obtain ⟨task, htask, rfl⟩ := hfirst
  rw [mem_cyclicTasks hunique hshort htask]
  exact not_mem_of_cycle hunique hshort hcycle

/-- A task that is named depends on a cycle. -/
theorem cyclicTasks_depend (hunique : (tasks.map TaskSpec.taskId).Nodup) (h : Closed tasks)
    (hshort : (drained tasks).1.length ≠ tasks.length) {t : String} (ht : t ∈ cyclicTasks tasks) :
    ∃ c, Relation.TransGen (DependsOn tasks) t c ∧ Relation.TransGen (DependsOn tasks) c c := by
  have hknown : ∀ u ∈ cyclicTasks tasks, u ∈ tasks.map TaskSpec.taskId := by
    intro u hu
    rw [cyclicTasks, List.mem_insertionSort, List.mem_filter, taskIds, List.mem_dedup] at hu
    exact hu.1
  apply exists_cycle (s := {u | u ∈ cyclicTasks tasks}) (List.finite_toSet _) _ ht
  intro u hu
  obtain ⟨task, htask, rfl⟩ := List.mem_map.mp (hknown u hu)
  have hnot := (mem_cyclicTasks hunique hshort htask).mp hu
  -- the task has not left the queue, so one of its dependencies has not either
  have hopen : openEdges (drained tasks).1 task ≠ 0 := by
    intro hzero
    have hmem := (drained_spec hunique hshort).2 task htask hzero
    rw [List.append_nil] at hmem
    exact hnot hmem
  rw [openEdges, ne_eq, List.countP_eq_zero] at hopen
  push Not at hopen
  obtain ⟨d, hd, hunlisted⟩ := hopen
  obtain ⟨other, hother, rfl⟩ := List.mem_map.mp (h task htask d hd)
  refine ⟨other.taskId, (mem_cyclicTasks hunique hshort hother).mpr (by simpa using hunlisted), ?_⟩
  exact ⟨task, htask, rfl, hd⟩

/-! ## The order -/

theorem exists_topologicalOrder_iff (hunique : (tasks.map TaskSpec.taskId).Nodup) :
    (∃ ordered, topologicalOrder tasks = .ok ordered) ↔
      Closed tasks ∧ Acyclic (DependsOn tasks) := by
  constructor
  · rintro ⟨ordered, h⟩
    exact ⟨closed_of_topologicalOrder h, (topologicalOrder_eq_ok hunique h).acyclic⟩
  · rintro ⟨hclosed, hacyclic⟩
    exact exists_topologicalOrder hunique hclosed hacyclic

theorem Ordered.perm {ordered : List String} (h : Ordered tasks ordered)
    (hunique : (tasks.map TaskSpec.taskId).Nodup) : ordered.Perm (tasks.map TaskSpec.taskId) :=
  (List.perm_ext_iff_of_nodup h.nodup hunique).mpr h.mem_iff

/-- The refusal of tasks that wait for each other. -/
theorem topologicalOrder_of_cycle (hunique : (tasks.map TaskSpec.taskId).Nodup)
    (hclosed : Closed tasks) (hcyclic : ¬ Acyclic (DependsOn tasks)) :
    (drained tasks).1.length ≠ tasks.length ∧
      topologicalOrder tasks = .error (invalidPlan
        s!"task graph contains a cycle involving: {listText (cyclicTasks tasks)}") := by
  have hvalue := topologicalOrder_of_closed hunique hclosed
  by_cases hshort : (drained tasks).1.length ≠ tasks.length
  · rw [if_pos hshort] at hvalue
    exact ⟨hshort, hvalue⟩
  · rw [if_neg hshort] at hvalue
    exact absurd (topologicalOrder_eq_ok hunique hvalue).acyclic hcyclic

/-- There is an order exactly if every dependency is listed and no task waits for itself. It lists
each task once and behind its dependencies, and is the same for every reordering of the tasks. A
refusal that is for a cycle names every task on a cycle, and none but tasks that depend on one. -/
theorem topologicalOrder_stable (tasks : List TaskSpec)
    (hunique : (tasks.map TaskSpec.taskId).Nodup) :
    ((∃ ordered, topologicalOrder tasks = .ok ordered) ↔
        Closed tasks ∧ Acyclic (DependsOn tasks)) ∧
      (∀ ordered, topologicalOrder tasks = .ok ordered →
        ordered.Perm (tasks.map TaskSpec.taskId) ∧
        (∀ task ∈ tasks, ∀ d ∈ task.dependencies, ordered.idxOf d < ordered.idxOf task.taskId) ∧
        ∀ tasks' : List TaskSpec, tasks'.Perm tasks → topologicalOrder tasks' = .ok ordered) ∧
      (∀ e, topologicalOrder tasks = .error e → ∃ message, e = invalidPlan message) ∧
      (Closed tasks → ¬ Acyclic (DependsOn tasks) → ∃ named : List String,
        topologicalOrder tasks = .error (invalidPlan
          s!"task graph contains a cycle involving: {listText named}") ∧
        (∀ t, Relation.TransGen (DependsOn tasks) t t → t ∈ named) ∧
        ∀ t ∈ named, ∃ c, Relation.TransGen (DependsOn tasks) t c ∧
          Relation.TransGen (DependsOn tasks) c c) := by
  refine ⟨exists_topologicalOrder_iff hunique, ?_, topologicalOrder_refuses tasks, ?_⟩
  · intro ordered hok
    have hordered := topologicalOrder_eq_ok hunique hok
    refine ⟨hordered.perm hunique, hordered.behind, fun tasks' hperm => ?_⟩
    rw [topologicalOrder_congr hunique (closed_of_topologicalOrder hok) hperm]
    exact hok
  · intro hclosed hcyclic
    obtain ⟨hshort, hrefused⟩ := topologicalOrder_of_cycle hunique hclosed hcyclic
    refine ⟨cyclicTasks tasks, hrefused, ?_, ?_⟩
    · intro t ht
      exact cycle_mem_cyclicTasks hunique hshort ht
    · intro t ht
      exact cyclicTasks_depend hunique hclosed hshort ht

/-- A task and one that depends on it, listed first. -/
def pairTasks : List TaskSpec :=
  [{ taskId := "b", title := "second", description := "one small task", dependencies := ["a"] },
    { taskId := "a", title := "first", description := "one small task" }]

theorem topologicalOrder_stable_pair : Acyclic (DependsOn pairTasks) ∧
    ∀ tasks' : List TaskSpec, tasks'.Perm pairTasks →
      topologicalOrder tasks' = .ok ["a", "b"] := by
  have hok : topologicalOrder pairTasks = .ok ["a", "b"] := by rfl
  obtain ⟨hiff, hstable, -⟩ := topologicalOrder_stable pairTasks (by decide)
  exact ⟨(hiff.mp ⟨_, hok⟩).2, (hstable _ hok).2.2⟩

end DurableAgent
