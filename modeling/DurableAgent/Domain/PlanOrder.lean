import Mathlib.Data.String.Basic
import DurableAgent.Domain.Plan

/-!
# The order of a validated plan

A task is queued when the last of its edges is released, and each edge is released once, when the
dependency leaves the queue. An order that lists every task therefore lists each one behind its
dependencies.
-/

namespace DurableAgent

variable {tasks : List TaskSpec}

/-! ## Edges -/

theorem mem_dependents {d taskId : String} : taskId ∈ dependents tasks d ↔
    ∃ task ∈ tasks, d ∈ task.dependencies ∧ task.taskId = taskId := by
  simp [dependents, and_assoc]

theorem nodup_dependents (hnodup : (tasks.map TaskSpec.taskId).Nodup) (d : String) :
    (dependents tasks d).Nodup := by
  rw [dependents, (List.perm_insertionSort _ _).nodup_iff]
  exact hnodup.sublist (List.filter_sublist.map _)

/-- The tasks of a dependency, where each identifier is that of one task. -/
theorem taskId_mem_dependents (hnodup : (tasks.map TaskSpec.taskId).Nodup) {task : TaskSpec}
    (htask : task ∈ tasks) (d : String) :
    task.taskId ∈ dependents tasks d ↔ d ∈ task.dependencies := by
  rw [mem_dependents]
  constructor
  · rintro ⟨other, hother, hd, hid⟩
    rwa [← List.inj_on_of_nodup_map hnodup hother htask hid]
  · exact fun hd => ⟨task, htask, hd, rfl⟩

/-- What the release of one edge for each of some tasks leaves. -/
theorem foldl_releaseEdge {released : List String} (hnodup : released.Nodup)
    (queue : List String) (indegree : String → Int) :
    released.foldl releaseEdge (queue, indegree) =
      (queue ++ released.filter fun t => indegree t = 1,
        fun t => if t ∈ released then indegree t - 1 else indegree t) := by
  induction released generalizing queue indegree with
  | nil => simp
  | cons t rest ih =>
    obtain ⟨hnot, hrest⟩ := List.nodup_cons.mp hnodup
    have hsame : ∀ u ∈ rest, Function.update indegree t (indegree t - 1) u = indegree u := by
      intro u hu
      rw [Function.update_of_ne]
      rintro rfl
      exact hnot hu
    rw [List.foldl_cons, releaseEdge, ih hrest]
    refine Prod.ext ?_ (funext fun u => ?_)
    · have hfilter : (rest.filter fun u =>
          decide (Function.update indegree t (indegree t - 1) u = 1)) =
          rest.filter fun u => indegree u = 1 :=
        List.filter_congr fun u hu => by rw [hsame u hu]
      simp only [hfilter]
      by_cases hone : indegree t = 1
      · simp [hone]
      · have hzero : indegree t - 1 ≠ 0 := by omega
        simp [hone, hzero]
    · dsimp only
      by_cases hu : u ∈ rest
      · simp [hu, hsame u hu]
      · by_cases hut : u = t
        · simp [hut, hnot]
        · simp [hu, hut]

/-! ## The loop -/

/-- The dependencies of a task that have not left the queue. -/
def openEdges (result : List String) (task : TaskSpec) : Nat :=
  task.dependencies.countP fun d => d ∉ result

theorem countP_not_mem_append {l result : List String} {x : String} (hl : l.Nodup)
    (hx : x ∉ result) : (l.countP fun d => d ∉ result ++ [x]) + (if x ∈ l then 1 else 0) =
      l.countP fun d => d ∉ result := by
  induction l with
  | nil => simp
  | cons d rest ih =>
    obtain ⟨hnot, hrest⟩ := List.nodup_cons.mp hl
    have ih := ih hrest
    rw [List.countP_cons, List.countP_cons]
    by_cases hd : d = x
    · subst hd
      have hgone : decide (d ∉ result ++ [d]) = false := by simp
      have hthere : decide (d ∉ result) = true := by simp [hx]
      rw [if_neg hnot] at ih
      rw [hgone, hthere, if_pos List.mem_cons_self, ← ih]
      simp
    · have hsame : decide (d ∉ result ++ [x]) = decide (d ∉ result) := by simp [hd]
      have hin : x ∈ d :: rest ↔ x ∈ rest := by simp [Ne.symm hd]
      rw [hsame]
      simp only [hin]
      omega

/-- What the loop over the queue keeps. -/
structure Draining (tasks : List TaskSpec) (queue : List String) (indegree : String → Int)
    (result : List String) : Prop where
  nodup : (result ++ queue).Nodup
  known : ∀ t ∈ result ++ queue, t ∈ tasks.map TaskSpec.taskId
  released : ∀ t ∈ result ++ queue, indegree t ≤ 0
  counted : ∀ task ∈ tasks, indegree task.taskId = openEdges result task
  ordered : ∀ task ∈ tasks, task.taskId ∈ result → ∀ d ∈ task.dependencies,
    result.idxOf d < result.idxOf task.taskId

/-- The dependencies of what is queued have left the queue. -/
theorem Draining.dependencies {queue result : List String} {indegree : String → Int}
    (h : Draining tasks queue indegree result) {task : TaskSpec} (htask : task ∈ tasks)
    (hmem : task.taskId ∈ result ++ queue) : ∀ d ∈ task.dependencies, d ∈ result := by
  have hzero : openEdges result task = 0 := by
    have hreleased := h.released _ hmem
    rw [h.counted task htask] at hreleased
    omega
  intro d hd
  rw [openEdges, List.countP_eq_zero] at hzero
  simpa using hzero d hd

/-- One turn: an identifier leaves the queue. -/
theorem Draining.turn (hnodup : (tasks.map TaskSpec.taskId).Nodup) {taskId : String}
    {queue result : List String} {indegree : String → Int}
    (h : Draining tasks (taskId :: queue) indegree result) :
    Draining tasks (queue ++ (dependents tasks taskId).filter fun t => indegree t = 1)
      (fun t => if t ∈ dependents tasks taskId then indegree t - 1 else indegree t)
      (result ++ [taskId]) := by
  have hfirst : taskId ∉ result := by
    intro hmem
    exact List.disjoint_of_nodup_append h.nodup hmem List.mem_cons_self
  have hmem : ∀ t, t ∈ result ++ [taskId] ++
      (queue ++ (dependents tasks taskId).filter fun t => indegree t = 1) ↔
        t ∈ result ++ taskId :: queue ∨ t ∈ dependents tasks taskId ∧ indegree t = 1 := by
    intro t
    simp only [List.mem_append, List.mem_cons, List.mem_filter, decide_eq_true_eq]
    tauto
  refine ⟨?_, fun t ht => ?_, fun t ht => ?_, fun task htask => ?_, fun task htask ht d hd => ?_⟩
  · have hnew : ((dependents tasks taskId).filter fun t => indegree t = 1).Nodup :=
      (nodup_dependents hnodup taskId).filter _
    rw [← List.append_assoc, List.append_assoc result, List.singleton_append]
    refine h.nodup.append hnew fun t hold ht => ?_
    have hreleased := h.released t hold
    have hone := (List.mem_filter.mp ht).2
    simp only [decide_eq_true_eq] at hone
    omega
  · rcases (hmem t).mp ht with hold | ⟨hnew, -⟩
    · exact h.known t hold
    · obtain ⟨task, htask, -, rfl⟩ := mem_dependents.mp hnew
      exact List.mem_map_of_mem htask
  · rcases (hmem t).mp ht with hold | ⟨hnew, hone⟩
    · have hreleased := h.released t hold
      split <;> omega
    · rw [if_pos hnew, hone]
      rfl
  · have hcounted := h.counted task htask
    have hopen := countP_not_mem_append task.unique_dependencies hfirst
    simp only [taskId_mem_dependents hnodup htask]
    unfold openEdges at hcounted ⊢
    split at hopen
    · next hd =>
      rw [if_pos hd]
      omega
    · next hd =>
      rw [if_neg hd]
      omega
  · have hbefore : d ∈ result := by
      rcases List.mem_append.mp ht with hold | hlast
      · exact h.dependencies htask (List.mem_append_left _ hold) d hd
      · refine h.dependencies htask (List.mem_append_right _ ?_) d hd
        rw [List.mem_singleton.mp hlast]
        exact List.mem_cons_self
    rw [List.idxOf_append_of_mem hbefore]
    rcases List.mem_append.mp ht with hold | hlast
    · rw [List.idxOf_append_of_mem hold]
      exact h.ordered task htask hold d hd
    · rw [List.mem_singleton.mp hlast, List.idxOf_append_of_notMem hfirst]
      exact Nat.lt_add_right _ (List.idxOf_lt_length_of_mem hbefore)

theorem Draining.drain (hnodup : (tasks.map TaskSpec.taskId).Nodup) (turns : Nat)
    {queue result : List String} {indegree : String → Int}
    (h : Draining tasks queue indegree result) :
    ∃ queue', Draining tasks queue' (drain tasks turns queue indegree result).2
      (drain tasks turns queue indegree result).1 := by
  induction turns generalizing queue indegree result with
  | zero => exact ⟨queue, h⟩
  | succ turns ih =>
    cases queue with
    | nil => exact ⟨[], h⟩
    | cons taskId queue =>
      unfold DurableAgent.drain
      rw [foldl_releaseEdge (nodup_dependents hnodup taskId)]
      exact ih (h.turn hnodup)

theorem tasks_of_taskId (hnodup : (tasks.map TaskSpec.taskId).Nodup) {task : TaskSpec}
    (htask : task ∈ tasks) : (tasks.filter fun other => other.taskId = task.taskId) = [task] := by
  refine List.perm_singleton.mp ((List.perm_ext_iff_of_nodup (hnodup.of_map.filter _)
    (List.nodup_singleton task)).mpr fun other => ?_)
  rw [List.mem_filter, List.mem_singleton, decide_eq_true_eq]
  constructor
  · exact fun h => List.inj_on_of_nodup_map hnodup h.1 htask h.2
  · rintro rfl
    exact ⟨htask, rfl⟩

/-- Before the first turn. -/
theorem draining_roots (hnodup : (tasks.map TaskSpec.taskId).Nodup) :
    Draining tasks
      (((taskIds tasks).filter fun taskId => initialIndegree tasks taskId = 0).insertionSort
        (· ≤ ·)) (initialIndegree tasks) [] where
  nodup := by
    rw [List.nil_append, (List.perm_insertionSort _ _).nodup_iff]
    exact (List.nodup_dedup _).filter _
  known t ht := by
    rw [List.nil_append, List.mem_insertionSort, List.mem_filter, taskIds, List.mem_dedup] at ht
    exact ht.1
  released t ht := by
    rw [List.nil_append, List.mem_insertionSort, List.mem_filter, decide_eq_true_eq] at ht
    exact ht.2.le
  counted task htask := by
    simp [initialIndegree, tasks_of_taskId hnodup htask, openEdges]
  ordered _ _ h := by cases h

/-! ## The order -/

/-- An order lists every task, each behind its dependencies. -/
theorem topologicalOrder_ordered (hnodup : (tasks.map TaskSpec.taskId).Nodup)
    {ordered : List String} (h : topologicalOrder tasks = .ok ordered) :
    ∀ task ∈ tasks, ∀ d ∈ task.dependencies, ordered.idxOf d < ordered.idxOf task.taskId := by
  unfold topologicalOrder at h
  split at h
  · cases h
  · obtain ⟨queue, hdrained⟩ := (draining_roots hnodup).drain hnodup tasks.length
    dsimp only at h
    split at h
    · cases h
    · next hlength =>
      obtain rfl := Except.ok.inj h
      have hall := (List.subperm_of_subset (hdrained.nodup.sublist (List.sublist_append_left _ _))
        fun t ht => hdrained.known t (List.mem_append_left _ ht)).perm_of_length_le
        (by rw [List.length_map]; exact (not_not.mp hlength).ge)
      intro task htask
      exact hdrained.ordered task htask (hall.mem_iff.mpr (List.mem_map_of_mem htask))

/-- The tasks of a validated plan can be ranked above their dependencies. -/
theorem validatePlan_ranked {plan checked : PlanSpec} {maximumDepth : Int}
    (h : validatePlan plan maximumDepth = .ok checked) : ∃ rank : String → Nat,
      ∀ task ∈ plan.tasks, ∀ d ∈ task.dependencies, rank d < rank task.taskId := by
  have hnodup := (validatePlan_eq_ok h).2.1
  unfold validatePlan at h
  split at h
  · cases h
  · obtain ⟨-, -, h⟩ := of_bind_ok h
    obtain ⟨ordered, hordered, -⟩ := of_bind_ok h
    exact ⟨ordered.idxOf, topologicalOrder_ordered hnodup hordered⟩

/-! ## What is not ready -/

theorem dependenciesSucceeded_of {records : List TaskRecord} {ds : List String}
    (hnodup : (records.map fun record => record.spec.taskId).Nodup)
    (h : ∀ d ∈ ds, ∃ record ∈ records, record.spec.taskId = d ∧ record.state = .SUCCEEDED) :
    dependenciesSucceeded records ds = .ok true := by
  induction ds with
  | nil => rfl
  | cons d rest ih =>
    obtain ⟨record, hmem, hid, hstate⟩ := h d List.mem_cons_self
    have hfound : ∃ found, recordById records d = some found := by
      rw [recordById, ← Option.isSome_iff_exists, List.getLast?_isSome]
      exact List.ne_nil_of_mem (List.mem_filter.mpr ⟨hmem, by simpa using hid⟩)
    obtain ⟨found, hfound⟩ := hfound
    obtain ⟨hmem', hid'⟩ := recordById_mem hfound
    have hsame : found = record :=
      List.inj_on_of_nodup_map hnodup hmem' hmem (hid'.trans hid.symm)
    rw [dependenciesSucceeded, hfound]
    dsimp only
    rw [hsame, if_pos hstate]
    exact ih fun d hd => h d (List.mem_cons_of_mem _ hd)

theorem mem_selectReady {records candidates ready : List TaskRecord}
    (h : selectReady records candidates = .ok ready) {task : TaskRecord}
    (htask : task ∈ candidates) (hready : isReady records task = .ok true) : task ∈ ready := by
  induction candidates generalizing ready with
  | nil => cases htask
  | cons record rest ih =>
    rw [selectReady] at h
    obtain ⟨ready, hrecord, h⟩ := of_bind_ok h
    obtain ⟨others, hothers, h⟩ := of_bind_ok h
    obtain rfl := Except.ok.inj h
    rcases List.mem_cons.mp htask with rfl | htask
    · obtain rfl : ready = true := Except.ok.inj (hrecord.symm.trans hready)
      exact List.mem_cons_self
    · have hmem := ih hothers htask
      split
      · exact List.mem_cons_of_mem _ hmem
      · exact hmem

/-- Nothing is left out: a schedulable record whose dependencies have succeeded is ready. -/
theorem mem_readyTasks {records ready : List TaskRecord} (h : readyTasks records = .ok ready)
    (hnodup : (records.map fun record => record.spec.taskId).Nodup) {task : TaskRecord}
    (htask : task ∈ records) (hstate : Schedulable task.state)
    (hdone : ∀ d ∈ task.spec.dependencies, ∃ record ∈ records,
      record.spec.taskId = d ∧ record.state = .SUCCEEDED) : task ∈ ready := by
  obtain ⟨selected, hselected, h⟩ := of_bind_ok h
  obtain rfl := Except.ok.inj h
  rw [List.mem_insertionSort]
  refine mem_selectReady hselected htask ?_
  rw [isReady, if_pos hstate]
  exact dependenciesSucceeded_of hnodup hdone

theorem selectReady_sublist {records candidates ready : List TaskRecord}
    (h : selectReady records candidates = .ok ready) : ready.Sublist candidates := by
  induction candidates generalizing ready with
  | nil =>
    obtain rfl := Except.ok.inj h
    exact List.Sublist.refl []
  | cons record rest ih =>
    rw [selectReady] at h
    obtain ⟨isReady, -, h⟩ := of_bind_ok h
    obtain ⟨others, hothers, h⟩ := of_bind_ok h
    obtain rfl := Except.ok.inj h
    have hsub := ih hothers
    split
    · exact hsub.cons_cons record
    · exact hsub.cons record

/-- The ready records are distinct where the records are. -/
theorem readyTasks_nodup {records ready : List TaskRecord} (h : readyTasks records = .ok ready)
    (hnodup : (records.map fun record => record.spec.taskId).Nodup) :
    (ready.map fun record => record.spec.taskId).Nodup := by
  obtain ⟨selected, hselected, h⟩ := of_bind_ok h
  obtain rfl := Except.ok.inj h
  have hperm := (List.perm_insertionSort ScheduledBefore selected).map
    fun record => record.spec.taskId
  exact hperm.nodup_iff.mpr (hnodup.sublist ((selectReady_sublist hselected).map _))

instance : Std.Total ScheduledBefore where
  total a b := by
    rcases Nat.lt_trichotomy a.spec.priority b.spec.priority with h | h | h
    · exact .inl (.inl h)
    · rcases le_total a.spec.taskId b.spec.taskId with h' | h'
      · exact .inl (.inr ⟨h, h'⟩)
      · exact .inr (.inr ⟨h.symm, h'⟩)
    · exact .inr (.inl h)

instance : IsTrans TaskRecord ScheduledBefore where
  trans a b c hab hbc := by
    rcases hab with hab | ⟨hab, hab'⟩ <;> rcases hbc with hbc | ⟨hbc, hbc'⟩
    · exact .inl (Nat.lt_trans hab hbc)
    · exact .inl (hbc ▸ hab)
    · exact .inl (hab ▸ hbc)
    · exact .inr ⟨hab.trans hbc, le_trans hab' hbc'⟩

/-- The ready records come in their order. -/
theorem readyTasks_pairwise {records ready : List TaskRecord} (h : readyTasks records = .ok ready) :
    ready.Pairwise ScheduledBefore := by
  obtain ⟨selected, hselected, h⟩ := of_bind_ok h
  obtain rfl := Except.ok.inj h
  exact List.pairwise_insertionSort ScheduledBefore selected

/-- Where nothing is ready, every record of a ranked plan that may be scheduled has something
beside it that may neither be scheduled nor has succeeded. -/
theorem exists_unschedulable {records : List TaskRecord} {rank : String → Nat}
    (hready : readyTasks records = .ok [])
    (hnodup : (records.map fun record => record.spec.taskId).Nodup)
    (hknown : ∀ task ∈ records, ∀ d ∈ task.spec.dependencies, ∃ record ∈ records,
      record.spec.taskId = d)
    (hrank : ∀ task ∈ records, ∀ d ∈ task.spec.dependencies, rank d < rank task.spec.taskId)
    (hunfinished : ∃ task ∈ records, task.state ≠ .SUCCEEDED) :
    ∃ task ∈ records, task.state ≠ .SUCCEEDED ∧ ¬ Schedulable task.state := by
  by_contra hnone
  push Not at hnone
  have hall : ∀ n, ∀ task ∈ records, rank task.spec.taskId = n → task.state = .SUCCEEDED := by
    intro n
    -- along the ranks: the dependencies of a task have succeeded, so it would be ready
    induction n using Nat.strong_induction_on with
    | _ n ih =>
      intro task htask hn
      by_contra hstate
      have hmem : task ∈ ([] : List TaskRecord) := by
        refine mem_readyTasks hready hnodup htask (hnone task htask hstate) fun d hd => ?_
        obtain ⟨record, hrecord, rfl⟩ := hknown task htask d hd
        exact ⟨record, hrecord, rfl, ih _ (hn ▸ hrank task htask _ hd) record hrecord rfl⟩
      cases hmem
  obtain ⟨task, htask, hstate⟩ := hunfinished
  exact hstate (hall _ task htask rfl)

end DurableAgent
