import DurableAgent.Library.Chains
import DurableAgent.Domain.PlanOrder

/-!
# What a plan is validated for

The loop over the queue stops short of a task only where some tasks wait for each other, and the
depths computed along its order are the lengths of the longest chains. `validate_plan` therefore
accepts exactly the plans that satisfy its rules, and refuses all others in one way.
-/

namespace DurableAgent

open Library

variable {tasks : List TaskSpec}

/-! ## The rules -/

/-- A task of the identifier lists the dependency. -/
def DependsOn (tasks : List TaskSpec) (taskId dependency : String) : Prop :=
  ∃ task ∈ tasks, task.taskId = taskId ∧ dependency ∈ task.dependencies

/-- Tasks of which each depends on the next. -/
def DependencyChain (tasks : List TaskSpec) (chain : List String) : Prop :=
  (∀ taskId ∈ chain, taskId ∈ tasks.map TaskSpec.taskId) ∧ chain.IsChain (DependsOn tasks)

/-- The rules of a plan. -/
structure Executable (plan : PlanSpec) (maximumDepth : Int) : Prop where
  unique : (plan.tasks.map TaskSpec.taskId).Nodup
  known : ∀ task ∈ plan.tasks, ∀ d ∈ task.dependencies, d ∈ plan.tasks.map TaskSpec.taskId
  described : ∀ task ∈ plan.tasks, 3 ≤ wordCount task.description
  narrow : ∀ task ∈ plan.tasks, task.estimatedContextTokens ≤ 250000
  serial : ∀ task ∈ plan.tasks, task.parallelizable = true →
    ∀ permission ∈ serialOnlyPermissions, permission ∉ task.toolPermissions
  acyclic : Acyclic (DependsOn plan.tasks)
  shallow : ∀ chain, DependencyChain plan.tasks chain → (chain.length : Int) ≤ maximumDepth

/-! ## The checks of one task -/

theorem validateTask_iff {task : TaskSpec} : validateTask tasks task = .ok () ↔
    (∀ d ∈ task.dependencies, d ∈ tasks.map TaskSpec.taskId) ∧ 3 ≤ wordCount task.description ∧
      task.estimatedContextTokens ≤ 250000 ∧ (task.parallelizable = true →
        ∀ permission ∈ serialOnlyPermissions, permission ∉ task.toolPermissions) := by
  have hmissing : (task.dependencies.filter fun d => d ∉ tasks.map TaskSpec.taskId) = [] ↔
      ∀ d ∈ task.dependencies, d ∈ tasks.map TaskSpec.taskId := by
    rw [List.filter_eq_nil_iff]
    simp
  have hunsafe : (serialOnlyPermissions.filter fun p => p ∈ task.toolPermissions) = [] ↔
      ∀ permission ∈ serialOnlyPermissions, permission ∉ task.toolPermissions := by
    rw [List.filter_eq_nil_iff]
    simp
  unfold validateTask
  dsimp only
  rw [← hmissing, ← hunsafe]
  split
  · simp_all
  · split
    · simp_all
    · split
      · simp_all
      · split
        · simp_all
        · next h₁ h₂ h₃ h₄ =>
          simp only [not_not, not_lt, not_and] at h₁ h₂ h₃ h₄
          exact iff_of_true rfl ⟨h₁, h₂, h₃, h₄⟩

/-- A check that raises raises `PlanValidationError`. -/
def Refuses {α : Type} (check : Except Exn α) : Prop :=
  ∀ e, check = .error e → ∃ message, e = invalidPlan message

theorem validateTask_refuses (task : TaskSpec) : Refuses (validateTask tasks task) := by
  have hrefused : ∀ message, Refuses (α := Unit) (.error (invalidPlan message)) :=
    fun message e he => ⟨message, (Except.error.inj he).symm⟩
  unfold validateTask
  dsimp only
  repeat' split
  · exact hrefused _
  · exact hrefused _
  · exact hrefused _
  · exact hrefused _
  · nofun

theorem forM_refuses {α : Type} {check : α → Except Exn Unit} (h : ∀ a, Refuses (check a))
    (l : List α) : Refuses (l.forM check) := by
  induction l with
  | nil => nofun
  | cons a l ih =>
    intro e he
    change (check a >>= fun _ => l.forM check) = .error e at he
    cases ha : check a with
    | error e' =>
      rw [ha] at he
      obtain rfl := Except.error.inj he
      exact h a _ ha
    | ok u =>
      rw [ha] at he
      exact ih e he

/-! ## The order lists every task -/

/-- Every task that waits for nothing has entered the queue. -/
def Listed (tasks : List TaskSpec) (queue result : List String) : Prop :=
  ∀ task ∈ tasks, openEdges result task = 0 → task.taskId ∈ result ++ queue

theorem Listed.turn (hnodup : (tasks.map TaskSpec.taskId).Nodup) {taskId : String}
    {queue result : List String} {indegree : String → Int}
    (hdraining : Draining tasks (taskId :: queue) indegree result)
    (h : Listed tasks (taskId :: queue) result) :
    Listed tasks (queue ++ (dependents tasks taskId).filter fun t => indegree t = 1)
      (result ++ [taskId]) := by
  have hfirst : taskId ∉ result := fun hmem =>
    List.disjoint_of_nodup_append hdraining.nodup hmem List.mem_cons_self
  intro task htask hopen
  have hcount := countP_not_mem_append task.unique_dependencies hfirst
  unfold openEdges at hopen
  rw [hopen] at hcount
  by_cases hd : taskId ∈ task.dependencies
  · -- the last open edge of the task was the one to `taskId`
    have hone : indegree task.taskId = 1 := by
      rw [hdraining.counted task htask, openEdges, ← hcount, if_pos hd]
      rfl
    have hnew : task.taskId ∈ (dependents tasks taskId).filter fun t => indegree t = 1 := by
      rw [List.mem_filter]
      exact ⟨(taskId_mem_dependents hnodup htask taskId).mpr hd, by simpa using hone⟩
    simp only [List.mem_append]
    exact .inr (.inr hnew)
  · rw [if_neg hd] at hcount
    have hold := h task htask hcount.symm
    simp only [List.mem_append, List.mem_cons] at hold ⊢
    tauto

/-- The loop ends with an empty queue, or it has taken all its turns. -/
theorem drain_listed (hnodup : (tasks.map TaskSpec.taskId).Nodup) (turns : Nat)
    {queue result : List String} {indegree : String → Int}
    (hdraining : Draining tasks queue indegree result) (h : Listed tasks queue result) :
    Listed tasks [] (drain tasks turns queue indegree result).1 ∨
      (drain tasks turns queue indegree result).1.length = result.length + turns := by
  induction turns generalizing queue indegree result with
  | zero => exact .inr rfl
  | succ turns ih =>
    cases queue with
    | nil => exact .inl h
    | cons taskId queue =>
      unfold drain
      rw [foldl_releaseEdge (nodup_dependents hnodup taskId)]
      rcases ih (hdraining.turn hnodup) (h.turn hnodup hdraining) with hdone | hlength
      · exact .inl hdone
      · refine .inr (hlength.trans ?_)
        rw [List.length_append, List.length_singleton]
        omega

theorem taskById_eq_some (hnodup : (tasks.map TaskSpec.taskId).Nodup) {task : TaskSpec}
    (htask : task ∈ tasks) : taskById tasks task.taskId = some task := by
  rw [taskById, tasks_of_taskId hnodup htask, List.getLast?_singleton]

theorem listed_roots (hnodup : (tasks.map TaskSpec.taskId).Nodup) : Listed tasks
    (((taskIds tasks).filter fun taskId => initialIndegree tasks taskId = 0).insertionSort
      (· ≤ ·)) [] := by
  intro task htask hopen
  have hnone : task.dependencies.length = 0 := by simpa [openEdges] using hopen
  rw [List.nil_append, List.mem_insertionSort, List.mem_filter, taskIds, List.mem_dedup]
  refine ⟨List.mem_map_of_mem htask, ?_⟩
  simp [initialIndegree, tasks_of_taskId hnodup htask, hnone]

/-- Where the tasks do not wait for each other, each of them is listed. -/
theorem Listed.all {result : List String} (h : Listed tasks [] result)
    (hknown : ∀ task ∈ tasks, ∀ d ∈ task.dependencies, d ∈ tasks.map TaskSpec.taskId)
    (hacyclic : Acyclic (DependsOn tasks)) : ∀ task ∈ tasks, task.taskId ∈ result := by
  by_contra hnot
  push Not at hnot
  obtain ⟨missed, hmissed, hunlisted⟩ := hnot
  let open' : Set String := {t | t ∈ tasks.map TaskSpec.taskId ∧ t ∉ result}
  have hfinite : open'.Finite :=
    (tasks.map TaskSpec.taskId).finite_toSet.subset fun t ht => ht.1
  obtain ⟨t, ⟨ht, hopen⟩, hlast⟩ := hacyclic.exists_last hfinite
    ⟨missed.taskId, List.mem_map_of_mem hmissed, hunlisted⟩
  obtain ⟨task, htask, rfl⟩ := List.mem_map.mp ht
  have hwaits : openEdges result task = 0 := by
    rw [openEdges, List.countP_eq_zero]
    intro d hd
    by_contra hdopen
    exact hlast d ⟨hknown task htask d hd, by simpa using hdopen⟩ ⟨task, htask, rfl, hd⟩
  have hmem := h task htask hwaits
  rw [List.append_nil] at hmem
  exact hopen hmem

/-! ## The order -/

/-- The order of the tasks of a plan: each task once, and behind its dependencies. -/
structure Ordered (tasks : List TaskSpec) (ordered : List String) : Prop where
  nodup : ordered.Nodup
  mem_iff : ∀ t, t ∈ ordered ↔ t ∈ tasks.map TaskSpec.taskId
  behind : ∀ task ∈ tasks, ∀ d ∈ task.dependencies, ordered.idxOf d < ordered.idxOf task.taskId

theorem topologicalOrder_refuses (tasks : List TaskSpec) : Refuses (topologicalOrder tasks) := by
  have hrefused : ∀ message, Refuses (α := List String) (.error (invalidPlan message)) :=
    fun message e he => ⟨message, (Except.error.inj he).symm⟩
  unfold topologicalOrder
  split
  · exact hrefused _
  · dsimp only
    split
    · exact hrefused _
    · nofun

theorem Ordered.acyclic {ordered : List String} (h : Ordered tasks ordered) :
    Acyclic (DependsOn tasks) := by
  refine @acyclic_of_rank _ _ ordered.idxOf ?_
  rintro t d ⟨task, htask, rfl, hd⟩
  exact h.behind task htask d hd

theorem topologicalOrder_eq_ok (hnodup : (tasks.map TaskSpec.taskId).Nodup)
    {ordered : List String} (h : topologicalOrder tasks = .ok ordered) :
    Ordered tasks ordered := by
  have hbehind := topologicalOrder_ordered hnodup h
  unfold topologicalOrder at h
  split at h
  · cases h
  · obtain ⟨queue, hdrained⟩ := (draining_roots hnodup).drain hnodup tasks.length
    dsimp only at h
    split at h
    · cases h
    · next hlength =>
      obtain rfl := Except.ok.inj h
      have hlisted := hdrained.nodup.sublist (List.sublist_append_left _ _)
      have hall := (List.subperm_of_subset hlisted fun t ht =>
        hdrained.known t (List.mem_append_left _ ht)).perm_of_length_le
        (by rw [List.length_map]; exact (not_not.mp hlength).ge)
      exact ⟨hlisted, fun t => hall.mem_iff, hbehind⟩

/-- There is an order unless the tasks wait for each other. -/
theorem exists_topologicalOrder (hnodup : (tasks.map TaskSpec.taskId).Nodup)
    (hknown : ∀ task ∈ tasks, ∀ d ∈ task.dependencies, d ∈ tasks.map TaskSpec.taskId)
    (hacyclic : Acyclic (DependsOn tasks)) : ∃ ordered, topologicalOrder tasks = .ok ordered := by
  have hedges : ((tasks.flatMap TaskSpec.dependencies).find? fun d => taskById tasks d = none) =
      none := by
    rw [List.find?_eq_none]
    intro d hd
    obtain ⟨task, htask, hd⟩ := List.mem_flatMap.mp hd
    obtain ⟨other, hother, rfl⟩ := List.mem_map.mp (hknown task htask d hd)
    simp [taskById_eq_some hnodup hother]
  obtain ⟨queue, hdrained⟩ := (draining_roots hnodup).drain hnodup tasks.length
  have hnodup' := hdrained.nodup.sublist (List.sublist_append_left _ _)
  have hlength : (drain tasks tasks.length
      (((taskIds tasks).filter fun taskId => initialIndegree tasks taskId = 0).insertionSort
        (· ≤ ·)) (initialIndegree tasks) []).1.length = tasks.length := by
    rcases drain_listed hnodup tasks.length (draining_roots hnodup) (listed_roots hnodup) with
      hlisted | hturns
    · have hall := hlisted.all hknown hacyclic
      refine Nat.le_antisymm ?_ ?_
      · have hsub := List.subperm_of_subset hnodup' fun t ht =>
          hdrained.known t (List.mem_append_left _ ht)
        exact hsub.length_le.trans_eq (List.length_map _)
      · have hsub := List.subperm_of_subset hnodup fun t ht => by
          obtain ⟨task, htask, rfl⟩ := List.mem_map.mp ht
          exact hall task htask
        exact (List.length_map _).symm.trans_le hsub.length_le
    · simpa using hturns
  unfold topologicalOrder
  rw [hedges]
  dsimp only
  rw [if_neg (not_not.mpr hlength)]
  exact ⟨_, rfl⟩

/-! ## Depths -/

/-- The dependencies of the task of an identifier. -/
def dependenciesOf (tasks : List TaskSpec) (taskId : String) : List String :=
  ((taskById tasks taskId).map TaskSpec.dependencies).getD []

theorem mem_dependenciesOf (hnodup : (tasks.map TaskSpec.taskId).Nodup) {taskId d : String} :
    d ∈ dependenciesOf tasks taskId ↔ DependsOn tasks taskId d := by
  constructor
  · intro hd
    unfold dependenciesOf at hd
    cases htask : taskById tasks taskId with
    | none => simp [htask] at hd
    | some task =>
      have hmem := List.mem_of_getLast? htask
      rw [List.mem_filter, decide_eq_true_eq] at hmem
      exact ⟨task, hmem.1, hmem.2, by simpa [htask] using hd⟩
  · rintro ⟨task, htask, rfl, hd⟩
    simpa [dependenciesOf, taskById_eq_some hnodup htask] using hd

/-- The depth of what has been given one. -/
def depthOf (depth : String → Option Nat) (taskId : String) : Nat := (depth taskId).getD 0

theorem deepest_eq_ok {depth : String → Option Nat} {ds : List String}
    (h : ∀ d ∈ ds, (depth d).isSome) :
    deepest depth ds = .ok ((ds.map (depthOf depth)).foldr max 0) := by
  induction ds with
  | nil => rfl
  | cons d ds ih =>
    obtain ⟨n, hn⟩ := Option.isSome_iff_exists.mp (h d List.mem_cons_self)
    rw [deepest, hn]
    dsimp only
    rw [ih fun d' hd' => h d' (List.mem_cons_of_mem d hd')]
    simp [depthOf, hn, pure, Except.pure, bind, Except.bind]

/-- The dependencies of what is not behind a part of the order lie in that part. -/
theorem Ordered.dependencies {done rest : List String} (h : Ordered tasks (done ++ rest))
    {taskId d : String} (hd : DependsOn tasks taskId d)
    (ht : (done ++ rest).idxOf taskId ≤ done.length) : d ∈ done := by
  obtain ⟨task, htask, rfl, hd⟩ := hd
  have hbehind := h.behind task htask d hd
  by_contra hnot
  rw [List.idxOf_append_of_notMem hnot] at hbehind
  omega

/-- The loop over an order finds each dependency before the task, and measures every task. -/
theorem depths_eq_ok (hnodup : (tasks.map TaskSpec.taskId).Nodup) {done rest : List String}
    {depth : String → Option Nat} (hordered : Ordered tasks (done ++ rest))
    (hgiven : ∀ t ∈ done, (depth t).isSome)
    (h : Measured (dependenciesOf tasks) (depthOf depth) done) :
    ∃ depth', depths tasks rest depth = .ok depth' ∧
      (∀ t ∈ done ++ rest, (depth' t).isSome) ∧
      Measured (dependenciesOf tasks) (depthOf depth') (done ++ rest) := by
  induction rest generalizing done depth with
  | nil => exact ⟨depth, rfl, by simpa using hgiven, by simpa using h⟩
  | cons taskId rest ih =>
    obtain ⟨task, htask, rfl⟩ := List.mem_map.mp ((hordered.mem_iff taskId).mp (by simp))
    have hnew : task.taskId ∉ done := fun hmem =>
      List.disjoint_of_nodup_append hordered.nodup hmem List.mem_cons_self
    have hclosed : ∀ t ∈ done ++ [task.taskId], ∀ d ∈ dependenciesOf tasks t, d ∈ done := by
      intro t ht d hd
      refine hordered.dependencies ((mem_dependenciesOf hnodup).mp hd) ?_
      rcases List.mem_append.mp ht with ht | ht
      · rw [List.idxOf_append_of_mem ht]
        exact (List.idxOf_lt_length_of_mem ht).le
      · rw [List.mem_singleton.mp ht, List.idxOf_append_of_notMem hnew, List.idxOf_cons_self]
        omega
    have hdependencies : dependenciesOf tasks task.taskId = task.dependencies := by
      simp [dependenciesOf, taskById_eq_some hnodup htask]
    have hfound : deepest depth task.dependencies =
        .ok ((task.dependencies.map (depthOf depth)).foldr max 0) := by
      refine deepest_eq_ok fun d hd => hgiven d (hclosed task.taskId (by simp) d ?_)
      rwa [hdependencies]
    let found := (task.dependencies.map (depthOf depth)).foldr max 0
    let depth₁ := Function.update depth task.taskId (some (1 + found))
    have hsame : ∀ t ∈ done, depthOf depth₁ t = depthOf depth t := by
      intro t ht
      have hne : t ≠ task.taskId := fun heq => hnew (heq ▸ ht)
      simp [depth₁, depthOf, hne]
    have hlast : depthOf depth₁ task.taskId = 1 + found := by simp [depth₁, depthOf]
    have hmeasured : Measured (dependenciesOf tasks) (depthOf depth₁) (done ++ [task.taskId]) := by
      intro t ht
      have hmap : (dependenciesOf tasks t).map (depthOf depth₁) =
          (dependenciesOf tasks t).map (depthOf depth) :=
        List.map_congr_left fun d hd => hsame d (hclosed t ht d hd)
      rw [hmap]
      rcases List.mem_append.mp ht with ht | ht
      · rw [hsame t ht]
        exact h t ht
      · rw [List.mem_singleton.mp ht, hlast, hdependencies]
    have hall : done ++ task.taskId :: rest = done ++ [task.taskId] ++ rest := by simp
    rw [hall] at hordered ⊢
    have hgiven₁ : ∀ t ∈ done ++ [task.taskId], (depth₁ t).isSome := by
      intro t ht
      by_cases heq : t = task.taskId
      · simp [depth₁, heq]
      · have hold : t ∈ done := by simpa [heq] using ht
        simpa [depth₁, heq] using hgiven t hold
    obtain ⟨depth', hok, hgiven', hmeasured'⟩ := ih hordered hgiven₁ hmeasured
    refine ⟨depth', ?_, hgiven', hmeasured'⟩
    rw [depths, taskById_eq_some hnodup htask]
    dsimp only
    rw [hfound]
    exact hok

/-- Along an order every task is measured. -/
theorem exists_depths (hnodup : (tasks.map TaskSpec.taskId).Nodup) {ordered : List String}
    (hordered : Ordered tasks ordered) :
    ∃ depth, depths tasks ordered (fun _ => none) = .ok depth ∧
      (∀ t ∈ ordered, (depth t).isSome) ∧
      Measured (dependenciesOf tasks) (depthOf depth) ordered :=
  @depths_eq_ok _ hnodup [] ordered _ hordered (by simp) (by simp [Measured])

theorem Ordered.dependencies_closed (hnodup : (tasks.map TaskSpec.taskId).Nodup)
    {ordered : List String} (h : Ordered tasks ordered) :
    ∀ t ∈ ordered, ∀ d ∈ dependenciesOf tasks t, d ∈ ordered := by
  intro t ht d hd
  obtain ⟨task, htask, rfl, hlists⟩ := (mem_dependenciesOf hnodup).mp hd
  have hbehind := h.behind task htask d hlists
  exact List.idxOf_lt_length_iff.mp (hbehind.trans (List.idxOf_lt_length_of_mem ht))

/-- The greatest depth is the length of the longest chain of dependencies. -/
theorem Ordered.isGreatest (hnodup : (tasks.map TaskSpec.taskId).Nodup)
    {ordered : List String} (h : Ordered tasks ordered) {depth : String → Nat}
    (hmeasured : Measured (dependenciesOf tasks) depth ordered) :
    IsGreatest {n | ∃ chain, DependencyChain tasks chain ∧ chain.length = n}
      ((ordered.map depth).foldr max 0) := by
  have hnext : (fun t d => d ∈ dependenciesOf tasks t) = DependsOn tasks :=
    funext fun t => funext fun d => propext (mem_dependenciesOf hnodup)
  have hgreatest := hmeasured.isGreatest (h.dependencies_closed hnodup)
  rw [hnext] at hgreatest
  simpa only [DependencyChain, h.mem_iff, and_assoc] using hgreatest

/-- The greatest depth along an order is the length of the longest chain of dependencies. -/
theorem depths_isGreatest (hnodup : (tasks.map TaskSpec.taskId).Nodup) {ordered : List String}
    (hordered : Ordered tasks ordered) :
    ∃ depth, depths tasks ordered (fun _ => none) = .ok depth ∧
      IsGreatest {n | ∃ chain, DependencyChain tasks chain ∧ chain.length = n}
        ((ordered.filterMap depth).foldr max 0) := by
  obtain ⟨depth, hok, hgiven, hmeasured⟩ := exists_depths hnodup hordered
  have hvalues : ordered.filterMap depth = ordered.map (depthOf depth) := by
    rw [← List.filterMap_eq_map]
    refine List.filterMap_congr fun t ht => ?_
    obtain ⟨n, hn⟩ := Option.isSome_iff_exists.mp (hgiven t ht)
    simp [depthOf, hn]
  refine ⟨depth, hok, ?_⟩
  rw [hvalues]
  exact hordered.isGreatest hnodup hmeasured

/-! ## The characterization -/

theorem validatePlan_of_executable {plan : PlanSpec} {maximumDepth : Int}
    (h : Executable plan maximumDepth) : validatePlan plan maximumDepth = .ok plan := by
  obtain ⟨ordered, hok⟩ := exists_topologicalOrder h.unique h.known h.acyclic
  obtain ⟨depth, hdepths, hgreatest⟩ :=
    depths_isGreatest h.unique (topologicalOrder_eq_ok h.unique hok)
  have hchecks : plan.tasks.forM (validateTask plan.tasks) = .ok () :=
    forM_eq_ok.mpr fun task htask => validateTask_iff.mpr ⟨h.known task htask,
      h.described task htask, h.narrow task htask, h.serial task htask⟩
  obtain ⟨chain, hchain, hlength⟩ := hgreatest.1
  have hshallow := h.shallow chain hchain
  rw [hlength] at hshallow
  unfold validatePlan
  rw [if_neg (not_not.mpr h.unique), hchecks, hok]
  simp only [bind, Except.bind]
  rw [hdepths]
  simp only
  rw [if_neg (not_lt.mpr hshallow)]

theorem executable_of_validatePlan {plan checked : PlanSpec} {maximumDepth : Int}
    (h : validatePlan plan maximumDepth = .ok checked) : Executable plan maximumDepth := by
  obtain ⟨-, hunique, hknown⟩ := validatePlan_eq_ok h
  unfold validatePlan at h
  rw [if_neg (not_not.mpr hunique)] at h
  obtain ⟨_, hchecks, h⟩ := of_bind_ok h
  obtain ⟨ordered, hok, h⟩ := of_bind_ok h
  obtain ⟨depth, hdepths, h⟩ := of_bind_ok h
  have hordered := topologicalOrder_eq_ok hunique hok
  obtain ⟨depth', hdepths', hgreatest⟩ := depths_isGreatest hunique hordered
  obtain rfl := Except.ok.inj (hdepths.symm.trans hdepths')
  have htask := fun task htask => validateTask_iff.mp (forM_ok hchecks task htask)
  split at h
  · cases h
  · next hdepth =>
    refine ⟨hunique, hknown, fun t ht => (htask t ht).2.1, fun t ht => (htask t ht).2.2.1,
      fun t ht => (htask t ht).2.2.2, hordered.acyclic, fun chain hchain => ?_⟩
    have hle := hgreatest.2 ⟨chain, hchain, rfl⟩
    exact (Int.ofNat_le.mpr hle).trans (not_lt.mp hdepth)

theorem validatePlan_refuses (plan : PlanSpec) (maximumDepth : Int) :
    Refuses (validatePlan plan maximumDepth) := by
  intro e he
  unfold validatePlan at he
  split at he
  · exact ⟨_, (Except.error.inj he).symm⟩
  · next hunique =>
    cases hchecks : plan.tasks.forM (validateTask plan.tasks) with
    | error e' =>
      rw [hchecks] at he
      obtain rfl := Except.error.inj he
      exact forM_refuses validateTask_refuses _ _ hchecks
    | ok u =>
      cases hok : topologicalOrder plan.tasks with
      | error e' =>
        rw [hchecks, hok] at he
        obtain rfl := Except.error.inj he
        exact topologicalOrder_refuses _ _ hok
      | ok ordered =>
        have hordered := topologicalOrder_eq_ok (not_not.mp hunique) hok
        obtain ⟨depth, hdepths, -⟩ := depths_isGreatest (not_not.mp hunique) hordered
        rw [hchecks, hok] at he
        simp only [bind, Except.bind] at he
        rw [hdepths] at he
        simp only at he
        split at he
        · exact ⟨_, (Except.error.inj he).symm⟩
        · cases he

/-- A plan is returned as it is if it satisfies every rule, and refused with
`PlanValidationError` otherwise. -/
theorem validatePlan_characterized (plan : PlanSpec) (maximumDepth : Int) :
    (validatePlan plan maximumDepth = .ok plan ↔ Executable plan maximumDepth) ∧
      (¬ Executable plan maximumDepth →
        ∃ message, validatePlan plan maximumDepth = .error (invalidPlan message)) := by
  refine ⟨⟨executable_of_validatePlan, validatePlan_of_executable⟩, fun hnot => ?_⟩
  cases h : validatePlan plan maximumDepth with
  | ok checked => exact absurd (executable_of_validatePlan h) hnot
  | error e =>
    obtain ⟨message, rfl⟩ := validatePlan_refuses plan maximumDepth e h
    exact ⟨message, rfl⟩

end DurableAgent
