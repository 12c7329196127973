import DurableAgent.Domain.PlanStability

/-!
# Batches of tasks

`parallel_batches`. The level of a task is one less than its depth, so the batches are the layers
of the graph, from the tasks that depend on nothing on.
-/

namespace DurableAgent

open Library

variable {tasks : List TaskSpec}

/-! ## Levels -/

/-- The levels of some tasks, the first unknown one raising. -/
def lookupLevels (level : String → Option Int) : List String → Except Exn (List Int)
  | [] => .ok []
  | d :: dependencies =>
    match level d with
    | none => .error (.other s!"KeyError: {d}")
    | some found => do
      let others ← lookupLevels level dependencies
      pure (found :: others)

/-- The level of every identifier, from those before it in the order. -/
def levels (tasks : List TaskSpec) :
    List String → (String → Option Int) → Except Exn (String → Option Int)
  | [], level => .ok level
  | taskId :: ordered, level =>
    match taskById tasks taskId with
    | none => .error (.other s!"KeyError: {taskId}")
    | some task => do
      let found ← lookupLevels level task.dependencies
      levels tasks ordered (Function.update level taskId (some (1 + found.max?.getD (-1))))

/-- `parallel_batches` -/
def parallelBatches (tasks : List TaskSpec) : Except Exn (List (List String)) := do
  let ordered ← topologicalOrder tasks
  let level ← levels tasks ordered fun _ => none
  let highest := (ordered.filterMap level).max?.getD (-1)
  pure ((List.range (highest + 1).toNat).map fun current : Nat =>
    ordered.filter fun taskId => level taskId = some (current : Int))

/-! ## Levels are depths -/

/-- The level that goes with a depth. -/
def levelOf (depth : String → Option Nat) (taskId : String) : Option Int :=
  (depth taskId).map fun n : Nat => (n : Int) - 1

theorem max?_pred (depths : List Nat) :
    ((depths.map fun n : Nat => (n : Int) - 1).max?).getD (-1) = (depths.foldr max 0 : Nat) - 1 := by
  induction depths with
  | nil => rfl
  | cons n depths ih =>
    rw [List.map_cons, List.max?_cons, List.foldr_cons]
    cases hmax : (depths.map fun n : Nat => (n : Int) - 1).max? with
    | none =>
      rw [List.max?_eq_none_iff, List.map_eq_nil_iff] at hmax
      simp [hmax]
    | some m =>
      rw [hmax] at ih
      simp only [Option.getD_some, Option.elim_some] at ih ⊢
      omega

theorem lookupLevels_of_deepest {depth : String → Option Nat} {ds : List String} {n : Nat}
    (h : deepest depth ds = .ok n) : ∃ found : List Nat, found.foldr max 0 = n ∧
      lookupLevels (levelOf depth) ds = .ok (found.map fun n : Nat => (n : Int) - 1) := by
  induction ds generalizing n with
  | nil =>
    obtain rfl := Except.ok.inj h
    exact ⟨[], rfl, rfl⟩
  | cons d ds ih =>
    rw [deepest] at h
    cases hd : depth d with
    | none =>
      rw [hd] at h
      cases h
    | some m =>
      rw [hd] at h
      obtain ⟨others, hothers, h⟩ := of_bind_ok h
      obtain rfl := Except.ok.inj h
      obtain ⟨found, rfl, hfound⟩ := ih hothers
      refine ⟨m :: found, rfl, ?_⟩
      rw [lookupLevels, levelOf, hd]
      simp only [Option.map_some]
      rw [hfound]
      rfl

theorem levelOf_update (depth : String → Option Nat) (taskId : String) (n : Nat) :
    levelOf (Function.update depth taskId (some (1 + n))) =
      Function.update (levelOf depth) taskId (some (1 + ((n : Int) - 1))) := by
  ext1 t
  by_cases ht : t = taskId
  · subst ht
    simp [levelOf]
  · simp [levelOf, ht]

/-- The loop over the levels does what the loop over the depths does. -/
theorem levels_of_depths {ordered : List String} {depth depth' : String → Option Nat}
    (h : depths tasks ordered depth = .ok depth') :
    levels tasks ordered (levelOf depth) = .ok (levelOf depth') := by
  induction ordered generalizing depth with
  | nil =>
    obtain rfl := Except.ok.inj h
    rfl
  | cons taskId ordered ih =>
    rw [depths] at h
    rw [levels]
    cases htask : taskById tasks taskId with
    | none =>
      rw [htask] at h
      cases h
    | some task =>
      rw [htask] at h
      obtain ⟨n, hn, h⟩ := of_bind_ok h
      obtain ⟨found, rfl, hfound⟩ := lookupLevels_of_deepest hn
      have hrest := ih h
      rw [levelOf_update, ← max?_pred] at hrest
      simp only
      rw [hfound]
      exact hrest

/-- The batches are the layers by depth. -/
theorem parallelBatches_eq (hunique : (tasks.map TaskSpec.taskId).Nodup) {ordered : List String}
    (hok : topologicalOrder tasks = .ok ordered) : ∃ depth : String → Nat,
      Measured (dependenciesOf tasks) depth ordered ∧
        parallelBatches tasks = .ok (layers depth ordered) := by
  obtain ⟨depth, hdepths, hgiven, hmeasured⟩ :=
    exists_depths hunique (topologicalOrder_eq_ok hunique hok)
  refine ⟨depthOf depth, hmeasured, ?_⟩
  have hlevel : ∀ t ∈ ordered, levelOf depth t = some ((depthOf depth t : Int) - 1) := by
    intro t ht
    obtain ⟨n, hn⟩ := Option.isSome_iff_exists.mp (hgiven t ht)
    simp [levelOf, depthOf, hn]
  have hvalues : ordered.filterMap (levelOf depth) =
      (ordered.map (depthOf depth)).map fun n : Nat => (n : Int) - 1 := by
    rw [List.map_map, ← List.filterMap_eq_map]
    exact List.filterMap_congr hlevel
  have hlevels : levels tasks ordered (fun _ => none) = .ok (levelOf depth) :=
    levels_of_depths hdepths
  unfold parallelBatches
  rw [hok]
  simp only [bind, Except.bind]
  rw [hlevels]
  simp only [pure, Except.pure]
  rw [hvalues, max?_pred, layers]
  congr 1
  have hcount (n : Nat) : ((n : Int) - 1 + 1).toNat = n := by omega
  rw [hcount]
  apply List.map_congr_left
  intro k _
  apply List.filter_congr
  intro t ht
  rw [hlevel t ht, decide_eq_decide, Option.some.injEq]
  omega

/-! ## What the batches are -/

/-- The batches hold each task once and none is empty. A task depends on tasks of earlier batches
only, and behind the first batch on one of the batch before it. There are as many batches as tasks
on a longest chain of dependencies. -/
theorem parallelBatches_layered (tasks : List TaskSpec)
    (hunique : (tasks.map TaskSpec.taskId).Nodup) (hclosed : Closed tasks)
    (hacyclic : Acyclic (DependsOn tasks)) :
    ∃ batches, parallelBatches tasks = .ok batches ∧
      batches.flatten.Perm (tasks.map TaskSpec.taskId) ∧
      (∀ (k : Nat) (hk : k < batches.length), ∀ t ∈ batches[k], ∀ d, DependsOn tasks t d →
        ∃ (j : Nat) (hj : j < k), d ∈ batches[j]) ∧
      (∀ (k : Nat) (hk : k + 1 < batches.length), ∀ t ∈ batches[k + 1],
        ∃ d ∈ batches[k], DependsOn tasks t d) ∧
      (∀ batch ∈ batches, batch ≠ []) ∧
      IsGreatest {n | ∃ chain, DependencyChain tasks chain ∧ chain.length = n} batches.length := by
  obtain ⟨ordered, hok⟩ := exists_topologicalOrder hunique hclosed hacyclic
  have hordered := topologicalOrder_eq_ok hunique hok
  have hinside := hordered.dependencies_closed hunique
  obtain ⟨depth, hmeasured, hbatches⟩ := parallelBatches_eq hunique hok
  refine ⟨_, hbatches, ?_, ?_, ?_, hmeasured.layers_ne_nil hinside, ?_⟩
  · exact (hmeasured.layers_perm hordered.nodup).trans (hordered.perm hunique)
  · intro k hk t ht d hd
    obtain ⟨hmem, hdepth⟩ := (mem_layers hk).mp ht
    have hnext := (mem_dependenciesOf hunique).mpr hd
    have hlt := hmeasured.lt hmem hnext
    have hdmem := hinside t hmem d hnext
    have hpos := hmeasured d hdmem
    refine ⟨depth d - 1, by omega, (mem_layers _).mpr ⟨hdmem, by omega⟩⟩
  · intro k hk t ht
    obtain ⟨hmem, hdepth⟩ := (mem_layers hk).mp ht
    obtain ⟨d, hd, hbelow⟩ := hmeasured.exists_next hmem hdepth
    exact ⟨d, (mem_layers _).mpr ⟨hinside t hmem d hd, hbelow⟩, (mem_dependenciesOf hunique).mp hd⟩
  · rw [length_layers]
    exact hordered.isGreatest hunique hmeasured

theorem parallelBatches_layered_pair : ∃ batches, parallelBatches pairTasks = .ok batches ∧
    batches = [["a"], ["b"]] ∧
    IsGreatest {n | ∃ chain, DependencyChain pairTasks chain ∧ chain.length = n} 2 := by
  have hok : parallelBatches pairTasks = .ok [["a"], ["b"]] := by rfl
  have hordered : topologicalOrder pairTasks = .ok ["a", "b"] := by rfl
  have hacyclic := (topologicalOrder_eq_ok (by decide) hordered).acyclic
  have hclosed : Closed pairTasks := by
    unfold Closed
    decide
  obtain ⟨batches, hbatches, -, -, -, -, hgreatest⟩ :=
    parallelBatches_layered pairTasks (by decide) hclosed hacyclic
  obtain rfl := Except.ok.inj (hbatches.symm.trans hok)
  exact ⟨_, hok, rfl, hgreatest⟩

end DurableAgent
