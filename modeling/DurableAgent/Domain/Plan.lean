import DurableAgent.Domain.Models

/-!
# Task graph validation and scheduling helpers

`validate_plan` with its topological order, and `ready_tasks`.
-/

namespace DurableAgent

/-- `_SERIAL_ONLY_PERMISSIONS`, sorted -/
def serialOnlyPermissions : List String := ["repository.patch", "repository.write"]

/-- White space as `str.split` understands it. -/
def isSpace (c : Char) : Bool :=
  let n := c.toNat
  (9 ≤ n ∧ n ≤ 13) ∨ (28 ≤ n ∧ n ≤ 32) ∨ n = 133 ∨ n = 160 ∨ n = 5760 ∨
    (8192 ≤ n ∧ n ≤ 8202) ∨ n = 8232 ∨ n = 8233 ∨ n = 8239 ∨ n = 8287 ∨ n = 12288

/-- `len(text.split())` -/
def wordCount (text : String) : Nat :=
  ((text.toList.splitOnP isSpace).filter fun word => ¬ word.isEmpty).length

/-- The text of a list of identifiers. -/
def listText (items : List String) : String :=
  "[" ++ ", ".intercalate (items.map fun item => "'" ++ item ++ "'") ++ "]"

abbrev invalidPlan (message : String) : Exn := .of .planValidation message

/-! ## Topological order -/

section Graph

variable (tasks : List TaskSpec)

/-- The identifiers in the order of their first task, without repetition. -/
def taskIds : List String := (tasks.map TaskSpec.taskId).dedup

/-- The last task of an identifier, as a dictionary of the tasks holds it. -/
def taskById (taskId : String) : Option TaskSpec :=
  (tasks.filter fun task => task.taskId = taskId).getLast?

/-- The edges of the tasks of an identifier, counted once for each task. -/
def initialIndegree (taskId : String) : Int :=
  ((tasks.filter fun task => task.taskId = taskId).map fun task => (task.dependencies.length : Int)).sum

/-- The tasks that list a dependency, sorted. -/
def dependents (dependency : String) : List String :=
  ((tasks.filter fun task => dependency ∈ task.dependencies).map TaskSpec.taskId).insertionSort
    (· ≤ ·)

/-- One dependent loses an edge and is queued when it was the last. -/
def releaseEdge (acc : List String × (String → Int)) (dependent : String) :
    List String × (String → Int) :=
  let left := acc.2 dependent - 1
  (if left = 0 then acc.1 ++ [dependent] else acc.1, Function.update acc.2 dependent left)

/-- The loop over the queue; an identifier enters the queue once at most, so the number of tasks
bounds the turns. -/
def drain : Nat → List String → (String → Int) → List String → List String × (String → Int)
  | 0, _, indegree, result => (result, indegree)
  | _ + 1, [], indegree, result => (result, indegree)
  | turns + 1, taskId :: queue, indegree, result =>
    let (queue, indegree) := (dependents tasks taskId).foldl releaseEdge (queue, indegree)
    drain turns queue indegree (result ++ [taskId])

/-- `topological_order` -/
def topologicalOrder : Except Exn (List String) :=
  match (tasks.flatMap TaskSpec.dependencies).find? fun d => taskById tasks d = none with
  | some dependency => .error (invalidPlan s!"unknown dependency {dependency}")
  | none =>
    let roots := (taskIds tasks).filter fun taskId => initialIndegree tasks taskId = 0
    let (result, indegree) :=
      drain tasks tasks.length (roots.insertionSort (· ≤ ·)) (initialIndegree tasks) []
    if result.length ≠ tasks.length then
      let cyclic := ((taskIds tasks).filter fun taskId => 0 < indegree taskId).insertionSort (· ≤ ·)
      .error (invalidPlan s!"task graph contains a cycle involving: {listText cyclic}")
    else .ok result

end Graph

/-! ## Validation -/

/-- The checks of one task. -/
def validateTask (tasks : List TaskSpec) (task : TaskSpec) : Except Exn Unit :=
  let missing := task.dependencies.filter fun d => d ∉ tasks.map TaskSpec.taskId
  let unsafeParallel := serialOnlyPermissions.filter fun p => p ∈ task.toolPermissions
  if missing ≠ [] then
    .error (invalidPlan
      s!"task {task.taskId} has missing dependencies: {listText (missing.insertionSort (· ≤ ·))}")
  else if wordCount task.description < 3 then
    .error (invalidPlan s!"task {task.taskId} is too small to be actionable")
  else if task.estimatedContextTokens > 250000 then
    .error (invalidPlan s!"task {task.taskId} is too broad; decompose it")
  else if task.parallelizable ∧ unsafeParallel ≠ [] then
    .error (invalidPlan (s!"task {task.taskId} cannot run in parallel with mutation permissions: " ++
      listText unsafeParallel))
  else .ok ()

/-- `max((depth[item] for item in dependencies), default=0)` -/
def deepest (depth : String → Option Nat) : List String → Except Exn Nat
  | [] => .ok 0
  | item :: dependencies =>
    match depth item with
    | none => .error (.other s!"KeyError: {item}")
    | some found => do
      let others ← deepest depth dependencies
      pure (max found others)

/-- The depth of every identifier, from those before it in the order. -/
def depths (tasks : List TaskSpec) :
    List String → (String → Option Nat) → Except Exn (String → Option Nat)
  | [], depth => .ok depth
  | taskId :: ordered, depth =>
    match taskById tasks taskId with
    | none => .error (.other s!"KeyError: {taskId}")
    | some task => do
      let found ← deepest depth task.dependencies
      depths tasks ordered (Function.update depth taskId (some (1 + found)))

/-- `validate_plan` -/
def validatePlan (plan : PlanSpec) (maximumDepth : Int) : Except Exn PlanSpec := do
  if ¬ (plan.tasks.map TaskSpec.taskId).Nodup then .error (invalidPlan "task IDs must be unique")
  else
    plan.tasks.forM (validateTask plan.tasks)
    let ordered ← topologicalOrder plan.tasks
    let depth ← depths plan.tasks ordered fun _ => none
    if ((ordered.filterMap depth).foldr max 0 : Nat) > maximumDepth then
      .error (invalidPlan s!"plan depth exceeds maximum {maximumDepth}")
    else .ok plan

theorem validateTask_dependencies {tasks : List TaskSpec} {task : TaskSpec} {u : Unit}
    (h : validateTask tasks task = .ok u) :
    ∀ d ∈ task.dependencies, d ∈ tasks.map TaskSpec.taskId := by
  unfold validateTask at h
  dsimp only at h
  split at h
  · cases h
  · next hmissing =>
    rw [not_not, List.filter_eq_nil_iff] at hmissing
    intro d hd
    simpa using hmissing d hd

/-- A check of every element that succeeds has succeeded for each. -/
theorem forM_ok {α : Type} {check : α → Except Exn Unit} {l : List α} {u : Unit}
    (h : l.forM check = .ok u) : ∀ a ∈ l, check a = .ok () := by
  induction l with
  | nil => simp
  | cons a l ih =>
    obtain ⟨_, ha, hl⟩ := of_bind_ok h
    intro b hb
    rcases List.mem_cons.mp hb with rfl | hb
    · exact ha
    · exact ih hl b hb

theorem forM_eq_ok {α : Type} {check : α → Except Exn Unit} {l : List α} :
    l.forM check = .ok () ↔ ∀ a ∈ l, check a = .ok () := by
  constructor
  · exact forM_ok
  · intro h
    induction l with
    | nil => rfl
    | cons a l ih =>
      have hrest := ih fun b hb => h b (List.mem_cons_of_mem a hb)
      change (check a >>= fun _ => l.forM check) = .ok ()
      rw [h a List.mem_cons_self]
      exact hrest

/-- What a validated plan satisfies, as far as scheduling relies on it. -/
theorem validatePlan_eq_ok {plan checked : PlanSpec} {maximumDepth : Int}
    (h : validatePlan plan maximumDepth = .ok checked) :
    checked = plan ∧ (plan.tasks.map TaskSpec.taskId).Nodup ∧
      ∀ task ∈ plan.tasks, ∀ d ∈ task.dependencies, d ∈ plan.tasks.map TaskSpec.taskId := by
  unfold validatePlan at h
  split at h
  · cases h
  · next hnodup =>
    obtain ⟨_, hchecks, h⟩ := of_bind_ok h
    obtain ⟨ordered, _, h⟩ := of_bind_ok h
    obtain ⟨depth, _, h⟩ := of_bind_ok h
    split at h
    · cases h
    · exact ⟨(Except.ok.inj h).symm, not_not.mp hnodup,
        fun task htask => validateTask_dependencies (forM_ok hchecks task htask)⟩

/-! ## Readiness -/

/-- The last record of an identifier, as a dictionary of the records holds it. -/
def recordById (records : List TaskRecord) (taskId : String) : Option TaskRecord :=
  (records.filter fun record => record.spec.taskId = taskId).getLast?

/-- All dependencies have succeeded; the first that has not ends the check, one that is unknown
before that raises. -/
def dependenciesSucceeded (records : List TaskRecord) : List String → Except Exn Bool
  | [] => .ok true
  | d :: rest =>
    match recordById records d with
    | none => .error (.other s!"KeyError: {d}")
    | some record =>
      if record.state = .SUCCEEDED then dependenciesSucceeded records rest else .ok false

/-- States from which a task may be scheduled. -/
def Schedulable (state : TaskState) : Prop :=
  state = .PENDING ∨ state = .READY ∨ state = .FAILED_RETRYABLE

instance (state : TaskState) : Decidable (Schedulable state) :=
  inferInstanceAs (Decidable (_ ∨ _))

/-- A record that may be scheduled and waits for nothing. -/
def isReady (records : List TaskRecord) (record : TaskRecord) : Except Exn Bool :=
  if Schedulable record.state then dependenciesSucceeded records record.spec.dependencies
  else .ok false

/-- The schedulable records whose dependencies have succeeded, in the given order. -/
def selectReady (records : List TaskRecord) : List TaskRecord → Except Exn (List TaskRecord)
  | [] => .ok []
  | record :: rest => do
    let ready ← isReady records record
    let others ← selectReady records rest
    pure (if ready then record :: others else others)

/-- By priority, then by identifier. -/
def ScheduledBefore (a b : TaskRecord) : Prop :=
  a.spec.priority < b.spec.priority ∨
    (a.spec.priority = b.spec.priority ∧ a.spec.taskId ≤ b.spec.taskId)

instance : DecidableRel ScheduledBefore := fun _ _ => inferInstanceAs (Decidable (_ ∨ _))

/-- `ready_tasks` -/
def readyTasks (records : List TaskRecord) : Except Exn (List TaskRecord) := do
  let ready ← selectReady records records
  pure (ready.insertionSort ScheduledBefore)

theorem recordById_mem {records : List TaskRecord} {taskId : String} {record : TaskRecord}
    (h : recordById records taskId = some record) :
    record ∈ records ∧ record.spec.taskId = taskId := by
  have hmem := List.mem_of_getLast? h
  simpa using hmem

theorem dependenciesSucceeded_true {records : List TaskRecord} {ds : List String}
    (h : dependenciesSucceeded records ds = .ok true) :
    ∀ d ∈ ds, ∃ record ∈ records, record.spec.taskId = d ∧ record.state = .SUCCEEDED := by
  induction ds with
  | nil => simp
  | cons d rest ih =>
    unfold dependenciesSucceeded at h
    split at h
    · cases h
    · next record hrecord =>
      split at h
      · next hstate =>
        obtain ⟨hmem, hid⟩ := recordById_mem hrecord
        intro d' hd'
        rcases List.mem_cons.mp hd' with rfl | hd'
        · exact ⟨record, hmem, hid, hstate⟩
        · exact ih h d' hd'
      · cases h

theorem selectReady_spec {records candidates ready : List TaskRecord}
    (h : selectReady records candidates = .ok ready) :
    ∀ task ∈ ready, task ∈ candidates ∧ Schedulable task.state ∧
      ∀ d ∈ task.spec.dependencies, ∃ record ∈ records,
        record.spec.taskId = d ∧ record.state = .SUCCEEDED := by
  induction candidates generalizing ready with
  | nil =>
    obtain rfl := Except.ok.inj h
    simp
  | cons record rest ih =>
    rw [selectReady] at h
    obtain ⟨ready, hready, h⟩ := of_bind_ok h
    obtain ⟨others, hothers, h⟩ := of_bind_ok h
    obtain rfl := Except.ok.inj h
    have hrest : ∀ task ∈ others, task ∈ record :: rest ∧ Schedulable task.state ∧
        ∀ d ∈ task.spec.dependencies, ∃ r ∈ records, r.spec.taskId = d ∧ r.state = .SUCCEEDED := by
      intro task htask
      obtain ⟨hmem, hother⟩ := ih hothers task htask
      exact ⟨List.mem_cons_of_mem record hmem, hother⟩
    intro task htask
    split at htask
    · next htrue =>
      rcases List.mem_cons.mp htask with rfl | htask
      · rw [htrue, isReady] at hready
        split at hready
        · next hstate =>
          exact ⟨List.mem_cons_self, hstate, dependenciesSucceeded_true hready⟩
        · cases hready
      · exact hrest task htask
    · exact hrest task htask

/-- A ready task is one of the records, is schedulable, and all its dependencies have succeeded. -/
theorem readyTasks_spec {records ready : List TaskRecord} (h : readyTasks records = .ok ready) :
    ∀ task ∈ ready, task ∈ records ∧ Schedulable task.state ∧
      ∀ d ∈ task.spec.dependencies, ∃ record ∈ records,
        record.spec.taskId = d ∧ record.state = .SUCCEEDED := by
  obtain ⟨selected, hselected, h⟩ := of_bind_ok h
  obtain rfl := Except.ok.inj h
  intro task htask
  exact selectReady_spec hselected task ((List.mem_insertionSort ScheduledBefore).mp htask)

end DurableAgent
