import DurableAgent.Orchestration.Steps

/-!
# Moves of tasks and plans

The calls that read and write tasks, their attempts and their plans.
-/

namespace DurableAgent.Orchestration

open Library Store

variable {Text α β : Type} {g : Assumed} {w : Watch} {codec : Codec Text}
  {sha256Digest : String → String}
  {s s' : StoreState Text} {K : Ledger → Prop}

/-! ## Attempts -/

theorem does_finishOpenTaskAttempts {runId taskId errorId : String} {state : TaskState} :
    Does g w codec sha256Digest (sql (.finishOpenTaskAttempts runId taskId state errorId))
      (fun _ _ => True) s := by
  refine does_call id (persists_const True) trivial (fun _ => persists_const True)
    fun s t x s' _ _ _ hstep => ?_
  obtain ⟨rfl, rfl⟩ := Prod.mk.inj hstep
  exact ⟨.closeAttempts (closes_closeAttempts _ _ _ _), fun _ _ => trivial⟩

/-! ## Task rows -/

/-- What a task that was read is. -/
structure ReadTask (g : Assumed) (runId planId : String) (task : TaskRecord) (l : Ledger) :
    Prop where
  runId : task.runId = runId
  planId : task.planId = planId
  copy : l.TaskCopy task
  facts : TaskFacts g task

theorem persists_readTask {runId planId : String} (task : TaskRecord) :
    Persists g (ReadTask g runId planId task) :=
  fun _ _ h htask => { htask with copy := h.taskCopy htask.copy }

/-- The columns of an update that are not those of the row it matches. -/
structure Rewrites (old new : TaskRecord) : Prop where
  runId : new.runId = old.runId
  planId : new.planId = old.planId
  spec : new.spec = old.spec

theorem Rewrites.taskPk {old new : TaskRecord} (h : Rewrites old new) :
    new.taskPk = old.taskPk := by
  rw [TaskRecord.taskPk, TaskRecord.taskPk, h.runId, h.planId, h.spec]

/-- What an update over its own copy writes is the copy it answers with. -/
theorem Rewrites.written {old new : TaskRecord} (h : Rewrites old new) (v : Nat) :
    written new v old = taskWithVersion new v := by
  obtain ⟨hrun, hplan, hspec⟩ := h
  cases new
  cases old
  simp_all [Store.written, taskWithVersion]

theorem writeTask_eq_some {task : TaskRecord} {v : Nat} {tasks : Table TaskRecord.taskPk}
    (h : s.writeTask task v = some tasks) : ∃ row ∈ s.tasks.rows, row.taskPk = task.taskPk ∧
      row.version = v ∧ tasks = s.tasks.replace (written task v row) := by
  obtain ⟨row, hrow, hkey, hv, rfl⟩ := Table.swap_eq_some.mp h
  exact ⟨row, hrow, hkey, hv, rfl⟩

/-- An update computed from a copy of a task replaces that very row. -/
theorem move_writeTask {old new : TaskRecord} {tasks : Table TaskRecord.taskPk}
    {attempts : Table TaskAttempt.attemptId} (hrewrites : Rewrites old new)
    (hcopy : (ledger s).TaskCopy old)
    (hstep : old ∈ s.tasks.rows → TaskStep g (ledger s) old (taskWithVersion new old.version))
    (hattempts : Closes s.attempts attempts) (hwrite : s.writeTask new old.version = some tasks) :
    Move g (ledger s) { ledger s with tasks := tasks, attempts := attempts } ∧
      taskWithVersion new old.version ∈ tasks.rows := by
  obtain ⟨row, hrow, hkey, hv, rfl⟩ := writeTask_eq_some hwrite
  obtain rfl : row = old := hcopy.current hrow (hkey.trans hrewrites.taskPk) hv
  rw [hrewrites.written]
  have htask := hstep hrow
  exact ⟨.task hrow htask hattempts, (Table.mem_replace hrow htask.taskPk _).mpr (.inl rfl)⟩

/-- What the answer of an update is: the row that it has written. -/
def Written (new : TaskRecord) (v : Nat) (task : TaskRecord) (l : Ledger) : Prop :=
  task = taskWithVersion new v ∧ l.TaskCopy task

theorem persists_written {new : TaskRecord} {v : Nat} (task : TaskRecord) :
    Persists g (Written new v task) :=
  fun _ _ h htask => ⟨htask.1, h.taskCopy htask.2⟩

theorem does_updateTask {old new : TaskRecord} (hK : Persists g K) (hs : K (ledger s))
    (hcopy : (ledger s).TaskCopy old) (hrewrites : Rewrites old new)
    (hstep : ∀ s : StoreState Text, Sound g (ledger s) → K (ledger s) → old ∈ s.tasks.rows →
      Admits g w (.sql (.updateTask new old.version) : StoreOp Text TaskRecord) s →
        TaskStep g (ledger s) old (taskWithVersion new old.version)) :
    Does g w codec sha256Digest (sql (.updateTask new old.version)) (Written new old.version) s := by
  refine does_settle (c := fun _ s => s.updateTask new old.version) id (fun _ _ => rfl)
    (hK.and (persists_taskCopy old)) ⟨hs, hcopy⟩ persists_written
    fun s t task s' hinv hKs hadmits hok => ?_
  unfold StoreState.updateTask at hok
  split at hok
  · next tasks hwrite =>
    obtain ⟨rfl, rfl⟩ := Prod.mk.inj (Except.ok.inj hok)
    obtain ⟨hmove, hmem⟩ := move_writeTask hrewrites hKs.2
      (fun hrow => hstep s hinv hKs.1 hrow hadmits) (.refl s.attempts) hwrite
    exact ⟨hmove, rfl, .of_mem hmem⟩
  · cases hok

theorem does_updateTaskAndFinishAttempt {old new : TaskRecord} {attemptId : String}
    {attemptState : TaskState} {errorId : Option String} (hK : Persists g K) (hs : K (ledger s))
    (hcopy : (ledger s).TaskCopy old) (hrewrites : Rewrites old new)
    (hstep : ∀ l, Sound g l → K l → old ∈ l.tasks.rows →
      TaskStep g l old (taskWithVersion new old.version)) :
    Does g w codec sha256Digest
      (sql (.updateTaskAndFinishAttempt new old.version attemptId attemptState errorId))
      (Written new old.version) s := by
  refine does_settle
    (c := fun t s => s.updateTaskAndFinishAttempt new old.version attemptId attemptState errorId
      t.now) id (fun _ _ => rfl) (hK.and (persists_taskCopy old)) ⟨hs, hcopy⟩ persists_written
    fun s t task s' hinv hKs _ hok => ?_
  unfold StoreState.updateTaskAndFinishAttempt at hok
  dsimp only at hok
  split at hok
  · next tasks hwrite _ =>
    obtain ⟨rfl, rfl⟩ := Prod.mk.inj (Except.ok.inj hok)
    obtain ⟨hmove, hmem⟩ := move_writeTask hrewrites hKs.2
      (fun hrow => hstep (ledger s) hinv hKs.1 hrow) (closes_closeAttempts _ _ _ _) hwrite
    exact ⟨hmove, rfl, .of_mem hmem⟩
  · cases hok

theorem does_cancelTaskAndOpenAttempts {old new : TaskRecord} (hK : Persists g K)
    (hs : K (ledger s)) (hcopy : (ledger s).TaskCopy old) (hrewrites : Rewrites old new)
    (hstep : ∀ l, Sound g l → K l → old ∈ l.tasks.rows →
      TaskStep g l old (taskWithVersion new old.version)) :
    Does g w codec sha256Digest (sql (.cancelTaskAndOpenAttempts new old.version))
      (Written new old.version) s := by
  refine does_settle (c := fun t s => s.cancelTaskAndOpenAttempts new old.version t.now)
    id (fun _ _ => rfl) (hK.and (persists_taskCopy old)) ⟨hs, hcopy⟩ persists_written
    fun s t task s' hinv hKs _ hok => ?_
  unfold StoreState.cancelTaskAndOpenAttempts at hok
  split at hok
  · next tasks hwrite =>
    obtain ⟨rfl, rfl⟩ := Prod.mk.inj (Except.ok.inj hok)
    obtain ⟨hmove, hmem⟩ := move_writeTask hrewrites hKs.2
      (fun hrow => hstep (ledger s) hinv hKs.1 hrow) (closes_closeAttempts _ _ _ _) hwrite
    exact ⟨hmove, rfl, .of_mem hmem⟩
  · cases hok

theorem startTaskAttempt_eq_ok {attemptId runId taskId answer : String} {n : Nat}
    {now : Timestamp} (h : s.startTaskAttempt attemptId runId taskId n now = .ok (answer, s')) :
    ∃ a attempts, numberOf a = (runId, taskId, n) ∧ attempts.rows = a :: s.attempts.rows ∧
      s' = { s with attempts := attempts } := by
  unfold StoreState.startTaskAttempt at h
  split at h
  · cases h
  · split at h
    · next attempts hinsert =>
      obtain ⟨-, rfl⟩ := Prod.mk.inj (Except.ok.inj h)
      exact ⟨_, attempts, rfl, Table.insert_rows hinsert, rfl⟩
    · cases h

/-- An attempt is opened under the number that its task has counted to. -/
theorem does_open (task : TaskRecord) {f : String → StoreProg Text β} {T : β → Ledger → Prop}
    (hK : Persists g K) (hs : K (ledger s)) (hcopy : (ledger s).TaskCopy task)
    (hcount : 1 ≤ task.attemptCount)
    (hopens : g.numbered → w.opens (task.runId, task.spec.taskId, task.attemptCount) ∧
      Unopened (ledger s) (task.runId, task.spec.taskId, task.attemptCount))
    (hf : ∀ attemptId s', Sound g (ledger s') → K (ledger s') →
      Does g w codec sha256Digest (f attemptId) T s') :
    Does g w codec sha256Digest
      (sql (.startTaskAttempt task.runId task.spec.taskId task.attemptCount) >>= f) T s := by
  intro s₁ hs₁ hinv
  refine ⟨fun hn => hs₁.2.unopened (fun h => h hn (hopens hn).1) (hopens hn).2, ?_⟩
  rintro x s₂ (⟨-, t, hstep⟩ | ⟨e, rfl, rfl⟩)
  · rcases settle_eq hstep with ⟨e, rfl, rfl⟩ | ⟨answer, rfl, hok⟩
    · exact ⟨⟨.quiet, .refl _ _⟩, hinv, fun _ _ _ => trivial⟩
    · obtain ⟨a, attempts, hnumber, hrows, rfl⟩ := startTaskAttempt_eq_ok hok
      obtain ⟨hrun, htask⟩ := Prod.mk.inj hnumber
      obtain ⟨htask, hn⟩ := Prod.mk.inj htask
      have hmove : Move g (ledger s₁) { ledger s₁ with attempts := attempts } := by
        obtain ⟨row, hrow, hkey, hlater⟩ := hs₁.1.taskCopy hcopy
        have hkey' := Prod.mk.inj hkey
        refine .openAttempt ⟨row, hrow, hkey'.1.trans hrun.symm,
          (Prod.mk.inj hkey'.2).2.trans htask.symm, ?_, hn ▸ hcount⟩ hrows
        rcases hlater with rfl | ⟨-, -, -, hle⟩
        · exact hn.le
        · exact hn.le.trans hle
      refine ⟨⟨hmove, fun b hb => ?_⟩, hmove.sound hinv, ?_⟩
      · change b ∈ attempts.rows at hb
        rw [hrows] at hb
        rcases List.mem_cons.mp hb with rfl | hb
        · exact .inl fun hn => hnumber ▸ (hopens hn).1
        · exact .inr ⟨b, hb, rfl⟩
      · exact hf answer _ (hmove.sound hinv) (hK (.single hmove) (hK hs₁.1 hs))
  · exact ⟨⟨.quiet, .refl _ _⟩, hinv, fun _ _ _ => trivial⟩

/-- The start of a task: it counts to a new number, and opens an attempt under it. -/
theorem does_start {old new : TaskRecord} {f : TaskRecord → String → StoreProg Text β}
    {T : β → Ledger → Prop} (hK : Persists g K) (hs : K (ledger s))
    (hcopy : (ledger s).TaskCopy old) (hrewrites : Rewrites old new)
    (hrunning : new.state = .RUNNING) (hcount : 1 ≤ new.attemptCount)
    (hstep : ∀ l, Sound g l → K l → old ∈ l.tasks.rows →
      TaskStep g l old (taskWithVersion new old.version))
    (hf : ∀ task attemptId s', Sound g (ledger s') → K (ledger s') →
      Written new old.version task (ledger s') →
        Does g w codec sha256Digest (f task attemptId) T s') :
    Does g w codec sha256Digest (sql (.updateTask new old.version) >>= fun task =>
      sql (.startTaskAttempt new.runId task.spec.taskId task.attemptCount) >>= f task) T s := by
  intro s₁ hs₁ hinv
  refine ⟨trivial, ?_⟩
  rintro x s₂ (⟨hadmits, t, hop⟩ | ⟨e, rfl, rfl⟩)
  · rcases settle_eq hop with ⟨e, rfl, rfl⟩ | ⟨task, rfl, hok⟩
    · exact ⟨⟨.quiet, .refl _ _⟩, hinv, fun _ _ _ => trivial⟩
    · unfold StoreState.updateTask at hok
      split at hok
      · next tasks hwrite =>
        obtain ⟨rfl, rfl⟩ := Prod.mk.inj (Except.ok.inj hok)
        have hK₁ := hK hs₁.1 hs
        obtain ⟨hmove, hmem⟩ := move_writeTask hrewrites (hs₁.1.taskCopy hcopy)
          (fun hrow => hstep (ledger s₁) hinv hK₁ hrow) (.refl s₁.attempts) hwrite
        have hwritten : Written new old.version (taskWithVersion new old.version)
            { ledger s₁ with tasks := tasks } := ⟨rfl, .of_mem hmem⟩
        refine ⟨⟨hmove, (Closes.refl s₁.attempts).opensOnly _⟩, hmove.sound hinv, ?_⟩
        refine does_open (taskWithVersion new old.version)
          (K := fun l => K l ∧ Written new old.version _ l)
          (hK.and (persists_written _)) ⟨hK (.single hmove) hK₁, hwritten⟩ hwritten.2 hcount
          (fun hn => ?_) fun attemptId s' hsound h => hf _ attemptId s' hsound h.1 h.2
        obtain ⟨hmine, hcounted⟩ := hadmits.numbered hn (new, old.version) rfl hrunning
        refine ⟨hmine, fun a ha hsame => ?_⟩
        obtain ⟨row, hrow, hrun, htask, hle⟩ := hinv.counted a ha
        obtain ⟨hrun', hsame⟩ := Prod.mk.inj hsame
        obtain ⟨htask', hn'⟩ := Prod.mk.inj hsame
        have hlt : row.attemptCount < new.attemptCount :=
          hcounted row hrow (hrun.trans hrun') (htask.trans htask')
        have hn'' : a.attemptNumber = new.attemptCount := hn'
        omega
      · cases hok
  · exact ⟨⟨.quiet, .refl _ _⟩, hinv, fun _ _ _ => trivial⟩

/-! ## What copies tell of rows -/

/-- A copy in a terminal state says what state the row is in. -/
theorem row_of_terminal {l : Ledger} {task : TaskRecord} (h : l.TaskCopy task)
    (hterminal : Terminal taskTransitions task.state) : ∃ row ∈ l.tasks.rows,
      row.runId = task.runId ∧ row.planId = task.planId ∧ row.spec = task.spec ∧
        row.state = task.state := by
  obtain ⟨row, hrow, hkey, hlater⟩ := h
  have hkey' := Prod.mk.inj hkey
  refine ⟨row, hrow, hkey'.1, (Prod.mk.inj hkey'.2).1, ?_⟩
  rcases hlater with rfl | ⟨-, hspec, hlegal, -⟩
  · exact ⟨rfl, rfl⟩
  · exact ⟨hspec, hlegal.eq_of_terminal hterminal⟩

theorem failedBeside_of_copy {l : Ledger} {task : TaskRecord} (h : l.TaskCopy task)
    (hstate : task.state = .FAILED_TERMINAL) : FailedBeside l task.runId task.planId := by
  obtain ⟨row, hrow, hrun, hplan, -, hsame⟩ :=
    row_of_terminal h ((terminal_task_iff _).mpr (.inr (.inl hstate)))
  exact ⟨row, hrow, hrun, hplan, hsame.trans hstate⟩

/-- The dependencies of what is ready in a view have succeeded. -/
theorem TaskView.dependenciesDone {l : Ledger} {home : PlanSpec} {tasks ready : List TaskRecord}
    (h : TaskView g l home tasks) (hready : readyTasks tasks = .ok ready) :
    ∀ task ∈ ready, task ∈ tasks ∧ Schedulable task.state ∧ DependenciesDone l task := by
  intro task htask
  obtain ⟨hmem, hstate, hdeps⟩ := readyTasks_spec hready task htask
  refine ⟨hmem, hstate, fun d hd => ?_⟩
  obtain ⟨record, hrecord, hid, hsucceeded⟩ := hdeps d hd
  obtain ⟨row, hrow, hrun, hplan, hspec, hsame⟩ :=
    row_of_terminal (h.copies record hrecord) ((terminal_task_iff _).mpr (.inl hsucceeded))
  have hin := h.inPlan task hmem
  have hin' := h.inPlan record hrecord
  exact ⟨row, hrow, hrun.trans (hin'.1.trans hin.1.symm), hplan.trans (hin'.2.trans hin.2.symm),
    by rw [hspec, hid], hsame.trans hsucceeded⟩

/-! ## Reading tasks -/

/-- The rows of a plan in the order of their tasks. -/
theorem selectTasks_eq_ok {runId planId : String} {tasks : List TaskRecord}
    (h : s.selectTasks runId planId = .ok tasks) :
    ∀ task, task ∈ tasks ↔ task ∈ s.tasks.rows ∧ task.runId = runId ∧ task.planId = planId := by
  unfold StoreState.selectTasks at h
  dsimp only at h
  split at h
  · obtain rfl := Except.ok.inj h
    intro task
    rw [List.mem_insertionSort, List.mem_filter, decide_eq_true_iff]
  · cases h

theorem selectTasks_nodup {runId planId : String} {tasks : List TaskRecord}
    (h : s.selectTasks runId planId = .ok tasks) :
    (tasks.map fun task => task.spec.taskId).Nodup := by
  have hmem := selectTasks_eq_ok h
  have hnodup : tasks.Nodup := by
    unfold StoreState.selectTasks at h
    dsimp only at h
    split at h
    · obtain rfl := Except.ok.inj h
      exact (List.perm_insertionSort _ _).nodup_iff.mpr (s.tasks.nodup_keys.of_map.filter _)
    · cases h
  refine (List.nodup_map_iff_inj_on hnodup).mpr fun a ha b hb hab => ?_
  obtain ⟨ha, harun, haplan⟩ := (hmem a).mp ha
  obtain ⟨hb, hbrun, hbplan⟩ := (hmem b).mp hb
  refine s.tasks.row_unique ha hb ?_
  rw [TaskRecord.taskPk, TaskRecord.taskPk, harun, haplan, hbrun, hbplan, hab]

theorem does_selectTasks (reader : Reader) (runId planId : String) :
    Does g w codec sha256Digest (sql (.selectTasks reader runId planId))
      (fun tasks l => ∀ task ∈ tasks, ReadTask g runId planId task l) s := by
  refine does_quiet trivial (persists_const True) trivial (fun tasks => ?_)
    fun s _ hsound _ _ tasks h task htask => ?_
  · exact fun _ _ h hread task htask => persists_readTask task h (hread task htask)
  · obtain ⟨hrow, hrun, hplan⟩ := (selectTasks_eq_ok h task).mp htask
    exact ⟨hrun, hplan, .of_mem hrow, hsound.facts task hrow⟩

/-- The tasks of a plan that is stored with its tasks are a view of it. -/
theorem does_selectTasks_view {reader : Reader} {home : PlanSpec}
    (hs : Materialized (ledger s) home) :
    Does g w codec sha256Digest (sql (.selectTasks reader home.runId home.planId))
      (fun tasks l => TaskView g l home tasks ∧
        (reader = .advance → g.calm → home.planId = w.planId ∧ Calm tasks)) s := by
  refine does_quiet trivial (persists_materialized home) hs
    (fun tasks => (persists_taskView home tasks).and (persists_const _))
    fun s _ hsound hK hadmits tasks h => ⟨?_, fun hreader hcalm => ?_⟩
  · have hmem := selectTasks_eq_ok h
    exact
      { stored := hK.1
        inPlan := fun task htask => ((hmem task).mp htask).2
        copies := fun task htask => .of_mem ((hmem task).mp htask).1
        facts := fun task htask => hsound.facts task ((hmem task).mp htask).1
        known := fun task htask => by
          obtain ⟨hrow, hrun, hplan⟩ := (hmem task).mp htask
          obtain ⟨plan, hstored, hin, hspec⟩ := hsound.placed task hrow
          have hsame : plan = home :=
            (ledger s).plans.row_unique hstored hK.1 (hin.2.symm.trans hplan)
          exact hsame ▸ hspec
        covers := fun spec hspec => by
          obtain ⟨row, hrow, hin, rfl⟩ := hK.2 spec hspec
          exact List.mem_map_of_mem ((hmem row).mpr ⟨hrow, hin⟩)
        nodup := selectTasks_nodup h }
  · subst hreader
    obtain ⟨hplan, hrest⟩ := hadmits.calm hcalm (home.runId, home.planId) rfl
    refine ⟨hplan, fun task htask => ?_⟩
    obtain ⟨hrow, hin⟩ := (selectTasks_eq_ok h task).mp htask
    exact hrest task hrow hin

/-! ## Plans -/

theorem does_getPlan (runId : String) :
    Does g w codec sha256Digest (sql (.getPlan runId))
      (fun plan l => plan.runId = runId ∧ plan ∈ l.plans.rows) s := by
  refine does_quiet trivial (persists_const True) trivial
    (fun plan => (persists_const _).and (persists_stored plan)) fun s _ _ _ _ plan h => ?_
  have hplan : s.getPlan runId = .ok plan := h
  unfold StoreState.getPlan at hplan
  split at hplan
  · next found hfound =>
    obtain rfl := Except.ok.inj hplan
    have hmem := List.mem_of_mem_head? hfound
    unfold StoreState.plansOf at hmem
    rw [List.mem_insertionSort, List.mem_filter, decide_eq_true_iff] at hmem
    exact ⟨hmem.2, hmem.1⟩
  · cases hplan

/-- A plan that a planner comes to. -/
def Planner (runId : String) (plan : PlanSpec) : Prop :=
  plan.runId = runId ∧ validatePlan plan 20 = .ok plan

theorem checkedPlan_eq_ok {runId : String} {proposed : Except Exn PlanSpec} {plan : PlanSpec}
    (h : proposed.bind (checkedPlan runId) = .ok plan) : Planner runId plan := by
  obtain ⟨p, -, h⟩ := of_bind_ok h
  unfold checkedPlan at h
  split at h
  · cases h
  · next hrun =>
    obtain ⟨rfl, -, -⟩ := validatePlan_eq_ok h
    exact ⟨not_not.mp hrun, h⟩

theorem does_planRun (runId objective : String) :
    Does g w codec sha256Digest (sql (.planRun runId objective)) (fun plan _ => Planner runId plan) s :=
  does_quiet trivial (persists_const True) trivial (fun _ => persists_const _)
    fun _ _ _ _ _ _ h => checkedPlan_eq_ok h

theorem does_revisePlan (plan : PlanSpec) (reason : String) :
    Does g w codec sha256Digest (sql (.revisePlan plan reason))
      (fun revised _ => Planner plan.runId revised) s :=
  does_quiet trivial (persists_const True) trivial (fun _ => persists_const _)
    fun _ _ _ _ _ _ h => checkedPlan_eq_ok h

theorem does_savePlan {plan : PlanSpec} (hvalid : validatePlan plan 20 = .ok plan) :
    Does g w codec sha256Digest (sql (.savePlan plan)) (fun _ l => plan ∈ l.plans.rows) s := by
  refine does_settle (c := fun _ s => s.savePlan plan) id (fun _ _ => rfl) (persists_const True)
    trivial (fun _ => persists_stored plan) fun s t a s' _ _ _ hok => ?_
  unfold StoreState.savePlan at hok
  split at hok
  · cases hok
  · split at hok
    · next plans hinsert =>
      obtain ⟨-, rfl⟩ := Prod.mk.inj (Except.ok.inj hok)
      have hrows := Table.insert_rows hinsert
      refine ⟨.newPlan hvalid hrows, ?_⟩
      change plan ∈ plans.rows
      rw [hrows]
      exact List.mem_cons_self
    · cases hok

/-- The rows of a plan are stored together. -/
theorem does_saveTasks {plan : PlanSpec} {tasks : List TaskRecord} (hK : Persists g K)
    (hs : K (ledger s)) (hspecs : tasks.map TaskRecord.spec = plan.tasks)
    (hin : ∀ task ∈ tasks, InPlan plan task)
    (hnew : ∀ l, K l → ∀ task ∈ tasks, NewTask g l task) (hplan : plan ∈ (ledger s).plans.rows) :
    Does g w codec sha256Digest (sql (.saveTasks tasks)) (fun _ l => Materialized l plan) s := by
  refine does_settle (c := fun _ s => s.saveTasks tasks) id (fun _ _ => rfl)
    (hK.and (persists_stored plan)) ⟨hs, hplan⟩ (fun _ => persists_materialized plan)
    fun s t a s' _ hKs _ hok => ?_
  unfold StoreState.saveTasks at hok
  split at hok
  · next rows hinsert =>
    obtain ⟨-, rfl⟩ := Prod.mk.inj (Except.ok.inj hok)
    have hrows := Table.mem_insertAll hinsert
    refine ⟨.newTasks (hnew (ledger s) hKs.1) hrows, hKs.2, fun spec hspec => ?_⟩
    rw [← hspecs] at hspec
    obtain ⟨task, htask, rfl⟩ := List.mem_map.mp hspec
    exact ⟨task, (hrows task).mpr (.inl htask), hin task htask, rfl⟩
  · cases hok

theorem does_insertRun {run : RunRecord} {key : IdempotencyKey} (hstate : run.state = .CREATED) :
    Does g w codec sha256Digest (sql (.insertRun run key))
      (fun inserted l => inserted = true → l.RunCopy run) s := by
  refine does_call id (persists_const True) trivial
    (fun _ => (persists_runCopy run).imp) fun s t x s' _ _ _ hstep => ?_
  change committed s (s.insertRun run key) = (x, s') at hstep
  cases hinsert : s.insertRun run key with
  | none =>
    rw [hinsert] at hstep
    obtain ⟨rfl, rfl⟩ := Prod.mk.inj hstep
    refine ⟨.quiet, fun a ha htrue => ?_⟩
    rw [htrue] at ha
    cases ha
  | some s₁ =>
    rw [hinsert] at hstep
    obtain ⟨rfl, rfl⟩ := Prod.mk.inj hstep
    obtain ⟨runs, hruns, hrest⟩ := Option.bind_eq_some_iff.mp hinsert
    obtain ⟨keys, -, hs₁⟩ := Option.bind_eq_some_iff.mp hrest
    obtain rfl := Option.some.inj hs₁
    have hrows := Table.insert_rows hruns
    refine ⟨.newRun hstate hrows, fun _ _ _ => .of_mem ?_⟩
    change run ∈ runs.rows
    rw [hrows]
    exact List.mem_cons_self

end DurableAgent.Orchestration
