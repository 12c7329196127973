import DurableAgent.Orchestration.Failures
import DurableAgent.Orchestration.Skipping

/-!
# The disposition of a batch of failures

Every failure of a batch is committed before its consequences are drawn. What becomes of the tasks,
the attempts and the run is therefore told by the failures as a set, in whatever order they come.
-/

namespace DurableAgent.Orchestration

open Library Library.Prog Store

variable {Text : Type} {codec : Codec Text} {sha256Digest : String → String} {A : Agent Text}
  {s s' s₁ : StoreState Text} {d d' d₁ : Disposition} {f : Failure} {failures rest : List Failure}

/-! ## What one failure calls for -/

/-- A failure after which the run fails. -/
def Agent.fatal (f : Failure) : Bool :=
  !A.continuesIndependent f && !A.retries f && !f.requiresReview

/-- The identifier of the task that failed. -/
def Failure.taskId (f : Failure) : String := f.started.task.spec.taskId

/-- The run fails after a terminal failure that is forced, or whose task does not let independent
work go on. -/
theorem Agent.fatal_iff : A.fatal f = true ↔ A.failureTarget f = .FAILED_TERMINAL ∧
    (f.started.task.spec.failurePolicy ≠ .SKIP_DEPENDENTS ∨ f.forceTerminal = true) := by
  unfold Agent.fatal Agent.failureTarget
  by_cases hreview : f.requiresReview = true
  · simp [hreview]
  · by_cases hretries : A.retries f = true
    · simp [hreview, hretries]
    · simp only [hreview, hretries, Agent.continuesIndependent]
      by_cases hpolicy : f.started.task.spec.failurePolicy = .SKIP_DEPENDENTS
      · simp [hpolicy]
      · simp [hpolicy]

/-- The state of the run once the failures are disposed of. -/
def Agent.disposedState (failures : List Failure) (state : RunState) : Except Exn RunState :=
  if failures.any A.fatal then transitionRun state .FAILED
  else if failures.any Failure.requiresReview then pausedState state
  else .ok state

/-! ## The commits -/

/-- Failed attempts of distinct tasks of a list, as the store holds them. -/
structure FailedBatch (tasks : List TaskRecord) (failures : List Failure) (s : StoreState Text) :
    Prop where
  held : ∀ task ∈ tasks, task ∈ s.tasks.rows
  unique : (tasks.map fun task => task.spec.taskId).Nodup
  distinct : (failures.map Failure.taskId).Nodup
  placed : ∀ f ∈ failures, tasks[f.started.index]? = some f.started.task
  running : ∀ f ∈ failures, f.started.task.state = .RUNNING
  attempts : (failures.map fun f => f.started.attemptId).Nodup
  opened : ∀ f ∈ failures, ∃ row ∈ s.attempts.rows, row.attemptId = f.started.attemptId ∧
    row.finishedAt = none

/-- A task is left in the state its failure calls for, and as it was where none is its own. -/
structure Lands (A : Agent Text) (failures : List Failure) (old new : TaskRecord) : Prop where
  rewrites : Rewrites old new
  settled : ∀ f ∈ failures, f.taskId = old.spec.taskId → new.state = A.failureTarget f
  kept : (∀ f ∈ failures, f.taskId ≠ old.spec.taskId) → new = old

/-- An open attempt is closed by its failure, and every other stays as it was. -/
structure Finishes (A : Agent Text) (failures : List Failure) (old new : TaskAttempt) : Prop where
  attemptId : new.attemptId = old.attemptId
  closed : ∀ f ∈ failures, f.started.attemptId = old.attemptId → old.finishedAt = none →
    new.state = A.failureTarget f ∧ new.finishedAt ≠ none
  kept : (∀ f ∈ failures, f.started.attemptId ≠ old.attemptId) ∨ old.finishedAt ≠ none → new = old

/-- What the commits of some failures leave. -/
structure Commits (A : Agent Text) (failures : List Failure) (d : Disposition) (s : StoreState Text)
    (d' : Disposition) (s' : StoreState Text) : Prop where
  lands : List.Forall₂ (Lands A failures) d.tasks d'.tasks
  held : ∀ task ∈ d'.tasks, task ∈ s'.tasks.rows
  finishes : List.Forall₂ (Finishes A failures) s.attempts.rows s'.attempts.rows
  runs : s'.runs = s.runs
  retried : d'.retryTasks.map (fun task => task.spec.taskId) =
    d.retryTasks.map (fun task => task.spec.taskId) ++
      (failures.filter A.retries).map Failure.taskId
  skipDependents : d'.skipDependents =
    d.skipDependents ++ (failures.filter A.continuesIndependent).map Failure.taskId
  manualReview : d'.manualReview = (d.manualReview || failures.any Failure.requiresReview)
  failRun : d'.failRun = (d.failRun || failures.any A.fatal)

theorem Lands.unmoved {task : TaskRecord} (h : ∀ f ∈ failures, f.taskId ≠ task.spec.taskId) :
    Lands A failures task task :=
  ⟨⟨rfl, rfl, rfl⟩, fun f hf hid => absurd hid (h f hf), fun _ => rfl⟩

theorem Lands.trans {a b c : TaskRecord} (hab : Lands A [f] a b) (hbc : Lands A rest b c)
    (hne : ∀ g ∈ rest, g.taskId ≠ f.taskId) : Lands A (f :: rest) a c where
  rewrites := ⟨hbc.rewrites.runId.trans hab.rewrites.runId,
    hbc.rewrites.planId.trans hab.rewrites.planId, hbc.rewrites.spec.trans hab.rewrites.spec⟩
  settled g hg hid := by
    rcases List.mem_cons.mp hg with rfl | hg
    · have hkept : c = b := hbc.kept fun g' hg' => by
        rw [hab.rewrites.spec, ← hid]
        exact hne g' hg'
      rw [hkept]
      exact hab.settled g List.mem_cons_self hid
    · exact hbc.settled g hg (hid.trans (by rw [hab.rewrites.spec]))
  kept h := by
    have hb : b = a := hab.kept fun g hg => by
      rw [List.mem_singleton.mp hg]
      exact h f List.mem_cons_self
    rw [← hb] at h ⊢
    exact hbc.kept fun g hg => h g (List.mem_cons_of_mem f hg)

theorem Finishes.unmoved {row : TaskAttempt} (failures : List Failure)
    (h : (∀ f ∈ failures, f.started.attemptId ≠ row.attemptId) ∨ row.finishedAt ≠ none) :
    Finishes A failures row row where
  attemptId := rfl
  closed f hf hid hopen := by
    rcases h with h | h
    · exact absurd hid (h f hf)
    · exact absurd hopen h
  kept _ := rfl

theorem Finishes.trans {a b c : TaskAttempt} (hab : Finishes A [f] a b) (hbc : Finishes A rest b c)
    (hne : ∀ g ∈ rest, g.started.attemptId ≠ f.started.attemptId) :
    Finishes A (f :: rest) a c where
  attemptId := hbc.attemptId.trans hab.attemptId
  closed g hg hid hopen := by
    rcases List.mem_cons.mp hg with rfl | hg
    · obtain ⟨hstate, hfinished⟩ := hab.closed g List.mem_cons_self hid hopen
      rw [hbc.kept (.inr hfinished)]
      exact ⟨hstate, hfinished⟩
    · have hb : b = a := hab.kept <| .inl fun g' hg' => by
        rw [List.mem_singleton.mp hg', ← hid]
        exact (hne g hg).symm
      rw [← hb] at hid hopen
      exact hbc.closed g hg hid hopen
  kept h := by
    have hb : b = a := hab.kept <| h.imp_left fun h g hg => by
      rw [List.mem_singleton.mp hg]
      exact h f List.mem_cons_self
    rw [← hb] at h ⊢
    exact hbc.kept (h.imp_left fun h g hg => h g (List.mem_cons_of_mem f hg))

theorem forall₂_trans {α β γ : Type} {R : α → β → Prop} {S : β → γ → Prop} {T : α → γ → Prop}
    {as : List α} {bs : List β} {cs : List γ} (h : List.Forall₂ R as bs) (h' : List.Forall₂ S bs cs)
    (hT : ∀ a b c, R a b → S b c → T a c) : List.Forall₂ T as cs := by
  induction h generalizing cs with
  | nil =>
    cases h'
    exact .nil
  | cons hab _ ih =>
    cases h' with
    | cons hbc hrest => exact .cons (hT _ _ _ hab hbc) (ih hrest)

theorem Commits.trans (h : Commits A [f] d s d₁ s₁) (h' : Commits A rest d₁ s₁ d' s')
    (htasks : ∀ g ∈ rest, g.taskId ≠ f.taskId)
    (hattempts : ∀ g ∈ rest, g.started.attemptId ≠ f.started.attemptId) :
    Commits A (f :: rest) d s d' s' where
  lands := forall₂_trans h.lands h'.lands fun _ _ _ hab hbc => hab.trans hbc htasks
  held := h'.held
  finishes := forall₂_trans h.finishes h'.finishes fun _ _ _ hab hbc => hab.trans hbc hattempts
  runs := h'.runs.trans h.runs
  retried := by
    rw [h'.retried, h.retried, List.append_assoc, ← List.map_append, ← List.filter_append]
    rfl
  skipDependents := by
    rw [h'.skipDependents, h.skipDependents, List.append_assoc, ← List.map_append,
      ← List.filter_append]
    rfl
  manualReview := by
    rw [h'.manualReview, h.manualReview, List.any_cons, List.any_cons, List.any_nil, Bool.or_false,
      Bool.or_assoc]
  failRun := by
    rw [h'.failRun, h.failRun, List.any_cons, List.any_cons, List.any_nil, Bool.or_false,
      Bool.or_assoc]

/-- A place of a list of tasks is rewritten for the failure of its task. -/
theorem lands_set {tasks : List TaskRecord} {i : Nat} {old new : TaskRecord}
    (hunique : (tasks.map fun task => task.spec.taskId).Nodup) (hplaced : tasks[i]? = some old)
    (hid : f.taskId = old.spec.taskId) (hnew : Lands A [f] old new) :
    List.Forall₂ (Lands A [f]) tasks (tasks.set i new) := by
  rw [List.forall₂_iff_get]
  refine ⟨(List.length_set).symm, fun j hj hj' => ?_⟩
  rw [List.get_eq_getElem, List.get_eq_getElem, List.getElem_set]
  obtain ⟨hi, hold⟩ := List.getElem?_eq_some_iff.mp hplaced
  by_cases hij : i = j
  · subst hij
    rw [if_pos rfl]
    change Lands A [f] tasks[i] new
    rwa [hold]
  · rw [if_neg hij]
    apply Lands.unmoved
    intro g hg hsame
    rw [List.mem_singleton.mp hg, hid, ← hold] at hsame
    have hi' : i < (tasks.map fun task => task.spec.taskId).length := by simpa using hi
    have hj' : j < (tasks.map fun task => task.spec.taskId).length := by simpa using hj
    have hids : (tasks.map fun task => task.spec.taskId)[i] =
        (tasks.map fun task => task.spec.taskId)[j] := by
      rw [List.getElem_map, List.getElem_map]
      exact hsame
    exact hij (hunique.getElem_inj_iff.mp hids)

theorem taskIds_of_rewrites {tasks updated : List TaskRecord}
    (h : List.Forall₂ Rewrites tasks updated) :
    updated.map (fun task => task.spec.taskId) = tasks.map fun task => task.spec.taskId := by
  induction h with
  | nil => rfl
  | cons hrewrites _ ih => rw [List.map_cons, List.map_cons, ih, hrewrites.spec]

theorem finishes_closeAttempts (errorId : TaskAttempt → Option String) (now : Timestamp) :
    List.Forall₂ (Finishes A [f]) s.attempts.rows
      (s.closeAttempts (fun row => row.attemptId = f.started.attemptId) (A.failureTarget f)
        errorId now).rows := by
  change List.Forall₂ (Finishes A [f]) s.attempts.rows (s.attempts.rows.map _)
  rw [List.forall₂_map_right_iff, List.forall₂_same]
  intro row _
  by_cases hclosed : openAttempt (fun row => row.attemptId = f.started.attemptId) row = true
  · simp only [hclosed, if_true]
    have hopen : row.attemptId = f.started.attemptId ∧ row.finishedAt = none := by
      simpa [openAttempt] using hclosed
    refine ⟨rfl, fun g hg _ _ => ?_, fun h => ?_⟩
    · rw [List.mem_singleton.mp hg]
      exact ⟨rfl, by simp⟩
    · rcases h with h | h
      · exact absurd hopen.1.symm (h f List.mem_cons_self)
      · exact absurd hopen.2 h
  · simp only [hclosed]
    apply Finishes.unmoved
    by_cases hid : row.attemptId = f.started.attemptId
    · right
      simpa [openAttempt, hid] using hclosed
    · left
      intro g hg
      rw [List.mem_singleton.mp hg]
      exact fun h => hid h.symm

/-- Tables that a step has left alone. -/
structure SameTables (s s₁ : StoreState Text) : Prop where
  tasks : s₁.tasks = s.tasks
  attempts : s₁.attempts = s.attempts
  runs : s₁.runs = s.runs

theorem FailedBatch.congr {tasks : List TaskRecord} (h : FailedBatch tasks failures s)
    (hsame : SameTables s s₁) : FailedBatch tasks failures s₁ :=
  { h with
    held := by
      rw [hsame.tasks]
      exact h.held
    opened := by
      rw [hsame.attempts]
      exact h.opened }

theorem Commits.congr (h : Commits A failures d s d' s') (hsame : SameTables s' s₁) :
    Commits A failures d s d' s₁ :=
  { h with
    held := by
      rw [hsame.tasks]
      exact h.held
    finishes := by
      rw [hsame.attempts]
      exact h.finishes
    runs := hsame.runs.trans h.runs }

theorem Commits.congr_left (h : Commits A failures d s₁ d' s') (hsame : SameTables s s₁) :
    Commits A failures d s d' s' :=
  { h with
    finishes := by
      rw [← hsame.attempts]
      exact h.finishes
    runs := h.runs.trans hsame.runs }

theorem transitionTask_failureTarget (f : Failure) :
    transitionTask .RUNNING (A.failureTarget f) = .ok (A.failureTarget f) := by
  rcases Agent.failureTarget_cases (A := A) f with ⟨-, h⟩ | ⟨-, h⟩ | h <;> rw [h] <;> rfl

theorem finishedWhen_fulfils (target : TaskState) :
    (finishedWhen target : StoreProg Text _).Fulfils (handle codec sha256Digest).exec
      (returning fun _ s' => s = s') s := by
  unfold finishedWhen
  split
  · refine Fulfils.next (R := fun _ s' => s = s') (fulfils_handler fun t => ⟨t.now, rfl, rfl⟩) ?_
    rintro now _ rfl
    exact Fulfils.pure rfl
  · exact Fulfils.pure rfl

theorem publish_fulfils {runId eventType : String} {taskId : Option String}
    {payload : List (String × Json)} :
    (publish runId eventType taskId payload : StoreProg Text _).Fulfils
      (handle codec sha256Digest).exec (returning fun _ s' => SameTables s s') s :=
  fulfils_handler fun _ => ⟨(), rfl, rfl, rfl, rfl⟩

/-- The rows of the other tasks of a list are still there after one has been rewritten. -/
theorem held_set {tasks : List TaskRecord} {old new : TaskRecord} {i : Nat}
    (hheld : ∀ task ∈ tasks, task ∈ s.tasks.rows) (hold : old ∈ s.tasks.rows)
    (hrewrites : Rewrites old new) (hplaced : tasks[i]? = some old)
    (hunique : ((tasks.set i new).map fun task => task.spec.taskId).Nodup) :
    ∀ task ∈ tasks.set i new, task ∈ (s.tasks.replace new).rows := by
  intro task htask
  rw [Table.mem_replace hold hrewrites.taskPk]
  obtain ⟨hi, -⟩ := List.getElem?_eq_some_iff.mp hplaced
  by_cases hkey : task.taskPk = new.taskPk
  · left
    have hid : task.spec.taskId = new.spec.taskId := congrArg (fun pk => pk.2.2) hkey
    exact List.inj_on_of_nodup_map hunique htask (List.mem_set hi new) hid
  · right
    rcases List.mem_or_eq_of_mem_set htask with hmem | rfl
    · exact ⟨hheld task hmem, hkey⟩
    · exact absurd rfl hkey

/-- One failure is committed, and the others of the batch wait as before. -/
theorem FailedBatch.commit (hbatch : FailedBatch d.tasks (f :: rest) s) {new : TaskRecord}
    {retryTasks : List TaskRecord} {errorId : TaskAttempt → Option String} {now : Timestamp}
    (hrewrites : Rewrites f.started.task new) (hstate : new.state = A.failureTarget f)
    (hretry : retryTasks = if A.retries f then d.retryTasks ++ [new] else d.retryTasks)
    (hcommitted : d₁ =
      { tasks := d.tasks.set f.started.index new
        retryTasks := retryTasks
        skipDependents :=
          if A.continuesIndependent f then d.skipDependents ++ [new.spec.taskId]
          else d.skipDependents
        manualReview := d.manualReview || f.requiresReview
        failRun := d.failRun || A.fatal f })
    (hstore : s₁ = { s with
      tasks := s.tasks.replace new
      attempts := s.closeAttempts (fun row => row.attemptId = f.started.attemptId)
        (A.failureTarget f) errorId now }) :
    Commits A [f] d s d₁ s₁ ∧ FailedBatch d₁.tasks rest s₁ := by
  subst hcommitted hstore
  have hplaced := hbatch.placed f List.mem_cons_self
  obtain ⟨hi, hold⟩ := List.getElem?_eq_some_iff.mp hplaced
  have hmem : f.started.task ∈ d.tasks := List.mem_of_getElem? hplaced
  have hlands : List.Forall₂ (Lands A [f]) d.tasks (d.tasks.set f.started.index new) := by
    apply lands_set hbatch.unique hplaced rfl
    refine ⟨hrewrites, fun g hg _ => ?_, fun h => absurd rfl (h f List.mem_cons_self)⟩
    rw [List.mem_singleton.mp hg]
    exact hstate
  have hids := taskIds_of_rewrites (hlands.imp fun _ _ h => h.rewrites)
  have hunique : ((d.tasks.set f.started.index new).map fun task => task.spec.taskId).Nodup := by
    rw [hids]
    exact hbatch.unique
  have hheld := held_set hbatch.held (hbatch.held _ hmem) hrewrites hplaced hunique
  have hfinishes : List.Forall₂ (Finishes A [f]) s.attempts.rows
      (s.closeAttempts (fun row => row.attemptId = f.started.attemptId) (A.failureTarget f)
        errorId now).rows := finishes_closeAttempts errorId now
  have hdistinct := List.nodup_cons.mp hbatch.distinct
  have hattempts := List.nodup_cons.mp hbatch.attempts
  have hid : new.spec.taskId = f.taskId := by
    rw [hrewrites.spec]
    rfl
  constructor
  · refine ⟨hlands, hheld, hfinishes, rfl, ?_, ?_, ?_, ?_⟩
    · rw [hretry]
      by_cases h : A.retries f = true
      · simp [h, hid]
      · simp [h]
    · by_cases h : A.continuesIndependent f = true
      · simp [h, hid]
      · simp [h]
    · simp
    · simp
  · refine ⟨hheld, hunique, hdistinct.2, fun g hg => ?_, fun g hg => ?_, hattempts.2,
      fun g hg => ?_⟩
    · have hother := hbatch.placed g (List.mem_cons_of_mem f hg)
      rw [List.getElem?_set_ne _, hother]
      intro hsame
      rw [← hsame, hplaced] at hother
      apply hdistinct.1
      have hname : f.taskId = g.taskId := congrArg (·.spec.taskId) (Option.some.inj hother)
      rw [hname]
      exact List.mem_map_of_mem hg
    · exact hbatch.running g (List.mem_cons_of_mem f hg)
    · obtain ⟨row, hrow, hattempt, hopen⟩ := hbatch.opened g (List.mem_cons_of_mem f hg)
      obtain ⟨row', hpair, hfinish⟩ := exists_mem_zip hfinishes hrow
      have hkept : row' = row := hfinish.kept <| .inl fun f' hf' => by
        rw [List.mem_singleton.mp hf', hattempt]
        exact fun h => hattempts.1 (List.mem_map.mpr ⟨g, hg, h.symm⟩)
      rw [← hkept] at hattempt hopen
      exact ⟨row', (List.of_mem_zip hpair).2, hattempt, hopen⟩

/-- A task that the store holds is rewritten together with its open attempt. -/
theorem updateTaskAndFinishAttempt_held {old new : TaskRecord} {attemptId : String}
    (hold : old ∈ s.tasks.rows) (hrewrites : Rewrites old new) (state : TaskState)
    (errorId : Option String) (now : Timestamp)
    (hopen : ∃ row ∈ s.attempts.rows, row.attemptId = attemptId ∧ row.finishedAt = none) :
    s.updateTaskAndFinishAttempt new old.version attemptId state errorId now =
      .ok (taskWithVersion new old.version, { s with
        tasks := s.tasks.replace (taskWithVersion new old.version)
        attempts := s.closeAttempts (fun row => row.attemptId = attemptId) state
          (fun _ => errorId) now }) := by
  have hany : s.attempts.rows.any (openAttempt fun row => row.attemptId = attemptId) = true := by
    rw [List.any_eq_true]
    obtain ⟨row, hrow, hid, hnone⟩ := hopen
    exact ⟨row, hrow, by simp [openAttempt, hid, hnone]⟩
  unfold StoreState.updateTaskAndFinishAttempt
  dsimp only
  rw [writeTask_held hold hrewrites, hany]

theorem commits_nil (hbatch : FailedBatch d.tasks failures s) : Commits A [] d s d s where
  lands := List.forall₂_same.mpr fun _ _ => Lands.unmoved (by simp)
  held := hbatch.held
  finishes := List.forall₂_same.mpr fun _ _ => Finishes.unmoved [] (by simp)
  runs := rfl
  retried := by simp
  skipDependents := by simp
  manualReview := by simp
  failRun := by simp

theorem handleFailure_fulfils {runId : String} (hbatch : FailedBatch d.tasks (f :: rest) s) :
    (A.handleFailure runId d f).Fulfils (handle codec sha256Digest).exec
      (returning fun d₁ s₁ => Commits A [f] d s d₁ s₁ ∧ FailedBatch d₁.tasks rest s₁) s := by
  unfold Agent.handleFailure
  dsimp only
  refine Fulfils.next (R := fun _ s' => SameTables s s')
    (fulfils_handler fun t => ⟨_, rfl, rfl, rfl, rfl⟩) ?_
  intro errorId s₁ hsame
  have hbatch₁ := hbatch.congr hsame
  have hheld : f.started.task ∈ s₁.tasks.rows :=
    hbatch₁.held _ (List.mem_of_getElem? (hbatch₁.placed f List.mem_cons_self))
  rw [hbatch.running f List.mem_cons_self]
  refine Fulfils.next (Fulfils.ofExcept (R := fun state s' => state = A.failureTarget f ∧ s₁ = s')
    (transitionTask_failureTarget f) ⟨rfl, rfl⟩) ?_
  rintro _ _ ⟨rfl, rfl⟩
  refine Fulfils.next (finishedWhen_fulfils _) ?_
  rintro finishedAt _ rfl
  refine Fulfils.next (R := fun new s' => new = taskWithVersion { f.started.task with
      state := A.failureTarget f, finishedAt := finishedAt, lastErrorId := some errorId }
      f.started.task.version ∧ ∃ now, s' = { s₁ with
        tasks := s₁.tasks.replace new
        attempts := s₁.closeAttempts (fun row => row.attemptId = f.started.attemptId)
          (A.failureTarget f) (fun _ => some errorId) now }) ?_ ?_
  · refine fulfils_handler fun t => ?_
    have hrewrites : Rewrites f.started.task { f.started.task with
        state := A.failureTarget f, finishedAt := finishedAt, lastErrorId := some errorId } :=
      ⟨rfl, rfl, rfl⟩
    have hupdate := updateTaskAndFinishAttempt_held hheld hrewrites (A.failureTarget f)
      (some errorId) t.now (hbatch₁.opened f List.mem_cons_self)
    change returning _ (settle s₁ (StoreState.updateTaskAndFinishAttempt _ _ _ _ _ _ _)).1
      (settle s₁ (StoreState.updateTaskAndFinishAttempt _ _ _ _ _ _ _)).2
    rw [hupdate]
    exact ⟨_, rfl, rfl, t.now, rfl⟩
  · rintro new s₂ ⟨hnew, now, hs₂⟩
    refine Fulfils.next publish_fulfils fun _ s₃ hsame' => Fulfils.pure ?_
    obtain ⟨hcommits, hrest⟩ := hbatch₁.commit (A := A)
      (by rw [hnew]; exact ⟨rfl, rfl, rfl⟩) (by rw [hnew]; rfl) rfl rfl hs₂
    exact ⟨(hcommits.congr_left hsame).congr hsame', hrest.congr hsame'⟩

theorem handleFailures_fulfils {runId : String} (hbatch : FailedBatch d.tasks failures s) :
    (A.handleFailures runId failures d).Fulfils (handle codec sha256Digest).exec
      (returning fun d' s' => Commits A failures d s d' s') s := by
  induction failures generalizing d s with
  | nil => exact Fulfils.pure (commits_nil hbatch)
  | cons f rest ih =>
    unfold Agent.handleFailures
    refine Fulfils.next (handleFailure_fulfils hbatch) ?_
    rintro d₁ s₁ ⟨hcommits, hrest⟩
    refine (ih hrest).weaken fun d' s' h => hcommits.trans h (fun g hg hid => ?_) fun g hg hid => ?_
    · exact (List.nodup_cons.mp hbatch.distinct).1 (List.mem_map.mpr ⟨g, hg, hid⟩)
    · exact (List.nodup_cons.mp hbatch.attempts).1 (List.mem_map.mpr ⟨g, hg, hid⟩)

/-! ## The skips -/

theorem Skips.trans {named named' : String → Prop} {a b c : TaskRecord} (hab : Skips named a b)
    (hbc : Skips named' b c) : Skips (fun id => named id ∨ named' id) a c := by
  have hspec := hab.rewrites.spec
  by_cases hfirst : named a.spec.taskId ∧ Unstarted a.state
  · -- what has been skipped is started no more
    obtain ⟨hedge, now, hb⟩ := hab.skipped hfirst.1 hfirst.2
    have hc : c = b := hbc.kept fun h => by
      rw [hb] at h
      simp [Unstarted, taskWithVersion] at h
    rw [hc]
    exact ⟨fun _ _ => ⟨hedge, now, hb⟩, fun h => absurd ⟨.inl hfirst.1, hfirst.2⟩ h⟩
  · obtain rfl := hab.kept hfirst
    refine ⟨fun hnamed hstate => ?_, fun h => hbc.kept fun h' => h ⟨.inr h'.1, h'.2⟩⟩
    rcases hnamed with hnamed | hnamed
    · exact absurd ⟨hnamed, hstate⟩ hfirst
    · exact hbc.skipped hnamed hstate

theorem specs_of_rewrites {tasks updated : List TaskRecord}
    (h : List.Forall₂ Rewrites tasks updated) :
    updated.map TaskRecord.spec = tasks.map TaskRecord.spec := by
  induction h with
  | nil => rfl
  | cons hrewrites _ ih => rw [List.map_cons, List.map_cons, ih, hrewrites.spec]

/-- What depends on one of some tasks, directly or not. -/
def DependsOnAny (specs : List TaskSpec) (failedIds : List String) (id : String) : Prop :=
  ∃ failedId ∈ failedIds, Relation.TransGen (DependsOn specs) id failedId

/-- What the skipping after several failures leaves. -/
structure SkipsAfter (failedIds : List String) (tasks : List TaskRecord) (s : StoreState Text)
    (updated : List TaskRecord) (s' : StoreState Text) : Prop where
  skips : List.Forall₂ (Skips (DependsOnAny (tasks.map TaskRecord.spec) failedIds)) tasks updated
  held : ∀ task ∈ updated, task ∈ s'.tasks.rows
  attempts : s'.attempts = s.attempts
  runs : s'.runs = s.runs

theorem skipAll_fulfils {failedIds : List String} {tasks : List TaskRecord}
    (hids : (tasks.map fun task => task.spec.taskId).Nodup)
    (hacyclic : Acyclic (DependsOn (tasks.map TaskRecord.spec)))
    (hheld : ∀ task ∈ tasks, task ∈ s.tasks.rows) :
    (skipAll failedIds tasks).Fulfils (handle codec sha256Digest).exec
      (returning (SkipsAfter failedIds tasks s)) s := by
  induction failedIds generalizing tasks s with
  | nil =>
    refine Fulfils.pure ⟨List.forall₂_same.mpr fun task _ => ⟨?_, fun _ => rfl⟩, hheld, rfl, rfl⟩
    rintro ⟨_, hnone, -⟩
    simp at hnone
  | cons failedId rest ih =>
    unfold skipAll
    refine Fulfils.next (skipTransitiveDependents_skips hids hacyclic hheld) ?_
    intro middle s₁ h
    have hrewrites := h.skips.imp fun _ _ h => h.rewrites
    have hspecs := specs_of_rewrites hrewrites
    have hids' : (middle.map fun task => task.spec.taskId).Nodup := by
      rw [taskIds_of_rewrites hrewrites]
      exact hids
    have hacyclic' : Acyclic (DependsOn (middle.map TaskRecord.spec)) := by
      rw [hspecs]
      exact hacyclic
    refine (ih hids' hacyclic' h.held).weaken fun updated s' h' => ?_
    obtain ⟨ids, -, -, hs₁⟩ := h.announced
    refine ⟨forall₂_trans h.skips h'.skips fun a b c hab hbc => ?_, h'.held,
      h'.attempts.trans (by rw [hs₁]), h'.runs.trans (by rw [hs₁])⟩
    rw [hspecs] at hbc
    have hnamed : (fun id => Relation.TransGen (DependsOn (tasks.map TaskRecord.spec)) id failedId ∨
        DependsOnAny (tasks.map TaskRecord.spec) rest id) =
        DependsOnAny (tasks.map TaskRecord.spec) (failedId :: rest) := by
      funext id
      simp [DependsOnAny]
    rw [← hnamed]
    exact hab.trans hbc

/-! ## The run -/

theorem getRun_held {run row : RunRecord} (hrow : row ∈ s.runs.rows)
    (hid : row.runId = run.runId) : s.getRun run.runId = .ok row := by
  unfold StoreState.getRun
  rw [Table.find_eq_some.mpr ⟨hrow, hid⟩]

theorem updateRun_held {row new : RunRecord} (hrow : row ∈ s.runs.rows)
    (hid : row.runId = new.runId) :
    s.updateRun new row.version = .ok (withVersion new row.version,
      { s with runs := s.runs.replace (withVersion new row.version) }) := by
  have hswap : s.runs.swap RunRecord.version new.runId row.version
      (fun _ => withVersion new row.version) =
      some (s.runs.replace (withVersion new row.version)) :=
    Table.swap_eq_some.mpr ⟨row, hrow, hid, rfl, rfl⟩
  unfold StoreState.updateRun
  rw [hswap]

theorem stops_recoverLatest {sha256Digest : String → String} {runId : String} :
    (Checkpoints.recoverLatest codec sha256Digest runId).Stops := by
  unfold Checkpoints.recoverLatest
  refine Stops.bind stops_perform fun raw => ?_
  split
  · trivial
  · dsimp only
    split
    · split
      · trivial
      · exact Stops.bind stops_perform fun _ => trivial
    · exact Stops.bind stops_perform fun _ => trivial

theorem stops_gatherReferences {run : RunRecord} {known : Checkpoints.Known} :
    (Checkpoints.gatherReferences run known :
      Prog (Checkpoints.CheckpointOp Text) Exn Checkpoints.Known).Stops := by
  unfold Checkpoints.gatherReferences
  refine Stops.bind ?_ fun _ => Stops.bind stops_perform fun _ => Stops.bind stops_perform fun _ =>
    Stops.bind stops_perform fun _ => Stops.bind stops_perform fun _ =>
      Stops.bind ?_ fun _ => trivial
  · unfold Checkpoints.resolveManifestHash
    split
    · exact Stops.bind stops_perform fun _ => trivial
    · trivial
  · unfold Checkpoints.resolveError
    split
    · exact stops_perform
    · trivial

theorem stops_write {sha256Digest : String → String} {manager : Checkpoints.CheckpointManager}
    {run : RunRecord} {plan : PlanSpec} {tasks : List TaskRecord} {known : Checkpoints.Known} :
    (manager.write codec sha256Digest run plan tasks known).Stops := by
  unfold Checkpoints.CheckpointManager.write
  refine Stops.bind stops_gatherReferences fun references => Stops.bind ?_ fun tip => ?_
  · unfold Checkpoints.recoverTip
    refine Stops.bind stops_perform fun raw => ?_
    split
    · trivial
    · exact Stops.bind stops_recoverLatest fun _ => Stops.bind stops_perform fun _ => trivial
  · dsimp only
    exact Stops.bind stops_perform fun _ => Stops.bind stops_perform fun _ =>
      Stops.bind stops_perform fun _ => Stops.bind stops_perform fun _ =>
        Stops.bind stops_perform fun _ => trivial

/-- What a step leaves that writes checkpoints only. -/
theorem writeCheckpoint_fulfils {run : RunRecord} {plan : PlanSpec} {tasks : List TaskRecord}
    {known : Checkpoints.Known} : (A.writeCheckpoint run plan tasks known).Fulfils
      (handle codec sha256Digest).exec (fun _ s' => SameTables s s') s := by
  unfold Agent.writeCheckpoint ofCheckpoint
  apply Fulfils.mapOp
  apply Stops.fulfils (J := fun s' => SameTables s s')
  · exact stops_write
  · exact ⟨rfl, rfl, rfl⟩
  · intro β op s
    obtain ⟨t⟩ := (inferInstance : Nonempty Supply)
    exact ⟨_, _, t, rfl⟩
  · rintro β op s₁ x s₂ hsame ⟨t, hop⟩
    obtain rfl := (Prod.mk.inj hop).2
    exact ⟨hsame.tasks, hsame.attempts, hsame.runs⟩

/-- The run under the state it is to have, or the exception that its transition raises. -/
def Turns (x : Except Exn RunState) (run : RunRecord) (r : Except Exn RunRecord) : Prop :=
  (∀ state, x = .ok state → ∃ new, r = .ok new ∧ new.runId = run.runId ∧ new.state = state) ∧
    ∀ e, x = .error e → r = .error e

theorem Turns.of_ok {x : Except Exn RunState} {run new : RunRecord} (h : Turns x run (.ok new)) :
    ∃ state, x = .ok state ∧ new.runId = run.runId ∧ new.state = state := by
  cases x with
  | error e =>
    have herror := h.2 e rfl
    cases herror
  | ok state =>
    obtain ⟨new', hnew, hid, hstate⟩ := h.1 state rfl
    rw [Except.ok.inj hnew]
    exact ⟨state, rfl, hid, hstate⟩

theorem updateRun_fulfils {row new : RunRecord} (hrow : row ∈ s.runs.rows)
    (hid : row.runId = new.runId) :
    (sql (.updateRun new row.version) : StoreProg Text _).Fulfils (handle codec sha256Digest).exec
      (returning fun updated s' => updated = withVersion new row.version ∧
        s' = { s with runs := s.runs.replace updated }) s := by
  refine fulfils_handler fun t => ?_
  change returning _ (settle s (StoreState.updateRun _ _ _)).1
    (settle s (StoreState.updateRun _ _ _)).2
  rw [updateRun_held hrow hid]
  exact ⟨_, rfl, rfl, rfl⟩

theorem ofExcept_fulfils {α : Type} (x : Except Exn α) :
    (Prog.ofExcept x : StoreProg Text α).Fulfils (handle codec sha256Digest).exec
      (fun r s' => r = x ∧ s = s') s :=
  ⟨rfl, rfl⟩

theorem disposedRun_fulfils {run : RunRecord} (hfail : d.failRun = failures.any A.fatal)
    (hreview : d.manualReview = failures.any Failure.requiresReview) :
    (disposedRun d run).Fulfils (handle codec sha256Digest).exec
      (fun r s' => Turns (A.disposedState failures run.state) run r ∧ s = s') s := by
  unfold disposedRun Agent.disposedState
  rw [hfail, hreview]
  split
  · refine Fulfils.bind (ofExcept_fulfils _) ?_ ?_
    · rintro state _ ⟨hstate, rfl⟩
      rw [← hstate]
      refine Fulfils.next (R := fun _ s' => s = s') (fulfils_handler fun t => ⟨t.now, rfl, rfl⟩) ?_
      rintro now _ rfl
      exact ⟨⟨fun state' h => ⟨_, rfl, rfl, Except.ok.inj h⟩, nofun⟩, rfl⟩
    · rintro e _ ⟨he, rfl⟩
      rw [← he]
      exact ⟨⟨nofun, fun e' h => congrArg _ (Except.error.inj h)⟩, rfl⟩
  · split
    · refine Fulfils.bind (ofExcept_fulfils _) ?_ ?_
      · rintro state _ ⟨hstate, rfl⟩
        rw [← hstate]
        exact ⟨⟨fun state' h => ⟨_, rfl, rfl, Except.ok.inj h⟩, nofun⟩, rfl⟩
      · rintro e _ ⟨he, rfl⟩
        rw [← he]
        exact ⟨⟨nofun, fun e' h => congrArg _ (Except.error.inj h)⟩, rfl⟩
    · exact ⟨⟨fun state h => ⟨run, rfl, rfl, Except.ok.inj h⟩, nofun⟩, rfl⟩

/-! ## The batch -/

/-- A task is left as its own failure calls for, and skipped where it depends on a failure that
lets independent work go on. -/
def Concludes (A : Agent Text) (specs : List TaskSpec) (failures : List Failure)
    (old new : TaskRecord) : Prop :=
  ∃ middle, Lands A failures old middle ∧ Skips (DependsOnAny specs
    ((failures.filter A.continuesIndependent).map Failure.taskId)) middle new

/-- The run is in the state that the failures call for, or its transition has been refused. -/
def Ruled (A : Agent Text) (failures : List Failure) (run : RunRecord) (r : Except Exn Handled)
    (s' : StoreState Text) : Prop :=
  ∃ row ∈ s'.runs.rows, row.runId = run.runId ∧
    (∀ state, A.disposedState failures run.state = .ok state → row.state = state) ∧
    (∀ e, A.disposedState failures run.state = .error e → r = .error e ∧ row = run) ∧
    ∀ handled, r = .ok handled → handled.run = row

/-- What the disposition of some failures leaves. -/
structure Disposal (A : Agent Text) (specs : List TaskSpec) (tasks : List TaskRecord)
    (failures : List Failure) (run : RunRecord) (s : StoreState Text) (r : Except Exn Handled)
    (s' : StoreState Text) : Prop where
  tasks : ∃ updated, List.Forall₂ (Concludes A specs failures) tasks updated ∧
    (∀ task ∈ updated, task ∈ s'.tasks.rows) ∧ ∀ handled, r = .ok handled → handled.tasks = updated
  attempts : List.Forall₂ (Finishes A failures) s.attempts.rows s'.attempts.rows
  committed : ∀ f ∈ failures, ∃ row ∈ s'.attempts.rows, row.attemptId = f.started.attemptId ∧
    row.state = A.failureTarget f ∧ row.finishedAt ≠ none
  run : Ruled A failures run r s'
  retried : ∀ handled, r = .ok handled →
    (handled.retryTasks.map fun task => task.spec.taskId).Perm
      ((failures.filter A.retries).map Failure.taskId)

/-- The commits and the skips, whatever becomes of the run. -/
theorem disposal_of {tasks updated : List TaskRecord} {run : RunRecord} {s₂ : StoreState Text}
    {r : Except Exn Handled} (hbatch : FailedBatch tasks failures s)
    (hcommits : Commits A failures { tasks := tasks } s d s₁)
    (hskips : SkipsAfter d.skipDependents d.tasks s₁ updated s₂) (htasks : s'.tasks = s₂.tasks)
    (hattempts : s'.attempts = s₂.attempts) (hrun : Ruled A failures run r s')
    (hresult : ∀ handled, r = .ok handled →
      handled.tasks = updated ∧ handled.retryTasks = d.retryTasks) :
    Disposal A (tasks.map TaskRecord.spec) tasks failures run s r s' := by
  have hspecs := specs_of_rewrites (hcommits.lands.imp fun _ _ h => h.rewrites)
  have hfinishes : List.Forall₂ (Finishes A failures) s.attempts.rows s'.attempts.rows := by
    rw [hattempts, hskips.attempts]
    exact hcommits.finishes
  have hskipped := hskips.skips
  rw [hspecs, hcommits.skipDependents, List.nil_append] at hskipped
  refine ⟨⟨updated, ?_, ?_, fun handled hok => (hresult handled hok).1⟩, hfinishes, ?_, hrun, ?_⟩
  · exact forall₂_trans hcommits.lands hskipped fun _ middle _ h h' => ⟨middle, h, h'⟩
  · rw [htasks]
    exact hskips.held
  · intro f hf
    obtain ⟨row, hrow, hid, hopen⟩ := hbatch.opened f hf
    obtain ⟨row', hpair, hfinish⟩ := exists_mem_zip hfinishes hrow
    obtain ⟨hstate, hfinished⟩ := hfinish.closed f hf hid.symm hopen
    exact ⟨row', (List.of_mem_zip hpair).2, hfinish.attemptId.trans hid, hstate, hfinished⟩
  · intro handled hok
    rw [(hresult handled hok).2, hcommits.retried]
    exact .refl _

theorem handleBatchFailures_fulfils {tasks : List TaskRecord} {plan : PlanSpec}
    {given run : RunRecord} (hacyclic : Acyclic (DependsOn (tasks.map TaskRecord.spec)))
    (hbatch : FailedBatch tasks failures s) (hrun : run ∈ s.runs.rows)
    (hid : run.runId = given.runId) :
    (A.handleBatchFailures given plan tasks failures).Fulfils (handle codec sha256Digest).exec
      (Disposal A (tasks.map TaskRecord.spec) tasks failures run s) s := by
  unfold Agent.handleBatchFailures
  refine Fulfils.next (handleFailures_fulfils (d := { tasks := tasks }) hbatch) ?_
  intro d s₁ hcommits
  have hrewrites := hcommits.lands.imp fun _ _ h => h.rewrites
  have hspecs := specs_of_rewrites hrewrites
  have hids : (d.tasks.map fun task => task.spec.taskId).Nodup := by
    rw [taskIds_of_rewrites hrewrites]
    exact hbatch.unique
  have hacyclic' : Acyclic (DependsOn (d.tasks.map TaskRecord.spec)) := by
    rw [hspecs]
    exact hacyclic
  refine Fulfils.next (skipAll_fulfils hids hacyclic' hcommits.held) ?_
  intro updated s₂ hskips
  have hrun₂ : run ∈ s₂.runs.rows := by
    rw [hskips.runs, hcommits.runs]
    exact hrun
  refine Fulfils.next (R := fun row s' => run = row ∧ s₂ = s')
    (fulfils_handler fun t => ⟨run, getRun_held hrun₂ hid, rfl, rfl⟩) ?_
  rintro _ _ ⟨rfl, rfl⟩
  refine Fulfils.next (R := fun _ s' => s₂ = s') (fulfils_handler fun t => ⟨t.now, rfl, rfl⟩) ?_
  rintro now _ rfl
  have hfail : d.failRun = failures.any A.fatal := hcommits.failRun.trans (Bool.false_or _)
  have hreview : d.manualReview = failures.any Failure.requiresReview :=
    hcommits.manualReview.trans (Bool.false_or _)
  refine Fulfils.bind (disposedRun_fulfils (A := A) hfail hreview) ?_ ?_
  · rintro disposed _ ⟨hturns, rfl⟩
    obtain ⟨state, hstate, hname, hto⟩ := hturns.of_ok
    refine Fulfils.next (updateRun_fulfils hrun₂ hname.symm) ?_
    rintro updatedRun s₃ ⟨hupdated, hs₃⟩
    have hruled {r : Except Exn Handled} {s' : StoreState Text} (hsame : SameTables s₃ s')
        (hresult : ∀ handled, r = .ok handled → handled.run = updatedRun) :
        Ruled A failures run r s' := by
      refine ⟨updatedRun, ?_, ?_, fun state' h => ?_, fun e h => ?_, hresult⟩
      · rw [hsame.runs, hs₃]
        exact (Table.mem_replace hrun₂ (by rw [hupdated]; exact hname) _).mpr (.inl rfl)
      · rw [hupdated]
        exact hname
      · rw [hstate] at h
        rw [hupdated, ← Except.ok.inj h]
        exact hto
      · rw [hstate] at h
        cases h
    refine Fulfils.bind writeCheckpoint_fulfils (fun checkpoint s' hsame => ?_) fun e s' hsame => ?_
    · refine disposal_of hbatch hcommits hskips (hsame.tasks.trans (by rw [hs₃]))
        (hsame.attempts.trans (by rw [hs₃])) (hruled hsame ?_) ?_
      · intro handled hok
        rw [← Except.ok.inj hok]
      · intro handled hok
        rw [← Except.ok.inj hok]
        exact ⟨rfl, rfl⟩
    · exact disposal_of hbatch hcommits hskips (hsame.tasks.trans (by rw [hs₃]))
        (hsame.attempts.trans (by rw [hs₃])) (hruled hsame (by simp)) (by simp)
  · rintro e _ ⟨hturns, rfl⟩
    refine disposal_of hbatch hcommits hskips rfl rfl ⟨_, hrun₂, rfl, ?_, ?_, ?_⟩ ?_
    rotate_left 2
    · intro handled h
      cases h
    · intro handled h
      cases h
    · intro state hstate
      obtain ⟨new, hnew, -⟩ := hturns.1 state hstate
      cases hnew
    · intro e' he'
      exact ⟨congrArg _ (Except.error.inj (hturns.2 e' he')), rfl⟩

/-! ## The order of the failures -/

section Order

variable {failures' : List Failure} {specs : List TaskSpec} {tasks : List TaskRecord}
  {run : RunRecord}

theorem FailedBatch.perm (h : FailedBatch tasks failures s) (hperm : failures'.Perm failures) :
    FailedBatch tasks failures' s :=
  { h with
    distinct := (hperm.map _).nodup_iff.mpr h.distinct
    placed := fun f hf => h.placed f (hperm.mem_iff.mp hf)
    running := fun f hf => h.running f (hperm.mem_iff.mp hf)
    attempts := (hperm.map _).nodup_iff.mpr h.attempts
    opened := fun f hf => h.opened f (hperm.mem_iff.mp hf) }

theorem Lands.perm {old new : TaskRecord} (h : Lands A failures' old new)
    (hperm : failures'.Perm failures) : Lands A failures old new :=
  { h with
    settled := fun f hf => h.settled f (hperm.mem_iff.mpr hf)
    kept := fun hother => h.kept fun f hf => hother f (hperm.mem_iff.mp hf) }

theorem Finishes.perm {old new : TaskAttempt} (h : Finishes A failures' old new)
    (hperm : failures'.Perm failures) : Finishes A failures old new :=
  { h with
    closed := fun f hf => h.closed f (hperm.mem_iff.mpr hf)
    kept := fun hother =>
      h.kept (hother.imp_left fun hother f hf => hother f (hperm.mem_iff.mp hf)) }

theorem Concludes.perm {old new : TaskRecord} (h : Concludes A specs failures' old new)
    (hperm : failures'.Perm failures) : Concludes A specs failures old new := by
  obtain ⟨middle, hlands, hskips⟩ := h
  have hnamed : DependsOnAny specs ((failures'.filter A.continuesIndependent).map Failure.taskId) =
      DependsOnAny specs ((failures.filter A.continuesIndependent).map Failure.taskId) := by
    funext id
    unfold DependsOnAny
    simp only [((hperm.filter A.continuesIndependent).map Failure.taskId).mem_iff]
  rw [hnamed] at hskips
  exact ⟨middle, hlands.perm hperm, hskips⟩

theorem disposedState_perm (hperm : failures'.Perm failures) (state : RunState) :
    A.disposedState failures' state = A.disposedState failures state := by
  unfold Agent.disposedState
  rw [hperm.any_eq, hperm.any_eq]

/-- What failures leave in one order they leave in every order. -/
theorem Disposal.perm {r : Except Exn Handled} (h : Disposal A specs tasks failures' run s r s')
    (hperm : failures'.Perm failures) : Disposal A specs tasks failures run s r s' where
  tasks := by
    obtain ⟨updated, hconcludes, hheld, hresult⟩ := h.tasks
    exact ⟨updated, hconcludes.imp fun _ _ h => h.perm hperm, hheld, hresult⟩
  attempts := h.attempts.imp fun _ _ h => h.perm hperm
  committed f hf := h.committed f (hperm.mem_iff.mpr hf)
  run := by
    have hruled := h.run
    unfold Ruled at hruled ⊢
    rwa [disposedState_perm hperm] at hruled
  retried handled hok := (h.retried handled hok).trans ((hperm.filter _).map _)

/-! ## One outcome -/

/-- Two ends that leave the tasks, the attempts and the run in the same states, and ask for the
same retries. -/
structure SameOutcome (tasks : List TaskRecord) (runId : String) (r₁ : Except Exn Handled)
    (s₁ : StoreState Text) (r₂ : Except Exn Handled) (s₂ : StoreState Text) : Prop where
  tasks : ∀ task ∈ tasks, ∃ row₁ ∈ s₁.tasks.rows, ∃ row₂ ∈ s₂.tasks.rows,
    row₁.taskPk = task.taskPk ∧ row₂.taskPk = task.taskPk ∧ row₁.state = row₂.state
  attempts : s₁.attempts.rows.map (fun row => (row.attemptId, row.state)) =
    s₂.attempts.rows.map fun row => (row.attemptId, row.state)
  run : ∃ row₁ ∈ s₁.runs.rows, ∃ row₂ ∈ s₂.runs.rows,
    row₁.runId = runId ∧ row₂.runId = runId ∧ row₁.state = row₂.state
  retried : ∀ handled₁ handled₂, r₁ = .ok handled₁ → r₂ = .ok handled₂ →
    (handled₁.retryTasks.map fun task => task.spec.taskId).Perm
      (handled₂.retryTasks.map fun task => task.spec.taskId)

theorem Lands.state_eq {old new₁ new₂ : TaskRecord} (h₁ : Lands A failures old new₁)
    (h₂ : Lands A failures old new₂) : new₁.state = new₂.state := by
  by_cases hsome : ∃ f ∈ failures, f.taskId = old.spec.taskId
  · obtain ⟨f, hf, hid⟩ := hsome
    rw [h₁.settled f hf hid, h₂.settled f hf hid]
  · push Not at hsome
    rw [h₁.kept hsome, h₂.kept hsome]

theorem Skips.state_eq {named : String → Prop} {old₁ old₂ new₁ new₂ : TaskRecord}
    (h₁ : Skips named old₁ new₁) (h₂ : Skips named old₂ new₂) (hspec : old₁.spec = old₂.spec)
    (hstate : old₁.state = old₂.state) : new₁.state = new₂.state := by
  by_cases hskipped : named old₁.spec.taskId ∧ Unstarted old₁.state
  · obtain ⟨-, now₁, rfl⟩ := h₁.skipped hskipped.1 hskipped.2
    rw [hspec, hstate] at hskipped
    obtain ⟨-, now₂, rfl⟩ := h₂.skipped hskipped.1 hskipped.2
    rfl
  · rw [h₁.kept hskipped]
    rw [hspec, hstate] at hskipped
    rw [h₂.kept hskipped, hstate]

theorem Concludes.state_eq {old new₁ new₂ : TaskRecord} (h₁ : Concludes A specs failures old new₁)
    (h₂ : Concludes A specs failures old new₂) : new₁.state = new₂.state := by
  obtain ⟨middle₁, hlands₁, hskips₁⟩ := h₁
  obtain ⟨middle₂, hlands₂, hskips₂⟩ := h₂
  have hspec : middle₁.spec = middle₂.spec :=
    hlands₁.rewrites.spec.trans hlands₂.rewrites.spec.symm
  exact hskips₁.state_eq hskips₂ hspec (hlands₁.state_eq hlands₂)

theorem Concludes.taskPk {old new : TaskRecord} (h : Concludes A specs failures old new) :
    new.taskPk = old.taskPk := by
  obtain ⟨middle, hlands, hskips⟩ := h
  exact hskips.rewrites.taskPk.trans hlands.rewrites.taskPk

theorem Finishes.same {old new₁ new₂ : TaskAttempt} (h₁ : Finishes A failures old new₁)
    (h₂ : Finishes A failures old new₂) :
    (new₁.attemptId, new₁.state) = (new₂.attemptId, new₂.state) := by
  by_cases hsome : ∃ f ∈ failures, f.started.attemptId = old.attemptId ∧ old.finishedAt = none
  · obtain ⟨f, hf, hid, hopen⟩ := hsome
    rw [h₁.attemptId, h₂.attemptId, (h₁.closed f hf hid hopen).1, (h₂.closed f hf hid hopen).1]
  · have hother : (∀ f ∈ failures, f.started.attemptId ≠ old.attemptId) ∨
        old.finishedAt ≠ none := by
      by_cases hopen : old.finishedAt = none
      · exact .inl fun f hf hid => hsome ⟨f, hf, hid, hopen⟩
      · exact .inr hopen
    rw [h₁.kept hother, h₂.kept hother]

theorem map_eq_of_forall₂ {α β γ : Type} {R : α → β → Prop} {g : β → γ} {as : List α}
    {bs cs : List β} (h : List.Forall₂ R as bs) (h' : List.Forall₂ R as cs)
    (hg : ∀ a b c, R a b → R a c → g b = g c) : bs.map g = cs.map g := by
  induction h generalizing cs with
  | nil =>
    cases h'
    rfl
  | cons hab _ ih =>
    cases h' with
    | cons hac hrest => rw [List.map_cons, List.map_cons, hg _ _ _ hab hac, ih hrest]

theorem Disposal.sameOutcome {r₁ r₂ : Except Exn Handled} {s₂ : StoreState Text}
    (h₁ : Disposal A specs tasks failures run s r₁ s₁)
    (h₂ : Disposal A specs tasks failures run s r₂ s₂) :
    SameOutcome tasks run.runId r₁ s₁ r₂ s₂ where
  tasks task htask := by
    obtain ⟨updated₁, hconcludes₁, hheld₁, -⟩ := h₁.tasks
    obtain ⟨updated₂, hconcludes₂, hheld₂, -⟩ := h₂.tasks
    obtain ⟨row₁, hpair₁, hrow₁⟩ := exists_mem_zip hconcludes₁ htask
    obtain ⟨row₂, hpair₂, hrow₂⟩ := exists_mem_zip hconcludes₂ htask
    exact ⟨row₁, hheld₁ _ (List.of_mem_zip hpair₁).2, row₂, hheld₂ _ (List.of_mem_zip hpair₂).2,
      hrow₁.taskPk, hrow₂.taskPk, hrow₁.state_eq hrow₂⟩
  attempts := map_eq_of_forall₂ h₁.attempts h₂.attempts fun _ _ _ h h' => h.same h'
  run := by
    obtain ⟨row₁, hrow₁, hid₁, hok₁, herror₁, -⟩ := h₁.run
    obtain ⟨row₂, hrow₂, hid₂, hok₂, herror₂, -⟩ := h₂.run
    refine ⟨row₁, hrow₁, row₂, hrow₂, hid₁, hid₂, ?_⟩
    cases hstate : A.disposedState failures run.state with
    | ok state => rw [hok₁ state hstate, hok₂ state hstate]
    | error e => rw [(herror₁ e hstate).2, (herror₂ e hstate).2]
  retried handled₁ handled₂ hok₁ hok₂ :=
    (h₁.retried handled₁ hok₁).trans (h₂.retried handled₂ hok₂).symm

end Order

end DurableAgent.Orchestration
