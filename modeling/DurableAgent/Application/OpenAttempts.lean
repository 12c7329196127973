import DurableAgent.Application.AttemptBound

/-!
# Open attempts

A start marks its task running in one transaction and inserts the attempt in the next one. Every
start therefore passes through a state in which the task is running without an attempt, and only
runs that start nothing keep tasks and open attempts in correspondence.
-/

namespace DurableAgent.Orchestration

open Library Library.Prog Store

variable {Text ι : Type} [DecidableEq ι] {codec : Codec Text} {sha256Digest : String → String}
  {P P' : Pool (StoreOp Text) Exn (StoreState Text) ι} {processes : ι → Process Text}
  {journal : Tools.World} {g : Assumed} {s s' : Ledger}

/-- An unfinished attempt at a task. -/
def OpenFor (task : TaskRecord) (a : TaskAttempt) : Prop :=
  a.runId = task.runId ∧ a.taskId = task.spec.taskId ∧ a.finishedAt = none

instance (task : TaskRecord) (a : TaskAttempt) : Decidable (OpenFor task a) :=
  inferInstanceAs (Decidable (_ ∧ _ ∧ _))

/-- The running tasks have one open attempt each, numbered by their counts, and no other task has
an open attempt. -/
def Corresponds (s : Ledger) : Prop :=
  ∀ task ∈ s.tasks.rows,
    (task.state = .RUNNING → ∃ a ∈ s.attempts.rows, OpenFor task a ∧
      a.attemptNumber = task.attemptCount ∧ ∀ b ∈ s.attempts.rows, OpenFor task b → b = a) ∧
    (task.state ≠ .RUNNING → ∀ a ∈ s.attempts.rows, ¬ OpenFor task a)

/-- A task is running that was not. -/
def Starts (s s' : Ledger) : Prop :=
  ∃ task' ∈ s'.tasks.rows, task'.state = .RUNNING ∧
    ∃ task ∈ s.tasks.rows, task.taskPk = task'.taskPk ∧ task.state ≠ .RUNNING

/-! ## Nothing started -/

/-- No task was ever started. -/
def Idle (s : Ledger) : Prop :=
  (∀ task ∈ s.tasks.rows, task.attemptCount = 0) ∧ s.attempts.rows = []

theorem Idle.corresponds (h : Idle s) (hs : Sound g s) : Corresponds s := by
  intro task htask
  have hcount := h.1 task htask
  have hidle : task.state ≠ .RUNNING := by
    intro hrunning
    have hattempted := (hs.facts task htask).attempted (.inl hrunning)
    omega
  refine ⟨fun hrunning => absurd hrunning hidle, fun _ a ha => ?_⟩
  rw [h.2] at ha
  cases ha

theorem Closes.eq_nil {attempts attempts' : Table TaskAttempt.attemptId}
    (h : Closes attempts attempts') (hnil : attempts.rows = []) : attempts'.rows = [] := by
  rw [List.eq_nil_iff_forall_not_mem]
  intro a ha
  rcases h a ha with hmem | ⟨-, b, hmem, -⟩
  · simp [hnil] at hmem
  · simp [hnil] at hmem

/-- A move that starts nothing leaves an idle ledger idle. -/
theorem Move.idle (h : Move g s s') (hstarts : ¬ Starts s s') (hidle : Idle s) : Idle s' := by
  obtain ⟨hcount, hnil⟩ := hidle
  cases h with
  | quiet => exact ⟨hcount, hnil⟩
  | newRun hstate hrows => exact ⟨hcount, hnil⟩
  | run hold hstep => exact ⟨hcount, hnil⟩
  | newPlan hvalid hrows => exact ⟨hcount, hnil⟩
  | @newTasks new tasks hnew hrows =>
    refine ⟨fun task htask => ?_, hnil⟩
    rcases (hrows task).mp htask with hmem | hmem
    · rcases (hnew task hmem).origin with ⟨-, hzero⟩ | ⟨prior, ⟨row, hrow, -, hlater⟩, -, -, -, hsame⟩
      · exact hzero
      · have hle : prior.attemptCount ≤ row.attemptCount := by
          rcases hlater with rfl | ⟨-, -, -, hle⟩
          · exact Nat.le_refl _
          · exact hle
        have hzero := hcount row hrow
        omega
    · exact hcount task hmem
  | @task old new attempts hold hstep hattempts =>
    refine ⟨fun task htask => ?_, hattempts.eq_nil hnil⟩
    rcases (Table.mem_replace hold hstep.taskPk task).mp htask with rfl | ⟨hmem, -⟩
    · by_cases hrunning : task.state = .RUNNING
      · refine absurd ⟨task, htask, hrunning, old, hold, hstep.taskPk.symm, ?_⟩ hstarts
        rw [(hstep.started hrunning).2.1]
        simp
      · rw [hstep.counted hrunning]
        exact hcount old hold
    · exact hcount task hmem
  | @openAttempt a attempts hstarted hrows =>
    obtain ⟨row, hrow, -, -, hle, hpos⟩ := hstarted
    have hzero := hcount row hrow
    omega
  | closeAttempts hattempts => exact ⟨hcount, hattempts.eq_nil hnil⟩

/-! ## Something started -/

/-- A start opens no attempt, and there was none before it. -/
theorem Move.not_corresponds (h : Move g s s') (hcorresponds : Corresponds s)
    (hstarts : Starts s s') : ¬ Corresponds s' := by
  obtain ⟨task', htask', hrunning, task, htask, hkey, hidle⟩ := hstarts
  have hsame : task' ∈ s.tasks.rows → False := fun hmem =>
    hidle (s.tasks.row_unique htask hmem hkey ▸ hrunning)
  intro hafter
  obtain ⟨a, ha, hopen, -⟩ := (hafter task' htask').1 hrunning
  cases h with
  | quiet => exact hsame htask'
  | newRun hstate hrows => exact hsame htask'
  | run hold hstep => exact hsame htask'
  | newPlan hvalid hrows => exact hsame htask'
  | @newTasks new tasks hnew hrows =>
    have hboth := tasks.row_unique ((hrows task).mpr (.inr htask)) htask' hkey
    exact hidle (hboth ▸ hrunning)
  | @task old new attempts hold hstep hattempts =>
    have hopen' : OpenFor task a := by
      obtain ⟨hrun, hid⟩ := Prod.mk.inj hkey
      exact ⟨hopen.1.trans hrun.symm, hopen.2.1.trans (Prod.mk.inj hid).2.symm, hopen.2.2⟩
    rcases hattempts a ha with hmem | ⟨hclosed, -⟩
    · exact (hcorresponds task htask).2 hidle a hmem hopen'
    · exact hclosed hopen.2.2
  | openAttempt hstarted hrows => exact hsame htask'
  | closeAttempts hattempts => exact hsame htask'

/-! ## Every run -/

theorem assumed_of_faulty_step {i : ι} (h : PoolStep (faultyExec codec sha256Digest) P i P') :
    ThreadStep (fun _ => assumedExec unassumed unwatched codec sha256Digest) P i P' := by
  cases h with
  | call hi hop => exact .call hi (hop.imp_left fun hop => ⟨admits_unassumed _ _, hop⟩)

/-- One step, with the condition on the states before and after it. -/
abbrev StepWith (codec : Codec Text) (sha256Digest : String → String)
    (condition : Ledger → Ledger → Prop) (P P' : Pool (StoreOp Text) Exn (StoreState Text) ι) :
    Prop :=
  (∃ i, PoolStep (faultyExec codec sha256Digest) P i P') ∧
    condition (ledger P.shared) (ledger P'.shared)

/-- Such a step is a move, and the pool is served still. -/
theorem Served.stepWith {condition : Ledger → Ledger → Prop}
    (h : Served unassumed (fun _ => unwatched) codec sha256Digest P)
    (hstep : StepWith codec sha256Digest condition P P') :
    Move unassumed (ledger P.shared) (ledger P'.shared) ∧
      Served unassumed (fun _ => unwatched) codec sha256Digest P' := by
  obtain ⟨⟨i, hstep⟩, -⟩ := hstep
  have hassumed := assumed_of_faulty_step hstep
  exact ⟨h.move (apart_of_not id) hassumed, h.runs (apart_of_not id) (.single ⟨i, hassumed⟩)⟩

theorem idle_freshStore : Idle (ledger (freshStore journal : StoreState Text)) := by
  constructor
  · intro task htask
    cases htask
  · rfl

/-- A run from a fresh database keeps tasks and open attempts in correspondence in all of its
states exactly if none of its steps starts a task. -/
theorem service_openAttempts :
    Relation.ReflTransGen (StepWith codec sha256Digest fun _ s' => Corresponds s')
        (servicePool processes (freshStore journal)) P ↔
      Relation.ReflTransGen (StepWith codec sha256Digest fun s s' => ¬ Starts s s')
        (servicePool processes (freshStore journal)) P := by
  have hsound := @sound_freshStore Text unassumed journal
  have hserved : Served unassumed (fun _ => unwatched) codec sha256Digest (servicePool processes (freshStore journal)) :=
    served_servicePool hsound
  constructor
  · intro hrun
    suffices h : Served unassumed (fun _ => unwatched) codec sha256Digest P ∧ Corresponds (ledger P.shared) ∧
        Relation.ReflTransGen (StepWith codec sha256Digest fun s s' => ¬ Starts s s')
          (servicePool processes (freshStore journal)) P from h.2.2
    induction hrun with
    | refl => exact ⟨hserved, idle_freshStore.corresponds hsound, .refl⟩
    | @tail P P' _ hlast ih =>
      obtain ⟨hserved, hcorresponds, hrun⟩ := ih
      obtain ⟨hmove, hserved'⟩ := hserved.stepWith hlast
      refine ⟨hserved', hlast.2, hrun.tail ⟨hlast.1, fun hstarts => ?_⟩⟩
      exact hmove.not_corresponds hcorresponds hstarts hlast.2
  · intro hrun
    suffices h : Served unassumed (fun _ => unwatched) codec sha256Digest P ∧ Sound unassumed (ledger P.shared) ∧
        Idle (ledger P.shared) ∧
        Relation.ReflTransGen (StepWith codec sha256Digest fun _ s' => Corresponds s')
          (servicePool processes (freshStore journal)) P from h.2.2.2
    induction hrun with
    | refl => exact ⟨hserved, hsound, idle_freshStore, .refl⟩
    | @tail P P' _ hlast ih =>
      obtain ⟨hserved, hsound, hidle, hrun⟩ := ih
      obtain ⟨hmove, hserved'⟩ := hserved.stepWith hlast
      have hidle' := hmove.idle hlast.2 hidle
      have hsound' := hmove.sound hsound
      exact ⟨hserved', hsound', hidle', hrun.tail ⟨hlast.1, hidle'.corresponds hsound'⟩⟩

/-- A worker that stops between the two transactions of a start: its task is running without an
attempt. -/
theorem service_openAttempts_started : ∃ P,
    PoolRuns plainExec
      (plainPool fun i => if i = 0 then .createRun "objective" "owner" "key" none
        else .advance "run-r" "owner" none) P ∧
    (∃ task ∈ P.shared.tasks.rows, task.state = .RUNNING) ∧ P.shared.attempts.rows = [] ∧
    ¬ Corresponds (ledger P.shared) := by
  have hreach := plainPlay_runs
    (turns 0 (List.replicate 38 "r") ++ turns 1 (List.replicate 15 "r"))
    (plainPool fun i => if i = 0 then .createRun "objective" "owner" "key" none
      else .advance "run-r" "owner" none)
  generalize hplay : plainPlay (turns 0 (List.replicate 38 "r") ++
    turns 1 (List.replicate 15 "r")) _ = P at hreach
  have hrunning : ∃ task ∈ P.shared.tasks.rows, task.state = .RUNNING := by
    rw [← hplay]
    decide +kernel
  have hnone : P.shared.attempts.rows = [] := by
    rw [← hplay]
    decide +kernel
  refine ⟨P, hreach, hrunning, hnone, fun hcorresponds => ?_⟩
  obtain ⟨task, htask, hstate⟩ := hrunning
  obtain ⟨a, ha, -⟩ := (hcorresponds task htask).1 hstate
  change a ∈ P.shared.attempts.rows at ha
  rw [hnone] at ha
  cases ha

end DurableAgent.Orchestration
