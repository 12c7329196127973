import DurableAgent.Application.StuckRuns
import DurableAgent.Checkpoints.Recovery
import DurableAgent.Library.History

/-!
# Writes of deposed owners

A worker whose lease another one has taken over, under a higher fence, may still have a write
ahead of it. No write looks at the leases: it is refused exactly if what it writes over is no
longer what the worker has read.
-/

namespace DurableAgent.Orchestration

open Library Library.Prog Store

variable {Text : Type} {codec : Codec Text} {sha256Digest : String → String}
  {β : Type} {op : StoreOp Text β} {s : StoreState Text}

/-! ## Which writes are refused -/

/-- The writes that a worker makes under its lease. -/
def underLease : (β : Type) → StoreOp Text β → Bool
  | _, .sql (.updateRun _ _) | _, .sql (.updateTask _ _)
  | _, .sql (.updateTaskAndFinishAttempt _ _ _ _ _) | _, .checkpoint (.appendCheckpoint _ _) => true
  | _, _ => false

/-- The row of the task is not of the version. -/
def TaskMoved (task : TaskRecord) (expectedVersion : Nat) (s : StoreState Text) : Prop :=
  ∀ row ∈ s.tasks.rows, row.taskPk = task.taskPk → row.version ≠ expectedVersion

instance (task : TaskRecord) (expectedVersion : Nat) (s : StoreState Text) :
    Decidable (TaskMoved task expectedVersion s) :=
  inferInstanceAs (Decidable (∀ _ ∈ _, _ → _))

/-- What a write is made over is no longer what its worker has read. -/
def Overtaken (codec : Codec Text) (sha256Digest : String → String) :
    (β : Type) → StoreOp Text β → StoreState Text → Prop
  | _, .sql (.updateRun run expectedVersion), s =>
    ∀ row ∈ s.runs.rows, row.runId = run.runId → row.version ≠ expectedVersion
  | _, .sql (.updateTask task expectedVersion), s => TaskMoved task expectedVersion s
  | _, .sql (.updateTaskAndFinishAttempt task expectedVersion attemptId _ _), s =>
    TaskMoved task expectedVersion s ∨
      ∀ row ∈ s.attempts.rows, row.attemptId = attemptId → row.finishedAt ≠ none
  | _, .checkpoint (.appendCheckpoint e expectedSequence), s =>
    ¬ Checkpoints.Appendable codec sha256Digest e expectedSequence s.checkpoints.rows
  | _, _, _ => False

theorem accepted_settle {α σ : Type} {s : σ} {r : Except Exn (α × σ)} :
    (∃ a, (settle s r).1 = .ok a) ↔ ∃ a s', r = .ok (a, s') := by
  cases r with
  | error e => simp [settle]
  | ok r => exact ⟨fun _ => ⟨r.1, r.2, rfl⟩, fun _ => ⟨r.1, rfl⟩⟩

theorem updateRun_accepted {run : RunRecord} {v : Nat} :
    (∃ a s', s.updateRun run v = .ok (a, s')) ↔
      ¬ ∀ row ∈ s.runs.rows, row.runId = run.runId → row.version ≠ v := by
  unfold StoreState.updateRun
  push Not
  constructor
  · rintro ⟨a, s', h⟩
    split at h
    · next runs hswap =>
      obtain ⟨row, hrow, hkey, hv, -⟩ := Table.swap_eq_some.mp hswap
      exact ⟨row, hrow, hkey, hv⟩
    · cases h
  · rintro ⟨row, hrow, hkey, hv⟩
    rw [Table.swap_eq_some.mpr ⟨row, hrow, hkey, hv, rfl⟩]
    exact ⟨_, _, rfl⟩

theorem writeTask_isSome {task : TaskRecord} {v : Nat} :
    (∃ tasks, s.writeTask task v = some tasks) ↔ ¬ TaskMoved task v s := by
  unfold TaskMoved
  push Not
  constructor
  · rintro ⟨tasks, h⟩
    obtain ⟨row, hrow, hkey, hv, -⟩ := writeTask_eq_some h
    exact ⟨row, hrow, hkey, hv⟩
  · rintro ⟨row, hrow, hkey, hv⟩
    exact ⟨_, Table.swap_eq_some.mpr ⟨row, hrow, hkey, hv, rfl⟩⟩

theorem updateTask_accepted {task : TaskRecord} {v : Nat} :
    (∃ a s', s.updateTask task v = .ok (a, s')) ↔ ¬ TaskMoved task v s := by
  rw [← writeTask_isSome]
  unfold StoreState.updateTask
  cases hwrite : s.writeTask task v with
  | none => simp
  | some tasks => simp

theorem updateTaskAndFinishAttempt_accepted {task : TaskRecord} {v : Nat} {attemptId : String}
    {state : TaskState} {errorId : Option String} {now : Timestamp} :
    (∃ a s', s.updateTaskAndFinishAttempt task v attemptId state errorId now = .ok (a, s')) ↔
      ¬ (TaskMoved task v s ∨
        ∀ row ∈ s.attempts.rows, row.attemptId = attemptId → row.finishedAt ≠ none) := by
  have hopen : s.attempts.rows.any (openAttempt fun row => row.attemptId = attemptId) = true ↔
      ¬ ∀ row ∈ s.attempts.rows, row.attemptId = attemptId → row.finishedAt ≠ none := by
    push Not
    rw [List.any_eq_true]
    simp only [openAttempt, decide_eq_true_eq, Bool.decide_and, Bool.and_eq_true]
  rw [not_or, ← writeTask_isSome, ← hopen]
  unfold StoreState.updateTaskAndFinishAttempt
  dsimp only
  cases hwrite : s.writeTask task v with
  | none => simp
  | some tasks =>
    cases s.attempts.rows.any (openAttempt fun row => row.attemptId = attemptId) with
    | false => simp
    | true => simp

/-- A write is accepted exactly if nobody has overtaken it. -/
theorem accepted_iff (hwrite : underLease β op = true) (t : Supply) :
    (∃ a, (handle codec sha256Digest β op t s).1 = .ok a) ↔
      ¬ Overtaken codec sha256Digest β op s := by
  cases op with
  | sql op =>
    cases op with
    | updateRun run v => exact accepted_settle.trans updateRun_accepted
    | updateTask task v => exact accepted_settle.trans updateTask_accepted
    | updateTaskAndFinishAttempt task v attemptId state errorId =>
      exact accepted_settle.trans updateTaskAndFinishAttempt_accepted
    | _ => cases hwrite
  | checkpoint op =>
    cases op with
    | appendCheckpoint e n =>
      have haccepted :=
        @Checkpoints.appendCheckpoint_accepted Text codec sha256Digest e n s.checkpoints.rows
      unfold Overtaken
      rw [not_not, ← haccepted]
      simp only [handle, Checkpoints.handle]
      cases Checkpoints.appendCheckpoint codec sha256Digest e n s.checkpoints.rows with
      | error err => simp
      | ok rows => simp
    | _ => cases hwrite
  | _ => cases hwrite

/-- No write looks at the leases. -/
theorem accepted_leases (hwrite : underLease β op = true) (t : Supply)
    (leases : Leases.LeaseTable) :
    (∃ a, (handle codec sha256Digest β op t { s with leases := leases }).1 = .ok a) ↔
      ∃ a, (handle codec sha256Digest β op t s).1 = .ok a := by
  rw [accepted_iff hwrite, accepted_iff hwrite]
  cases op with
  | sql op => cases op <;> rfl
  | checkpoint op => cases op <;> rfl
  | _ => rfl

/-! ## Deposed processes -/

variable {ι : Type} [DecidableEq ι]

/-- What is known of the owners: the lease that each process has acquired last, the processes
whose lease another one has taken over under a higher fence, and the deposed processes of which a
write was accepted, one for each write. -/
structure Tenure (ι : Type) where
  held : ι → Option LeaseRecord := fun _ => none
  deposed : ι → Bool := fun _ => false
  accepted : List ι := []

/-- The lease that an answered call has acquired. -/
def acquired : (β : Type) → StoreOp Text β → Except Exn β → Option LeaseRecord
  | _, .lease (.insert lease), .ok true => some lease
  | _, .lease (.updateAcquired _ lease), .ok 1 => some lease
  | _, _, _ => none

def Tenure.acquire (r : Tenure ι) (i : ι) (lease : LeaseRecord) : Tenure ι :=
  { r with
    held := Function.update r.held i (some lease)
    deposed := fun j => j ≠ i ∧ (r.deposed j ∨ ∃ old ∈ r.held j,
      old.runId = lease.runId ∧ old.fencingToken < lease.fencingToken) }

/-- The tenure after an answered call of a process. -/
def noteTenure (i : ι) : Note (StoreOp Text) Exn (StoreState Text) (Tenure ι) := fun β op x _ r =>
  match acquired β op x, x with
  | some lease, _ => r.acquire i lease
  | none, .ok _ =>
    if underLease β op = true ∧ r.deposed i = true then { r with accepted := i :: r.accepted }
    else r
  | none, .error _ => r

/-- The runs of a pool are those that have a tenure. -/
theorem poolRuns_iff_tenure {P P' : Pool (StoreOp Text) Exn (StoreState Text) ι} :
    PoolRuns (faultyExec codec sha256Digest) P P' ↔ ∃ r,
      ThreadRuns (fun i => ((handle codec sha256Digest).recorded (noteTenure i)).exec.withFaults)
        (P.beside {}) (P'.beside r) :=
  ⟨fun h => h.record ({} : Tenure ι), fun ⟨_, h⟩ => h.forget⟩

/-- A deposed process only writes over what others have written since. -/
def YieldsWrites (codec : Codec Text) (sha256Digest : String → String) (i : ι) (β : Type)
    (op : StoreOp Text β) (s : StoreState Text × Tenure ι) : Prop :=
  underLease β op = true → s.2.deposed i = true → Overtaken codec sha256Digest β op s.1

abbrev yieldingExec (codec : Codec Text) (sha256Digest : String → String) (i : ι) :
    Exec (StoreOp Text) Exn (StoreState Text × Tenure ι) :=
  (((handle codec sha256Digest).recorded (noteTenure i)).exec.guard
    (YieldsWrites codec sha256Digest i)).withFaults

variable {P P' : Pool (StoreOp Text) Exn (StoreState Text × Tenure ι) ι}
  {processes : ι → Process Text} {journal : Tools.World}

/-- A step accepts no write of a deposed process. -/
theorem accepted_step {i : ι}
    (hstep : ThreadStep (yieldingExec codec sha256Digest) P i P')
    (haccepted : P.shared.2.accepted = []) : P'.shared.2.accepted = [] := by
  cases hstep with
  | @call β P i op k x s' hi hop =>
    rcases hop with ⟨hyields, t, hop⟩ | ⟨e, rfl, rfl⟩
    · obtain ⟨rfl, rfl⟩ := Prod.mk.inj hop
      change (noteTenure i β op _ P.shared.1 P.shared.2).accepted = []
      unfold noteTenure
      split
      · exact haccepted
      · next a hnone hok =>
        by_cases hdeposed : underLease β op = true ∧ P.shared.2.deposed i = true
        · obtain ⟨hwrite, hdeposed⟩ := hdeposed
          have hrefused := (accepted_iff hwrite t).mp ⟨a, hok⟩
          exact absurd (hyields hwrite hdeposed) hrefused
        · rw [if_neg hdeposed]
          exact haccepted
      · exact haccepted
    · exact haccepted

/-- A write of a deposed process is refused whenever it is issued. -/
def refusedIfDeposed (i : Nat) (β : Type) (op : StoreOp CheckpointEnvelope β)
    (s : StoreState CheckpointEnvelope × Tenure Nat) : Prop :=
  underLease β op = true → s.2.deposed i = true →
    (handle plainCodec plainAgent.sha256Digest β op (plainSupply "") s.1).1.isOk = false

instance (i : Nat) (β : Type) (op : StoreOp CheckpointEnvelope β)
    (s : StoreState CheckpointEnvelope × Tenure Nat) : Decidable (refusedIfDeposed i β op s) :=
  inferInstanceAs (Decidable (_ → _ → _))

theorem yieldsWrites_of_refused {i : Nat} {op : StoreOp CheckpointEnvelope β}
    {s : StoreState CheckpointEnvelope × Tenure Nat} (h : refusedIfDeposed i β op s) :
    YieldsWrites plainCodec plainAgent.sha256Digest i β op s := by
  intro hwrite hdeposed
  by_contra hnot
  obtain ⟨a, hok⟩ := (accepted_iff hwrite (plainSupply "")).mpr hnot
  have hrefused := h hwrite hdeposed
  rw [hok] at hrefused
  cases hrefused

/-- The handlers of a creation and two workers. -/
abbrev ownersHandle (i : Nat) :
    Handler (StoreOp CheckpointEnvelope) Exn Supply (StoreState CheckpointEnvelope × Tenure Nat) :=
  (handle plainCodec plainAgent.sha256Digest).recorded (noteTenure i)

/-- A worker is about to make its task ready; its lease expires, and another worker takes over and
issues a number of calls. Then the first one issues its write. -/
def takeover (calls : Nat) : List (Nat × Supply) :=
  turns 0 (List.replicate 38 "r") ++ turns 1 (List.replicate 12 "a") ++
    laterTurns 2 (List.replicate calls "b") ++ turns 1 ["a"]

end DurableAgent.Orchestration
