import DurableAgent.Library.Contract
import DurableAgent.Orchestration.Answers
import DurableAgent.Orchestration.Effects

/-!
# The lease under which a task is dispatched

One worker on a clock that moves only while the worker sleeps. The lease is renewed after a batch
and the delays before the next attempts are slept after that, so a task is dispatched under a
live lease exactly if the delays after the tasks that failed in the last batch are together
shorter than the term of the lease.
-/

namespace DurableAgent.Orchestration

open Library Library.Prog Store

variable {Text : Type}

/-! ## A clock that sleeping moves -/

/-- The identifier of a task that was left for another attempt, and the attempt that failed. -/
abbrev Retried := String × Nat

/-- The kinds of calls that touch no lease, dispatch no task, leave none for another attempt and do
not sleep. -/
def Effect.uneventful : Effect → Bool
  | .lease | .executeTask | .finishAttempt .FAILED_RETRYABLE | .sleep => false
  | _ => true

def Uneventful (β : Type) (op : StoreOp Text β) : Prop := (effectOf β op).uneventful = true

/-- The store beside the clock, with the tasks left for another attempt since the worker's lease was
last acquired or renewed. -/
structure TimedStore (Text : Type) where
  store : StoreState Text
  clock : Timestamp
  retried : List Retried := []

/-- How long a call lasts. -/
def duration : (β : Type) → StoreOp Text β → Timestamp
  | _, .sql (.sleep seconds) => slept seconds
  | _, _ => 0

/-- A call that has acquired or renewed a lease. -/
def extendsLease : (β : Type) → StoreOp Text β → Except Exn β → Bool
  | _, .lease (.insert _), .ok granted => granted
  | _, .lease (.updateAcquired _ _), .ok rows => rows = 1
  | _, .lease (.updateRenewed _ _ _), .ok rows => rows = 1
  | _, _, _ => false

/-- The task that a call has left for another attempt. -/
def leavesForRetry : (β : Type) → StoreOp Text β → Except Exn β → Option Retried
  | _, .sql (.updateTaskAndFinishAttempt task _ _ .FAILED_RETRYABLE _), .ok _ =>
    some (task.spec.taskId, task.attemptCount)
  | _, _, _ => none

/-- The effect of each call where only sleeping takes time: a batch is over before a renewal is
due. -/
def timedHandle (codec : Codec Text) (sha256Digest : String → String) :
    Handler (StoreOp Text) Exn Supply (TimedStore Text) := fun β op t s =>
  let r := handle codec sha256Digest β op { t with now := s.clock, heartbeatDue := false } s.store
  (r.1, ⟨r.2, s.clock + duration β op,
    if extendsLease β op r.1 then [] else s.retried ++ (leavesForRetry β op r.1).toList⟩)

abbrev timedExec (codec : Codec Text) (sha256Digest : String → String) :
    Exec (StoreOp Text) Exn (TimedStore Text) :=
  (timedHandle codec sha256Digest).exec.withFaults

/-- The worker's stored lease has not expired. -/
def Live (runId workerId : String) (s : TimedStore Text) : Prop :=
  ∃ lease ∈ s.store.leases runId, lease.ownerId = workerId ∧ s.clock < lease.expiresAt

instance (runId workerId : String) (s : TimedStore Text) : Decidable (Live runId workerId s) :=
  inferInstanceAs (Decidable (∃ _ ∈ _, _ ∧ _))

/-- The delay before the next attempt at a task. -/
def Agent.delayAfter (A : Agent Text) (runId : String) (r : Retried) : Timestamp :=
  match A.settings.retry.delayFor A.digestUnit r.2 s!"{runId}:{r.1}" with
  | .ok delay => slept delay
  | .error _ => 0

def Agent.delaysAfter (A : Agent Text) (runId : String) (retried : List Retried) : Timestamp :=
  (retried.map (A.delayAfter runId)).sum

/-- A task is dispatched under a live lease exactly if the delays before its batch were short. -/
def DispatchedInTime (A : Agent Text) (runId workerId : String) : (β : Type) →
    StoreOp Text β → TimedStore Text → Prop
  | _, .sql (.executeTask _ _), s =>
    Live runId workerId s ↔
      A.delaysAfter runId s.retried < Leases.seconds A.settings.leaseTtlSeconds
  | _, _, _ => True

/-- The worker's lease has grown old by some delays, after some tasks were left for another
attempt. -/
structure Aged (A : Agent Text) (runId workerId : String) (waited retried : List Retried)
    (s : TimedStore Text) : Prop where
  term : ∃ lease ∈ s.store.leases runId, lease.ownerId = workerId ∧
    lease.expiresAt + A.delaysAfter runId waited =
      s.clock + Leases.seconds A.settings.leaseTtlSeconds
  retried : s.retried = retried

variable {codec : Codec Text} {sha256Digest : String → String} {A : Agent Text}
  {runId workerId : String} {waited retried : List Retried} {s s' : TimedStore Text} {α β : Type}
  {x : Except Exn β}

/-- A call sees the clock and moves it on, and the tasks that wait for another attempt are kept;
or it fails without effect. -/
theorem timedExec_cases {op : StoreOp Text β} (h : timedExec codec sha256Digest β op s x s') :
    (∃ t, t.now = s.clock ∧ t.heartbeatDue = false ∧
      handle codec sha256Digest β op t s.store = (x, s'.store) ∧
      s'.clock = s.clock + duration β op ∧
      s'.retried =
        if extendsLease β op x then [] else s.retried ++ (leavesForRetry β op x).toList) ∨
    ∃ e, x = .error e ∧ s' = s := by
  rcases h with ⟨t, h⟩ | h
  · obtain ⟨rfl, rfl⟩ := Prod.mk.inj h
    exact .inl ⟨{ t with now := s.clock, heartbeatDue := false }, rfl, rfl, rfl, rfl, rfl⟩
  · exact .inr h

/-- A lease of a term that has grown old by a delay. -/
theorem live_of_term {expires delay clock term : Int} (h : expires + delay = clock + term) :
    clock < expires ↔ delay < term := by
  omega

theorem Aged.live_iff (h : Aged A runId workerId retried retried s) :
    Live runId workerId s ↔
      A.delaysAfter runId s.retried < Leases.seconds A.settings.leaseTtlSeconds := by
  obtain ⟨⟨lease, hlease, howner, hterm⟩, hretried⟩ := h
  rw [hretried]
  constructor
  · rintro ⟨other, hother, -, hlive⟩
    cases Option.mem_unique hlease hother
    exact (live_of_term hterm).mp hlive
  · intro hdelays
    exact ⟨lease, hlease, howner, (live_of_term hterm).mpr hdelays⟩

theorem Uneventful.inTime {op : StoreOp Text β} (h : Uneventful β op) (s : TimedStore Text) :
    DispatchedInTime A runId workerId β op s := by
  unfold DispatchedInTime
  split
  · cases h
  · trivial

theorem settle_leases {r : Except Exn (α × StoreState Text)} {s : StoreState Text}
    (h : ∀ a s', r = .ok (a, s') → s'.leases = s.leases) : (settle s r).2.leases = s.leases := by
  cases r with
  | error e => rfl
  | ok r => exact h r.1 r.2 rfl

theorem committed_leases {r : Option (StoreState Text)} {s : StoreState Text}
    (h : ∀ s', r = some s' → s'.leases = s.leases) : (committed s r).2.leases = s.leases := by
  cases r with
  | none => rfl
  | some s' => exact h s' rfl

/-- The tables of runs, plans and tasks lie beside the leases. -/
theorem handleSql_leases {op : SqlOp α} {t : Supply} {s : StoreState Text} :
    (handleSql α op t s).2.leases = s.leases := by
  cases op <;> try rfl
  case insertRun run key =>
    refine committed_leases fun s' h => ?_
    simp only [StoreState.insertRun, Option.bind_eq_bind, Option.bind_eq_some_iff] at h
    obtain ⟨runs, -, keys, -, h⟩ := h
    cases h
    rfl
  case insertIdempotencyKey key =>
    refine committed_leases fun s' h => ?_
    obtain ⟨keys, -, rfl⟩ := Option.map_eq_some_iff.mp h
    rfl
  all_goals
    refine settle_leases fun a s' h => ?_
    simp only [StoreState.updateRun, StoreState.savePlan, StoreState.saveTasks,
      StoreState.updateTask, StoreState.startTaskAttempt, StoreState.updateTaskAndFinishAttempt,
      StoreState.cancelTaskAndOpenAttempts, StoreState.insertLifecycleRequest,
      StoreState.applyLifecycleRequest] at h
    repeat' split at h
    all_goals cases h
    all_goals rfl

theorem handle_leases {op : StoreOp Text β} {t : Supply} {s : StoreState Text}
    (hop : ∀ leaseOp, op ≠ .lease leaseOp) :
    (handle codec sha256Digest β op t s).2.leases = s.leases := by
  cases op with
  | sql op => exact handleSql_leases
  | lease op => exact absurd rfl (hop op)
  | checkpoint op => rfl
  | tools op => rfl

/-- A call on other tables lets the lease grow old as long as it lasts. -/
theorem Aged.step {op : StoreOp Text β} (h : Aged A runId workerId waited retried s)
    (hop : timedExec codec sha256Digest β op s x s') (hlease : ∀ leaseOp, op ≠ .lease leaseOp) :
    (∃ e, x = .error e ∧ s' = s) ∨
    ∀ more, A.delaysAfter runId more = A.delaysAfter runId waited + duration β op →
      Aged A runId workerId more (retried ++ (leavesForRetry β op x).toList) s' := by
  rcases timedExec_cases hop with ⟨t, -, -, hhandle, hclock, hretried⟩ | hfault
  · refine .inr fun more hmore => ?_
    obtain ⟨⟨lease, hmem, howner, hterm⟩, hbefore⟩ := h
    have hleases := @handle_leases Text codec sha256Digest β op t s.store hlease
    rw [hhandle] at hleases
    dsimp only at hleases
    have hnot : extendsLease β op x = false := by
      cases op with
      | lease op => exact absurd rfl (hlease op)
      | _ => rfl
    refine ⟨⟨lease, by rwa [hleases], howner, ?_⟩, ?_⟩
    · rw [hmore, hclock, ← add_assoc, hterm]
      exact add_right_comm _ _ _
    · rw [hretried, hnot, if_neg Bool.false_ne_true, hbefore]
  · exact .inl hfault

/-- What is uneventful leaves the lease as old as it was. -/
theorem Aged.uneventful {op : StoreOp Text β} (h : Aged A runId workerId waited retried s)
    (hop : timedExec codec sha256Digest β op s x s') (hop' : Uneventful β op) :
    Aged A runId workerId waited retried s' := by
  have hlease : ∀ leaseOp, op ≠ .lease leaseOp := by
    rintro leaseOp rfl
    cases hop'
  have hlasts : duration β op = 0 := by
    unfold duration
    split
    · cases hop'
    · rfl
  have hleaves : leavesForRetry β op x = none := by
    unfold leavesForRetry
    split
    · cases hop'
    · rfl
  rcases h.step hop hlease with ⟨e, -, rfl⟩ | hstep
  · exact h
  · have haged := hstep waited (by rw [hlasts, add_zero])
    rwa [hleaves, Option.toList_none, List.append_nil] at haged

/-! ## The worker -/

open Contract

abbrev inTime (A : Agent Text) (runId workerId : String) :
    Contract (StoreOp Text) (TimedStore Text) :=
  alone (DispatchedInTime A runId workerId)

/-- What is uneventful is done while the lease is as old as it was. -/
theorem meets_uneventful {p : StoreProg Text α} (hp : p.Calls Uneventful)
    (h : Aged A runId workerId waited retried s) :
    (inTime A runId workerId).Meets (timedExec codec sha256Digest) p
      (onOk fun _ s' => Aged A runId workerId waited retried s') s := by
  refine (meets_alone_of_calls (K := Aged A runId workerId waited retried) hp h
    fun δ op s hop h => ?_).mono ?_
  · exact ⟨hop.inTime s, fun x s' hstep => h.uneventful hstep hop⟩
  · intro r s' _ h
    cases r with
    | ok a => exact h
    | error e => trivial

theorem meets_within {p : StoreProg Text α} {E : List Effect} (hp : p.Calls (Within E))
    (hE : E.all Effect.uneventful = true) (h : Aged A runId workerId waited retried s) :
    (inTime A runId workerId).Meets (timedExec codec sha256Digest) p
      (onOk fun _ s' => Aged A runId workerId waited retried s') s :=
  meets_uneventful (calls_of_within hp hE fun _ _ h => h) h

theorem meets_sql {op : SqlOp α} (hop : Uneventful α (.sql op : StoreOp Text α))
    (h : Aged A runId workerId waited retried s) :
    (inTime A runId workerId).Meets (timedExec codec sha256Digest) (sql op)
      (onOk fun _ s' => Aged A runId workerId waited retried s') s :=
  meets_uneventful (calls_perform.mpr hop) h

theorem meets_publish {eventType : String} {taskId : Option String}
    {payload : List (String × Json)} (h : Aged A runId workerId waited retried s) :
    (inTime A runId workerId).Meets (timedExec codec sha256Digest)
      (publish runId eventType taskId payload)
      (onOk fun _ s' => Aged A runId workerId waited retried s') s :=
  meets_uneventful (calls_perform.mpr rfl) h

theorem timedExec_answered {op : StoreOp Text β} (h : timedExec codec sha256Digest β op s x s') :
    Answered β op x := by
  rcases timedExec_cases h with ⟨t, -, -, hhandle, -⟩ | ⟨e, rfl, -⟩
  · rw [← (Prod.mk.inj hhandle).1]
    exact answered_handle
  · exact answered_error

/-- An attempted program ends in its result or in its exception, as a value. -/
theorem meets_attempt {p : StoreProg Text α} {R : α → TimedStore Text → Prop}
    (hp : (inTime A runId workerId).Meets (timedExec codec sha256Digest) p (onOk R) s) :
    (inTime A runId workerId).Meets (timedExec codec sha256Digest) (attempt p)
      (onOk fun r s' => ∀ a, r = .ok a → R a s') s := by
  refine Meets.tryCatch (Q := onOk fun r s' => ∀ a, r = .ok a → R a s') ?_
    (fun _ _ _ h => h) fun e s' _ _ => ?_
  · refine meets_alone_bind hp fun a s' ha => meets_alone_done.mpr fun b hb => ?_
    cases hb
    exact ha
  · exact meets_alone_done.mpr fun a ha => nomatch ha

section Leases

variable {lease : LeaseRecord} {Q : α → TimedStore Text → Prop}

/-- One statement on the leases, on the clock that the worker sees. -/
theorem meets_ofLease_bind {op : Leases.LeaseOp β} {f : β → Prog Leases.LeaseOp Exn α}
    (h : ∀ b s', Leases.handle β op s.clock s.store.leases = (.ok b, s'.store.leases) →
      s'.clock = s.clock →
      (extendsLease β (.lease op : StoreOp Text β) (.ok b) = true → s'.retried = []) →
      (inTime A runId workerId).Meets (timedExec codec sha256Digest) (ofLease (f b)) (onOk Q) s') :
    (inTime A runId workerId).Meets (timedExec codec sha256Digest)
      (ofLease (perform op >>= f)) (onOk Q) s := by
  refine meets_alone_call.mpr ⟨trivial, fun x s' hop => ?_⟩
  cases x with
  | error e => exact meets_alone_done.mpr trivial
  | ok b =>
    rcases timedExec_cases hop with ⟨t, hnow, -, hhandle, hclock, hretried⟩ | ⟨e, ⟨⟩, -⟩
    obtain ⟨hanswer, hstore⟩ := Prod.mk.inj hhandle
    refine h b s' (Prod.ext ?_ ?_) ?_ fun hextends => ?_
    · rw [← hnow]
      exact hanswer
    · rw [← hnow, ← hstore]
      rfl
    · rw [hclock]
      exact add_zero _
    · rw [hretried, if_pos hextends]

/-- A lease that was just written is a whole term long. -/
theorem Aged.of_written {row : LeaseRecord} {table : Leases.LeaseTable} {now : Timestamp}
    (hleases : s.store.leases = Function.update table runId (some row))
    (howner : row.ownerId = workerId)
    (hexpires : row.expiresAt = now + Leases.seconds A.settings.leaseTtlSeconds)
    (hclock : s.clock = now) (hretried : s.retried = []) : Aged A runId workerId [] [] s := by
  refine ⟨⟨row, ?_, howner, ?_⟩, hretried⟩
  · rw [hleases, Function.update_self]
    rfl
  · rw [hexpires, hclock]
    exact add_zero _

/-- A lease of the worker on the run, as the worker holds it. -/
def OfWorker (runId workerId : String) (lease : LeaseRecord) : Prop :=
  lease.runId = runId ∧ lease.ownerId = workerId

/-- The worker has a lease of a whole term, and no task waits for another attempt. -/
def Renewed (A : Agent Text) (runId workerId : String) (lease : LeaseRecord)
    (s : TimedStore Text) : Prop :=
  OfWorker runId workerId lease ∧ Aged A runId workerId [] [] s

theorem meets_renewLease (hlease : OfWorker runId workerId lease) :
    (inTime A runId workerId).Meets (timedExec codec sha256Digest) (A.renewLease lease)
      (onOk (Renewed A runId workerId)) s := by
  refine meets_ofLease_bind fun now s₁ hnow hclock₁ _ => ?_
  obtain ⟨hnow, -⟩ := Prod.mk.inj hnow
  cases hnow
  refine meets_ofLease_bind fun row s₂ _ hclock₂ _ => ?_
  cases row with
  | none => exact meets_alone_done.mpr trivial
  | some row =>
    dsimp only
    split
    · exact meets_alone_done.mpr trivial
    · refine meets_ofLease_bind fun rows s₃ hrenew hclock₃ hretried₃ => ?_
      split
      · exact meets_alone_done.mpr trivial
      · next hone =>
        refine meets_alone_done.mpr ⟨hlease, ?_⟩
        rcases Leases.updateRenewed_cases ⟨_, hrenew⟩ with ⟨row, -, hm, hrows, hleases⟩ | ⟨hzero, -⟩
        · cases hrows
          rw [hlease.1] at hleases
          exact Aged.of_written hleases (hm.1.trans hlease.2) rfl
            (hclock₃.trans (hclock₂.trans hclock₁)) (hretried₃ rfl)
        · cases hzero
          exact absurd Nat.zero_ne_one hone

theorem meets_acquireLease :
    (inTime A runId workerId).Meets (timedExec codec sha256Digest)
      (A.acquireLease runId workerId) (onOk (Renewed A runId workerId)) s := by
  refine meets_ofLease_bind fun now s₁ hnow hclock₁ _ => ?_
  obtain ⟨hnow, -⟩ := Prod.mk.inj hnow
  cases hnow
  refine meets_ofLease_bind fun row s₂ _ hclock₂ _ => ?_
  cases row with
  | none =>
    refine meets_ofLease_bind fun granted s₃ hinsert hclock₃ hretried₃ => ?_
    rcases Leases.insert_cases ⟨_, hinsert⟩ with ⟨-, hgranted, hleases⟩ | ⟨hrefused, -⟩
    · cases hgranted
      refine meets_alone_done.mpr ⟨⟨rfl, rfl⟩, ?_⟩
      exact Aged.of_written hleases rfl rfl (hclock₃.trans (hclock₂.trans hclock₁)) (hretried₃ rfl)
    · cases hrefused
      exact meets_alone_done.mpr trivial
  | some row =>
    dsimp only
    split
    · exact meets_alone_done.mpr trivial
    · refine meets_ofLease_bind fun rows s₃ hupdate hclock₃ hretried₃ => ?_
      rcases Leases.updateAcquired_cases ⟨_, hupdate⟩ with ⟨_, -, -, hrows, hleases⟩ | ⟨hzero, -⟩
      · cases hrows
        refine meets_alone_done.mpr ⟨⟨rfl, rfl⟩, ?_⟩
        exact Aged.of_written hleases rfl rfl (hclock₃.trans (hclock₂.trans hclock₁))
          (hretried₃ rfl)
      · cases hzero
        exact meets_alone_done.mpr trivial

end Leases

section Batch

variable {run : RunRecord} {plan : PlanSpec} {tasks : List TaskRecord} {p : Progress}

/-- The tasks that wait for another attempt, and the attempts that failed. -/
def failedAttempts (tasks : List TaskRecord) : List Retried :=
  tasks.map fun task => (task.spec.taskId, task.attemptCount)

/-- A failed attempt is finished; the task is noted if another attempt follows. -/
theorem meets_finishAttempt {task : TaskRecord} {v : Nat} {attemptId : String} {state : TaskState}
    {errorId : Option String} (h : Aged A runId workerId [] retried s) :
    (inTime A runId workerId).Meets (timedExec codec sha256Digest)
      (sql (.updateTaskAndFinishAttempt task v attemptId state errorId))
      (onOk fun task' s' => task' = taskWithVersion task v ∧
        Aged A runId workerId []
          (retried ++ failedAttempts (if state = .FAILED_RETRYABLE then [task'] else [])) s')
      s := by
  refine meets_alone_call.mpr ⟨trivial, fun x s' hstep => meets_alone_done.mpr ?_⟩
  cases x with
  | error e => trivial
  | ok task' =>
    have hanswer : task' = taskWithVersion task v := by
      rcases timedExec_cases hstep with ⟨t, -, -, hhandle, -⟩ | ⟨e, ⟨⟩, -⟩
      obtain ⟨s'', hupdate⟩ := settle_eq_ok (Prod.mk.inj hhandle).1
      unfold StoreState.updateTaskAndFinishAttempt at hupdate
      dsimp only at hupdate
      split at hupdate
      · cases hupdate
        rfl
      · cases hupdate
    subst hanswer
    refine ⟨rfl, ?_⟩
    rcases h.step hstep (fun _ heq => nomatch heq) with ⟨e, ⟨⟩, -⟩ | haged
    have haged := haged [] (add_zero _).symm
    by_cases hstate : state = .FAILED_RETRYABLE
    · subst hstate
      exact haged
    · rw [if_neg hstate]
      cases state with
      | FAILED_RETRYABLE => exact absurd rfl hstate
      | _ => exact haged

theorem Agent.retries_iff_target (f : Failure) :
    A.failureTarget f = .FAILED_RETRYABLE ↔ A.retries f = true := by
  unfold Agent.failureTarget
  by_cases hretries : A.retries f = true
  · have hreview : f.requiresReview = false := by
      simp only [Agent.retries, Bool.decide_and, Bool.and_eq_true, decide_eq_true_eq] at hretries
      simp [Failure.requiresReview, hretries.2.1]
    simp [hreview, hretries]
  · by_cases hreview : f.requiresReview = true
    · simp [hreview, hretries]
    · simp [hreview, hretries]

theorem meets_handleFailure {d : Disposition} {f : Failure}
    (h : Aged A runId workerId [] (failedAttempts d.retryTasks) s) :
    (inTime A runId workerId).Meets (timedExec codec sha256Digest) (A.handleFailure runId d f)
      (onOk fun d' s' => Aged A runId workerId [] (failedAttempts d'.retryTasks) s') s := by
  refine meets_alone_bind (meets_sql rfl h) fun errorId s₁ h₁ => ?_
  refine meets_alone_bind (p := ofExcept _) (meets_uneventful trivial h₁) fun state s₂ h₂ => ?_
  refine meets_alone_bind (meets_within within_finishedWhen rfl h₂) fun finished s₃ h₃ => ?_
  refine meets_alone_bind (meets_finishAttempt h₃) fun task s₄ h₄ => ?_
  obtain ⟨-, h₄⟩ := h₄
  refine meets_alone_bind (meets_publish h₄) fun _ s₅ h₅ => ?_
  refine meets_alone_done.mpr ?_
  have hnoted : failedAttempts d.retryTasks ++
        failedAttempts (if A.failureTarget f = .FAILED_RETRYABLE then [task] else []) =
      failedAttempts (if A.retries f then d.retryTasks ++ [task] else d.retryTasks) := by
    by_cases hretries : A.retries f = true
    · rw [if_pos ((Agent.retries_iff_target f).mpr hretries), if_pos hretries]
      exact List.map_append.symm
    · rw [if_neg (fun h => hretries ((Agent.retries_iff_target f).mp h)), if_neg hretries]
      exact List.append_nil _
  rw [hnoted] at h₅
  exact h₅

theorem meets_handleFailures {failures : List Failure} {d : Disposition}
    (h : Aged A runId workerId [] (failedAttempts d.retryTasks) s) :
    (inTime A runId workerId).Meets (timedExec codec sha256Digest)
      (A.handleFailures runId failures d)
      (onOk fun d' s' => Aged A runId workerId [] (failedAttempts d'.retryTasks) s') s := by
  induction failures generalizing d s with
  | nil => exact meets_alone_done.mpr h
  | cons f rest ih => exact meets_alone_bind (meets_handleFailure h) fun d' s₁ h₁ => ih h₁

theorem meets_handleBatchFailures {failures : List Failure} (hrun : run.runId = runId)
    (h : Aged A runId workerId [] [] s) :
    (inTime A runId workerId).Meets (timedExec codec sha256Digest)
      (A.handleBatchFailures run plan tasks failures)
      (onOk fun handled s' =>
        Aged A runId workerId [] (failedAttempts handled.retryTasks) s') s := by
  unfold Agent.handleBatchFailures
  rw [hrun]
  refine meets_alone_bind (meets_handleFailures h) fun d s₁ h₁ => ?_
  refine meets_alone_bind (meets_within within_skipAll rfl h₁) fun tasks s₂ h₂ => ?_
  refine meets_alone_bind (meets_sql rfl h₂) fun current s₃ h₃ => ?_
  refine meets_alone_bind (meets_sql rfl h₃) fun now s₄ h₄ => ?_
  refine meets_alone_bind (meets_within within_disposedRun rfl h₄) fun disposed s₅ h₅ => ?_
  refine meets_alone_bind (meets_sql rfl h₅) fun run' s₆ h₆ => ?_
  refine meets_alone_bind (meets_within within_writeCheckpoint rfl h₆) fun written s₇ h₇ => ?_
  exact meets_alone_done.mpr h₇

/-- The delays are slept one after the other. -/
theorem meets_backOff (h : Aged A runId workerId waited retried s) :
    (inTime A runId workerId).Meets (timedExec codec sha256Digest) (A.backOff runId tasks)
      (onOk fun _ s' => Aged A runId workerId (waited ++ failedAttempts tasks) retried s') s := by
  induction tasks generalizing waited s with
  | nil =>
    rw [show waited ++ failedAttempts [] = waited from List.append_nil waited]
    exact meets_alone_done.mpr h
  | cons task rest ih =>
    unfold Agent.backOff
    cases hdelay : A.settings.retry.delayFor A.digestUnit task.attemptCount
        s!"{runId}:{task.spec.taskId}" with
    | error e => exact meets_alone_done.mpr trivial
    | ok delay =>
      refine meets_alone_call.mpr ⟨trivial, fun x s₁ hstep => ?_⟩
      cases x with
      | error e => exact meets_alone_done.mpr trivial
      | ok _ =>
        rcases h.step hstep (fun _ heq => nomatch heq) with ⟨e, ⟨⟩, -⟩ | haged
        have hmore : A.delaysAfter runId (waited ++ [(task.spec.taskId, task.attemptCount)]) =
            A.delaysAfter runId waited + duration Unit (.sql (.sleep delay) : StoreOp Text Unit) := by
          unfold Agent.delaysAfter
          rw [List.map_append, List.sum_append, List.map_singleton, List.sum_singleton]
          unfold Agent.delayAfter
          rw [hdelay]
          rfl
        have h₁ := haged _ hmore
        rw [show (leavesForRetry Unit (.sql (.sleep delay) : StoreOp Text Unit) (.ok ())).toList = []
          from rfl, List.append_nil] at h₁
        have hrest := @ih (waited ++ [(task.spec.taskId, task.attemptCount)]) s₁ h₁
        rw [List.append_assoc] at hrest
        exact hrest

theorem meets_settleFailures {failures : List Failure} (hrun : p.run.runId = runId)
    (h : Aged A runId workerId [] [] s) :
    (inTime A runId workerId).Meets (timedExec codec sha256Digest)
      (A.settleFailures plan p failures)
      (onOk fun _ s' => ∃ retried, Aged A runId workerId retried retried s') s := by
  unfold Agent.settleFailures
  split
  · exact meets_alone_done.mpr ⟨[], h⟩
  · refine meets_alone_bind ((meets_handleBatchFailures hrun h).yields handleBatchFailures_yields
      fun _ _ _ _ _ => timedExec_answered) fun handled s₁ h₁ => ?_
    obtain ⟨h₁, hrun'⟩ := h₁
    rw [hrun'.trans hrun]
    refine meets_alone_bind (meets_backOff h₁) fun _ s₂ h₂ => ?_
    dsimp only
    split
    · refine meets_alone_bind (meets_within within_generateReport rfl h₂) fun _ s₃ h₃ => ?_
      exact meets_alone_done.mpr ⟨_, h₃⟩
    · exact meets_alone_done.mpr ⟨_, h₂⟩

end Batch

section Loop

variable {lease : LeaseRecord} {run : RunRecord} {plan : PlanSpec} {tasks : List TaskRecord}
  {p : Progress}

theorem meets_releaseLease :
    (inTime A runId workerId).Meets (timedExec codec sha256Digest)
      (releaseLease lease) (onOk fun _ _ => True) s := by
  have hcalls : (releaseLease lease : StoreProg Text Unit).Calls
      fun δ op => ∀ s, DispatchedInTime A runId workerId δ op s :=
    Calls.mapOp (fun _ _ _ => trivial) _
  refine (meets_alone_of_calls (K := fun _ => True) hcalls trivial
    fun _ _ s h _ => ⟨h s, fun _ _ _ => trivial⟩).mono fun r s' _ _ => ?_
  cases r <;> trivial

/-- What holds where a program returns holds also where an exception releases the lease. -/
theorem meets_releasing {q : StoreProg Text α} {R : α → TimedStore Text → Prop}
    (hq : (inTime A runId workerId).Meets (timedExec codec sha256Digest) q (onOk R) s) :
    (inTime A runId workerId).Meets (timedExec codec sha256Digest)
      (releasing lease q) (onOk R) s := by
  refine Meets.tryCatch hq (fun _ _ _ h => h) fun e s' _ _ => ?_
  exact meets_alone_bind meets_releaseLease fun _ _ _ => meets_alone_done.mpr trivial

/-- No renewal falls due. -/
theorem meets_heartbeat {fuel : Nat} (h : Aged A runId workerId waited retried s) :
    (inTime A runId workerId).Meets (timedExec codec sha256Digest) (A.heartbeat fuel lease)
      (onOk fun r s' => r = (lease, .ok ()) ∧ Aged A runId workerId waited retried s') s := by
  cases fuel with
  | zero => trivial
  | succ fuel =>
    refine meets_alone_call.mpr ⟨trivial, fun x s' hop => ?_⟩
    have haged := h.uneventful hop rfl
    rcases timedExec_cases hop with ⟨t, -, hdue, hhandle, -⟩ | ⟨e, rfl, -⟩
    · obtain ⟨hanswer, -⟩ := Prod.mk.inj hhandle
      change Except.ok t.heartbeatDue = x at hanswer
      rw [← hanswer, hdue]
      exact meets_alone_done.mpr ⟨rfl, haged⟩
    · exact meets_alone_done.mpr trivial

/-- The tasks of a batch are dispatched after the delays. -/
theorem meets_executeOne {task : TaskRecord} (h : Aged A runId workerId retried retried s) :
    (inTime A runId workerId).Meets (timedExec codec sha256Digest) (executeOne run task)
      (onOk fun _ s' => Aged A runId workerId retried retried s') s := by
  refine meets_alone_call.mpr ⟨h.live_iff, fun x s₁ hstep => ?_⟩
  have haged : Aged A runId workerId retried retried s₁ := by
    rcases h.step hstep (fun _ heq => nomatch heq) with ⟨e, -, rfl⟩ | haged
    · exact h
    · have haged := haged retried (add_zero _).symm
      rwa [show (leavesForRetry _ (.sql (.executeTask run task) : StoreOp Text _) x).toList = []
        from rfl, List.append_nil] at haged
  cases x with
  | error e => exact meets_alone_done.mpr haged
  | ok outcome => exact meets_alone_done.mpr haged

theorem meets_executeTasks (h : Aged A runId workerId retried retried s) :
    (inTime A runId workerId).Meets (timedExec codec sha256Digest)
      (tasks.mapM' (executeOne run))
      (onOk fun _ s' => Aged A runId workerId retried retried s') s := by
  induction tasks generalizing s with
  | nil => exact meets_alone_done.mpr h
  | cons task rest ih =>
    refine meets_alone_bind (meets_executeOne h) fun result s₁ h₁ => ?_
    exact meets_alone_bind (ih h₁) fun results s₂ h₂ => meets_alone_done.mpr h₂

/-- The outcomes of a batch are there only under a lease that was renewed after it. -/
def BatchDone (A : Agent Text) (runId workerId : String)
    (r : LeaseRecord × Except Exn (List WorkerResult)) (s : TimedStore Text) : Prop :=
  r.2.isOk = true → Renewed A runId workerId r.1 s

theorem meets_executeBatch (hlease : OfWorker runId workerId lease)
    (h : Aged A runId workerId retried retried s) :
    (inTime A runId workerId).Meets (timedExec codec sha256Digest)
      (A.executeBatch run tasks lease) (onOk (BatchDone A runId workerId)) s := by
  refine meets_alone_bind (meets_heartbeat h) fun beat s₁ hbeat => ?_
  obtain ⟨rfl, h₁⟩ := hbeat
  refine meets_alone_bind (meets_executeTasks h₁) fun results s₂ _ => ?_
  refine meets_alone_bind (meets_attempt (meets_renewLease hlease)) fun renewal s₃ h₃ => ?_
  cases renewal with
  | error e => exact meets_alone_done.mpr fun hok => nomatch hok
  | ok lease' => exact meets_alone_done.mpr fun _ => h₃ lease' rfl

/-- Without the outcomes of its batch the loop raises. -/
theorem meets_settleBatch {started : List Started}
    {done : LeaseRecord × Except Exn (List WorkerResult)} (hrun : p.run.runId = runId)
    (hdone : BatchDone A runId workerId done s) :
    (inTime A runId workerId).Meets (timedExec codec sha256Digest)
      (A.settleBatch plan p started done.2)
      (onOk fun _ s' => OfWorker runId workerId done.1 ∧
        ∃ retried, Aged A runId workerId retried retried s') s := by
  obtain ⟨lease, results⟩ := done
  cases results with
  | error e => exact meets_alone_done.mpr trivial
  | ok results =>
    obtain ⟨hlease, h⟩ := hdone rfl
    refine meets_alone_bind (p := A.collectResults plan (started.zip results) p)
      ((meets_within within_collectResults rfl h).yields collectResults_yields
        fun _ _ _ _ _ => timedExec_answered) fun r s₁ h₁ => ?_
    obtain ⟨h₁, hrun₁⟩ := h₁
    refine (meets_settleFailures (hrun₁.trans hrun) h₁).mono fun r' s' _ h' => ?_
    cases r' with
    | ok settled => exact ⟨hlease, h'⟩
    | error e => trivial

theorem meets_loop {maximumTasks : Option Nat} {fuel : Nat} (hrun : p.run.runId = runId)
    (hlease : OfWorker runId workerId lease) (h : Aged A runId workerId retried retried s) :
    (inTime A runId workerId).Meets (timedExec codec sha256Digest)
      (A.loop plan maximumTasks fuel lease p) (onOk fun _ _ => True) s := by
  induction fuel generalizing lease p s retried with
  | zero => trivial
  | succ fuel ih =>
    refine meets_alone_bind (meets_releasing ((meets_within within_turn rfl h).yields
      (turn_yields hrun) fun _ _ _ _ _ => timedExec_answered)) fun turn s₁ h₁ => ?_
    obtain ⟨h₁, hturn⟩ := h₁
    cases turn with
    | ended p =>
      exact meets_alone_bind meets_releaseLease fun _ _ _ => meets_alone_done.mpr trivial
    | again p => exact ih hturn hlease h₁
    | batch p started =>
      refine meets_alone_bind (meets_executeBatch hlease h₁) fun done s₂ hdone => ?_
      refine meets_alone_bind (meets_releasing ((meets_settleBatch hturn hdone).yields
        (settleBatch_yields hturn) fun _ _ _ _ _ => timedExec_answered)) fun settled s₃ h₃ => ?_
      obtain ⟨p, ends⟩ := settled
      obtain ⟨⟨hlease', retried', h₃⟩, hrun'⟩ := h₃
      cases ends with
      | true =>
        exact meets_alone_bind meets_releaseLease fun _ _ _ => meets_alone_done.mpr trivial
      | false => exact ih hrun' hlease' h₃

theorem meets_advanceRun {maximumTasks : Option Nat} (hrun : run.runId = runId)
    (hlease : OfWorker runId workerId lease) (h : Aged A runId workerId retried retried s) :
    (inTime A runId workerId).Meets (timedExec codec sha256Digest)
      (A.advanceRun lease run maximumTasks) (onOk fun _ _ => True) s := by
  refine meets_alone_bind (meets_sql rfl h) fun plan s₁ h₁ => ?_
  refine meets_alone_bind (meets_within within_getTasks rfl h₁) fun tasks s₂ h₂ => ?_
  refine meets_alone_bind (meets_sql rfl h₂) fun _ s₃ h₃ => ?_
  exact meets_alone_bind (meets_loop hrun hlease h₃) fun _ _ _ => meets_alone_done.mpr trivial

theorem meets_unadvanced :
    (inTime A runId workerId).Meets (timedExec codec sha256Digest)
      (unadvanced lease run) (onOk fun _ _ => True) s := by
  refine meets_alone_bind meets_releaseLease fun _ s₁ _ => ?_
  refine meets_alone_bind (R := fun _ _ => True) ?_ fun _ _ _ => meets_alone_done.mpr trivial
  have hcalls : (getTasks .answer run.runId : StoreProg Text _).Calls Uneventful :=
    calls_of_within within_getTasks rfl fun _ _ h => h
  refine (meets_alone_of_calls (K := fun _ => True) hcalls trivial
    fun δ op s hop _ => ⟨hop.inTime s, fun _ _ _ => trivial⟩).mono fun r s' _ _ => ?_
  cases r <;> trivial

theorem meets_advance {maximumTasks : Option Int} :
    (inTime A runId workerId).Meets (timedExec codec sha256Digest)
      (A.advance runId workerId maximumTasks) (onOk fun _ _ => True) s := by
  unfold Agent.advance
  split
  · exact meets_alone_done.mpr trivial
  · refine meets_alone_bind meets_acquireLease fun lease s₁ hlease => ?_
    obtain ⟨hlease, h₁⟩ := hlease
    have hread := @meets_sql Text codec sha256Digest A runId workerId [] [] s₁ _ (.getRun runId) rfl h₁
    refine meets_alone_bind (hread.yields getRun_yields fun _ _ _ _ _ => timedExec_answered)
      fun run s₂ h₂ => ?_
    obtain ⟨h₂, hrun⟩ := h₂
    split
    · refine meets_alone_bind (meets_within within_pendingLifecycleRequest rfl h₂)
        fun pending s₃ h₃ => ?_
      unfold Agent.advancePaused
      split
      · exact meets_advanceRun hrun hlease h₃
      · exact meets_unadvanced
    · split
      · exact meets_advanceRun hrun hlease h₂
      · exact meets_unadvanced

end Loop

end DurableAgent.Orchestration
