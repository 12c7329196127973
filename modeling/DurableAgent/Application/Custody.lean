import DurableAgent.Application.Convergence
import DurableAgent.Orchestration.Custody

/-!
# Calls of the service and their leases

Which calls of `advance` and `resume` leave a lease of their worker behind: exactly those that an
exception ends between an acquisition and the `try` clause that would release it.
-/

namespace DurableAgent.Orchestration

open Library Library.Prog Store Leases

-- Reducing a call of the service would otherwise reduce the text that it strips.
attribute [local irreducible] strip

variable {Text α : Type} {codec : Codec Text} {sha256Digest : String → String} {lasting : Prop}
  {worker workerId runId ownerId : String} {s s' : StoreState Text} {A : Agent Text}
  {lease : LeaseRecord} {run : RunRecord}

/-! ## Recovery -/

theorem leaseless_publish {eventType : String} {taskId : Option String}
    {payload : List (String × Json)} :
    (publish runId eventType taskId payload : StoreProg Text Unit).Calls Leaseless :=
  calls_perform.mpr trivial

theorem leaseless_getTasks {reader : Reader} :
    (getTasks reader runId : StoreProg Text _).Calls Leaseless := by
  refine Calls.bind leaseless_sql fun run => Calls.bind ?_ fun planId => ?_
  · exact leaseless_of_within within_requestedPlanId (by decide)
  · cases planId with
    | some planId => exact leaseless_sql
    | none => trivial

theorem leaseless_enterRecovery : (enterRecovery run : StoreProg Text _).Calls Leaseless := by
  unfold enterRecovery
  split
  · trivial
  · exact Calls.bind trivial fun _ => Calls.bind leaseless_sql fun _ => leaseless_sql

theorem leaseless_validateRepository {checkpoint : CheckpointEnvelope} :
    (A.validateRepository run checkpoint).Calls Leaseless := by
  unfold Agent.validateRepository
  split
  · refine Calls.bind leaseless_sql fun previous => Calls.bind leaseless_sql fun current => ?_
    split
    · trivial
    · refine Calls.bind leaseless_publish fun _ => ?_
      split
      · trivial
      · refine Calls.bind leaseless_sql fun _ => Calls.bind leaseless_sql fun _ => ?_
        exact Calls.bind leaseless_sql fun _ => Calls.bind leaseless_sql fun _ => trivial
  · trivial

theorem leaseless_reviseIf {drifted : Bool} : (A.reviseIf drifted run).Calls Leaseless := by
  unfold Agent.reviseIf
  split
  · refine Calls.bind leaseless_sql fun previous => Calls.bind leaseless_getTasks fun prior => ?_
    refine Calls.bind leaseless_sql fun revised => Calls.bind leaseless_sql fun _ => ?_
    refine Calls.bind leaseless_sql fun _ => Calls.bind leaseless_sql fun now => ?_
    exact Calls.bind leaseless_sql fun _ => Calls.bind leaseless_publish fun _ => trivial
  · trivial

theorem leaseless_recoverTask {task : TaskRecord} :
    (recoverTask task : StoreProg Text _).Calls Leaseless := by
  unfold recoverTask
  split
  · exact Calls.bind trivial fun _ => leaseless_sql
  · split
    · refine Calls.bind leaseless_sql fun errorId => Calls.bind leaseless_sql fun _ => ?_
      refine Calls.bind trivial fun state => Calls.bind ?_ fun finishedAt => ?_
      · exact leaseless_of_within within_finishedWhen (by decide)
      · refine Calls.bind leaseless_sql fun task => Calls.bind ?_ fun task => ?_
        · unfold readyIf
          split
          · exact Calls.bind trivial fun _ => leaseless_sql
          · trivial
        · exact Calls.bind leaseless_publish fun _ => trivial
    · trivial

theorem leaseless_resumeFrom {checkpoint : CheckpointEnvelope} :
    (A.resumeFrom lease run checkpoint).Calls Leaseless := by
  refine Calls.bind ?_ fun _ => Calls.bind leaseless_validateRepository fun r => ?_
  · unfold Agent.requireConfiguration
    split
    · trivial
    · exact Calls.bind leaseless_publish fun _ => trivial
  · refine Calls.bind leaseless_reviseIf fun run' => ?_
    refine Calls.bind (Calls.mapOp (fun _ _ => trivial) _) fun reconciled => ?_
    refine Calls.bind leaseless_getTasks fun tasks => ?_
    refine Calls.bind (Calls.mapM' (fun _ => leaseless_recoverTask) tasks) fun updated => ?_
    refine Calls.bind trivial fun state => Calls.bind leaseless_sql fun now => ?_
    refine Calls.bind leaseless_sql fun run'' => Calls.bind leaseless_sql fun plan => ?_
    refine Calls.bind (leaseless_of_within within_writeCheckpoint (by decide)) fun written => ?_
    exact Calls.bind leaseless_publish fun _ => trivial

theorem leaseless_resumeHeld : (A.resumeHeld runId lease).Calls Leaseless := by
  refine Calls.bind leaseless_sql fun run => ?_
  split
  · trivial
  · refine Calls.bind leaseless_enterRecovery fun run' => ?_
    refine Calls.bind ?_ fun checkpoint => leaseless_resumeFrom
    exact leaseless_of_within (within_recoverLatest _ _) (by decide)

/-- A recovery returns under a lease that is there, or raises and leaves none. -/
theorem Custody.resume {r : Except Exn RecoveryResult} (hs : Unowned workerId s.leases)
    (h : Runs (custodyExec codec sha256Digest lasting worker workerId)
      (A.resume runId workerId) s r s') :
    (∃ result lease, r = .ok result ∧ Custody workerId runId lease s' ∧
      (lasting → ¬ Unowned workerId s'.leases)) ∨
      ((∃ e, r = .error e) ∧ Unowned workerId s'.leases) := by
  rcases runs_bind.mp h with ⟨lease, s₁, hacquire, h⟩ | ⟨e, hr, hacquire⟩
  · have h₁ := Custody.acquire hs.confined hacquire
    rcases h₁.releasing leaseless_resumeHeld h with ⟨result, rfl, h₂⟩ | hraised
    · refine .inl ⟨result, lease, rfl, h₂, fun hlasting => ?_⟩
      have howned := (acquireLease_inCustody hs.confined (runs_ofLease hacquire)).2.2
      rcases runs_tryCatch.mp h with ⟨a, -, hok⟩ | ⟨e, s₂, -, hrelease⟩
      · exact runs_leaseless leaseless_resumeHeld (stable_owned hlasting) hok howned
      · rcases runs_bind_ok.mp hrelease with ⟨_, _, -, hdone⟩
        cases hdone
    · exact .inr hraised
  · exact .inr ⟨⟨e, hr⟩, acquireLease_raised stable_unowned hs (runs_ofLease hacquire)⟩

/-! ## The calls -/

/-- What `_new_worker_id` makes of a fresh identifier. -/
def workerName (worker ownerId : String) : String := s!"{worker}:{ownerId}"

theorem leaseless_ownedRun : (ownedRun runId ownerId : StoreProg Text _).Calls Leaseless := by
  refine Calls.bind leaseless_sql fun run => ?_
  split <;> trivial

theorem leaseless_isReplay {maximumTasks : Option Int} {idempotencyKey : Option String} :
    (A.isReplay runId ownerId maximumTasks idempotencyKey).Calls Leaseless := by
  cases idempotencyKey with
  | none => trivial
  | some key =>
    unfold Agent.isReplay
    dsimp only
    split
    · trivial
    · refine Calls.bind (Calls.bind leaseless_sql fun existing => ?_) fun _ => trivial
      refine Calls.bind leaseless_sql fun now => ?_
      cases existing with
      | some existing =>
        unfold claimUnlessFound priorIntent
        dsimp only
        split
        · trivial
        · split <;> trivial
      | none =>
        refine Calls.bind leaseless_sql fun inserted => ?_
        split
        · trivial
        · refine Calls.bind leaseless_sql fun existing => ?_
          cases existing with
          | none => trivial
          | some existing =>
            unfold concurrentIntent
            dsimp only
            split <;> trivial

theorem leaseless_currentResult : (currentResult run : StoreProg Text _).Calls Leaseless :=
  Calls.bind leaseless_getTasks fun _ => trivial

theorem leaseless_replayConflict {replay : Bool} {e : Exn} :
    (replayConflict runId ownerId replay e : StoreProg Text _).Calls Leaseless := by
  unfold replayConflict
  split
  · split
    · exact Calls.bind leaseless_ownedRun fun _ => leaseless_currentResult
    · trivial
  · trivial

theorem leaseless_newWorkerId : (newWorkerId ownerId : StoreProg Text _).Calls Leaseless :=
  Calls.bind leaseless_sql fun _ => trivial

/-- A call that is given a worker has given it its name. -/
theorem newWorkerId_names {name : String}
    (h : Runs (custodyExec codec sha256Digest lasting worker workerId) (newWorkerId ownerId) s
      (.ok name) s') : name = workerName worker ownerId := by
  obtain ⟨id, s₁, hid, hdone⟩ := runs_bind_ok.mp h
  obtain ⟨hname, -⟩ := runs_pure.mp hdone
  cases hname
  obtain ⟨s₂, -, ⟨-, hnames⟩ | ⟨-, e, ⟨⟩, -⟩⟩ := runs_perform.mp hid
  cases hnames rfl
  rfl

/-- What is left of a call of which only the end counts. -/
theorem runs_void {exec : Exec (StoreOp Text) Exn (StoreState Text)} {p : StoreProg Text α}
    {r : Except Exn Unit} :
    Runs exec (p >>= fun _ => pure ()) s r s' ↔
      ∃ x, Runs exec p s x s' ∧ r = x.map fun _ => () := by
  rw [runs_bind]
  constructor
  · rintro (⟨a, s₁, hp, hdone⟩ | ⟨e, rfl, hp⟩)
    · obtain ⟨rfl, rfl⟩ := runs_pure.mp hdone
      exact ⟨.ok a, hp, rfl⟩
    · exact ⟨.error e, hp, rfl⟩
  · rintro ⟨x, hp, rfl⟩
    cases x with
    | ok a => exact .inl ⟨a, s', hp, .done _ _⟩
    | error e => exact .inr ⟨e, rfl, hp⟩

/-- Where `advance` may raise before its `try` clause. -/
theorem enter_raised {exec : Exec (StoreOp Text) Exn (StoreState Text)} {maximumTasks : Option Int}
    {e : Exn} (h : Runs exec (A.enter runId workerId maximumTasks) s (.error e) s') :
    (s' = s ∧ (maximumTasks.any fun maximum => maximum < 0) = true) ∨
    ((maximumTasks.any fun maximum => maximum < 0) = false ∧
      (Runs exec (A.acquireLease runId workerId) s (.error e) s' ∨
        ∃ lease s₁, Runs exec (A.acquireLease runId workerId) s (.ok lease) s₁ ∧
          Runs exec (loadRun runId) s₁ (.error e) s')) := by
  unfold Agent.enter at h
  split at h
  · next hneg => exact .inl ⟨(runs_raise.mp h).2, hneg⟩
  · next hpos =>
    refine .inr ⟨Bool.eq_false_iff.mpr hpos, ?_⟩
    rcases runs_bind_error.mp h with hacquire | ⟨lease, s₁, hacquire, h⟩
    · exact .inl hacquire
    · rcases runs_bind_error.mp h with hload | ⟨loaded, s₂, -, hdone⟩
      · exact .inr ⟨lease, s₁, hacquire, hload⟩
      · cases hdone

/-- The lease of a recovery stays where `advance` raises before its `try` clause. -/
theorem enter_raised_owned {maximumTasks : Option Int} {e : Exn} (hlasting : lasting)
    (hs : Custody workerId runId lease s) (howned : ¬ Unowned workerId s.leases)
    (h : Runs (custodyExec codec sha256Digest lasting worker workerId)
      (A.enter runId workerId maximumTasks) s (.error e) s') : ¬ Unowned workerId s'.leases := by
  rcases enter_raised h with ⟨rfl, -⟩ | ⟨-, hacquire | ⟨lease', s₁, hacquire, hload⟩⟩
  · exact howned
  · exact acquireLease_raised (stable_owned hlasting) howned (runs_ofLease hacquire)
  · have h₁ := (acquireLease_inCustody hs.confined (runs_ofLease hacquire)).2.2
    exact runs_leaseless loadRun_leaseless (stable_owned hlasting) hload h₁

/-- The leases of a worker are given back: none is in its name, and the next acquisition is
refused only while yet another worker holds the run. -/
structure GivenBack (workerId : String) (leases : LeaseTable) : Prop where
  unowned : Unowned workerId leases
  acquirable : ∀ runId next ttlSeconds e leases',
    Runs Leases.handle.exec (acquireLease runId next ttlSeconds) leases (.error e) leases' →
    ∃ row, leases runId = some row ∧ row.ownerId ≠ workerId ∧ row.ownerId ≠ next

theorem givenBack_of_unowned {leases : LeaseTable} (h : Unowned workerId leases) :
    GivenBack workerId leases where
  unowned := h
  acquirable := by
    intro runId next ttlSeconds e leases' hrefused
    obtain ⟨row, hrow, hnext⟩ := acquireLease_refused_of_held hrefused
    exact ⟨row, hrow, h runId row hrow, hnext⟩

/-- Who drives a run with the call. -/
def ServiceCall.driver : ServiceCall → Option String
  | .advance _ ownerId _ => some ownerId
  | .resume _ ownerId _ _ => some ownerId
  | _ => none

/-- An exception ends the call after it has acquired a lease and before the `try` clause that
releases it: while `advance` reads the run, its plan, its tasks and its context, and after a
recovery also where `advance` refuses the number of tasks or is refused the lease. -/
inductive Interrupted (A : Agent Text) (exec : Exec (StoreOp Text) Exn (StoreState Text)) :
    ServiceCall → StoreState Text → Except Exn Unit → StoreState Text → Prop where
  | advance {runId ownerId workerId : String} {maximumTasks : Option Int} {run : RunRecord}
      {lease : LeaseRecord} {e : Exn} {s s₁ s₂ s₃ s' : StoreState Text}
      (hrun : Runs exec (ownedRun runId ownerId) s (.ok run) s₁)
      (hworker : Runs exec (newWorkerId ownerId) s₁ (.ok workerId) s₂)
      (hbound : (maximumTasks.any fun maximum => maximum < 0) = false)
      (hacquired : Runs exec (A.acquireLease runId workerId) s₂ (.ok lease) s₃)
      (hraised : Runs exec (loadRun runId) s₃ (.error e) s') :
      Interrupted A exec (.advance runId ownerId maximumTasks) s (.error e) s'
  | resume {runId ownerId workerId : String} {maximumTasks : Option Int}
      {idempotencyKey : Option String} {run : RunRecord} {replay : Bool} {result : RecoveryResult}
      {e : Exn} {s s₁ s₂ s₃ s₄ s₅ s' : StoreState Text} {r : Except Exn RunAdvanceResult}
      (hrun : Runs exec (ownedRun runId ownerId) s (.ok run) s₁)
      (hreplay : Runs exec (A.isReplay runId ownerId maximumTasks idempotencyKey) s₁
        (.ok replay) s₂)
      (hgoes : ¬ (replay ∧ run.state ≠ .PAUSED ∧ run.state ≠ .RECOVERING))
      (hworker : Runs exec (newWorkerId ownerId) s₂ (.ok workerId) s₃)
      (hrecovered : Runs exec (A.resume runId workerId) s₃ (.ok result) s₄)
      (hraised : Runs exec (A.enter runId workerId maximumTasks) s₄ (.error e) s₅)
      (hended : Runs exec (replayConflict runId ownerId replay e) s₅ r s') :
      Interrupted A exec (.resume runId ownerId maximumTasks idempotencyKey) s
        (r.map fun _ => ()) s'

section Driving

variable {maximumTasks : Option Int} {idempotencyKey : Option String} {r : Except Exn Unit}

/-- An advance that is not interrupted leaves no lease of its worker. -/
theorem advance_unowned (hnew : Unowned (workerName worker ownerId) s.leases)
    (h : Runs (custodyExec codec sha256Digest lasting worker (workerName worker ownerId))
      ((ServiceCall.advance runId ownerId maximumTasks).program A) s r s')
    (hnot : ¬ Interrupted A
      (custodyExec codec sha256Digest lasting worker (workerName worker ownerId))
      (.advance runId ownerId maximumTasks) s r s') :
    Unowned (workerName worker ownerId) s'.leases := by
  obtain ⟨x, hcall, rfl⟩ := runs_void.mp h
  rcases runs_bind.mp hcall with ⟨run, s₁, hrun, h⟩ | ⟨e, -, hrun⟩
  swap
  · exact runs_leaseless leaseless_ownedRun stable_unowned hrun hnew
  have h₁ := runs_leaseless leaseless_ownedRun stable_unowned hrun hnew
  rcases runs_bind.mp h with ⟨workerId, s₂, hworker, h⟩ | ⟨e, -, hworker⟩
  swap
  · exact runs_leaseless leaseless_newWorkerId stable_unowned hworker h₁
  have h₂ := runs_leaseless leaseless_newWorkerId stable_unowned hworker h₁
  cases newWorkerId_names hworker
  rcases Custody.advance h₂.confined h with hdone | ⟨e, rfl, henter⟩
  · exact hdone
  · rcases enter_raised henter with ⟨rfl, -⟩ | ⟨hbound, hacquire | ⟨lease, s₃, hacquire, hload⟩⟩
    · exact h₂
    · exact acquireLease_raised stable_unowned h₂ (runs_ofLease hacquire)
    · exact absurd (.advance hrun hworker hbound hacquire hload) hnot

/-- A resume that is not interrupted leaves no lease of its worker. -/
theorem resume_unowned (hnew : Unowned (workerName worker ownerId) s.leases)
    (h : Runs (custodyExec codec sha256Digest lasting worker (workerName worker ownerId))
      ((ServiceCall.resume runId ownerId maximumTasks idempotencyKey).program A) s r s')
    (hnot : ¬ Interrupted A
      (custodyExec codec sha256Digest lasting worker (workerName worker ownerId))
      (.resume runId ownerId maximumTasks idempotencyKey) s r s') :
    Unowned (workerName worker ownerId) s'.leases := by
  obtain ⟨x, hcall, rfl⟩ := runs_void.mp h
  rcases runs_bind.mp hcall with ⟨run, s₁, hrun, h⟩ | ⟨e, -, hrun⟩
  swap
  · exact runs_leaseless leaseless_ownedRun stable_unowned hrun hnew
  have h₁ := runs_leaseless leaseless_ownedRun stable_unowned hrun hnew
  rcases runs_bind.mp h with ⟨replay, s₂, hreplay, h⟩ | ⟨e, -, hreplay⟩
  swap
  · exact runs_leaseless leaseless_isReplay stable_unowned hreplay h₁
  have h₂ := runs_leaseless leaseless_isReplay stable_unowned hreplay h₁
  split at h
  · exact runs_leaseless leaseless_currentResult stable_unowned h h₂
  · next hgoes =>
    rcases runs_bind.mp h with ⟨workerId, s₃, hworker, h⟩ | ⟨e, -, hworker⟩
    swap
    · exact runs_leaseless leaseless_newWorkerId stable_unowned hworker h₂
    have h₃ := runs_leaseless leaseless_newWorkerId stable_unowned hworker h₂
    cases newWorkerId_names hworker
    rcases runs_tryCatch.mp h with ⟨a, -, hok⟩ | ⟨e, s₅, hraised, hended⟩
    · obtain ⟨result, s₄, hrecovered, hadvance⟩ := runs_bind_ok.mp hok
      rcases Custody.resume h₃ hrecovered with ⟨_, lease, -, h₄, -⟩ | ⟨⟨e, ⟨⟩⟩, -⟩
      rcases Custody.advance h₄.confined hadvance with hdone | ⟨e, ⟨⟩, -⟩
      exact hdone
    · refine runs_leaseless leaseless_replayConflict stable_unowned hended ?_
      rcases runs_bind_error.mp hraised with hrecovered | ⟨result, s₄, hrecovered, hadvance⟩
      · rcases Custody.resume h₃ hrecovered with ⟨_, _, ⟨⟩, -, -⟩ | ⟨-, h₄⟩
        exact h₄
      · rcases Custody.resume h₃ hrecovered with ⟨_, lease, -, h₄, -⟩ | ⟨⟨e, ⟨⟩⟩, -⟩
        rcases Custody.advance h₄.confined hadvance with hdone | ⟨_, ⟨⟩, henter⟩
        · exact hdone
        · exact absurd (.resume hrun hreplay hgoes hworker hrecovered henter hended) hnot

/-- An interrupted call leaves a lease of its worker, which nobody takes over while it lasts. -/
theorem interrupted_owned {call : ServiceCall} (hlasting : lasting)
    (hdriver : call.driver = some ownerId) (hnew : Unowned (workerName worker ownerId) s.leases)
    (h : Interrupted A (custodyExec codec sha256Digest lasting worker (workerName worker ownerId))
      call s r s') : ¬ Unowned (workerName worker ownerId) s'.leases := by
  cases h with
  | advance hrun hworker hbound hacquired hraised =>
    cases hdriver
    have h₁ := runs_leaseless leaseless_ownedRun stable_unowned hrun hnew
    have h₂ := runs_leaseless leaseless_newWorkerId stable_unowned hworker h₁
    cases newWorkerId_names hworker
    have h₃ := (acquireLease_inCustody h₂.confined (runs_ofLease hacquired)).2.2
    exact runs_leaseless loadRun_leaseless (stable_owned hlasting) hraised h₃
  | resume hrun hreplay hgoes hworker hrecovered hraised hended =>
    cases hdriver
    have h₁ := runs_leaseless leaseless_ownedRun stable_unowned hrun hnew
    have h₂ := runs_leaseless leaseless_isReplay stable_unowned hreplay h₁
    have h₃ := runs_leaseless leaseless_newWorkerId stable_unowned hworker h₂
    cases newWorkerId_names hworker
    rcases Custody.resume h₃ hrecovered with ⟨_, lease, -, h₄, howned⟩ | ⟨⟨e, ⟨⟩⟩, -⟩
    have h₅ := enter_raised_owned hlasting h₄ (howned hlasting) hraised
    exact runs_leaseless leaseless_replayConflict (stable_owned hlasting) hended h₅

/-- A call that drives a run, under a worker of its own, among any other processes and with any
calls failing except the release itself: unless it is interrupted it gives its leases back, and
where it is interrupted it does not, as long as nobody takes them over. -/
theorem lease_given_back_iff {call : ServiceCall} (hdriver : call.driver = some ownerId)
    (hnew : Unowned (workerName worker ownerId) s.leases)
    (h : Runs (custodyExec codec sha256Digest lasting worker (workerName worker ownerId))
      (call.program A) s r s') :
    (¬ Interrupted A (custodyExec codec sha256Digest lasting worker (workerName worker ownerId))
      call s r s' → GivenBack (workerName worker ownerId) s'.leases) ∧
    (lasting → Interrupted A
      (custodyExec codec sha256Digest lasting worker (workerName worker ownerId)) call s r s' →
      ¬ GivenBack (workerName worker ownerId) s'.leases) := by
  refine ⟨fun hnot => givenBack_of_unowned ?_, fun hlasting hinterrupted hback =>
    interrupted_owned hlasting hdriver hnew hinterrupted hback.unowned⟩
  cases call with
  | advance runId ownerId maximumTasks =>
    cases hdriver
    exact advance_unowned hnew h hnot
  | resume runId ownerId maximumTasks idempotencyKey =>
    cases hdriver
    exact resume_unowned hnew h hnot
  | _ => cases hdriver

end Driving

/-! ## A read that fails -/

/-- Everything answers well, except that the run cannot be read where it is so decided. -/
def flakyHandle :
    Handler (StoreOp CheckpointEnvelope) Exn Bool (StoreState CheckpointEnvelope)
  | _, .sql (.getRun _), true, s => (.error (.of .database "the database is unavailable"), s)
  | _, op, _, s => handle plainCodec plainAgent.sha256Digest _ op (plainSupply "r") s

theorem names_handle {β : Type} {op : StoreOp CheckpointEnvelope β}
    {s : StoreState CheckpointEnvelope} :
    Names "worker-r" β op
      (handle plainCodec plainAgent.sha256Digest β op (plainSupply "r") s).1 := by
  cases op with
  | sql op =>
    cases op <;> first
      | trivial
      | rintro rfl
        rfl
  | _ => trivial

theorem flakyHandle_custody (β : Type) (op : StoreOp CheckpointEnvelope β)
    (s : StoreState CheckpointEnvelope) (x : Except Exn β) (s' : StoreState CheckpointEnvelope)
    (h : flakyHandle.exec β op s x s') :
    custodyExec plainCodec plainAgent.sha256Digest True "worker-r" workerId β op s x s' := by
  refine ⟨s, Others.refl _ _ _, ?_⟩
  obtain ⟨fails, h⟩ := h
  unfold flakyHandle at h
  split at h
  · obtain ⟨rfl, rfl⟩ := Prod.mk.inj h
    exact .inr ⟨fun hreliable => hreliable, _, rfl, rfl⟩
  · refine .inl ⟨⟨plainSupply "r", h⟩, ?_⟩
    have hnames := @names_handle _ op s
    rwa [h] at hnames

/-- The run is read by its owner, the lease is acquired, and the run cannot be read again. -/
theorem advance_keeps_lease : ∃ e s',
    Runs (custodyExec plainCodec plainAgent.sha256Digest True "worker-r"
      (workerName "worker-r" "owner"))
      ((ServiceCall.advance "run" "owner" none).program plainAgent) runningStore (.error e) s' ∧
    Unowned (workerName "worker-r" "owner") runningStore.leases ∧
    ¬ GivenBack (workerName "worker-r" "owner") s'.leases := by
  have hplay : ∃ e s', flakyHandle.play
      ((ServiceCall.advance "run" "owner" none).program plainAgent)
      [false, false, false, false, false, true] runningStore = some (.error e, s') ∧
      (s'.leases "run").map LeaseRecord.ownerId = some (workerName "worker-r" "owner") :=
    ⟨_, _, rfl, by decide +kernel⟩
  obtain ⟨e, s', hplay, howner⟩ := hplay
  refine ⟨e, s', (Handler.play_runs _ hplay).mono flakyHandle_custody, ?_, fun hback => ?_⟩
  · exact fun _ _ hrow => nomatch hrow
  · obtain ⟨row, hrow, hname⟩ := Option.map_eq_some_iff.mp howner
    exact hback.unowned "run" row hrow hname

/-- A run that is not to be advanced yet. -/
def untouchedStore : StoreState CheckpointEnvelope :=
  { plainStore with runs := ⟨[{ plainRun with state := .CREATED }], by decide⟩ }

/-- An advance of it acquires the lease and gives it back. -/
theorem lease_given_back_iff_created : ∃ s',
    Runs (custodyExec plainCodec plainAgent.sha256Digest True "worker-r"
      (workerName "worker-r" "owner"))
      ((ServiceCall.advance "run" "owner" none).program plainAgent) untouchedStore (.ok ()) s' ∧
    (¬ Interrupted plainAgent (custodyExec plainCodec plainAgent.sha256Digest True "worker-r"
      (workerName "worker-r" "owner")) (.advance "run" "owner" none) untouchedStore (.ok ()) s' →
      GivenBack (workerName "worker-r" "owner") s'.leases) := by
  have hplay : ∃ s', flakyHandle.play ((ServiceCall.advance "run" "owner" none).program plainAgent)
      (List.replicate 9 false) untouchedStore = some (.ok (), s') := ⟨_, rfl⟩
  obtain ⟨s', hplay⟩ := hplay
  have hrun := (Handler.play_runs _ hplay).mono
    (@flakyHandle_custody (workerName "worker-r" "owner"))
  have hnew : Unowned (workerName "worker-r" "owner") untouchedStore.leases :=
    fun _ _ hrow => nomatch hrow
  exact ⟨s', hrun, (lease_given_back_iff rfl hnew hrun).1⟩

end DurableAgent.Orchestration
