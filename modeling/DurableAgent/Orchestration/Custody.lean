import DurableAgent.Persistence.LeaseCustody
import DurableAgent.Orchestration.Dispatching
import DurableAgent.Recovery.Manager

/-!
# The lease through the loop

Where the lease of a worker is while the loop runs among other processes and calls fail: in
custody up to the end of the loop, and gone after it, however the loop ends. Only between the
acquisition and the `try` clause is there a way out that keeps it.
-/

namespace DurableAgent.Orchestration

open Library Library.Prog Store Leases

/-- What does not fail here: the release of a lease, and the timer of a batch, which is no call
of the store. -/
def Reliable {Text : Type} : (β : Type) → StoreOp Text β → Prop
  | _, .lease op => Deletes _ op
  | _, .sql .heartbeatDue => True
  | _, _ => False

/-- The identifier of a new worker is the one given. -/
def Names {Text : Type} (worker : String) : (β : Type) → StoreOp Text β → Except Exn β → Prop
  | _, .sql (.newId kind), x => kind = "worker" → x = .ok worker
  | _, _, _ => True

section Exec

variable {Text : Type} (codec : Codec Text) (sha256Digest : String → String)

/-- The calls of one worker, each of which may fail unless it is reliable. -/
def faultyCall (worker : String) : Exec (StoreOp Text) Exn (StoreState Text) :=
  fun β op s x s' =>
    ((handle codec sha256Digest).exec β op s x s' ∧ Names worker β op x) ∨
      (¬ Reliable β op ∧ ∃ e, x = .error e ∧ s' = s)

/-- What other processes do between the calls of a worker: anything, except to its leases. -/
def OtherProcesses (lasting : Prop) (workerId : String) (s s' : StoreState Text) : Prop :=
  Others lasting workerId s.leases s'.leases

/-- The calls of one worker among those of other processes. -/
def custodyExec (lasting : Prop) (worker workerId : String) :
    Exec (StoreOp Text) Exn (StoreState Text) :=
  (faultyCall codec sha256Digest worker).disturbed (OtherProcesses lasting workerId)

end Exec

/-- The call is not on the leases. -/
def Leaseless {Text : Type} : (β : Type) → StoreOp Text β → Prop
  | _, .lease _ => False
  | _, _ => True

variable {Text α : Type} {codec : Codec Text} {sha256Digest : String → String} {lasting : Prop}
  {worker workerId runId : String} {s s' : StoreState Text} {A : Agent Text}
  {K : LeaseTable → Prop} {lease : LeaseRecord} {run : RunRecord} {plan : PlanSpec}
  {tasks : List TaskRecord}

theorem leaseless_sql {op : SqlOp α} : (sql op : StoreProg Text α).Calls Leaseless :=
  calls_perform.mpr trivial

theorem leaseless_of_within {E : List Effect} {p : StoreProg Text α} (hp : p.Calls (Within E))
    (hE : (E.all fun effect => effect ≠ .lease) = true) : p.Calls Leaseless := by
  refine calls_of_within hp hE fun δ op hop => ?_
  cases op with
  | lease op => simp [effectOf] at hop
  | _ => trivial

/-- What the others leave of the leases, a program leaves that is not about them. -/
theorem runs_leaseless {p : StoreProg Text α} {r : Except Exn α} (hp : p.Calls Leaseless)
    (hK : Stable (Others lasting workerId) K)
    (h : Runs (custodyExec codec sha256Digest lasting worker workerId) p s r s')
    (hs : K s.leases) : K s'.leases := by
  have hstable : Stable (OtherProcesses lasting workerId) fun s : StoreState Text => K s.leases :=
    fun s₁ s₂ hothers => @hK s₁.leases s₂.leases hothers
  refine h.kept_among hp hstable ?_ hs
  rintro δ op s x s' hop hs (⟨⟨t, hhandle⟩, -⟩ | ⟨-, e, -, rfl⟩)
  · have hlease : ∀ leaseOp, op ≠ .lease leaseOp := by
      rintro leaseOp rfl
      exact hop
    have hleases := @handle_leases Text codec sha256Digest δ op t s hlease
    rw [hhandle] at hleases
    exact hleases.symm ▸ hs
  · exact hs

/-- A program on the leases runs among others on their table. -/
theorem runs_ofLease {p : Prog LeaseOp Exn α} {r : Except Exn α}
    (h : Runs (custodyExec codec sha256Digest lasting worker workerId) (ofLease p) s r s') :
    Runs (amongOthers lasting workerId) p s.leases r s'.leases := by
  induction p generalizing s with
  | done x =>
    obtain ⟨rfl, rfl⟩ := runs_done.mp h
    exact .done _ _
  | halt => cases h
  | call op k ih =>
    obtain ⟨x, s₂, ⟨s₁, hothers, hop⟩, hrest⟩ := runs_call.mp h
    refine .call ⟨s₁.leases, hothers, ?_⟩ (ih x hrest)
    rcases hop with ⟨⟨t, hhandle⟩, -⟩ | ⟨hfails, e, rfl, rfl⟩
    · obtain ⟨hx, hs⟩ := Prod.mk.inj hhandle
      rw [← hx, ← hs]
      exact .inl ⟨t.now, rfl⟩
    · exact .inr ⟨hfails, e, rfl, rfl⟩

/-! ## The batch -/

/-- The lease of the worker on its run is in custody. -/
structure Custody (workerId runId : String) (lease : LeaseRecord) (s : StoreState Text) : Prop where
  ofRun : lease.runId = runId
  ofWorker : lease.ownerId = workerId
  inCustody : InCustody lease s.leases

theorem Custody.leaseless {p : StoreProg Text α} {r : Except Exn α}
    (hs : Custody workerId runId lease s) (hp : p.Calls Leaseless)
    (h : Runs (custodyExec codec sha256Digest lasting worker workerId) p s r s') :
    Custody workerId runId lease s' :=
  ⟨hs.ofRun, hs.ofWorker, runs_leaseless hp (stable_inCustody hs.ofWorker) h hs.inCustody⟩

theorem Custody.confined (hs : Custody workerId runId lease s) :
    Confined workerId runId s.leases := by
  have h := hs.inCustody.confined
  rwa [hs.ofWorker, hs.ofRun] at h

theorem Custody.acquire {lease' : LeaseRecord} (hs : Confined workerId runId s.leases)
    (h : Runs (custodyExec codec sha256Digest lasting worker workerId)
      (A.acquireLease runId workerId) s (.ok lease') s') : Custody workerId runId lease' s' := by
  obtain ⟨⟨hrun, howner⟩, hcustody, -⟩ := acquireLease_inCustody hs (runs_ofLease h)
  exact ⟨hrun, howner, hcustody⟩

/-- A renewal leaves a lease in custody: the new one, or the old one where it raises. -/
theorem Custody.renew {r : Except Exn LeaseRecord} (hs : Custody workerId runId lease s)
    (h : Runs (custodyExec codec sha256Digest lasting worker workerId)
      (attempt (A.renewLease lease)) s (.ok r) s') :
    (∃ lease', r = .ok lease' ∧ Custody workerId runId lease' s') ∨
      ((∃ e, r = .error e) ∧ Custody workerId runId lease s') := by
  obtain ⟨hrun, rfl, hcustody⟩ := hs
  rcases runs_tryCatch.mp h with ⟨a, ha, hok⟩ | ⟨e, s₁, hraised, hdone⟩
  · obtain ⟨lease', s₁, hrenew, hdone⟩ := runs_bind_ok.mp hok
    obtain ⟨hr, rfl⟩ := runs_pure.mp hdone
    cases ha
    cases hr
    obtain ⟨⟨hrun', howner'⟩, hcustody'⟩ := renewLease_inCustody hcustody (runs_ofLease hrenew)
    exact .inl ⟨lease', rfl, hrun'.trans hrun, howner', hcustody'⟩
  · obtain ⟨hr, rfl⟩ := runs_pure.mp hdone
    cases hr
    rcases runs_bind_error.mp hraised with hrenew | ⟨lease', s₂, -, hdone⟩
    · exact .inr ⟨⟨e, rfl⟩, hrun, rfl, renewLease_raised hcustody (runs_ofLease hrenew)⟩
    · cases hdone

theorem Custody.release {r : Except Exn Unit} (hs : Custody workerId runId lease s)
    (h : Runs (custodyExec codec sha256Digest lasting worker workerId)
      (releaseLease lease) s r s') :
    Unowned workerId s'.leases := by
  obtain ⟨hrun, rfl, hcustody⟩ := hs
  exact releaseLease_unowned hcustody (runs_ofLease h)

theorem attempt_returns {exec : Exec (StoreOp Text) Exn (StoreState Text)} {p : StoreProg Text α}
    {r : Except Exn (Except Exn α)} (h : Runs exec (attempt p) s r s') : ∃ x, r = .ok x := by
  rcases runs_tryCatch.mp h with ⟨x, hr, -⟩ | ⟨e, s₁, -, hdone⟩
  · exact ⟨x, hr⟩
  · exact ⟨.error e, (runs_pure.mp hdone).1⟩

theorem heartbeatDue_returns {r : Except Exn Bool}
    (h : Runs (custodyExec codec sha256Digest lasting worker workerId)
      (sql .heartbeatDue) s r s') : ∃ due, r = .ok due := by
  obtain ⟨s₁, -, ⟨⟨t, hhandle⟩, -⟩ | ⟨hfails, -⟩⟩ := runs_perform.mp h
  · exact ⟨t.heartbeatDue, (Prod.mk.inj hhandle).1.symm⟩
  · exact absurd trivial hfails

/-- The renewals of a batch end with a lease in custody, and never raise. -/
theorem Custody.heartbeat {fuel : Nat} {r : Except Exn (LeaseRecord × Except Exn Unit)}
    (hs : Custody workerId runId lease s)
    (h : Runs (custodyExec codec sha256Digest lasting worker workerId) (A.heartbeat fuel lease)
      s r s') :
    ∃ lease' beat, r = .ok (lease', beat) ∧ Custody workerId runId lease' s' := by
  induction fuel generalizing lease s with
  | zero => cases h
  | succ fuel ih =>
    rcases runs_bind.mp h with ⟨due, s₁, hdue, h⟩ | ⟨e, -, hdue⟩
    · have h₁ := hs.leaseless leaseless_sql hdue
      split at h
      · rcases runs_bind.mp h with ⟨x, s₂, hrenew, hrest⟩ | ⟨e, -, hrenew⟩
        · rcases h₁.renew hrenew with ⟨lease', rfl, h₂⟩ | ⟨⟨e, rfl⟩, h₂⟩
          · exact ih h₂ hrest
          · obtain ⟨hr, rfl⟩ := runs_pure.mp hrest
            exact ⟨lease, .error e, hr, h₂⟩
        · obtain ⟨x, hx⟩ := attempt_returns hrenew
          cases hx
      · obtain ⟨hr, rfl⟩ := runs_pure.mp h
        exact ⟨lease, .ok (), hr, h₁⟩
    · obtain ⟨due, hx⟩ := heartbeatDue_returns hdue
      cases hx

theorem executeOne_leaseless {task : TaskRecord} :
    (executeOne run task : StoreProg Text _).Calls Leaseless :=
  Calls.tryCatch (Calls.bind leaseless_sql fun _ => trivial) fun _ => trivial

/-- What the workers raise is among their results. -/
theorem executeAll_returns {exec : Exec (StoreOp Text) Exn (StoreState Text)}
    {r : Except Exn (List WorkerResult)} (h : Runs exec (tasks.mapM' (executeOne run)) s r s') :
    ∃ results, r = .ok results := by
  induction tasks generalizing s r with
  | nil => exact ⟨[], (runs_pure.mp h).1⟩
  | cons task rest ih =>
    rcases runs_bind.mp h with ⟨x, s₁, -, h₁⟩ | ⟨e, -, hraised⟩
    · rcases runs_bind.mp h₁ with ⟨xs, s₂, -, h₂⟩ | ⟨e, -, hraised⟩
      · exact ⟨x :: xs, (runs_pure.mp h₂).1⟩
      · obtain ⟨xs, hx⟩ := ih hraised
        cases hx
    · obtain ⟨x, hx⟩ := attempt_returns hraised
      cases hx

/-- A batch ends with a lease in custody. -/
theorem Custody.executeBatch {r : Except Exn (LeaseRecord × Except Exn (List WorkerResult))}
    (hs : Custody workerId runId lease s)
    (h : Runs (custodyExec codec sha256Digest lasting worker workerId)
      (A.executeBatch run tasks lease) s r s') :
    ∃ lease' results, r = .ok (lease', results) ∧ Custody workerId runId lease' s' := by
  rcases runs_bind.mp h with ⟨⟨lease₁, beat⟩, s₁, hbeat, h⟩ | ⟨e, -, hbeat⟩
  swap
  · obtain ⟨lease', beat, hx, -⟩ := hs.heartbeat hbeat
    cases hx
  obtain ⟨lease', beat', hx, h₁⟩ := hs.heartbeat hbeat
  cases hx
  rcases runs_bind.mp h with ⟨results, s₂, hresults, h⟩ | ⟨e, -, hresults⟩
  swap
  · obtain ⟨results, hx⟩ := executeAll_returns hresults
    cases hx
  have h₂ := h₁.leaseless (Calls.mapM' (fun _ => executeOne_leaseless) tasks) hresults
  cases beat with
  | error e =>
    obtain ⟨hr, rfl⟩ := runs_pure.mp h
    exact ⟨lease₁, .error e, hr, h₂⟩
  | ok u =>
    rcases runs_bind.mp h with ⟨x, s₃, hrenew, hrest⟩ | ⟨e, -, hrenew⟩
    · rcases h₂.renew hrenew with ⟨lease', rfl, h₃⟩ | ⟨⟨e, rfl⟩, h₃⟩
      · obtain ⟨hr, rfl⟩ := runs_pure.mp hrest
        exact ⟨lease', .ok results, hr, h₃⟩
      · obtain ⟨hr, rfl⟩ := runs_pure.mp hrest
        exact ⟨lease₁, .error e, hr, h₃⟩
    · obtain ⟨x, hx⟩ := attempt_returns hrenew
      cases hx

/-! ## The loop -/

/-- A region under the lease returns with it, and raises without it. -/
theorem Custody.releasing {p : StoreProg Text α} {r : Except Exn α}
    (hs : Custody workerId runId lease s) (hp : p.Calls Leaseless)
    (h : Runs (custodyExec codec sha256Digest lasting worker workerId) (releasing lease p)
      s r s') :
    (∃ a, r = .ok a ∧ Custody workerId runId lease s') ∨
      ((∃ e, r = .error e) ∧ Unowned workerId s'.leases) := by
  rcases runs_tryCatch.mp h with ⟨a, hr, hok⟩ | ⟨e, s₁, hraised, hrelease⟩
  · exact .inl ⟨a, hr, hs.leaseless hp hok⟩
  · have h₁ := hs.leaseless hp hraised
    rcases runs_bind.mp hrelease with ⟨u, s₂, hrelease, hdone⟩ | ⟨e, hr, hrelease⟩
    · obtain ⟨hr, rfl⟩ := runs_raise.mp hdone
      exact .inr ⟨⟨e, hr⟩, h₁.release hrelease⟩
    · exact .inr ⟨⟨e, hr⟩, h₁.release hrelease⟩

/-- The end of the loop: the lease is released, whatever comes of it. -/
theorem Custody.ended {a : α} {r : Except Exn α} (hs : Custody workerId runId lease s)
    (h : Runs (custodyExec codec sha256Digest lasting worker workerId)
      (releaseLease lease >>= fun _ => pure a) s r s') : Unowned workerId s'.leases := by
  rcases runs_bind.mp h with ⟨u, s₁, hrelease, hdone⟩ | ⟨e, -, hrelease⟩
  · obtain ⟨-, rfl⟩ := runs_pure.mp hdone
    exact hs.release hrelease
  · exact hs.release hrelease

theorem turn_leaseless {maximumTasks : Option Nat} {p : Progress} :
    (A.turn plan maximumTasks p).Calls Leaseless :=
  leaseless_of_within within_turn (by decide)

theorem settleBatch_leaseless {p : Progress} {started : List Started}
    {results : Except Exn (List WorkerResult)} :
    (A.settleBatch plan p started results).Calls Leaseless :=
  leaseless_of_within within_settleBatch (by decide)

/-- However the loop ends, no lease of the worker is left. -/
theorem Custody.loop {maximumTasks : Option Nat} {fuel : Nat} {p : Progress}
    {r : Except Exn Progress} (hs : Custody workerId runId lease s)
    (h : Runs (custodyExec codec sha256Digest lasting worker workerId)
      (A.loop plan maximumTasks fuel lease p) s r s') : Unowned workerId s'.leases := by
  induction fuel generalizing lease p s with
  | zero => cases h
  | succ fuel ih =>
    rcases runs_bind.mp h with ⟨turn, s₁, hturn, h⟩ | ⟨e, -, hturn⟩
    swap
    · rcases hs.releasing turn_leaseless hturn with ⟨_, ⟨⟩, -⟩ | ⟨-, h₁⟩
      exact h₁
    rcases hs.releasing turn_leaseless hturn with ⟨_, -, h₁⟩ | ⟨⟨e, ⟨⟩⟩, -⟩
    cases turn with
    | ended p => exact h₁.ended h
    | again p => exact ih h₁ h
    | batch p started =>
      rcases runs_bind.mp h with ⟨⟨lease₂, results⟩, s₂, hbatch, h⟩ | ⟨e, -, hbatch⟩
      swap
      · obtain ⟨_, _, hx, -⟩ := h₁.executeBatch hbatch
        cases hx
      obtain ⟨_, _, hx, h₂⟩ := h₁.executeBatch hbatch
      cases hx
      rcases runs_bind.mp h with ⟨⟨p', ends⟩, s₃, hsettle, h⟩ | ⟨e, -, hsettle⟩
      swap
      · rcases h₂.releasing settleBatch_leaseless hsettle with ⟨_, ⟨⟩, -⟩ | ⟨-, h₃⟩
        exact h₃
      rcases h₂.releasing settleBatch_leaseless hsettle with ⟨_, -, h₃⟩ | ⟨⟨e, ⟨⟩⟩, -⟩
      cases ends with
      | true => exact h₃.ended h
      | false => exact ih h₃ h

/-! ## Before the loop -/

/-- What `advance` has read before its `try` clause. -/
inductive Loaded where
  | shut (run : RunRecord)
  | going (run : RunRecord) (plan : PlanSpec) (tasks : List TaskRecord)

def loadGoing (run : RunRecord) : StoreProg Text Loaded := do
  let plan ← sql (.getPlan run.runId)
  let tasks ← getTasks .advance run.runId
  sql (.latestContext run.runId)
  pure (.going run plan tasks)

def loadPaused (run : RunRecord) (pending : Option LifecycleRequest) : StoreProg Text Loaded :=
  if pending.map LifecycleRequest.kind = some .cancel then loadGoing run else pure (.shut run)

/-- The reads of `advance` between the acquisition and the `try` clause. -/
def loadRun (runId : String) : StoreProg Text Loaded := do
  let run ← sql (.getRun runId)
  if run.state = .PAUSED then do
    let pending ← pendingLifecycleRequest runId
    loadPaused run pending
  else if run.state = .RUNNING ∨ run.state = .PAUSE_REQUESTED then loadGoing run
  else pure (.shut run)

/-- `advance` up to its `try` clause. -/
def Agent.enter (A : Agent Text) (runId workerId : String) (maximumTasks : Option Int) :
    StoreProg Text (LeaseRecord × Loaded) :=
  if maximumTasks.any fun maximum => maximum < 0 then
    raise (.other "maximum_tasks cannot be negative")
  else do
    let lease ← A.acquireLease runId workerId
    let loaded ← loadRun runId
    pure (lease, loaded)

/-- `advance` from there on. -/
def Agent.proceed (A : Agent Text) (maximumTasks : Option Int) :
    LeaseRecord × Loaded → StoreProg Text RunAdvanceResult
  | (lease, .shut run) => unadvanced lease run
  | (lease, .going run plan tasks) => do
    let p ← A.loop plan (maximumTasks.map Int.toNat) A.fuel lease { run := run, tasks := tasks }
    pure
      { run := p.run, tasks := p.tasks, tasksExecuted := p.executed
        checkpointId := p.checkpointId, reportId := p.reportId }

theorem loadGoing_proceed {maximumTasks : Option Int} :
    (loadGoing run >>= fun loaded => A.proceed maximumTasks (lease, loaded)) =
      A.advanceRun lease run (maximumTasks.map Int.toNat) := by
  simp only [loadGoing, bind_assoc, pure_bind]
  rfl

/-- The two parts are `advance`. -/
theorem enter_proceed (maximumTasks : Option Int) :
    (A.enter runId workerId maximumTasks >>= A.proceed maximumTasks) =
      A.advance runId workerId maximumTasks := by
  unfold Agent.enter Agent.advance
  split
  · rfl
  · simp only [bind_assoc, pure_bind]
    refine congrArg _ (funext fun lease => ?_)
    unfold loadRun
    rw [bind_assoc]
    refine congrArg _ (funext fun run => ?_)
    by_cases hpaused : run.state = .PAUSED
    · rw [if_pos hpaused, if_pos hpaused, bind_assoc]
      refine congrArg _ (funext fun pending => ?_)
      unfold loadPaused Agent.advancePaused
      split
      · exact loadGoing_proceed
      · rfl
    · rw [if_neg hpaused, if_neg hpaused]
      split
      · exact loadGoing_proceed
      · rfl

theorem loadGoing_leaseless : (loadGoing run : StoreProg Text _).Calls Leaseless := by
  refine Calls.bind leaseless_sql fun plan => ?_
  refine Calls.bind (leaseless_of_within within_getTasks (by decide)) fun tasks => ?_
  exact Calls.bind leaseless_sql fun _ => trivial

theorem loadRun_leaseless : (loadRun runId : StoreProg Text _).Calls Leaseless := by
  refine Calls.bind leaseless_sql fun run => ?_
  split
  · have hpending : (pendingLifecycleRequest runId : StoreProg Text _).Calls Leaseless :=
      leaseless_of_within within_pendingLifecycleRequest (by decide)
    refine Calls.bind hpending fun pending => ?_
    unfold loadPaused
    split
    · exact loadGoing_leaseless
    · trivial
  · split
    · exact loadGoing_leaseless
    · trivial

/-- Once `advance` has got as far as its `try` clause, no lease of the worker is left. -/
theorem Custody.proceed {maximumTasks : Option Int} {loaded : Loaded}
    {r : Except Exn RunAdvanceResult} (hs : Custody workerId runId lease s)
    (h : Runs (custodyExec codec sha256Digest lasting worker workerId)
      (A.proceed maximumTasks (lease, loaded)) s r s') : Unowned workerId s'.leases := by
  cases loaded with
  | shut run =>
    rcases runs_bind.mp h with ⟨u, s₁, hrelease, h⟩ | ⟨e, -, hrelease⟩
    · have h₁ := hs.release hrelease
      have hanswer : (getTasks .answer run.runId : StoreProg Text _).Calls Leaseless :=
        leaseless_of_within within_getTasks (by decide)
      refine runs_leaseless ?_ stable_unowned h h₁
      exact Calls.bind hanswer fun _ => trivial
    · exact hs.release hrelease
  | going run plan tasks =>
    rcases runs_bind.mp h with ⟨p, s₁, hloop, hdone⟩ | ⟨e, -, hloop⟩
    · obtain ⟨-, rfl⟩ := runs_pure.mp hdone
      exact hs.loop hloop
    · exact hs.loop hloop

/-- What `advance` comes to: it does not get as far as its `try` clause, or leaves no lease. -/
theorem Custody.advance {maximumTasks : Option Int} {r : Except Exn RunAdvanceResult}
    (hs : Confined workerId runId s.leases)
    (h : Runs (custodyExec codec sha256Digest lasting worker workerId)
      (A.advance runId workerId maximumTasks) s r s') :
    Unowned workerId s'.leases ∨ ∃ e, r = .error e ∧
      Runs (custodyExec codec sha256Digest lasting worker workerId)
        (A.enter runId workerId maximumTasks) s (.error e) s' := by
  rw [← enter_proceed] at h
  rcases runs_bind.mp h with ⟨⟨lease, loaded⟩, s₁, henter, hproceed⟩ | ⟨e, hr, henter⟩
  swap
  · exact .inr ⟨e, hr, henter⟩
  have hkeep : Custody workerId runId lease s₁ := by
    unfold Agent.enter at henter
    split at henter
    · cases henter
    · obtain ⟨lease', s₂, hacquire, henter⟩ := runs_bind_ok.mp henter
      obtain ⟨loaded', s₃, hload, hdone⟩ := runs_bind_ok.mp henter
      obtain ⟨hpair, rfl⟩ := runs_pure.mp hdone
      cases hpair
      exact (Custody.acquire hs hacquire).leaseless loadRun_leaseless hload
  exact .inl (hkeep.proceed hproceed)

end DurableAgent.Orchestration
