import DurableAgent.Application.Service
import DurableAgent.Recovery.Resuming

/-!
# Every run of the service keeps the lifecycle

Any family of service calls, interleaved call by call of the store, with calls that may fail and
callers that may stop: each step is a move of the ledger.
-/

namespace DurableAgent.Orchestration

open Library Library.Prog Store

-- Reducing a call of the service would otherwise reduce the text that it strips.
attribute [local irreducible] strip

variable {Text ι : Type} {g : Assumed} {w : Watch} {codec : Codec Text}
  {sha256Digest : String → String}
  {s s' : StoreState Text} {A : Agent Text}

/-! ## Creation -/

/-- A run that was found or stored. -/
def KnownRun (run : RunRecord) (l : Ledger) : Prop := l.RunCopy run

theorem persists_knownRun (run : RunRecord) : Persists g (KnownRun run) := persists_runCopy run

theorem does_referencedRun {key : IdempotencyKey} :
    Does g w codec sha256Digest (referencedRun key) KnownRun s := by
  unfold referencedRun
  refine Does.seq (persists_const True) trivial (does_findRun key.resourceId)
    fun found s₁ _ _ hfound => ?_
  cases found with
  | some run => exact Does.pure (persists_knownRun run) (hfound run rfl).copy
  | none => exact Does.raise

theorem does_winningRun {requestHash : String} {key : Option IdempotencyKey} :
    Does g w codec sha256Digest (winningRun requestHash key) KnownRun s := by
  cases key with
  | none => exact Does.raise
  | some key =>
    unfold winningRun
    dsimp only
    split
    · refine Does.seq (persists_const True) trivial (does_findRun key.resourceId)
        fun found s₁ _ _ hfound => ?_
      cases found with
      | some run => exact Does.pure (persists_knownRun run) (hfound run rfl).copy
      | none => exact Does.raise
    · exact Does.raise

theorem does_earlierRun {requestHash : String} {key : Option IdempotencyKey} :
    Does g w codec sha256Digest (earlierRun requestHash key)
      (fun found l => ∀ run, found = some run → KnownRun run l) s := by
  have hkeep (found : Option RunRecord) :
      Persists g fun l => ∀ run, found = some run → KnownRun run l :=
    Persists.forall fun run => (persists_knownRun run).imp
  cases key with
  | none => exact Does.pure (hkeep none) (by simp)
  | some key =>
    unfold earlierRun
    dsimp only
    split
    · exact Does.raise
    · refine Does.seq (persists_const True) trivial does_referencedRun fun run s₁ _ _ hrun => ?_
      refine Does.pure (hkeep (some run)) fun run' h => ?_
      rwa [← Option.some.inj h]

theorem does_storeRun {run : RunRecord} {idempotencyKey requestHash : String}
    (hstate : run.state = .CREATED) :
    Does g w codec sha256Digest (A.storeRun run idempotencyKey requestHash) KnownRun s := by
  unfold Agent.storeRun
  refine Does.after (persists_const True) trivial (calls_sql trivial) fun existing s₁ _ _ => ?_
  refine Does.seq (persists_const True) trivial does_earlierRun fun earlier s₂ _ _ hearlier => ?_
  refine Does.after (Persists.forall fun run => (persists_knownRun run).imp) hearlier
    (calls_sql trivial) fun now s₃ _ hearlier => ?_
  cases earlier with
  | some earlier => exact Does.pure (persists_knownRun earlier) (hearlier earlier rfl)
  | none =>
    unfold insertRun
    refine Does.seq (persists_const True) trivial (does_insertRun hstate)
      fun inserted s₄ _ _ hinserted => ?_
    split
    · next h => exact Does.pure (persists_knownRun run) (hinserted h)
    · refine Does.after (persists_const True) trivial (calls_sql trivial) fun _ s₅ _ _ => ?_
      exact does_winningRun

/-- The rows of a new plan. -/
theorem newTask_fresh {l : Ledger} {plan : PlanSpec} {spec : TaskSpec} (hplan : plan ∈ l.plans.rows)
    (hspec : spec ∈ plan.tasks) :
    NewTask g l { runId := plan.runId, planId := plan.planId, spec := spec } where
  placed := ⟨plan, hplan, ⟨rfl, rfl⟩, hspec⟩
  origin := .inl ⟨rfl, rfl⟩
  facts := taskFacts_fresh rfl rfl

theorem does_planRun_stored {run : RunRecord} {objective : String} {index : String × String}
    (hrun : KnownRun run (ledger s)) :
    Does g w codec sha256Digest (A.planRun run objective index) (fun _ _ => True) s := by
  unfold Agent.planRun
  refine Does.after (persists_knownRun run) hrun calls_publish fun _ s₁ _ hrun => ?_
  refine Does.ofExcept (persists_knownRun run) hrun fun state s₂ htransition _ hrun => ?_
  obtain ⟨rfl, hlegal⟩ := transitionRun_legal htransition
  refine Does.after (persists_knownRun run) hrun (calls_sql trivial) fun now s₃ _ hrun => ?_
  have hplanning (l : Ledger) : RunStep g l run
      (withVersion { run with state := .PLANNING, updatedAt := now } run.version) :=
    { runId := rfl
      version := rfl
      legal := hlegal
      plan := .inl ⟨rfl, by simp [withVersion, Planned]⟩
      completed := by simp [withVersion]
      failed := by simp [withVersion] }
  refine Does.seq (persists_const True) trivial (does_updateRun (persists_const True) trivial hrun
    rfl fun l _ _ _ _ => hplanning l) fun run' s₄ _ _ h => ?_
  obtain ⟨hrun', hcopy⟩ := h
  have hstate : run'.state = .PLANNING := by rw [hrun']; rfl
  refine Does.seq (persists_knownRun run') hcopy (does_planRun run'.runId objective)
    fun plan s₅ _ hcopy hplan => ?_
  refine Does.seq (persists_knownRun run') hcopy (does_savePlan hplan.2)
    fun _ s₆ _ hcopy hstored => ?_
  have hsave : Does g w codec sha256Digest (sql (.saveTasks (plan.tasks.map fun spec =>
      { runId := run'.runId, planId := plan.planId, spec := spec })))
      (fun _ l => Materialized l plan) s₆ := by
    rw [← hplan.1]
    refine does_saveTasks (persists_stored plan) hstored ?_ ?_ ?_ hstored
    · rw [List.map_map]
      exact List.map_id plan.tasks
    · intro task htask
      obtain ⟨spec, hspec, rfl⟩ := List.mem_map.mp htask
      exact ⟨rfl, rfl⟩
    · intro l hl task htask
      obtain ⟨spec, hspec, rfl⟩ := List.mem_map.mp htask
      exact newTask_fresh hl hspec
  refine Does.seq (persists_knownRun run') hcopy hsave fun _ s₇ _ hcopy hmaterialized => ?_
  have hkeep : Persists g fun l => KnownRun run' l ∧ Materialized l plan :=
    (persists_knownRun run').and (persists_materialized plan)
  refine Does.ofExcept hkeep ⟨hcopy, hmaterialized⟩ fun state s₈ htransition _ h => ?_
  obtain ⟨rfl, hlegal'⟩ := transitionRun_legal htransition
  refine Does.after hkeep h (calls_sql trivial) fun now s₉ _ h => ?_
  refine Does.seq (persists_const True) trivial (does_updateRun hkeep h h.1 rfl fun l _ hl _ _ =>
    runStep_activate rfl (.inl hstate) rfl hplan.1 hl.2 hlegal' (by simp)) fun run'' s₁₀ _ _ _ => ?_
  refine Does.after (persists_const True) trivial calls_writeCheckpoint fun _ s₁₁ _ _ => ?_
  refine Does.after (persists_const True) trivial calls_publish fun _ s₁₂ _ _ => ?_
  exact Does.pure (persists_const True) trivial

theorem calls_resolveRepository {repositoryPath : Option String} :
    (A.resolveRepository repositoryPath).Calls Quiet := by
  refine Calls.bind (calls_sql trivial) fun r => ?_
  obtain ⟨repository, isDir⟩ := r
  dsimp only
  split
  · trivial
  · refine Calls.bind (calls_sql trivial) fun r => ?_
    obtain ⟨configuredRoot, -⟩ := r
    dsimp only
    split
    · trivial
    · trivial

theorem does_createRun {objective ownerId idempotencyKey : String}
    {repositoryPath : Option String} :
    Does g w codec sha256Digest (A.createRun objective ownerId idempotencyKey repositoryPath)
      (fun _ _ => True) s := by
  unfold Agent.createRun
  dsimp only
  split
  · exact Does.raise
  · split
    · exact Does.raise
    · refine Does.after (persists_const True) trivial calls_resolveRepository
        fun repository s₁ _ _ => ?_
      have hfind (s : StoreState Text) (requestHash : String) : Does g w codec sha256Digest
          (A.findIdempotentRun ownerId idempotencyKey requestHash) (fun _ _ => True) s := by
        unfold Agent.findIdempotentRun
        refine Does.after (persists_const True) trivial (calls_sql trivial) fun _ _ _ _ => ?_
        exact Does.trivially does_earlierRun
      refine Does.seq (persists_const True) trivial (hfind s₁ _) fun existing s₂ _ _ _ => ?_
      cases existing with
      | some existing => exact Does.pure (persists_const True) trivial
      | none =>
        unfold Agent.createRunUnlessFound Agent.createNewRun
        refine Does.after (persists_const True) trivial (calls_sql trivial)
          fun index s₃ _ _ => ?_
        refine Does.after (persists_const True) trivial (calls_sql trivial) fun _ s₄ _ _ => ?_
        refine Does.after (persists_const True) trivial (calls_sql trivial) fun now s₅ _ _ => ?_
        refine Does.after (persists_const True) trivial (calls_sql trivial) fun runId s₆ _ _ => ?_
        refine Does.seq (persists_const True) trivial (does_storeRun rfl)
          fun run s₇ _ _ hrun => ?_
        split
        · exact Does.pure (persists_const True) trivial
        · exact does_planRun_stored hrun

/-! ## Requests -/

theorem calls_earlierRequest {kind : LifecycleKind} {requestHash : String}
    {key : Option IdempotencyKey} :
    (earlierRequest kind requestHash key : StoreProg Text _).Calls Quiet := by
  cases key with
  | none => trivial
  | some key =>
    unfold earlierRequest
    dsimp only
    split
    · trivial
    · refine Calls.bind (calls_sql trivial) fun found => ?_
      cases found <;> trivial

theorem calls_newRequest {run : RunRecord} {ownerId reason idempotencyKey requestHash : String}
    {kind : LifecycleKind} :
    (A.newRequest run ownerId kind reason idempotencyKey requestHash).Calls Quiet := by
  refine Calls.bind (calls_sql trivial) fun _ => Calls.bind (calls_sql trivial) fun _ => ?_
  refine Calls.bind (calls_sql trivial) fun _ => Calls.bind calls_earlierRequest fun earlier => ?_
  refine Calls.bind (calls_sql trivial) fun _ => ?_
  cases earlier with
  | some earlier => trivial
  | none => exact Calls.bind (calls_sql trivial) fun _ => trivial

theorem calls_findLifecycleRequest {ownerId runId idempotencyKey requestHash : String}
    {kind : LifecycleKind} :
    (A.findLifecycleRequest ownerId runId kind idempotencyKey requestHash).Calls Quiet :=
  Calls.bind (calls_sql trivial) fun _ => calls_earlierRequest

theorem does_ownedRun {runId ownerId : String} :
    Does g w codec sha256Digest (ownedRun runId ownerId) KnownRun s := by
  unfold ownedRun
  refine Does.seq (persists_const True) trivial (does_getRun runId) fun run s₁ _ _ hrun => ?_
  split
  · exact Does.raise
  · exact Does.pure (persists_knownRun run) hrun.copy

theorem does_requestPause {run : RunRecord} (hrun : KnownRun run (ledger s)) :
    Does g w codec sha256Digest (requestPause run) (fun _ _ => True) s := by
  unfold requestPause
  split
  · next hrunning =>
    refine Does.ofExcept (persists_knownRun run) hrun fun state s₁ htransition _ hrun => ?_
    obtain ⟨rfl, hlegal⟩ := transitionRun_legal htransition
    refine Does.after (persists_knownRun run) hrun (calls_sql trivial) fun now s₂ _ hrun => ?_
    have hplanned : Planned run.state := by simp [Planned, hrunning]
    refine Does.seq (persists_const True) trivial (does_updateRun (persists_const True) trivial
      hrun rfl fun l _ _ _ _ => runStep_to rfl rfl hplanned hlegal (by simp) (by simp))
      fun _ s₃ _ _ _ => ?_
    exact Does.pure (persists_const True) trivial
  · exact Does.pure (persists_const True) trivial

theorem does_requestPauseOf {runId ownerId reason idempotencyKey : String} :
    Does g w codec sha256Digest (A.requestPauseOf runId ownerId reason idempotencyKey)
      (fun _ _ => True) s := by
  unfold Agent.requestPauseOf
  refine Does.seq (persists_const True) trivial does_ownedRun fun run s₁ _ _ hrun => ?_
  split
  · exact Does.raise
  · refine Does.after (persists_knownRun run) hrun calls_findLifecycleRequest
      fun existing s₂ _ hrun => ?_
    cases existing with
    | some existing => exact Does.pure (persists_const True) trivial
    | none =>
      unfold Agent.pauseUnlessFound
      dsimp only
      split
      · exact Does.raise
      · refine Does.after (persists_knownRun run) hrun calls_newRequest fun request s₃ _ hrun => ?_
        refine Does.seq (persists_const True) trivial (does_requestPause hrun)
          fun _ s₄ _ _ _ => ?_
        refine Does.after (persists_const True) trivial calls_publish fun _ s₅ _ _ => ?_
        exact Does.pure (persists_const True) trivial

theorem calls_requestCancelOf {runId ownerId reason idempotencyKey : String} :
    (A.requestCancelOf runId ownerId reason idempotencyKey).Calls Quiet := by
  refine Calls.bind ?_ fun run => ?_
  · refine Calls.bind (calls_sql trivial) fun run => ?_
    split <;> trivial
  · split
    · trivial
    · refine Calls.bind calls_findLifecycleRequest fun existing => ?_
      cases existing with
      | some existing => trivial
      | none =>
        unfold Agent.cancelUnlessFound
        dsimp only
        split
        · trivial
        · exact Calls.bind calls_newRequest fun _ => Calls.bind calls_publish fun _ => trivial

/-! ## Driving -/

theorem calls_newWorkerId {ownerId : String} :
    (newWorkerId ownerId : StoreProg Text _).Calls Quiet :=
  Calls.bind (calls_sql trivial) fun _ => trivial

theorem does_advanceOwned {runId ownerId : String} {maximumTasks : Option Int} :
    Does g w codec sha256Digest (A.advanceOwned runId ownerId maximumTasks) (fun _ _ => True) s := by
  unfold Agent.advanceOwned
  refine Does.seq (persists_const True) trivial does_ownedRun fun _ s₁ _ _ _ => ?_
  refine Does.after (persists_const True) trivial calls_newWorkerId fun workerId s₂ _ _ => ?_
  exact does_advance

theorem calls_claimAction {ownerId action idempotencyKey requestHash resourceId : String} :
    (A.claimAction ownerId action idempotencyKey requestHash resourceId).Calls Quiet := by
  refine Calls.bind (calls_sql trivial) fun existing => Calls.bind (calls_sql trivial) fun now => ?_
  cases existing with
  | some existing =>
    unfold claimUnlessFound priorIntent
    dsimp only
    split
    · trivial
    · split <;> trivial
  | none =>
    refine Calls.bind (calls_sql trivial) fun inserted => ?_
    split
    · trivial
    · refine Calls.bind (calls_sql trivial) fun existing => ?_
      cases existing with
      | none => trivial
      | some existing =>
        unfold concurrentIntent
        dsimp only
        split <;> trivial

theorem calls_isReplay {runId ownerId : String} {maximumTasks : Option Int}
    {idempotencyKey : Option String} :
    (A.isReplay runId ownerId maximumTasks idempotencyKey).Calls Quiet := by
  cases idempotencyKey with
  | none => trivial
  | some key =>
    unfold Agent.isReplay
    dsimp only
    split
    · trivial
    · exact Calls.bind calls_claimAction fun _ => trivial

theorem does_currentResult {run : RunRecord} :
    Does g w codec sha256Digest (currentResult run) (fun _ _ => True) s := by
  unfold currentResult
  refine Does.after (persists_const True) trivial calls_getTasks fun tasks s₁ _ _ => ?_
  exact Does.pure (persists_const True) trivial

theorem does_replayConflict {runId ownerId : String} {replay : Bool} {e : Exn} :
    Does g w codec sha256Digest (replayConflict runId ownerId replay e) (fun _ _ => True) s := by
  unfold replayConflict
  split
  · split
    · exact Does.seq (persists_const True) trivial does_ownedRun fun run s₁ _ _ _ =>
        does_currentResult
    · exact Does.raise
  · exact Does.raise

theorem does_resumeOwned {runId ownerId : String} {maximumTasks : Option Int}
    {idempotencyKey : Option String} :
    Does g w codec sha256Digest (A.resumeOwned runId ownerId maximumTasks idempotencyKey)
      (fun _ _ => True) s := by
  unfold Agent.resumeOwned
  refine Does.seq (persists_const True) trivial does_ownedRun fun run s₁ _ _ _ => ?_
  refine Does.after (persists_const True) trivial calls_isReplay fun replay s₂ _ _ => ?_
  split
  · exact does_currentResult
  · refine Does.after (persists_const True) trivial calls_newWorkerId fun workerId s₃ _ _ => ?_
    have hdrive : Does g w codec sha256Digest (A.resumeAndAdvance runId workerId maximumTasks)
        (fun _ _ => True) s₃ := by
      unfold Agent.resumeAndAdvance
      exact Does.seq (persists_const True) trivial does_resume fun _ s₄ _ _ _ => does_advance
    exact Does.tryCatch hdrive (persists_const True) trivial fun e s₄ _ _ => does_replayConflict

/-- Every call of the service moves the ledger only. -/
theorem does_program (call : ServiceCall) :
    Does g w codec sha256Digest (call.program A) (fun _ _ => True) s := by
  have hdone {α : Type} {p : StoreProg Text α} (hp : Does g w codec sha256Digest p (fun _ _ => True) s) :
      Does g w codec sha256Digest (p >>= fun _ => pure ()) (fun _ _ => True) s :=
    Does.seq (persists_const True) trivial hp fun _ _ _ _ _ => Does.pure (persists_const True) trivial
  cases call with
  | createRun => exact hdone does_createRun
  | advance => exact hdone does_advanceOwned
  | pause => exact hdone does_requestPauseOf
  | resume => exact hdone does_resumeOwned
  | cancel =>
    exact hdone (Does.trivially (does_calls calls_requestCancelOf (ends_true _)))

/-! ## Pools of service calls -/

/-- One process of a family, with the call that it is asked for. -/
structure Process (Text : Type) where
  agent : Agent Text
  call : ServiceCall

/-- The processes before their first steps. -/
def servicePool (processes : ι → Process Text) (shared : StoreState Text) :
    Pool (StoreOp Text) Exn (StoreState Text) ι :=
  ⟨fun i => (processes i).call.program (processes i).agent, shared⟩

/-- The store of a fresh database. -/
def freshStore (journal : Tools.World) : StoreState Text :=
  { runs := .empty, plans := .empty, tasks := .empty, attempts := .empty, requests := .empty
    keys := .empty, errors := [], reports := [], leases := fun _ => none
    checkpoints := ⟨[], []⟩, tools := journal }

variable [DecidableEq ι] {P P' : Pool (StoreOp Text) Exn (StoreState Text) ι}
  {processes : ι → Process Text}

/-- No two processes are the ones to open the same attempt. -/
def Apart (g : Assumed) (watch : ι → Watch) : Prop :=
  g.numbered → ∀ i j n, i ≠ j → (watch i).opens n → ¬ (watch j).opens n

variable {watch : ι → Watch}

omit [DecidableEq ι] in
theorem compatible_lifecycle (hapart : Apart g watch) :
    Compatible fun i => (lifecycle g (watch i) : Contract (StoreOp Text) (StoreState Text)) where
  inv _ _ _ h := h
  rely i j _ _ hne h _ := by
    refine ⟨.single h.1, fun a ha => ?_⟩
    rcases h.2 a ha with hmay | hthere
    · exact .inl fun hn => hapart hn i j _ hne (hmay hn)
    · exact .inr hthere

/-- The processes of a pool, wherever they are, move the ledger only. -/
def Served (g : Assumed) (watch : ι → Watch) (codec : Codec Text) (sha256Digest : String → String)
    (P : Pool (StoreOp Text) Exn (StoreState Text) ι) : Prop :=
  PoolMeets (fun i => lifecycle g (watch i)) (fun i => assumedExec g (watch i) codec sha256Digest)
    (fun _ => onOk fun _ _ => True) P

omit [DecidableEq ι] in
theorem served_servicePool {shared : StoreState Text} (hsound : Sound g (ledger shared)) :
    Served g watch codec sha256Digest (servicePool processes shared) :=
  fun i => ⟨hsound, does_program (processes i).call⟩

/-- Interleavings of the steps that the assumption admits. -/
abbrev AdmittedRuns (g : Assumed) (watch : ι → Watch) (codec : Codec Text)
    (sha256Digest : String → String) :
    Pool (StoreOp Text) Exn (StoreState Text) ι → Pool (StoreOp Text) Exn (StoreState Text) ι →
      Prop :=
  ThreadRuns fun i => assumedExec g (watch i) codec sha256Digest

theorem Served.runs (hapart : Apart g watch) (h : Served g watch codec sha256Digest P)
    (hrun : AdmittedRuns g watch codec sha256Digest P P') :
    Served g watch codec sha256Digest P' :=
  PoolMeets.runs (compatible_lifecycle hapart) h hrun

/-- Each step of a pool is one move. -/
theorem Served.move (hapart : Apart g watch) (h : Served g watch codec sha256Digest P) {i : ι}
    (hstep : ThreadStep (fun i => assumedExec g (watch i) codec sha256Digest) P i P') :
    Move g (ledger P.shared) (ledger P'.shared) :=
  (PoolMeets.step (compatible_lifecycle hapart) h hstep).1.1

/-- Runs of a pool are sequences of moves. -/
theorem Served.evolves (hapart : Apart g watch) (h : Served g watch codec sha256Digest P)
    (hrun : AdmittedRuns g watch codec sha256Digest P P') :
    Evolves g (ledger P.shared) (ledger P'.shared) := by
  induction hrun with
  | refl => exact .refl
  | tail hprefix hlast ih =>
    obtain ⟨i, hlast⟩ := hlast
    exact ih.tail ((h.runs hapart hprefix).move hapart hlast)

end DurableAgent.Orchestration
