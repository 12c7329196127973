import DurableAgent.Application.Service
import DurableAgent.Orchestration.Effects

/-!
# The fingerprint that a run bears

A run bears the fingerprint that it was created with: no update changes it, and every checkpoint of
the run is written with it, whoever writes it.
-/

namespace DurableAgent.Orchestration

open Library Library.Prog Store

-- Reducing a call of the service would otherwise reduce the text that it strips.
attribute [local irreducible] strip

variable {Text α β : Type} {runId fingerprint : String}

/-- The record bears the fingerprint, if it is one of the run. -/
def Bears (runId fingerprint : String) (run : RunRecord) : Prop :=
  run.runId = runId → run.configurationFingerprint = fingerprint

/-- What is known of an answer while the stored run bears the fingerprint. -/
def BearingAnswer (runId fingerprint : String) :
    (β : Type) → StoreOp Text β → Except Exn β → Prop
  | _, .sql (.getRun _), .ok run => Bears runId fingerprint run
  | _, .sql (.findRun _), .ok (some run) => Bears runId fingerprint run
  | _, .sql (.insertRun run _), .ok true => Bears runId fingerprint run
  | _, .sql (.updateRun _ _), .ok run => Bears runId fingerprint run
  | _, _, _ => True

/-- The call neither changes the fingerprint nor writes a checkpoint with another. -/
def BearingCall (runId fingerprint : String) : (β : Type) → StoreOp Text β → Prop
  | _, .sql (.updateRun run _) => Bears runId fingerprint run
  | _, .checkpoint (.appendCheckpoint envelope _) =>
    envelope.runId = runId → envelope.payload.configurationFingerprint = fingerprint
  | _, _ => True

abbrev BearingCalls (runId fingerprint : String) (p : StoreProg Text α) : Prop :=
  p.Calls (BearingCall runId fingerprint)

/-- The calls of the program keep to the fingerprint; what is known of its results. -/
abbrev Bearing (runId fingerprint : String) (p : StoreProg Text α) (E : α → Prop) : Prop :=
  p.Issues (BearingAnswer runId fingerprint) (BearingCall runId fingerprint) E

/-- Effects among which there is no update of a run and no checkpoint. -/
def Effect.runless : Effect → Bool
  | .updateRun => false
  | .checkpoint => false
  | _ => true

theorem bearing_runless {δ : Type} {op : StoreOp Text δ} (h : (effectOf δ op).runless = true) :
    BearingCall runId fingerprint δ op := by
  cases op with
  | sql op =>
    cases op with
    | updateRun run v => simp [effectOf, sqlEffect, Effect.runless] at h
    | _ => trivial
  | checkpoint op =>
    cases op with
    | appendCheckpoint envelope n => simp [effectOf, checkpointEffect, Effect.runless] at h
    | _ => trivial
  | _ => trivial

theorem bearing_within {E : List Effect} {p : StoreProg Text α} (hp : p.Calls (Within E))
    (hE : E.all Effect.runless = true) : BearingCalls runId fingerprint p :=
  calls_of_within hp hE fun _ _ h => bearing_runless h

theorem bearing_sql {op : SqlOp α}
    (h : BearingCall runId fingerprint α (.sql op : StoreOp Text α)) :
    BearingCalls runId fingerprint (sql op : StoreProg Text α) :=
  calls_perform.mpr h

theorem bearing_publish {run eventType : String} {taskId : Option String}
    {payload : List (String × Json)} :
    BearingCalls runId fingerprint (publish run eventType taskId payload : StoreProg Text Unit) :=
  calls_perform.mpr trivial

theorem getRun_bearing {id : String} :
    Bearing runId fingerprint (sql (.getRun id) : StoreProg Text RunRecord)
      (Bears runId fingerprint) :=
  issues_perform trivial fun _ h => h

theorem updateRun_bearing {run : RunRecord} {v : Nat} (h : Bears runId fingerprint run) :
    Bearing runId fingerprint (sql (.updateRun run v) : StoreProg Text RunRecord)
      (Bears runId fingerprint) :=
  issues_perform h fun _ h => h

/-! ## Checkpoints -/

variable {A : Agent Text} {run : RunRecord} {plan : PlanSpec} {tasks : List TaskRecord}
  {p : Progress} {known : Checkpoints.Known}

/-- The calls of a checkpoint program keep to the fingerprint. -/
abbrev CheckpointBearing (runId fingerprint : String)
    (p : Prog (Checkpoints.CheckpointOp Text) Exn α) : Prop :=
  p.Calls fun δ op => BearingCall runId fingerprint δ (.checkpoint op : StoreOp Text δ)

theorem bearing_checkpoint {op : Checkpoints.CheckpointOp Text α}
    (h : BearingCall runId fingerprint α (.checkpoint op : StoreOp Text α)) :
    CheckpointBearing runId fingerprint (perform op) :=
  calls_perform.mpr h

theorem checkpointBearing_call {op : Checkpoints.CheckpointOp Text α}
    {f : α → Prog (Checkpoints.CheckpointOp Text) Exn β}
    (hop : BearingCall runId fingerprint α (.checkpoint op : StoreOp Text α))
    (hf : ∀ a, CheckpointBearing runId fingerprint (f a)) :
    CheckpointBearing runId fingerprint (perform op >>= f) :=
  Calls.bind (bearing_checkpoint hop) hf

theorem checkpointBearing_recoverLatest {codec : Codec Text} {sha256Digest : String → String}
    {id : String} :
    CheckpointBearing runId fingerprint (Checkpoints.recoverLatest codec sha256Digest id) := by
  refine checkpointBearing_call trivial fun raw => ?_
  split
  · trivial
  · dsimp only
    split
    · split
      · trivial
      · exact checkpointBearing_call trivial fun _ => trivial
    · exact checkpointBearing_call trivial fun _ => trivial

theorem checkpointBearing_recoverTip {codec : Codec Text} {sha256Digest : String → String}
    {id : String} :
    CheckpointBearing runId fingerprint (Checkpoints.recoverTip codec sha256Digest id) := by
  refine checkpointBearing_call trivial fun raw => ?_
  split
  · trivial
  · refine Calls.bind checkpointBearing_recoverLatest fun _ => ?_
    exact checkpointBearing_call trivial fun _ => trivial

theorem checkpointBearing_gatherReferences :
    @CheckpointBearing Text _ runId fingerprint (Checkpoints.gatherReferences run known) := by
  refine Calls.bind ?_ fun manifestHash => ?_
  · unfold Checkpoints.resolveManifestHash
    split
    · exact checkpointBearing_call trivial fun _ => trivial
    · trivial
  · refine checkpointBearing_call trivial fun _ => checkpointBearing_call trivial fun _ => ?_
    refine checkpointBearing_call trivial fun _ => checkpointBearing_call trivial fun _ => ?_
    refine Calls.bind ?_ fun _ => trivial
    unfold Checkpoints.resolveError
    split
    · exact (bearing_checkpoint trivial)
    · trivial

/-- A checkpoint takes its fingerprint from the run. -/
theorem bearing_writeCheckpoint (h : Bears runId fingerprint run) :
    BearingCalls runId fingerprint (A.writeCheckpoint run plan tasks known) := by
  unfold Agent.writeCheckpoint ofCheckpoint
  refine Calls.mapOp_of (φ := fun δ op => BearingCall runId fingerprint δ (.checkpoint op)) ?_
    fun _ _ hop => hop
  refine Calls.bind checkpointBearing_gatherReferences fun references => ?_
  refine Calls.bind checkpointBearing_recoverTip fun tip => ?_
  refine checkpointBearing_call trivial fun _ => checkpointBearing_call trivial fun _ => ?_
  refine Calls.bind (bearing_checkpoint fun hrun => h hrun) fun _ => ?_
  refine checkpointBearing_call trivial fun _ => checkpointBearing_call trivial fun _ => trivial

theorem bearing_checkpointIf {wanted : Bool} (h : Bears runId fingerprint run) :
    BearingCalls runId fingerprint (A.checkpointIf wanted run plan tasks known) := by
  unfold Agent.checkpointIf
  split
  · exact Calls.bind (bearing_writeCheckpoint h) fun _ => trivial
  · trivial

/-! ## The loop -/

/-- Calls of any kind before a part that decides. -/
theorem bearing_then {E : β → Prop} {p : StoreProg Text α} {f : α → StoreProg Text β}
    (hp : BearingCalls runId fingerprint p) (hf : ∀ a, Bearing runId fingerprint (f a) E) :
    Bearing runId fingerprint (p >>= f) E :=
  Calls.then hp hf

theorem bearing_call {E : β → Prop} {op : SqlOp α} {f : α → StoreProg Text β}
    (hop : BearingCall runId fingerprint α (.sql op : StoreOp Text α))
    (hf : ∀ a, Bearing runId fingerprint (f a) E) : Bearing runId fingerprint (sql op >>= f) E :=
  Calls.then (bearing_sql hop) hf

theorem bearing_now {E : β → Prop} {f : Timestamp → StoreProg Text β}
    (hf : ∀ now, Bearing runId fingerprint (f now) E) :
    Bearing runId fingerprint (sql .now >>= f) E :=
  bearing_call trivial hf

theorem bearing_except {E : β → Prop} {r : Except Exn α} {f : α → StoreProg Text β}
    (hf : ∀ a, Bearing runId fingerprint (f a) E) :
    Bearing runId fingerprint (ofExcept r >>= f) E :=
  Calls.then (p := ofExcept r) trivial hf

theorem startBatch_bearing {batch : List TaskRecord} :
    Bearing runId fingerprint (A.startBatch run plan tasks batch)
      fun r => Bears runId fingerprint r.1 := by
  refine bearing_then (bearing_within within_startTasks rfl) fun started => ?_
  refine Issues.bind getRun_bearing fun current hcurrent => bearing_now fun now => ?_
  refine Issues.bind (updateRun_bearing fun h => hcurrent h) fun run' hrun' => ?_
  exact bearing_then (bearing_checkpointIf hrun') fun _ => hrun'

theorem succeedTask_bearing {started : Started} {outcome : TaskOutcome} :
    Bearing runId fingerprint (A.succeedTask plan p started outcome)
      fun p' => Bears runId fingerprint p'.run := by
  refine bearing_except fun state => bearing_now fun now => bearing_call trivial fun task => ?_
  refine Issues.bind getRun_bearing fun current hcurrent => bearing_now fun now => ?_
  refine Issues.bind (updateRun_bearing fun h => hcurrent h) fun run' hrun' => ?_
  refine bearing_call trivial fun saved => ?_
  refine bearing_then (bearing_checkpointIf hrun') fun written => ?_
  exact bearing_then bearing_publish fun _ => hrun'

theorem collectResults_bearing {results : List (Started × WorkerResult)}
    (h : Bears runId fingerprint p.run) :
    Bearing runId fingerprint (A.collectResults plan results p)
      fun r => Bears runId fingerprint r.1.run := by
  induction results generalizing p with
  | nil => exact h
  | cons result rest ih =>
    obtain ⟨started, result⟩ := result
    unfold Agent.collectResults
    split
    · exact Issues.bind (ih h) fun r hr => hr
    · exact Issues.bind succeedTask_bearing fun p' hp' => ih hp'

theorem disposedRun_bearing {d : Disposition} (h : Bears runId fingerprint run) :
    Bearing runId fingerprint (disposedRun d run : StoreProg Text RunRecord)
      (Bears runId fingerprint) := by
  unfold disposedRun
  split
  · exact bearing_except fun state => bearing_now fun now => h
  · split
    · exact bearing_except fun state => h
    · exact h

theorem handleBatchFailures_bearing {failures : List Failure} :
    Bearing runId fingerprint (A.handleBatchFailures run plan tasks failures)
      fun handled => Bears runId fingerprint handled.run := by
  refine bearing_then (bearing_within within_handleFailures rfl) fun d => ?_
  refine bearing_then (bearing_within within_skipAll rfl) fun tasks => ?_
  refine Issues.bind getRun_bearing fun current hcurrent => bearing_now fun now => ?_
  refine Issues.bind (disposedRun_bearing hcurrent) fun disposed hdisposed => ?_
  refine Issues.bind (updateRun_bearing fun h => hdisposed h) fun run' hrun' => ?_
  exact bearing_then (bearing_writeCheckpoint hrun') fun _ => hrun'

theorem pause_bearing {request : LifecycleRequest} :
    Bearing runId fingerprint (A.pause run plan tasks request)
      fun r => Bears runId fingerprint r.1 := by
  refine Issues.bind getRun_bearing fun current hcurrent => bearing_except fun state => ?_
  refine bearing_now fun now => ?_
  refine Issues.bind (updateRun_bearing fun h => hcurrent h) fun run' hrun' => ?_
  refine bearing_call trivial fun _ => ?_
  refine bearing_then (bearing_writeCheckpoint hrun') fun _ => ?_
  exact bearing_then bearing_publish fun _ => hrun'

theorem endRun_bearing {target : RunState} {activeTaskId : Option String}
    (h : Bears runId fingerprint run) :
    Bearing runId fingerprint (endRun run target activeTaskId : StoreProg Text RunRecord)
      (Bears runId fingerprint) := by
  refine bearing_except fun state => bearing_now fun updated => bearing_now fun finished => ?_
  exact updateRun_bearing fun hrun => h hrun

theorem cancel_bearing {request : LifecycleRequest} :
    Bearing runId fingerprint (A.cancel run plan tasks request)
      fun r => Bears runId fingerprint r.1 := by
  have htasks : BearingCalls runId fingerprint
      (tasks.mapM' cancelTask : StoreProg Text (List TaskRecord)) :=
    Calls.mapM' (fun _ => bearing_within within_cancelTask rfl) tasks
  refine bearing_then htasks fun updated => ?_
  refine Issues.bind getRun_bearing fun current hcurrent => ?_
  refine Issues.bind (endRun_bearing hcurrent) fun run' hrun' => bearing_call trivial fun _ => ?_
  refine bearing_then (bearing_writeCheckpoint hrun') fun _ => ?_
  exact bearing_then bearing_publish fun _ => hrun'

theorem failStuckRun_bearing :
    Bearing runId fingerprint (A.failStuckRun run plan tasks)
      fun r => Bears runId fingerprint r.1 := by
  refine Issues.bind getRun_bearing fun current hcurrent => ?_
  refine Issues.bind (endRun_bearing hcurrent) fun run' hrun' => ?_
  refine bearing_then bearing_publish fun _ => ?_
  exact bearing_then (bearing_writeCheckpoint hrun') fun _ => hrun'

theorem completeRun_bearing (h : Bears runId fingerprint run) :
    Bearing runId fingerprint (A.completeRun run plan p)
      fun p' => Bears runId fingerprint p'.run := by
  refine Issues.bind (endRun_bearing h) fun run' hrun' => ?_
  refine bearing_then (bearing_writeCheckpoint hrun') fun _ => ?_
  refine bearing_then (bearing_within within_generateReport rfl) fun _ => ?_
  exact bearing_then bearing_publish fun _ => hrun'

theorem handleRequest_bearing {request : LifecycleRequest} :
    Bearing runId fingerprint (A.handleRequest plan p request)
      fun p' => Bears runId fingerprint p'.run := by
  unfold Agent.handleRequest
  split
  · refine Issues.bind cancel_bearing fun r hr => ?_
    exact bearing_then (bearing_within within_generateReport rfl) fun _ => hr
  · exact Issues.bind pause_bearing fun r hr => hr

theorem concludeRun_bearing :
    Bearing runId fingerprint (A.concludeRun plan p)
      fun p' => Bears runId fingerprint p'.run := by
  refine Issues.bind getRun_bearing fun current hcurrent => ?_
  split
  · exact completeRun_bearing hcurrent
  · refine Issues.bind failStuckRun_bearing fun r hr => ?_
    exact bearing_then (bearing_within within_generateReport rfl) fun _ => hr

/-- The run of a turn bears the fingerprint. -/
def TurnBears (runId fingerprint : String) : Turn → Prop
  | .ended p => Bears runId fingerprint p.run
  | .again p => Bears runId fingerprint p.run
  | .batch p _ => Bears runId fingerprint p.run

theorem turn_bearing {maximumTasks : Option Nat} (h : Bears runId fingerprint p.run) :
    Bearing runId fingerprint (A.turn plan maximumTasks p) (TurnBears runId fingerprint) := by
  refine bearing_then (bearing_within within_pendingLifecycleRequest rfl) fun request => ?_
  unfold Agent.turnFor
  split
  · exact Issues.bind handleRequest_bearing fun p' hp' => hp'
  · split
    · exact h
    · refine bearing_then (bearing_within within_promoteReady rfl) fun tasks => ?_
      refine bearing_except fun candidates => ?_
      split
      · refine bearing_then (bearing_within within_pendingLifecycleRequest rfl) fun request => ?_
        cases request with
        | some request => exact h
        | none => exact Issues.bind concludeRun_bearing fun p' hp' => hp'
      · exact Issues.bind startBatch_bearing fun r hr => hr

theorem settleBatch_bearing {started : List Started} {results : Except Exn (List WorkerResult)}
    (h : Bears runId fingerprint p.run) :
    Bearing runId fingerprint (A.settleBatch plan p started results)
      fun r => Bears runId fingerprint r.1.run := by
  refine bearing_except fun results => Issues.bind (collectResults_bearing h) fun r hr => ?_
  change Bearing runId fingerprint (A.settleFailures plan r.1 r.2) _
  unfold Agent.settleFailures
  split
  · exact hr
  · refine Issues.bind handleBatchFailures_bearing fun handled hhandled => ?_
    refine bearing_then (bearing_within within_backOff rfl) fun _ => ?_
    dsimp only
    split
    · exact bearing_then (bearing_within within_generateReport rfl) fun _ => hhandled
    · exact hhandled

theorem bearing_lease {q : Prog Leases.LeaseOp Exn α} :
    BearingCalls runId fingerprint (ofLease q : StoreProg Text α) :=
  bearing_within (within_ofLease q) rfl

theorem releasing_bearing {lease : LeaseRecord} {q : StoreProg Text α} {E : α → Prop}
    (hq : Bearing runId fingerprint q E) :
    Bearing runId fingerprint (releasing lease q) E := by
  refine Issues.tryCatch hq fun e => ?_
  exact bearing_then (f := fun _ => raise e) bearing_lease fun _ => trivial

theorem loop_bearing {maximumTasks : Option Nat} {fuel : Nat} {lease : LeaseRecord}
    (h : Bears runId fingerprint p.run) :
    Bearing runId fingerprint (A.loop plan maximumTasks fuel lease p)
      fun p' => Bears runId fingerprint p'.run := by
  induction fuel generalizing lease p with
  | zero => trivial
  | succ fuel ih =>
    refine Issues.bind (releasing_bearing (turn_bearing h)) fun turn hturn => ?_
    cases turn with
    | ended p' => exact bearing_then bearing_lease fun _ => hturn
    | again p' => exact ih hturn
    | batch p' started =>
      refine bearing_then (bearing_within within_executeBatch rfl) fun batch => ?_
      refine Issues.bind (releasing_bearing (settleBatch_bearing hturn)) fun r hr => ?_
      obtain ⟨p'', ended⟩ := r
      cases ended with
      | true => exact bearing_then bearing_lease fun _ => hr
      | false => exact ih hr

theorem bearing_unadvanced {lease : LeaseRecord} :
    BearingCalls runId fingerprint (unadvanced lease run : StoreProg Text RunAdvanceResult) :=
  Calls.bind bearing_lease fun _ => Calls.bind (bearing_within within_getTasks rfl) fun _ => trivial

theorem advance_bearing {id workerId : String} {maximumTasks : Option Int} :
    Bearing runId fingerprint (A.advance id workerId maximumTasks) fun _ => True := by
  have hrun : ∀ lease run maximumTasks, Bears runId fingerprint run →
      Bearing runId fingerprint (A.advanceRun lease run maximumTasks) fun _ => True := by
    intro lease run maximumTasks h
    refine bearing_call trivial fun plan => ?_
    refine bearing_then (bearing_within within_getTasks rfl) fun tasks => ?_
    refine bearing_call trivial fun _ => ?_
    exact Issues.bind (loop_bearing h) fun _ _ => trivial
  unfold Agent.advance
  split
  · trivial
  · refine bearing_then bearing_lease fun lease => Issues.bind getRun_bearing fun run h => ?_
    split
    · refine bearing_then (bearing_within within_pendingLifecycleRequest rfl) fun pending => ?_
      unfold Agent.advancePaused
      split
      · exact hrun _ _ _ h
      · exact bearing_unadvanced.issues
    · split
      · exact hrun _ _ _ h
      · exact bearing_unadvanced.issues

/-! ## Recovery -/

theorem enterRecovery_bearing (h : Bears runId fingerprint run) :
    Bearing runId fingerprint (enterRecovery run : StoreProg Text RunRecord)
      (Bears runId fingerprint) := by
  unfold enterRecovery
  split
  · exact h
  · refine bearing_except fun state => bearing_now fun now => ?_
    exact updateRun_bearing fun hrun => h hrun

theorem validateRepository_bearing {checkpoint : CheckpointEnvelope}
    (h : Bears runId fingerprint run) :
    Bearing runId fingerprint (A.validateRepository run checkpoint)
      fun r => Bears runId fingerprint r.1 := by
  unfold Agent.validateRepository
  split
  · refine bearing_call trivial fun previous => bearing_call trivial fun current => ?_
    split
    · exact h
    · refine bearing_then bearing_publish fun _ => ?_
      split
      · trivial
      · refine bearing_call trivial fun _ => bearing_call trivial fun _ => ?_
        refine bearing_now fun now => ?_
        exact Issues.bind (updateRun_bearing fun hrun => h hrun) fun run' hrun' => hrun'
  · exact h

theorem reviseIf_bearing {drifted : Bool} (h : Bears runId fingerprint run) :
    Bearing runId fingerprint (A.reviseIf drifted run) (Bears runId fingerprint) := by
  unfold Agent.reviseIf
  split
  · refine bearing_call trivial fun previous => ?_
    refine bearing_then (bearing_within within_getTasks rfl) fun priorTasks => ?_
    refine bearing_call trivial fun revised => bearing_call trivial fun _ => ?_
    refine bearing_call trivial fun _ => bearing_now fun now => ?_
    refine Issues.bind (updateRun_bearing fun hrun => h hrun) fun run' hrun' => ?_
    exact bearing_then bearing_publish fun _ => hrun'
  · exact h

theorem bearing_recoverTask {task : TaskRecord} :
    BearingCalls runId fingerprint (recoverTask task : StoreProg Text TaskRecord) := by
  unfold recoverTask
  split
  · exact Calls.bind trivial fun _ => (bearing_sql trivial)
  · split
    · refine Calls.bind (bearing_sql trivial) fun _ => Calls.bind (bearing_sql trivial) fun _ => ?_
      refine Calls.bind trivial fun _ => ?_
      refine Calls.bind (bearing_within within_finishedWhen rfl) fun _ => ?_
      refine Calls.bind (bearing_sql trivial) fun _ => ?_
      refine Calls.bind ?_ fun _ => Calls.bind bearing_publish fun _ => trivial
      unfold readyIf
      split
      · exact Calls.bind trivial fun _ => (bearing_sql trivial)
      · trivial
    · trivial

theorem bearing_requireConfiguration {id : String} {checkpoint : CheckpointEnvelope} :
    BearingCalls runId fingerprint (A.requireConfiguration id checkpoint) := by
  unfold Agent.requireConfiguration
  split
  · trivial
  · exact Calls.bind bearing_publish fun _ => trivial

theorem resume_bearing {id workerId : String} :
    Bearing runId fingerprint (A.resume id workerId) fun _ => True := by
  refine bearing_then bearing_lease fun lease => releasing_bearing ?_
  refine Issues.bind getRun_bearing fun run hrun => ?_
  split
  · trivial
  · refine Issues.bind (enterRecovery_bearing hrun) fun run hrun => ?_
    have hlatest : BearingCalls runId fingerprint
        (ofCheckpoint (Checkpoints.recoverLatest A.codec A.sha256Digest id)) :=
      Calls.mapOp_of checkpointBearing_recoverLatest fun _ _ hop => hop
    have htools : BearingCalls runId fingerprint
        (ofTools (A.tools.reconcileUncertain run.runId) : StoreProg Text _) :=
      Calls.mapOp (fun _ _ => trivial) _
    refine bearing_then hlatest fun checkpoint => ?_
    refine bearing_then bearing_requireConfiguration fun _ => ?_
    refine Issues.bind (validateRepository_bearing hrun) fun validated hvalidated => ?_
    refine Issues.bind (reviseIf_bearing hvalidated) fun run hrun => ?_
    refine bearing_then (Calls.mapOp (fun _ _ => trivial) _) fun reconciled => ?_
    refine bearing_then (bearing_within within_getTasks rfl) fun tasks => ?_
    refine bearing_then (Calls.mapM' (fun _ => bearing_recoverTask) tasks) fun tasks => ?_
    refine bearing_except fun state => bearing_now fun now => ?_
    refine Issues.bind (updateRun_bearing fun h => hrun h) fun run' hrun' => ?_
    refine bearing_call trivial fun plan => ?_
    refine bearing_then (bearing_writeCheckpoint hrun') fun _ => ?_
    exact bearing_then bearing_publish fun _ => trivial

/-! ## The service -/

theorem findRun_bearing {id : String} :
    Bearing runId fingerprint (sql (.findRun id) : StoreProg Text (Option RunRecord))
      fun found => ∀ run ∈ found, Bears runId fingerprint run := by
  refine issues_perform trivial fun found h run hrun => ?_
  rw [Option.mem_def] at hrun
  subst hrun
  exact h

theorem ownedRun_bearing {id ownerId : String} :
    Bearing runId fingerprint (ownedRun id ownerId : StoreProg Text RunRecord)
      (Bears runId fingerprint) := by
  refine Issues.bind getRun_bearing fun run hrun => ?_
  split
  · trivial
  · exact hrun

theorem earlierRun_bearing {requestHash : String} {key : Option IdempotencyKey} :
    Bearing runId fingerprint (earlierRun requestHash key : StoreProg Text (Option RunRecord))
      fun found => ∀ run ∈ found, Bears runId fingerprint run := by
  unfold earlierRun
  split
  · exact fun run h => absurd h (Option.not_mem_none run)
  · split
    · trivial
    · refine Issues.bind (E := Bears runId fingerprint) ?_ fun run hrun run' hrun' => ?_
      · refine Issues.bind findRun_bearing fun found hfound => ?_
        cases found with
        | some run => exact hfound run rfl
        | none => trivial
      · obtain rfl := Option.mem_some_iff.mp hrun'
        exact hrun

theorem winningRun_bearing {requestHash : String} {key : Option IdempotencyKey} :
    Bearing runId fingerprint (winningRun requestHash key : StoreProg Text RunRecord)
      (Bears runId fingerprint) := by
  unfold winningRun
  split
  · split
    · refine Issues.bind findRun_bearing fun found hfound => ?_
      cases found with
      | some run => exact hfound run rfl
      | none => trivial
    · trivial
  · trivial

theorem insertRun_bearing {key : IdempotencyKey} {earlier : Option RunRecord}
    (h : ∀ run ∈ earlier, Bears runId fingerprint run) :
    Bearing runId fingerprint (insertRun run key earlier : StoreProg Text RunRecord)
      (Bears runId fingerprint) := by
  cases earlier with
  | some earlier => exact h earlier rfl
  | none =>
    refine Issues.bind (E := fun inserted => inserted = true → Bears runId fingerprint run)
      (issues_perform trivial fun inserted hinserted htrue => ?_) fun inserted hinserted => ?_
    · subst htrue
      exact hinserted
    · cases inserted with
      | true => exact hinserted rfl
      | false => exact bearing_call trivial fun existing => winningRun_bearing

theorem storeRun_bearing {idempotencyKey requestHash : String} :
    Bearing runId fingerprint (A.storeRun run idempotencyKey requestHash)
      (Bears runId fingerprint) := by
  refine bearing_call trivial fun existing => ?_
  refine Issues.bind earlierRun_bearing fun earlier hearlier => bearing_now fun now => ?_
  exact insertRun_bearing hearlier

theorem planRun_bearing {objective : String} {index : String × String}
    (h : Bears runId fingerprint run) :
    Bearing runId fingerprint (A.planRun run objective index) fun _ => True := by
  refine bearing_then bearing_publish fun _ => bearing_except fun state => bearing_now fun now => ?_
  refine Issues.bind (updateRun_bearing fun hrun => h hrun) fun run' hrun' => ?_
  refine bearing_call trivial fun plan => bearing_call trivial fun _ => ?_
  refine bearing_call trivial fun _ => bearing_except fun state => bearing_now fun now => ?_
  refine Issues.bind (updateRun_bearing fun hrun => hrun' hrun) fun ready hready => ?_
  refine bearing_then (bearing_writeCheckpoint hready) fun _ => ?_
  exact bearing_then bearing_publish fun _ => trivial

theorem createRun_bearing {objective ownerId idempotencyKey : String}
    {repositoryPath : Option String} :
    Bearing runId fingerprint (A.createRun objective ownerId idempotencyKey repositoryPath)
      fun _ => True := by
  unfold Agent.createRun
  dsimp only
  split
  · trivial
  · split
    · trivial
    · have hresolve : BearingCalls runId fingerprint
          (A.resolveRepository repositoryPath) := by
        refine Calls.bind (bearing_sql trivial) fun resolved => ?_
        dsimp only
        split
        · trivial
        · refine Calls.bind (bearing_sql trivial) fun configured => ?_
          split
          · trivial
          · trivial
      refine bearing_then hresolve fun repository => ?_
      have hfind : Bearing runId fingerprint (A.findIdempotentRun ownerId idempotencyKey
          (A.sha256Digest (canonicalJson (.obj [("owner_id", .str ownerId),
            ("objective", .str (strip objective)), ("repository", .str repository)]))))
          fun _ => True := by
        refine bearing_call trivial fun existing => ?_
        exact earlierRun_bearing.mono fun _ _ => trivial
      refine Issues.bind hfind fun existing _ => ?_
      cases existing with
      | some existing => trivial
      | none =>
        refine bearing_call trivial fun index => bearing_call trivial fun _ => ?_
        refine bearing_now fun now => bearing_call trivial fun id => ?_
        refine Issues.bind storeRun_bearing fun run hrun => ?_
        split
        · trivial
        · exact planRun_bearing hrun

/-! ## Requests -/

theorem bearing_earlierRequest {kind : LifecycleKind} {requestHash : String}
    {key : Option IdempotencyKey} :
    BearingCalls runId fingerprint (earlierRequest kind requestHash key : StoreProg Text _) := by
  cases key with
  | none => trivial
  | some key =>
    unfold earlierRequest
    dsimp only
    split
    · trivial
    · refine Calls.bind (bearing_sql trivial) fun found => ?_
      cases found with
      | some request => trivial
      | none => trivial

theorem bearing_findLifecycleRequest {ownerId id idempotencyKey requestHash : String}
    {kind : LifecycleKind} :
    BearingCalls runId fingerprint
      (A.findLifecycleRequest ownerId id kind idempotencyKey requestHash) :=
  Calls.bind (bearing_sql trivial) fun _ => bearing_earlierRequest

theorem bearing_newRequest {ownerId reason idempotencyKey requestHash : String}
    {kind : LifecycleKind} :
    BearingCalls runId fingerprint
      (A.newRequest run ownerId kind reason idempotencyKey requestHash) := by
  refine Calls.bind (bearing_sql trivial) fun _ => Calls.bind (bearing_sql trivial) fun _ => ?_
  refine Calls.bind (bearing_sql trivial) fun _ => ?_
  refine Calls.bind bearing_earlierRequest fun earlier => ?_
  refine Calls.bind (bearing_sql trivial) fun _ => ?_
  cases earlier with
  | some earlier => trivial
  | none => exact Calls.bind (bearing_sql trivial) fun _ => trivial

theorem requestPauseOf_bearing {id ownerId reason idempotencyKey : String} :
    Bearing runId fingerprint (A.requestPauseOf id ownerId reason idempotencyKey)
      fun _ => True := by
  refine Issues.bind ownedRun_bearing fun run hrun => ?_
  split
  · trivial
  · refine bearing_then bearing_findLifecycleRequest fun existing => ?_
    cases existing with
    | some existing => trivial
    | none =>
      unfold Agent.pauseUnlessFound
      dsimp only
      split
      · trivial
      · refine bearing_then bearing_newRequest fun request => ?_
        refine Issues.bind (E := fun _ => True) ?_ fun _ _ => ?_
        · unfold requestPause
          split
          · refine bearing_except fun state => bearing_now fun now => ?_
            exact Issues.bind (updateRun_bearing fun h => hrun h) fun _ _ => trivial
          · trivial
        · exact bearing_then bearing_publish fun _ => trivial

theorem requestCancelOf_bearing {id ownerId reason idempotencyKey : String} :
    Bearing runId fingerprint (A.requestCancelOf id ownerId reason idempotencyKey)
      fun _ => True := by
  refine Issues.bind ownedRun_bearing fun run _ => ?_
  split
  · trivial
  · refine bearing_then bearing_findLifecycleRequest fun existing => ?_
    cases existing with
    | some existing => trivial
    | none =>
      unfold Agent.cancelUnlessFound
      dsimp only
      split
      · trivial
      · refine bearing_then bearing_newRequest fun request => ?_
        exact bearing_then bearing_publish fun _ => trivial

/-! ## Driving -/

theorem bearing_newWorkerId {ownerId : String} :
    BearingCalls runId fingerprint (newWorkerId ownerId : StoreProg Text String) :=
  Calls.bind (bearing_sql trivial) fun _ => trivial

theorem bearing_isReplay {id ownerId : String} {maximumTasks : Option Int}
    {idempotencyKey : Option String} :
    BearingCalls runId fingerprint (A.isReplay id ownerId maximumTasks idempotencyKey) := by
  cases idempotencyKey with
  | none => trivial
  | some key =>
    unfold Agent.isReplay
    dsimp only
    split
    · trivial
    · refine Calls.bind ?_ fun _ => trivial
      refine Calls.bind (bearing_sql trivial) fun existing => ?_
      refine Calls.bind (bearing_sql trivial) fun now => ?_
      cases existing with
      | some existing =>
        unfold claimUnlessFound priorIntent
        dsimp only
        split
        · trivial
        · split
          · trivial
          · trivial
      | none =>
        refine Calls.bind (bearing_sql trivial) fun inserted => ?_
        split
        · trivial
        · refine Calls.bind (bearing_sql trivial) fun existing => ?_
          cases existing with
          | none => trivial
          | some existing =>
            unfold concurrentIntent
            dsimp only
            split
            · trivial
            · trivial

theorem bearing_currentResult :
    BearingCalls runId fingerprint (currentResult run : StoreProg Text RunAdvanceResult) :=
  Calls.bind (bearing_within within_getTasks rfl) fun _ => trivial

theorem replayConflict_bearing {id ownerId : String} {replay : Bool} {e : Exn} :
    Bearing runId fingerprint (replayConflict id ownerId replay e : StoreProg Text _)
      fun _ => True := by
  unfold replayConflict
  split
  · split
    · exact Issues.bind ownedRun_bearing fun _ _ => bearing_currentResult.issues
    · trivial
  · trivial

theorem resumeOwned_bearing {id ownerId : String} {maximumTasks : Option Int}
    {idempotencyKey : Option String} :
    Bearing runId fingerprint (A.resumeOwned id ownerId maximumTasks idempotencyKey)
      fun _ => True := by
  refine Issues.bind ownedRun_bearing fun run _ => bearing_then bearing_isReplay fun replay => ?_
  split
  · exact bearing_currentResult.issues
  · refine bearing_then bearing_newWorkerId fun workerId => ?_
    refine Issues.tryCatch ?_ fun e => replayConflict_bearing
    exact Issues.bind resume_bearing fun _ _ => advance_bearing

/-- Every call of the service keeps to the fingerprint that a run bears. -/
theorem program_bearing (c : ServiceCall) :
    Bearing runId fingerprint (c.program A) fun _ => True := by
  cases c with
  | createRun => exact Issues.bind createRun_bearing fun _ _ => trivial
  | advance =>
    refine Issues.bind (E := fun _ => True) ?_ fun _ _ => trivial
    refine Issues.bind ownedRun_bearing fun _ _ => bearing_then bearing_newWorkerId fun _ => ?_
    exact advance_bearing
  | pause => exact Issues.bind requestPauseOf_bearing fun _ _ => trivial
  | resume => exact Issues.bind resumeOwned_bearing fun _ _ => trivial
  | cancel => exact Issues.bind requestCancelOf_bearing fun _ _ => trivial

end DurableAgent.Orchestration
