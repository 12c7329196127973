import DurableAgent.Application.Serving
import DurableAgent.Orchestration.Announcing

/-!
# Calls that end no run

Creation, requests and recovery write runs too, but never in a state that is an end, and announce
none.
-/

namespace DurableAgent.Orchestration

open Library Library.Prog Store Contract

-- Reducing a call of the service would otherwise reduce the text that it strips.
attribute [local irreducible] strip

variable {Text ι : Type} {codec : Codec Text} {sha256Digest : String → String} {A : Agent Text}
  {α β : Type}

/-- The call neither ends a run nor announces an end. -/
def Endless : (β : Type) → StoreOp Text β → Prop
  | _, .sql (.updateRun run _) => endEvent run.state = none
  | β, op => (effectOf β op).idle = true

theorem endless_of_idle {op : StoreOp Text β} (h : (effectOf β op).idle = true) : Endless β op := by
  cases op with
  | sql op =>
    cases op with
    | updateRun run v => cases h
    | _ => exact h
  | _ => exact h

/-- Programs whose calls end no run, with what their results satisfy. -/
abbrev EndsNone (p : StoreProg Text α) (E : α → Prop) : Prop := p.Issues Answered Endless E

theorem endless_within {E : List Effect} {p : StoreProg Text α} (hp : p.Calls (Within E))
    (hE : E.all Effect.idle = true) : p.Calls Endless :=
  calls_of_within hp hE fun _ _ => endless_of_idle

theorem endless_sql {op : SqlOp α} (h : (sqlEffect α op).idle = true) :
    (sql op : StoreProg Text α).Calls Endless :=
  calls_perform.mpr (endless_of_idle h)

theorem endless_publish {runId eventType : String} {taskId : Option String}
    {payload : List (String × Json)} (h : eventType ∉ endEvents) :
    (publish runId eventType taskId payload : StoreProg Text Unit).Calls Endless :=
  calls_perform.mpr (endless_of_idle (decide_eq_true h))

theorem endless_writeCheckpoint {run : RunRecord} {plan : PlanSpec} {tasks : List TaskRecord}
    {known : Checkpoints.Known} : (A.writeCheckpoint run plan tasks known).Calls Endless :=
  endless_within within_writeCheckpoint rfl

/-- A run that is written in a state that is no end is returned in it. -/
theorem endsNone_updateRun {run : RunRecord} {v : Nat} {state : RunState}
    (hstate : run.state = state) (hend : endEvent state = none) :
    EndsNone (sql (.updateRun run v) : StoreProg Text RunRecord) fun run' => run'.state = state := by
  refine issues_perform ?_ fun run' hrun' => ?_
  · change endEvent run.state = none
    rw [hstate, hend]
  · rw [show run' = withVersion run v from hrun']
    exact hstate

theorem endsNone_transition {current target : RunState} {f : RunState → StoreProg Text α}
    {E : α → Prop} (hf : EndsNone (f target) E) :
    EndsNone (Prog.ofExcept (transitionRun current target) >>= f) E := by
  refine Issues.bind (E := fun state => state = target)
    (issues_ofExcept fun state hstate => (transitionRun_legal hstate).1) fun state hstate => ?_
  rw [hstate]
  exact hf

/-! ## Creation and requests -/

section Service

variable {run : RunRecord} {runId ownerId objective reason idempotencyKey requestHash : String}
  {kind : LifecycleKind}

theorem endless_referencedRun {key : IdempotencyKey} :
    (referencedRun key : StoreProg Text RunRecord).Calls Endless := by
  refine Calls.bind (endless_sql rfl) fun found => ?_
  cases found <;> trivial

theorem endless_earlierRun {key : Option IdempotencyKey} :
    (earlierRun requestHash key : StoreProg Text _).Calls Endless := by
  cases key with
  | none => trivial
  | some key =>
    unfold earlierRun
    dsimp only
    split
    · trivial
    · exact Calls.bind endless_referencedRun fun _ => trivial

theorem endless_storeRun : (A.storeRun run idempotencyKey requestHash).Calls Endless := by
  refine Calls.bind (endless_sql rfl) fun existing => Calls.bind endless_earlierRun fun earlier => ?_
  refine Calls.bind (endless_sql rfl) fun now => ?_
  cases earlier with
  | some earlier => trivial
  | none =>
    refine Calls.bind (endless_sql rfl) fun inserted => ?_
    split
    · trivial
    · refine Calls.bind (endless_sql rfl) fun existing => ?_
      cases existing with
      | none => trivial
      | some key =>
        unfold winningRun
        dsimp only
        split
        · refine Calls.bind (endless_sql rfl) fun found => ?_
          cases found <;> trivial
        · trivial

theorem endsNone_planRun {index : String × String} :
    EndsNone (A.planRun run objective index) fun _ => True := by
  refine Calls.then (endless_publish (by decide)) fun _ => endsNone_transition ?_
  refine Calls.then (endless_sql rfl) fun now => Issues.bind (endsNone_updateRun rfl rfl) fun run' _ => ?_
  refine Calls.then (endless_sql rfl) fun plan => Calls.then (endless_sql rfl) fun _ => ?_
  refine Calls.then (endless_sql rfl) fun _ => endsNone_transition ?_
  refine Calls.then (endless_sql rfl) fun now => Issues.bind (endsNone_updateRun rfl rfl) fun run'' _ => ?_
  refine Calls.then endless_writeCheckpoint fun _ => ?_
  exact Calls.then (endless_publish (by decide)) fun _ => trivial

theorem endless_resolveRepository {repositoryPath : Option String} :
    (A.resolveRepository repositoryPath).Calls Endless := by
  refine Calls.bind (endless_sql rfl) fun r => ?_
  obtain ⟨repository, isDir⟩ := r
  dsimp only
  split
  · trivial
  · refine Calls.bind (endless_sql rfl) fun r => ?_
    obtain ⟨configuredRoot, isDir'⟩ := r
    dsimp only
    split <;> trivial

theorem endsNone_createRun {repositoryPath : Option String} :
    EndsNone (A.createRun objective ownerId idempotencyKey repositoryPath) fun _ => True := by
  unfold Agent.createRun
  dsimp only
  split
  · trivial
  · split
    · trivial
    · refine Calls.then endless_resolveRepository fun repository => ?_
      refine Calls.then (Calls.bind (endless_sql rfl) fun _ => endless_earlierRun) fun existing => ?_
      cases existing with
      | some existing => trivial
      | none =>
        refine Calls.then (endless_sql rfl) fun index => Calls.then (endless_sql rfl) fun _ => ?_
        refine Calls.then (endless_sql rfl) fun now => Calls.then (endless_sql rfl) fun runId => ?_
        refine Calls.then endless_storeRun fun run => ?_
        split
        · trivial
        · exact endsNone_planRun

theorem endless_ownedRun : (ownedRun runId ownerId : StoreProg Text RunRecord).Calls Endless := by
  refine Calls.bind (endless_sql rfl) fun run => ?_
  split <;> trivial

theorem endless_earlierRequest {key : Option IdempotencyKey} :
    (earlierRequest kind requestHash key : StoreProg Text _).Calls Endless := by
  cases key with
  | none => trivial
  | some key =>
    unfold earlierRequest
    dsimp only
    split
    · trivial
    · refine Calls.bind (endless_sql rfl) fun found => ?_
      cases found <;> trivial

theorem endless_newRequest :
    (A.newRequest run ownerId kind reason idempotencyKey requestHash).Calls Endless := by
  refine Calls.bind (endless_sql rfl) fun _ => Calls.bind (endless_sql rfl) fun _ => ?_
  refine Calls.bind (endless_sql rfl) fun _ => Calls.bind endless_earlierRequest fun earlier => ?_
  refine Calls.bind (endless_sql rfl) fun _ => ?_
  cases earlier with
  | some earlier => trivial
  | none => exact Calls.bind (endless_sql rfl) fun _ => trivial

theorem endless_findLifecycleRequest :
    (A.findLifecycleRequest ownerId runId kind idempotencyKey requestHash).Calls Endless :=
  Calls.bind (endless_sql rfl) fun _ => endless_earlierRequest

theorem endsNone_requestPauseOf :
    EndsNone (A.requestPauseOf runId ownerId reason idempotencyKey) fun _ => True := by
  refine Calls.then endless_ownedRun fun run => ?_
  split
  · trivial
  · refine Calls.then endless_findLifecycleRequest fun existing => ?_
    cases existing with
    | some existing => trivial
    | none =>
      unfold Agent.pauseUnlessFound
      dsimp only
      split
      · trivial
      · refine Calls.then endless_newRequest fun request => ?_
        refine Issues.bind (E := fun _ => True) ?_ fun _ _ =>
          Calls.then (endless_publish (by decide)) fun _ => trivial
        unfold requestPause
        split
        · refine endsNone_transition (Calls.then (endless_sql rfl) fun now => ?_)
          exact Issues.bind (endsNone_updateRun rfl rfl) fun _ _ => trivial
        · trivial

theorem endless_requestCancelOf :
    (A.requestCancelOf runId ownerId reason idempotencyKey).Calls Endless := by
  refine Calls.bind endless_ownedRun fun run => ?_
  split
  · trivial
  · refine Calls.bind endless_findLifecycleRequest fun existing => ?_
    cases existing with
    | some existing => trivial
    | none =>
      unfold Agent.cancelUnlessFound
      dsimp only
      split
      · trivial
      · exact Calls.bind endless_newRequest fun _ =>
          Calls.bind (endless_publish (by decide)) fun _ => trivial

end Service

/-! ## Recovery -/

section Recovery

variable {run : RunRecord} {runId workerId : String} {lease : LeaseRecord}
  {checkpoint : CheckpointEnvelope}

/-- The run is being recovered. -/
abbrev InRecovery (run : RunRecord) : Prop := run.state = .RECOVERING

theorem endsNone_enterRecovery : EndsNone (enterRecovery run : StoreProg Text _) InRecovery := by
  unfold enterRecovery
  split
  · next h => exact h
  · exact endsNone_transition (Calls.then (endless_sql rfl) fun now => endsNone_updateRun rfl rfl)

theorem endsNone_validateRepository (hrun : InRecovery run) :
    EndsNone (A.validateRepository run checkpoint) fun r => InRecovery r.1 := by
  unfold Agent.validateRepository
  split
  · refine Calls.then (endless_sql rfl) fun previous => Calls.then (endless_sql rfl) fun current => ?_
    split
    · exact hrun
    · refine Calls.then (endless_publish (by decide)) fun _ => ?_
      split
      · trivial
      · refine Calls.then (endless_sql rfl) fun _ => Calls.then (endless_sql rfl) fun _ => ?_
        refine Calls.then (endless_sql rfl) fun now => ?_
        exact Issues.bind (endsNone_updateRun hrun rfl) fun run' hrun' => hrun'
  · exact hrun

theorem endless_getTasks {reader : Reader} :
    (getTasks reader runId : StoreProg Text _).Calls Endless :=
  endless_within within_getTasks rfl

theorem endsNone_reviseIf {drifted : Bool} (hrun : InRecovery run) :
    EndsNone (A.reviseIf drifted run) InRecovery := by
  unfold Agent.reviseIf
  split
  · refine Calls.then (endless_sql rfl) fun previous => Calls.then endless_getTasks fun prior => ?_
    refine Calls.then (endless_sql rfl) fun revised => Calls.then (endless_sql rfl) fun _ => ?_
    refine Calls.then (endless_sql rfl) fun _ => Calls.then (endless_sql rfl) fun now => ?_
    refine Issues.bind (endsNone_updateRun hrun rfl) fun run' hrun' => ?_
    exact Calls.then (endless_publish (by decide)) fun _ => hrun'
  · exact hrun

theorem endless_recoverTask {task : TaskRecord} :
    (recoverTask task : StoreProg Text TaskRecord).Calls Endless := by
  unfold recoverTask
  split
  · exact Calls.bind trivial fun _ => endless_sql rfl
  · split
    · refine Calls.bind (endless_sql rfl) fun errorId => ?_
      refine Calls.bind (endless_sql rfl) fun _ => Calls.bind trivial fun state => ?_
      refine Calls.bind (endless_within within_finishedWhen rfl) fun finishedAt => ?_
      refine Calls.bind (endless_sql rfl) fun task => Calls.bind ?_ fun task => ?_
      · unfold readyIf
        split
        · exact Calls.bind trivial fun _ => endless_sql rfl
        · trivial
      · exact Calls.bind (endless_publish (by decide)) fun _ => trivial
    · trivial

theorem endsNone_resumeFrom (hrun : InRecovery run) :
    EndsNone (A.resumeFrom lease run checkpoint) fun _ => True := by
  refine Calls.then ?_ fun _ => Issues.bind (endsNone_validateRepository hrun) fun r hr => ?_
  · unfold Agent.requireConfiguration
    split
    · trivial
    · exact Calls.bind (endless_publish (by decide)) fun _ => trivial
  · refine Issues.bind (endsNone_reviseIf hr) fun run' hrun' => ?_
    refine Calls.then (Calls.mapOp (fun _ _ => endless_of_idle rfl) _) fun reconciled => ?_
    refine Calls.then endless_getTasks fun tasks => ?_
    refine Calls.then (Calls.mapM' (fun _ => endless_recoverTask) tasks) fun updated => ?_
    refine endsNone_transition (Calls.then (endless_sql rfl) fun now => ?_)
    refine Issues.bind (endsNone_updateRun rfl rfl) fun run'' _ => ?_
    refine Calls.then (endless_sql rfl) fun plan => Calls.then endless_writeCheckpoint fun _ => ?_
    exact Calls.then (endless_publish (by decide)) fun _ => trivial

theorem endless_releaseLease : (releaseLease lease : StoreProg Text Unit).Calls Endless :=
  endless_within (within_ofLease _) rfl

theorem endsNone_resume : EndsNone (A.resume runId workerId) fun _ => True := by
  refine Calls.then (endless_within (within_ofLease _) rfl) fun lease => Issues.tryCatch ?_ fun e => ?_
  · refine Calls.then (endless_sql rfl) fun run => ?_
    split
    · trivial
    · refine Issues.bind endsNone_enterRecovery fun run' hrun' => ?_
      refine Calls.then (endless_within (within_recoverLatest _ _) rfl) fun checkpoint => ?_
      exact endsNone_resumeFrom hrun'
  · exact Calls.then endless_releaseLease fun _ => trivial

end Recovery

end DurableAgent.Orchestration
