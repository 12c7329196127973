import DurableAgent.Application.StuckRuns
import DurableAgent.Orchestration.Reacting

/-!
# Bounded reaction to lifecycle requests

How many batches a worker starts after a request was committed, and which of two pending requests
it follows.
-/

namespace DurableAgent.Orchestration

open Library Library.Prog Store

variable {Text ι : Type} [DecidableEq ι] {codec : Codec Text} {sha256Digest : String → String}
  {A : Agent Text} {runId workerId : String} {maximumTasks : Option Int} {worker : ι}
  {P P' : Pool (StoreOp Text) Exn (StoreState Text × Reaction) ι}

/-- A worker advances a run, from any state of the store and beside any other programs, none of
which acknowledges a request of the run. After a request was committed, attempts of at most one
batch start. A worker whose check finds a cancellation never brings the run to a pause, and has
cancelled it when it returns. -/
theorem advance_reacts
    (hstart : P.threads worker = A.advance runId workerId maximumTasks >>= fun _ => pure ())
    (hrecord : P.shared.2 = {})
    (hrun : ThreadRuns (reactingExec codec sha256Digest runId worker) P P') :
    P'.shared.2.late ≤ 1 ∧ P'.shared.2.paused = false ∧
      (P'.threads worker = .done (.ok ()) → P'.shared.2.cancelling = true →
        P'.shared.2.cancelled = true) := by
  have hprompt : Prompt P.shared := by
    unfold Prompt
    rw [hrecord]
    exact ⟨Nat.zero_le 1, rfl⟩
  have hworking : Working runId P.shared := by
    refine ⟨⟨?_, ?_⟩, ?_, ?_⟩ <;> rw [hrecord] <;> simp
  have hmeets : Reacts codec sha256Digest runId worker (P.threads worker)
      (fun _ s' => Ending s'.2) P.shared := by
    rw [hstart]
    exact Reacts.bind (reacts_advance hworking) fun _ s₁ _ h₁ => reacts_done h₁
  obtain ⟨hprompt', hmeets'⟩ := ThreadRuns.watched (C := heeding runId)
    (fun j hj _ _ _ _ _ hop hprompt =>
      ⟨reactingExec_elsewhere hj hop, (reactingExec_elsewhere hj hop).prompt hprompt⟩)
    hrun hprompt hmeets
  refine ⟨hprompt'.1, hprompt'.2, fun hdone => ?_⟩
  rw [hdone] at hmeets'
  exact Contract.Meets.ended hmeets' hprompt'

/-! ## Two workers and two requests -/

/-- The agent of a process whose requests have a digest of their own. -/
def digestAgent (digest : String) : Agent CheckpointEnvelope :=
  { plainAgent with sha256Digest := fun _ => digest }

/-- A created run with two tasks, one after the other; a pause, a cancellation and two workers. -/
def workersPool : Pool (StoreOp CheckpointEnvelope) Exn (StoreState CheckpointEnvelope) Nat :=
  ⟨fun i => match i with
    | 0 => (ServiceCall.pause "run-r" "owner" "reason" "key").program (digestAgent "pause")
    | 1 => (ServiceCall.cancel "run-r" "owner" "reason" "key").program (digestAgent "cancel")
    | 2 => plainAgent.advance "run-r" "worker" none >>= fun _ => pure ()
    | _ => plainAgent.advance "run-r" "stalled" none >>= fun _ => pure (),
    (plainPlay (planTurns pairPlan 0 (List.replicate 38 "r")) advancingPool).shared⟩

-- there are two batches ahead of the worker
example : (workersPool.shared.tasks.rows.map TaskRecord.state) = [.PENDING, .PENDING] := by
  decide +kernel

/-- The handlers of the processes, of which the third is watched. -/
abbrev reactingHandle (i : Nat) : Handler (StoreOp CheckpointEnvelope) Exn Supply
    (StoreState CheckpointEnvelope × Reaction) :=
  (handle plainCodec plainAgent.sha256Digest).recorded (noteReaction "run-r" 2 i)

/-- Both requests are committed when the worker has just looked. -/
def requestedTogether : List (Nat × Supply) :=
  turns 2 (List.replicate 10 "a") ++ turns 0 (List.replicate 10 "p") ++
    turns 1 (List.replicate 8 "c") ++ turns 2 ((List.range 97).map toString)

/-- One batch is late, and the run is cancelled, not paused. -/
theorem advance_reacts_cancel : ∃ P,
    ThreadRuns (reactingExec plainCodec plainAgent.sha256Digest "run-r" 2)
      (workersPool.beside {}) P ∧
    P.shared.2.late = 1 ∧ P.shared.2.paused = false ∧ P.shared.2.cancelled = true := by
  have hreach : ThreadRuns (reactingExec plainCodec plainAgent.sha256Digest "run-r" 2)
      (workersPool.beside {})
      ((workersPool.beside {}).playEach reactingHandle requestedTogether) :=
    (Pool.playEach_guarded reactingHandle (LeavesRequests "run-r" 2) requestedTogether _
      (by decide +kernel)).mono fun _ _ _ _ _ _ => .inl
  have hdone : (((workersPool.beside {}).playEach reactingHandle requestedTogether).threads
      2).returned = true := by decide +kernel
  obtain ⟨-, hpaused, hcancelled⟩ := advance_reacts rfl rfl hreach
  exact ⟨_, hreach, by decide +kernel, hpaused, hcancelled (returned_iff.mp hdone) (by decide +kernel)⟩

/-- A worker stalls before it looks, and loses its lease. A pause is committed when the next worker
has just looked; the first one sees it, pauses the run and acknowledges it. -/
def acknowledgedElsewhere : List (Nat × Supply) :=
  turns 3 (List.replicate 8 "s") ++ laterTurns 2 (List.replicate 10 "a") ++
    laterTurns 0 (List.replicate 8 "p") ++ laterTurns 2 (List.replicate 20 "b") ++
    laterTurns 3 ((List.range 30).map fun n => s!"s{n}") ++ laterTurns 2 ((List.range 60).map toString)

/-- The worker goes on with its second batch, in a paused run. -/
theorem advance_reacts_acknowledged : ∃ P,
    ThreadRuns (fun i => (reactingHandle i).exec.withFaults) (workersPool.beside {}) P ∧
    P.shared.2.late = 2 ∧ (P.shared.1.runs.rows.map RunRecord.state) = [.PAUSED] := by
  have hreach := (Pool.playEach_runs reactingHandle acknowledgedElsewhere
    (workersPool.beside {})).mono
      fun i β op s x s' hop => (Or.inl hop : (reactingHandle i).exec.withFaults β op s x s')
  exact ⟨_, hreach, by decide +kernel, by decide +kernel⟩

end DurableAgent.Orchestration
