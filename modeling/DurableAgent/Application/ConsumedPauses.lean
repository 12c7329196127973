import DurableAgent.Application.Reactions
import DurableAgent.Orchestration.Pausing

/-!
# Pauses that were consumed

Which requests for a pause are still pending after the run was brought to one.
-/

namespace DurableAgent.Orchestration

open Library Library.Prog Store

variable {Text ι : Type} [DecidableEq ι] {codec : Codec Text} {sha256Digest : String → String}
  {A : Agent Text} {runId workerId : String} {maximumTasks : Option Int} {worker : ι}
  {P P' : Pool (StoreOp Text) Exn (StoreState Text × PauseNote) ι}

/-- A created run with two tasks, one after the other; two pauses, a worker, and a resume. -/
def pausesPool : Pool (StoreOp CheckpointEnvelope) Exn (StoreState CheckpointEnvelope) Nat :=
  ⟨fun i => match i with
    | 0 => (ServiceCall.pause "run-r" "owner" "reason" "first").program (digestAgent "first")
    | 1 => (ServiceCall.pause "run-r" "owner" "reason" "second").program (digestAgent "second")
    | 2 => plainAgent.advance "run-r" "worker" none >>= fun _ => pure ()
    | _ => (ServiceCall.resume "run-r" "owner" none none).program plainAgent,
    workersPool.shared⟩

/-- The handlers of the processes, of which the third is watched. -/
abbrev pausingHandle (i : Nat) : Handler (StoreOp CheckpointEnvelope) Exn Supply
    (StoreState CheckpointEnvelope × PauseNote) :=
  (handle plainCodec plainAgent.sha256Digest).recorded (noteWatched 2 i)

/-- A pause is requested while the first task runs. -/
def pausedOnce : List (Nat × Supply) :=
  turns 2 (List.replicate 12 "a") ++ turns 0 (List.replicate 10 "p") ++
    turns 2 ((List.range 100).map toString)

/-- Two pauses are requested while the first task runs. -/
def pausedTwice : List (Nat × Supply) :=
  turns 2 (List.replicate 12 "a") ++ turns 0 (List.replicate 10 "p") ++
    turns 1 (List.replicate 9 "q") ++ turns 2 ((List.range 100).map toString)

end DurableAgent.Orchestration
