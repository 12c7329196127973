import DurableAgent.Application.StuckRuns
import DurableAgent.Orchestration.Dispatching

/-!
# The lease at each dispatch

When a worker starts a task under a lease that has not expired, and when it has slept for longer.
-/

namespace DurableAgent.Orchestration

open Library Library.Prog Store

variable {Text : Type} {codec : Codec Text} {sha256Digest : String → String} {A : Agent Text}
  {runId workerId : String} {s s' : TimedStore Text}

/-- Whenever the loop dispatches a task, the worker's stored lease has not expired exactly if the
delays after the tasks that failed since it was last acquired or renewed are together shorter than
its term. -/
theorem advance_dispatches {maximumTasks : Option Int} {run : RunRecord} {task : TaskRecord}
    {k : Except Exn (Option TaskOutcome) → StoreProg Text RunAdvanceResult}
    (h : Advances (timedExec codec sha256Digest) (A.advance runId workerId maximumTasks) s
      (.call (.sql (.executeTask run task)) k) s') :
    Live runId workerId s' ↔
      A.delaysAfter runId s'.retried < Leases.seconds A.settings.leaseTtlSeconds :=
  meets_advance.advances h

/-- The call dispatches a task. -/
def isDispatch : (β : Type) → StoreOp Text β → Bool
  | _, .sql (.executeTask _ _) => true
  | _, _ => false

/-- The program is about to dispatch a task. -/
def dispatching {α : Type} : StoreProg Text α → Bool
  | .call op _ => isDispatch _ op
  | _ => false

theorem dispatching_call {α : Type} {p : StoreProg Text α} (h : dispatching p = true) :
    ∃ run task k, p = .call (.sql (.executeTask run task)) k := by
  cases p with
  | call op k =>
    cases op with
    | sql op =>
      cases op with
      | executeTask run task => exact ⟨run, task, k, rfl⟩
      | _ => cases h
    | _ => cases h
  | _ => cases h

/-- Delays of ten seconds under a lease of five. -/
def slowAgent : Agent CheckpointEnvelope :=
  { plainAgent with
    settings :=
      { plainSettings with
        leaseTtlSeconds := 5, leaseRenewalSeconds := 2
        retry :=
          { plainRetry with
            baseDelaySeconds := 10, maximumDelaySeconds := 10, jitterRatio := 0
            baseDelaySeconds_bounds := by constructor <;> norm_num
            maximumDelaySeconds_bounds := by constructor <;> norm_num
            jitterRatio_bounds := by constructor <;> norm_num
            valid_delay_bounds := le_refl 10 }
        leaseTtlSeconds_bounds := by decide, leaseRenewalSeconds_bounds := by decide
        renewal_below_half_ttl := by decide } }

/-- A created run with one task. -/
def createdStore : TimedStore CheckpointEnvelope :=
  ⟨(plainPlay (turns 0 (List.replicate 38 "r")) advancingPool).shared, 0, []⟩

/-- The worker after a number of calls, in which its task fails and may be retried. -/
def slowAdvance (calls : Nat) :
    StoreProg CheckpointEnvelope RunAdvanceResult × TimedStore CheckpointEnvelope :=
  (timedHandle plainCodec plainAgent.sha256Digest).advance (slowAgent.advance "run-r" "worker" none)
    ((List.range calls).map fun n =>
      { plainSupply (toString n) with outcome := .error (.of .operationTimeout "late") })
    createdStore

theorem slowAdvance_advances (calls : Nat) :
    Advances (timedExec plainCodec plainAgent.sha256Digest)
      (slowAgent.advance "run-r" "worker" none) createdStore (slowAdvance calls).1
      (slowAdvance calls).2 := by
  unfold slowAdvance
  exact (Handler.advances _ _ _ _).mono fun _ _ _ _ _ => .inl

/-- The first attempt is dispatched under the lease that was just acquired. -/
theorem advance_dispatches_first : ∃ s' run task k,
    Advances (timedExec plainCodec plainAgent.sha256Digest)
      (slowAgent.advance "run-r" "worker" none) createdStore
      (.call (.sql (.executeTask run task)) k) s' ∧
    (Live "run-r" "worker" s' ↔
      slowAgent.delaysAfter "run-r" s'.retried < Leases.seconds slowAgent.settings.leaseTtlSeconds) ∧
    s'.retried = [] := by
  have hadvances := slowAdvance_advances 33
  have hdispatch : dispatching (slowAdvance 33).1 = true := by decide +kernel
  obtain ⟨run, task, k, hcall⟩ := dispatching_call hdispatch
  rw [hcall] at hadvances
  exact ⟨_, run, task, k, hadvances, advance_dispatches hadvances, by decide +kernel⟩

/-- The second attempt is dispatched ten seconds after the lease of five was renewed. -/
theorem advance_dispatches_late : ∃ s' run task k,
    Advances (timedExec plainCodec plainAgent.sha256Digest)
      (slowAgent.advance "run-r" "worker" none) createdStore
      (.call (.sql (.executeTask run task)) k) s' ∧
    ¬ Live "run-r" "worker" s' := by
  have hadvances := slowAdvance_advances 83
  have hdispatch : dispatching (slowAdvance 83).1 = true := by decide +kernel
  obtain ⟨run, task, k, hcall⟩ := dispatching_call hdispatch
  rw [hcall] at hadvances
  exact ⟨_, run, task, k, hadvances, by decide +kernel⟩

end DurableAgent.Orchestration
