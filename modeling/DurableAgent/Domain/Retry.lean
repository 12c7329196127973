import Mathlib.Data.Rat.Floor
import DurableAgent.Domain.Base
import DurableAgent.Domain.Errors

/-!
# Retry policy

Exponential backoff with a jitter that a digest of the key determines. Seconds are exact
rationals here, and the clock that a delay is slept on counts whole microseconds.
-/

namespace DurableAgent

structure RetryPolicy where
  maximumAttempts : Nat := 3
  baseDelaySeconds : ℚ := 1 / 4
  maximumDelaySeconds : ℚ := 30
  multiplier : ℚ := 2
  jitterRatio : ℚ := 1 / 5
  maximumAttempts_bounds : 1 ≤ maximumAttempts ∧ maximumAttempts ≤ 20
  baseDelaySeconds_bounds : 0 ≤ baseDelaySeconds ∧ baseDelaySeconds ≤ 300
  maximumDelaySeconds_bounds : 0 ≤ maximumDelaySeconds ∧ maximumDelaySeconds ≤ 3600
  multiplier_bounds : 1 ≤ multiplier ∧ multiplier ≤ 10
  jitterRatio_bounds : 0 ≤ jitterRatio ∧ jitterRatio ≤ 1
  valid_delay_bounds : baseDelaySeconds ≤ maximumDelaySeconds

namespace RetryPolicy

variable (policy : RetryPolicy)

/-- `RetryPolicy.should_retry` -/
def shouldRetry (attempt : Nat) (retryable : Bool) : Bool :=
  retryable ∧ 1 ≤ attempt ∧ attempt < policy.maximumAttempts

/-- The delay without its jitter. -/
def rawDelay (attempt : Nat) : ℚ :=
  min policy.maximumDelaySeconds (policy.baseDelaySeconds * policy.multiplier ^ (attempt - 1))

/-- `RetryPolicy.delay_for`; the unit of a text is the first half of its digest as a fraction of
one. -/
def delayFor (digestUnit : String → ℚ) (attempt : Nat) (jitterKey : String) : Except Exn ℚ :=
  if attempt < 1 then .error (.other "attempt must be at least one")
  else
    let raw := policy.rawDelay attempt
    if raw = 0 ∨ policy.jitterRatio = 0 then .ok raw
    else
      let unit := digestUnit s!"{jitterKey}:{attempt}"
      let factor := 1 - policy.jitterRatio + 2 * policy.jitterRatio * unit
      .ok (min policy.maximumDelaySeconds (raw * factor))

end RetryPolicy

/-- The microseconds until a sleeper wakes, who never wakes early. -/
def slept (seconds : ℚ) : Timestamp := ⌈seconds * 1000000⌉

end DurableAgent
