import Mathlib.Tactic.Common

/-!
# Exceptions

The classes of the domain's exception taxonomy, with the category and the retry flag each class
declares, and the other exceptions a call may end in.
-/

namespace DurableAgent

inductive ErrorCategory where
  | VALIDATION | PROVIDER_RETRYABLE | RATE_LIMIT | TIMEOUT | TOOL_EXECUTION | DATABASE
  | CONCURRENCY | REPOSITORY_CHANGED | CORRUPT_CHECKPOINT | UNSUPPORTED_SCHEMA
  | SECURITY_POLICY | TERMINAL_DOMAIN
  deriving DecidableEq, Repr

/-- The concrete classes below `DurableAgentError`. -/
inductive ErrorClass where
  | durableAgent | domainValidation | invalidTransition | planValidation | providerRetryable
  | rateLimit | operationTimeout | toolExecution | database | concurrencyConflict
  | repositoryChanged | corruptCheckpoint | artifactIntegrity | unsupportedSchemaVersion
  | securityPolicy | notFound | idempotencyConflict | manualReviewRequired
  deriving DecidableEq, Repr

/-- Classes without a category of their own inherit it from their base class. -/
def ErrorClass.category : ErrorClass → ErrorCategory
  | .domainValidation | .invalidTransition | .planValidation | .idempotencyConflict => .VALIDATION
  | .providerRetryable => .PROVIDER_RETRYABLE
  | .rateLimit => .RATE_LIMIT
  | .operationTimeout => .TIMEOUT
  | .toolExecution => .TOOL_EXECUTION
  | .database => .DATABASE
  | .concurrencyConflict => .CONCURRENCY
  | .repositoryChanged => .REPOSITORY_CHANGED
  | .corruptCheckpoint => .CORRUPT_CHECKPOINT
  | .unsupportedSchemaVersion => .UNSUPPORTED_SCHEMA
  | .securityPolicy => .SECURITY_POLICY
  | .durableAgent | .artifactIntegrity | .notFound | .manualReviewRequired => .TERMINAL_DOMAIN

def ErrorClass.retryable : ErrorClass → Bool
  | .providerRetryable | .rateLimit | .operationTimeout | .database | .concurrencyConflict => true
  | _ => false

structure DurableAgentError where
  cls : ErrorClass
  message : String
  deriving DecidableEq, Repr

/-- What a call raises: a domain error, or any other exception with its text. -/
inductive Exn where
  | agent (e : DurableAgentError)
  | other (text : String)
  deriving DecidableEq, Repr

/-- A sequence that succeeds has succeeded in both parts. -/
theorem of_bind_ok {ε α β : Type} {x : Except ε α} {f : α → Except ε β} {b : β}
    (h : (x >>= f) = .ok b) : ∃ a, x = .ok a ∧ f a = .ok b := by
  cases x with
  | error e => cases h
  | ok a => exact ⟨a, rfl, h⟩

abbrev Exn.of (cls : ErrorClass) (message : String) : Exn := .agent ⟨cls, message⟩

end DurableAgent
