import DurableAgent.Domain.Base
import DurableAgent.Domain.Errors

/-!
# The circuit breaker

A breaker keeps a count and one point in time. What it answers is a law about the whole history of
its calls: it is open while enough failures have come since the last success, for a time after the
last of them.
-/

namespace DurableAgent.Recovery

/-- The limits that `CircuitBreaker.__init__` checks. -/
structure BreakerLimits where
  threshold : Nat
  recoverySeconds : Nat
  threshold_pos : 1 ≤ threshold
  recoverySeconds_pos : 1 ≤ recoverySeconds

structure CircuitBreaker extends BreakerLimits where
  failures : Nat := 0
  openedAt : Option Timestamp := none

/-- `CircuitBreaker.__init__` -/
def CircuitBreaker.init (failureThreshold recoverySeconds : Int) : Except Exn CircuitBreaker :=
  if h : failureThreshold < 1 ∨ recoverySeconds < 1 then
    .error (.other "circuit breaker limits must be positive")
  else .ok
    { threshold := failureThreshold.toNat
      recoverySeconds := recoverySeconds.toNat
      threshold_pos := by omega
      recoverySeconds_pos := by omega }

namespace CircuitBreaker

/-- The `timedelta` in microseconds, as the clock counts. -/
def recovery (limits : BreakerLimits) : Timestamp := limits.recoverySeconds * 1000000

variable (b : CircuitBreaker) (now : Timestamp)

def allow : Bool :=
  match b.openedAt with
  | none => true
  | some openedAt => openedAt + recovery b.toBreakerLimits ≤ now

def beforeCall : Except Exn Unit :=
  if b.allow now then .ok () else .error (.of .providerRetryable "provider circuit is open")

def success : CircuitBreaker := { b with failures := 0, openedAt := none }

def failure : CircuitBreaker :=
  let counted := { b with failures := b.failures + 1 }
  if counted.threshold ≤ counted.failures then { counted with openedAt := some now } else counted

def isOpen : Bool := b.openedAt.isSome ∧ b.allow now = false

end CircuitBreaker

/-! ## Histories -/

/-- A call of the breaker. -/
inductive BreakerCall where
  | success | failure | allow | beforeCall | isOpen
  deriving DecidableEq

/-- The calls of a breaker with the times that its clock gave, the last one first. -/
abbrev BreakerTrace := List (Timestamp × BreakerCall)

/-- What a call leaves. -/
def CircuitBreaker.call (b : CircuitBreaker) (now : Timestamp) : BreakerCall → CircuitBreaker
  | .success => b.success
  | .failure => b.failure now
  | .allow | .beforeCall | .isOpen => b

/-- The breaker of given limits after a history. -/
def CircuitBreaker.after (limits : BreakerLimits) : BreakerTrace → CircuitBreaker
  | [] => { limits with }
  | (now, call) :: earlier => (after limits earlier).call now call

/-- Whatever limits are accepted, the new breaker has no history. -/
theorem init_eq_ok {failureThreshold recoverySeconds : Int} {b : CircuitBreaker} :
    CircuitBreaker.init failureThreshold recoverySeconds = .ok b ↔
      ∃ limits : BreakerLimits, limits.threshold = failureThreshold ∧
        limits.recoverySeconds = recoverySeconds ∧ b = CircuitBreaker.after limits [] := by
  unfold CircuitBreaker.init
  constructor
  · intro h
    split at h
    · cases h
    · rw [← Except.ok.inj h]
      exact ⟨⟨failureThreshold.toNat, recoverySeconds.toNat, by omega, by omega⟩,
        Int.toNat_of_nonneg (by omega), Int.toNat_of_nonneg (by omega), rfl⟩
  · rintro ⟨limits, rfl, rfl, rfl⟩
    have hthreshold := limits.threshold_pos
    have hrecovery := limits.recoverySeconds_pos
    rw [dif_neg (by omega)]
    rfl

/-- The times of the failures since the last success, the last one first. -/
def failuresSince : BreakerTrace → List Timestamp
  | [] => []
  | (_, .success) :: _ => []
  | (now, .failure) :: earlier => now :: failuresSince earlier
  | (_, .allow) :: earlier | (_, .beforeCall) :: earlier | (_, .isOpen) :: earlier =>
    failuresSince earlier

/-- The time of the last failure of a history. -/
def lastFailure (trace : BreakerTrace) : Option Timestamp :=
  (trace.find? fun entry => entry.2 = .failure).map Prod.fst

variable {limits : BreakerLimits} {trace : BreakerTrace} {now : Timestamp}

/-! ## What the breaker keeps -/

/-- The count is that of the failures, and the time that of the last one, if they are enough. -/
structure Records (limits : BreakerLimits) (trace : BreakerTrace) (b : CircuitBreaker) : Prop where
  sameLimits : b.toBreakerLimits = limits
  failures : b.failures = (failuresSince trace).length
  openedAt : b.openedAt =
    if limits.threshold ≤ (failuresSince trace).length then (failuresSince trace).head? else none

theorem Records.success {b : CircuitBreaker} (h : Records limits trace b) :
    Records limits ((now, .success) :: trace) b.success where
  sameLimits := h.sameLimits
  failures := rfl
  openedAt := by
    change none = if limits.threshold ≤ 0 then _ else none
    rw [if_neg (Nat.not_le.mpr limits.threshold_pos)]

theorem Records.failure {b : CircuitBreaker} (h : Records limits trace b) :
    Records limits ((now, .failure) :: trace) (b.failure now) := by
  have hthreshold : b.threshold = limits.threshold := by rw [← h.sameLimits]
  unfold CircuitBreaker.failure
  dsimp only
  rw [hthreshold, h.failures]
  by_cases hopen : limits.threshold ≤ (failuresSince trace).length + 1
  · rw [if_pos hopen]
    refine ⟨h.sameLimits, rfl, ?_⟩
    rw [failuresSince, List.length_cons, if_pos hopen]
    rfl
  · rw [if_neg hopen]
    refine ⟨h.sameLimits, rfl, ?_⟩
    -- what were enough failures before would be enough with one more
    rw [failuresSince, List.length_cons, if_neg hopen, h.openedAt, if_neg (by omega)]

theorem records_after : Records limits trace (CircuitBreaker.after limits trace) := by
  induction trace with
  | nil =>
    refine ⟨rfl, rfl, ?_⟩
    rw [failuresSince, List.length_nil, if_neg (Nat.not_le.mpr limits.threshold_pos)]
    rfl
  | cons entry earlier ih =>
    obtain ⟨now, call⟩ := entry
    cases call with
    | success => exact ih.success
    | failure => exact ih.failure
    | allow => exact ⟨ih.sameLimits, ih.failures, ih.openedAt⟩
    | beforeCall => exact ⟨ih.sameLimits, ih.failures, ih.openedAt⟩
    | isOpen => exact ⟨ih.sameLimits, ih.failures, ih.openedAt⟩

/-- Where there are failures since the last success, the last failure is one of them. -/
theorem head_failuresSince (h : failuresSince trace ≠ []) :
    (failuresSince trace).head? = lastFailure trace := by
  induction trace with
  | nil => exact absurd rfl h
  | cons entry earlier ih =>
    obtain ⟨now, call⟩ := entry
    cases call with
    | success => exact absurd rfl h
    | failure => rfl
    | allow => exact ih h
    | beforeCall => exact ih h
    | isOpen => exact ih h

/-! ## The law of histories -/

/-- Enough failures since the last success, and the last failure less than the recovery time ago. -/
def Tripped (limits : BreakerLimits) (trace : BreakerTrace) (now : Timestamp) : Prop :=
  limits.threshold ≤ (failuresSince trace).length ∧
    ∃ last, lastFailure trace = some last ∧ now - last < CircuitBreaker.recovery limits

theorem allow_after_iff : (CircuitBreaker.after limits trace).allow now = false ↔
    Tripped limits trace now := by
  have hrecords := @records_after limits trace
  unfold CircuitBreaker.allow Tripped
  rw [hrecords.sameLimits, hrecords.openedAt]
  by_cases henough : limits.threshold ≤ (failuresSince trace).length
  · have hpos := limits.threshold_pos
    have hsome : failuresSince trace ≠ [] := List.ne_nil_of_length_pos (by omega)
    rw [if_pos henough, head_failuresSince hsome]
    rw [and_iff_right henough]
    cases lastFailure trace with
    | none => simp
    | some last =>
      simp only [decide_eq_false_iff_not, not_le, Option.some.injEq, exists_eq_left']
      exact ⟨Int.sub_left_lt_of_lt_add, Int.lt_add_of_sub_left_lt⟩
  · rw [if_neg henough]
    simp [henough]

/-- A probe that fails opens the circuit again. -/
example : (CircuitBreaker.after ⟨2, 10, by decide, by decide⟩
    [(20000000, .failure), (11000000, .beforeCall), (1, .failure), (0, .failure)]).allow
      29999999 = false := by decide

theorem isOpen_eq_not_allow (b : CircuitBreaker) : b.isOpen now = !b.allow now := by
  unfold CircuitBreaker.isOpen CircuitBreaker.allow
  cases b.openedAt with
  | none => rfl
  | some openedAt =>
    rw [Bool.eq_iff_iff]
    simp

end DurableAgent.Recovery
