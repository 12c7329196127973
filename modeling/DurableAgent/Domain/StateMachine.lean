import Mathlib.Logic.Relation
import DurableAgent.Domain.Errors

/-!
# Lifecycle state machines

The run and task states, the declared transition tables and the checked transition functions.
A transition to the present state is accepted and changes nothing.
-/

namespace DurableAgent

inductive RunState where
  | CREATED | PLANNING | RUNNING | PAUSE_REQUESTED | PAUSED | RECOVERING
  | COMPLETED | FAILED | CANCELLED
  deriving DecidableEq, Repr

inductive TaskState where
  | PENDING | READY | RUNNING | WAITING | PAUSE_REQUESTED | PAUSED | SUCCEEDED
  | FAILED_RETRYABLE | FAILED_TERMINAL | CANCELLED | SKIPPED
  deriving DecidableEq, Repr

def RunState.value : RunState → String
  | .CREATED => "CREATED"
  | .PLANNING => "PLANNING"
  | .RUNNING => "RUNNING"
  | .PAUSE_REQUESTED => "PAUSE_REQUESTED"
  | .PAUSED => "PAUSED"
  | .RECOVERING => "RECOVERING"
  | .COMPLETED => "COMPLETED"
  | .FAILED => "FAILED"
  | .CANCELLED => "CANCELLED"

def TaskState.value : TaskState → String
  | .PENDING => "PENDING"
  | .READY => "READY"
  | .RUNNING => "RUNNING"
  | .WAITING => "WAITING"
  | .PAUSE_REQUESTED => "PAUSE_REQUESTED"
  | .PAUSED => "PAUSED"
  | .SUCCEEDED => "SUCCEEDED"
  | .FAILED_RETRYABLE => "FAILED_RETRYABLE"
  | .FAILED_TERMINAL => "FAILED_TERMINAL"
  | .CANCELLED => "CANCELLED"
  | .SKIPPED => "SKIPPED"

/-- `RUN_TRANSITIONS` -/
def runTransitions : RunState → List RunState
  | .CREATED => [.PLANNING, .CANCELLED, .FAILED]
  | .PLANNING => [.RUNNING, .PAUSE_REQUESTED, .CANCELLED, .FAILED]
  | .RUNNING => [.PAUSE_REQUESTED, .COMPLETED, .FAILED, .CANCELLED, .RECOVERING]
  | .PAUSE_REQUESTED => [.PAUSED, .CANCELLED, .FAILED, .COMPLETED]
  | .PAUSED => [.RECOVERING, .CANCELLED, .FAILED]
  | .RECOVERING => [.RUNNING, .PAUSED, .CANCELLED, .FAILED]
  | .COMPLETED => []
  | .FAILED => []
  | .CANCELLED => []

/-- `TASK_TRANSITIONS` -/
def taskTransitions : TaskState → List TaskState
  | .PENDING => [.READY, .WAITING, .CANCELLED, .SKIPPED]
  | .READY => [.RUNNING, .PAUSE_REQUESTED, .CANCELLED, .SKIPPED]
  | .RUNNING =>
    [.SUCCEEDED, .FAILED_RETRYABLE, .FAILED_TERMINAL, .WAITING, .PAUSE_REQUESTED, .CANCELLED]
  | .WAITING => [.READY, .CANCELLED, .SKIPPED, .FAILED_TERMINAL]
  | .PAUSE_REQUESTED => [.PAUSED, .SUCCEEDED, .CANCELLED, .FAILED_TERMINAL]
  | .PAUSED => [.READY, .CANCELLED]
  | .FAILED_RETRYABLE => [.READY, .FAILED_TERMINAL, .CANCELLED]
  | .SUCCEEDED => []
  | .FAILED_TERMINAL => []
  | .CANCELLED => []
  | .SKIPPED => []

/-- `_transition` over either table: the target when it is the present state or listed. -/
def transition {S : Type} [DecidableEq S] (table : S → List S) (kind : String)
    (value : S → String) (current target : S) : Except Exn S :=
  if target = current then .ok current
  else if target ∉ table current then
    .error (.of .invalidTransition s!"Invalid {kind} transition {value current} -> {value target}")
  else .ok target

/-- `transition_run` -/
def transitionRun (current target : RunState) : Except Exn RunState :=
  transition runTransitions "run" RunState.value current target

/-- `transition_task` -/
def transitionTask (current target : TaskState) : Except Exn TaskState :=
  transition taskTransitions "task" TaskState.value current target

section Legal

variable {S : Type} (table : S → List S)

/-- One declared edge. -/
def Edge (current target : S) : Prop := target ∈ table current

/-- A composition of declared edges, possibly of none. -/
def Legal : S → S → Prop := Relation.ReflTransGen (Edge table)

/-- A state without an outgoing edge. -/
def Terminal (current : S) : Prop := table current = []

variable {table}

theorem transition_eq_ok [DecidableEq S] {kind : String} {value : S → String}
    {current target s : S} (h : transition table kind value current target = .ok s) :
    s = target ∧ (target = current ∨ Edge table current target) := by
  unfold transition at h
  split at h
  · next heq => exact ⟨by rw [heq]; exact (Except.ok.inj h).symm, .inl heq⟩
  · split at h
    · cases h
    · next hmem => exact ⟨(Except.ok.inj h).symm, .inr (not_not.mp hmem)⟩

/-- An accepted transition is legal and leads to its target. -/
theorem transition_legal [DecidableEq S] {kind : String} {value : S → String}
    {current target s : S} (h : transition table kind value current target = .ok s) :
    s = target ∧ Legal table current target := by
  obtain ⟨hs, rfl | hedge⟩ := transition_eq_ok h
  · exact ⟨hs, .refl⟩
  · exact ⟨hs, .single hedge⟩

/-- Nothing leads out of a terminal state. -/
theorem Legal.eq_of_terminal {s t : S} (h : Legal table s t) (hs : Terminal table s) : t = s := by
  induction h with
  | refl => rfl
  | tail _ hedge ih =>
    subst ih
    rw [Edge, hs] at hedge
    exact absurd hedge (List.not_mem_nil)

/-- A legal change of state is a composition of one or more declared edges. -/
theorem Legal.eq_or_transGen {s t : S} (h : Legal table s t) :
    t = s ∨ Relation.TransGen (Edge table) s t :=
  (Relation.reflTransGen_iff_eq_or_transGen).mp h

end Legal

abbrev RunLegal : RunState → RunState → Prop := Legal runTransitions
abbrev TaskLegal : TaskState → TaskState → Prop := Legal taskTransitions

theorem transitionRun_legal {current target s : RunState}
    (h : transitionRun current target = .ok s) : s = target ∧ RunLegal current target :=
  transition_legal h

theorem transitionTask_legal {current target s : TaskState}
    (h : transitionTask current target = .ok s) : s = target ∧ TaskLegal current target :=
  transition_legal h

instance (s t : RunState) : Decidable (Edge runTransitions s t) :=
  inferInstanceAs (Decidable (t ∈ runTransitions s))

instance (s t : TaskState) : Decidable (Edge taskTransitions s t) :=
  inferInstanceAs (Decidable (t ∈ taskTransitions s))

theorem terminal_run_iff (s : RunState) :
    Terminal runTransitions s ↔ s = .COMPLETED ∨ s = .FAILED ∨ s = .CANCELLED := by
  cases s <;> simp [Terminal, runTransitions]

theorem terminal_task_iff (s : TaskState) : Terminal taskTransitions s ↔
    s = .SUCCEEDED ∨ s = .FAILED_TERMINAL ∨ s = .CANCELLED ∨ s = .SKIPPED := by
  cases s <;> simp [Terminal, taskTransitions]

end DurableAgent
