import DurableAgent.Orchestration.Effects

/-!
# The tables that a call writes

Every kind of call writes few of the tables. All the others are as they were.
-/

namespace DurableAgent.Orchestration

open Library Store

variable {Text : Type}

/-- The tables, and what lies behind the interfaces of leases, checkpoints and tools. -/
inductive Region where
  | runs | plans | tasks | attempts | requests | keys | errors | reports | leases | checkpoints
  | tools
  deriving DecidableEq

/-- The tables that a kind of call may write. -/
def Effect.writes : Effect → List Region
  | .insertRun => [.runs, .keys]
  | .insertIdempotencyKey => [.keys]
  | .updateRun => [.runs]
  | .savePlan => [.plans]
  | .saveTasks | .updateTask => [.tasks]
  | .startTaskAttempt | .finishOpenTaskAttempts => [.attempts]
  | .finishAttempt _ | .cancelTask => [.tasks, .attempts]
  | .recordError => [.errors]
  | .insertLifecycleRequest => [.requests, .keys]
  | .applyLifecycleRequest => [.requests]
  | .saveReport => [.reports]
  | .lease => [.leases]
  | .checkpoint | .publish _ => [.checkpoints]
  | .tools => [.tools]
  | .read | .selectTasks _ | .check _ | .executeTask | .sleep => []

/-- A table is the same in two states. -/
def Same : Region → StoreState Text → StoreState Text → Prop
  | .runs, s, s' => s'.runs = s.runs
  | .plans, s, s' => s'.plans = s.plans
  | .tasks, s, s' => s'.tasks = s.tasks
  | .attempts, s, s' => s'.attempts = s.attempts
  | .requests, s, s' => s'.requests = s.requests
  | .keys, s, s' => s'.keys = s.keys
  | .errors, s, s' => s'.errors = s.errors
  | .reports, s, s' => s'.reports = s.reports
  | .leases, s, s' => s'.leases = s.leases
  | .checkpoints, s, s' => s'.checkpoints = s.checkpoints
  | .tools, s, s' => s'.tools = s.tools

variable {codec : Codec Text} {sha256Digest : String → String} {α β : Type} {region : Region}
  {s : StoreState Text}

theorem Same.refl : Same region s s := by
  cases region <;> exact rfl

theorem settle_same {r : Except Exn (α × StoreState Text)}
    (h : ∀ a s', r = .ok (a, s') → Same region s s') : Same region s (settle s r).2 := by
  cases r with
  | error e => exact Same.refl
  | ok r => exact h r.1 r.2 rfl

theorem committed_same {r : Option (StoreState Text)} (h : ∀ s', r = some s' → Same region s s') :
    Same region s (committed s r).2 := by
  cases r with
  | none => exact Same.refl
  | some s' => exact h s' rfl

/-- A statement leaves every table as it is that its kind does not write. -/
theorem handleSql_same {op : SqlOp α} {t : Supply} (h : region ∉ (sqlEffect α op).writes) :
    Same region s (handleSql α op t s).2 := by
  cases op
  case insertRun run key =>
    refine committed_same fun s' hs' => ?_
    simp only [StoreState.insertRun, Option.bind_eq_bind, Option.bind_eq_some_iff] at hs'
    obtain ⟨runs, -, keys, -, hs'⟩ := hs'
    cases hs'
    cases region <;> first | exact rfl | exact absurd (by simp [sqlEffect, Effect.writes]) h
  case insertIdempotencyKey key =>
    refine committed_same fun s' hs' => ?_
    obtain ⟨keys, -, rfl⟩ := Option.map_eq_some_iff.mp hs'
    cases region <;> first | exact rfl | exact absurd (by simp [sqlEffect, Effect.writes]) h
  case updateTaskAndFinishAttempt task v attemptId state errorId =>
    refine settle_same fun a s' hs' => ?_
    simp only [StoreState.updateTaskAndFinishAttempt] at hs'
    split at hs'
    · cases hs'
      cases region <;> first | exact rfl | exact absurd (by simp [sqlEffect, Effect.writes]) h
    · cases hs'
  case updateRun | savePlan | saveTasks | updateTask | startTaskAttempt | cancelTaskAndOpenAttempts |
      insertLifecycleRequest | applyLifecycleRequest =>
    refine settle_same fun a s' hs' => ?_
    simp only [StoreState.updateRun, StoreState.savePlan, StoreState.saveTasks,
      StoreState.updateTask, StoreState.startTaskAttempt, StoreState.cancelTaskAndOpenAttempts,
      StoreState.insertLifecycleRequest, StoreState.applyLifecycleRequest] at hs'
    repeat' split at hs'
    all_goals cases hs'
    all_goals cases region <;> first | exact rfl | exact absurd (by simp [sqlEffect, Effect.writes]) h
  all_goals cases region <;> first | exact rfl | exact absurd (by simp [sqlEffect, Effect.writes]) h

theorem handle_same {op : StoreOp Text β} {t : Supply} (h : region ∉ (effectOf β op).writes) :
    Same region s (handle codec sha256Digest β op t s).2 := by
  cases op with
  | sql op => exact handleSql_same h
  | lease op => cases region <;> first | exact rfl | exact absurd (by simp [effectOf, Effect.writes]) h
  | checkpoint op =>
    cases region
    case checkpoints =>
      have hwrites : Region.checkpoints ∈ (checkpointEffect β op).writes := by
        cases op <;> simp [checkpointEffect, Effect.writes]
      exact absurd hwrites h
    all_goals exact rfl
  | tools op => cases region <;> first | exact rfl | exact absurd (by simp [effectOf, Effect.writes]) h

end DurableAgent.Orchestration
