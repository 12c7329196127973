import DurableAgent.Application.Serving

/-!
# Legal transitions only

No part of the store checks a transition. That every persisted state leads to the next one by
declared edges comes from the moves: each row that is written was computed from the very row that
it replaces.
-/

namespace DurableAgent.Orchestration

open Library Library.Prog Store

variable {Text ι : Type} [DecidableEq ι] {codec : Codec Text} {sha256Digest : String → String}
  {P P' : Pool (StoreOp Text) Exn (StoreState Text) ι} {processes : ι → Process Text}
  {journal : Tools.World}

/-! ## Runs without assumptions -/

/-- Nothing is assumed of the steps. -/
abbrev unassumed : Assumed := ⟨False, False, False⟩

/-- Nothing is watched for. -/
abbrev unwatched : Watch := ⟨"", fun _ => False⟩

omit [DecidableEq ι] in
/-- Where numbers are not assumed to be new, nobody has to be the one to open an attempt. -/
theorem apart_of_not {g : Assumed} {watch : ι → Watch} (h : ¬ g.numbered) : Apart g watch :=
  fun hn => absurd hn h

/-- The calls, each of which may also fail without effect. -/
abbrev faultyExec (codec : Codec Text) (sha256Digest : String → String) :
    Exec (StoreOp Text) Exn (StoreState Text) :=
  (handle codec sha256Digest).exec.withFaults

/-- The calls that meet a condition, each of which may also fail without effect. -/
abbrev guardedExec (cond : (β : Type) → StoreOp Text β → StoreState Text → Prop)
    (codec : Codec Text) (sha256Digest : String → String) :
    Exec (StoreOp Text) Exn (StoreState Text) :=
  ((handle codec sha256Digest).exec.guard cond).withFaults

theorem admitted_of_guarded {g : Assumed} {watch : ι → Watch}
    {cond : ι → (β : Type) → StoreOp Text β → StoreState Text → Prop}
    (hcond : ∀ i β op s, cond i β op s → Admits g (watch i) op s)
    (h : ThreadRuns (fun i => guardedExec (cond i) codec sha256Digest) P P') :
    AdmittedRuns g watch codec sha256Digest P P' :=
  h.mono fun i _ op s _ _ hop => hop.imp_left fun hop => ⟨hcond i _ op s hop.1, hop.2⟩

/-- Every step is admitted where nothing is assumed. -/
theorem admits_unassumed {w : Watch} {β : Type} (op : StoreOp Text β) (s : StoreState Text) :
    Admits unassumed w op s :=
  ⟨False.elim, False.elim, False.elim, False.elim⟩

theorem assumed_of_faulty (h : PoolRuns (faultyExec codec sha256Digest) P P') :
    AdmittedRuns unassumed (fun _ => unwatched) codec sha256Digest P P' :=
  threadRuns_of_poolRuns (h.mono fun _ op s _ _ hop =>
    hop.imp_left fun hop => ⟨admits_unassumed op s, hop⟩)

/-- A fresh database is sound. -/
theorem sound_freshStore (g : Assumed) (journal : Tools.World) :
    Sound g (ledger (freshStore journal : StoreState Text)) where
  activated run hrun := by cases hrun
  placed task htask := by cases htask
  facts task htask := by cases htask
  valid plan hplan := by cases hplan
  counted a ha := by cases ha

/-- What is reached from a fresh database is served still. -/
theorem served_of_reached {g : Assumed} {watch : ι → Watch} (hapart : Apart g watch)
    (h : AdmittedRuns g watch codec sha256Digest (servicePool processes (freshStore journal)) P) :
    Served g watch codec sha256Digest P :=
  (served_servicePool (sound_freshStore g journal)).runs hapart h

/-! ## Transitions -/

/-- A change is a composition of declared edges, and what is terminal does not change. -/
def Leads {S : Type} (table : S → List S) (s t : S) : Prop :=
  (t ≠ s → Relation.TransGen (Edge table) s t) ∧ (Terminal table s → t = s)

theorem Legal.leads {S : Type} {table : S → List S} {s t : S} (h : Legal table s t) :
    Leads table s t :=
  ⟨fun hne => h.eq_or_transGen.resolve_left hne, h.eq_of_terminal⟩

/-- Along all moves, rows stay and their states lead on. -/
theorem Evolves.leads {g : Assumed} {l l' : Ledger} (h : Evolves g l l') :
    (∀ run ∈ l.runs.rows, ∃ run' ∈ l'.runs.rows, run'.runId = run.runId ∧
      Leads runTransitions run.state run'.state) ∧
    ∀ task ∈ l.tasks.rows, ∃ task' ∈ l'.tasks.rows, task'.taskPk = task.taskPk ∧
      Leads taskTransitions task.state task'.state := by
  refine ⟨fun run hrun => ?_, fun task htask => ?_⟩
  · obtain ⟨run', hrun', hid, hlater⟩ := h.grows.1 run hrun
    refine ⟨run', hrun', hid, Legal.leads ?_⟩
    rcases hlater with rfl | ⟨-, hlegal⟩
    · exact .refl
    · exact hlegal
  · obtain ⟨task', htask', hkey, hlater⟩ := h.grows.2.1 task htask
    refine ⟨task', htask', hkey, Legal.leads ?_⟩
    rcases hlater with rfl | ⟨-, -, hlegal, -⟩
    · exact .refl
    · exact hlegal

/-- Any processes, each with any call of the service, interleaved call by call of the store, with
calls that fail and processes that stop: from each reached state to each later one, every
persisted run and task keeps its row, and its state leads to the later one. -/
theorem service_transitions
    (hreach : PoolRuns (faultyExec codec sha256Digest)
      (servicePool processes (freshStore journal)) P)
    (hrun : PoolRuns (faultyExec codec sha256Digest) P P') :
    (∀ run ∈ P.shared.runs.rows, ∃ run' ∈ P'.shared.runs.rows, run'.runId = run.runId ∧
      Leads runTransitions run.state run'.state) ∧
    ∀ task ∈ P.shared.tasks.rows, ∃ task' ∈ P'.shared.tasks.rows, task'.taskPk = task.taskPk ∧
      Leads taskTransitions task.state task'.state :=
  ((served_of_reached (apart_of_not id) (assumed_of_faulty hreach)).evolves (apart_of_not id)
    (assumed_of_faulty hrun)).leads

/-! ## A small instance -/

/-- Checkpoints that are stored as they are. -/
def plainCodec : Codec CheckpointEnvelope := ⟨id, some, fun _ => rfl⟩

def plainRetry : RetryPolicy :=
  { maximumAttempts_bounds := TaskSpec.three_attempts
    baseDelaySeconds_bounds := by constructor <;> norm_num
    maximumDelaySeconds_bounds := by constructor <;> norm_num
    multiplier_bounds := by constructor <;> norm_num
    jitterRatio_bounds := by constructor <;> norm_num
    valid_delay_bounds := by norm_num }

def plainSettings : Settings :=
  { retry := plainRetry, repositoryRoot := "/r", fingerprint := "f"
    leaseTtlSeconds_bounds := by decide, leaseRenewalSeconds_bounds := by decide
    maximumConcurrency_bounds := by decide, checkpointEveryTasks_bounds := by decide
    renewal_below_half_ttl := by decide }

/-- The default settings, and one digest for all texts. -/
def plainAgent : Agent CheckpointEnvelope :=
  { settings := plainSettings, codec := plainCodec, sha256Digest := fun _ => ""
    digestUnit := fun _ => 0, checkpoints := {}
    tools :=
      { registry := { tools := [] }
        policy := { maximumOutputBytes_bound := Tools.ToolPolicy.default_bound }
        checkSchema := fun _ => none
        validate := fun _ _ => none, redact := id, sha256Digest := fun _ => "" }
    fuel := 100 }

def plainTask : TaskSpec :=
  { taskId := "A", title := "task", description := "one small task"
    unique_dependencies := List.nodup_nil, reject_self_dependency := List.not_mem_nil
    maximumAttempts_bounds := TaskSpec.three_attempts }

def plainPlan : PlanSpec :=
  { planId := "plan", runId := "run-r", version := 1, tasks := [plainTask]
    version_pos := PlanSpec.first_version }

/-- Everything outside answers well, under the given identifier. -/
def plainSupply (freshId : String) : Supply :=
  { now := 0, freshId := freshId, heartbeatDue := false, outcome := .ok (some {})
    plan := .ok plainPlan, path := .ok ("/r", true), index := .ok ("snapshot", "manifest")
    context := .ok ("context", [])
    checkpoint := { (default : Checkpoints.Supply) with freshId := freshId }
    tools := { now := 0, freshId := freshId, order := [], outcome := .ok [], reconciled := .ok none } }

/-- A turn of one process for each identifier. -/
def turns {κ : Type} (i : κ) (freshIds : List String) : List (κ × Supply) :=
  freshIds.map fun freshId => (i, plainSupply freshId)

def plainStore : StoreState CheckpointEnvelope := freshStore ⟨⟨[], []⟩, []⟩

/-- The processes of the instance, one for each of the calls. -/
def plainPool (calls : Nat → ServiceCall) :
    Pool (StoreOp CheckpointEnvelope) Exn (StoreState CheckpointEnvelope) Nat :=
  servicePool (fun i => ⟨plainAgent, calls i⟩) plainStore

abbrev plainExec : Exec (StoreOp CheckpointEnvelope) Exn (StoreState CheckpointEnvelope) :=
  faultyExec plainCodec plainAgent.sha256Digest

abbrev plainPlay (schedule : List (Nat × Supply))
    (P : Pool (StoreOp CheckpointEnvelope) Exn (StoreState CheckpointEnvelope) Nat) :
    Pool (StoreOp CheckpointEnvelope) Exn (StoreState CheckpointEnvelope) Nat :=
  P.play (handle plainCodec plainAgent.sha256Digest) schedule

theorem plainPlay_runs (schedule : List (Nat × Supply))
    (P : Pool (StoreOp CheckpointEnvelope) Exn (StoreState CheckpointEnvelope) Nat) :
    PoolRuns plainExec P (plainPlay schedule P) :=
  (Pool.play_runs _ schedule P).mono fun _ _ _ _ _ => .inl

/-- A creation that is interrupted while it plans, and what has become of the run afterwards. -/
theorem service_transitions_planning : ∃ P P',
    PoolRuns plainExec (plainPool fun _ => .createRun "objective" "owner" "key" none) P ∧
    PoolRuns plainExec P P' ∧ (P.shared.runs.rows.map RunRecord.state) = [.PLANNING] ∧
    (P'.shared.runs.rows.map RunRecord.state) = [.RUNNING] ∧
    (∀ run ∈ P.shared.runs.rows, ∃ run' ∈ P'.shared.runs.rows, run'.runId = run.runId ∧
      Leads runTransitions run.state run'.state) := by
  have hreach := plainPlay_runs (turns 0 (List.replicate 15 "r"))
    (plainPool fun _ => .createRun "objective" "owner" "key" none)
  have hrun := plainPlay_runs (turns 0 (List.replicate 23 "r")) (plainPlay
    (turns 0 (List.replicate 15 "r")) (plainPool fun _ => .createRun "objective" "owner" "key" none))
  exact ⟨_, _, hreach, hrun, by decide +kernel, by decide +kernel,
    (service_transitions hreach hrun).1⟩

end DurableAgent.Orchestration
