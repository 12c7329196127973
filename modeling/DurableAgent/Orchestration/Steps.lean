import DurableAgent.Library.Contract
import DurableAgent.Orchestration.Lifecycle
import DurableAgent.Orchestration.Orchestrator

/-!
# Every call is a move

What each call of the store does to the ledger, for a caller that knows what it writes over.
-/

namespace DurableAgent.Orchestration

open Library Store

variable {Text α β : Type}

/-- The ledger of a store. -/
def ledger (s : StoreState Text) : Ledger := ⟨s.runs, s.plans, s.tasks, s.attempts⟩

/-- The number of an attempt, for its task of its run. -/
abbrev Numbered := String × String × Nat

def numberOf (a : TaskAttempt) : Numbered := (a.runId, a.taskId, a.attemptNumber)

/-- What one process is watched for: the plan whose tasks it reads for its loop, and the attempts
that it is the one to open. -/
structure Watch where
  planId : String
  opens : Numbered → Prop

/-- The run and the plan whose tasks a call reads for the loop. -/
def loopRead : (β : Type) → StoreOp Text β → Option (String × String)
  | _, .sql (.selectTasks .advance runId planId) => some (runId, planId)
  | _, _ => none

/-- The run that a call writes. -/
def runUpdate : (β : Type) → StoreOp Text β → Option RunRecord
  | _, .sql (.updateRun run _) => some run
  | _, _ => none

/-- The task that `update_task` writes, and the version that it expects. -/
def taskUpdate : (β : Type) → StoreOp Text β → Option (TaskRecord × Nat)
  | _, .sql (.updateTask task expectedVersion) => some (task, expectedVersion)
  | _, _ => none

/-- The steps of a process that an assumption admits. -/
structure Admits (g : Assumed) (w : Watch) (op : StoreOp Text β) (s : StoreState Text) : Prop where
  calm : g.calm → ∀ read ∈ loopRead _ op, read.2 = w.planId ∧
    ∀ row ∈ s.tasks.rows, row.runId = read.1 ∧ row.planId = read.2 → AtRest row.state
  active : g.calm → ∀ run ∈ runUpdate _ op, run.state = .FAILED → run.activePlanId = some w.planId
  spare : g.budget → ∀ update ∈ taskUpdate _ op, update.1.state = .READY →
    ∀ row ∈ s.tasks.rows, row.taskPk = update.1.taskPk → row.version = update.2 →
      row.state = .WAITING → row.attemptCount < row.spec.maximumAttempts
  numbered : g.numbered → ∀ update ∈ taskUpdate _ op, update.1.state = .RUNNING →
    w.opens (update.1.runId, update.1.spec.taskId, update.1.attemptCount) ∧
      ∀ row ∈ s.tasks.rows, row.runId = update.1.runId →
        row.spec.taskId = update.1.spec.taskId → row.attemptCount < update.1.attemptCount

/-- The calls under the assumption, each of which may also fail without effect. -/
abbrev assumedExec (g : Assumed) (w : Watch) (codec : Codec Text)
    (sha256Digest : String → String) : Exec (StoreOp Text) Exn (StoreState Text) :=
  ((handle codec sha256Digest).exec.guard fun _ => Admits g w).withFaults

/-- The attempts that are there afterwards were there under the same numbers, or are among those
that may be opened. -/
def OpensOnly (may : Numbered → Prop) (s s' : Ledger) : Prop :=
  ∀ a ∈ s'.attempts.rows, may (numberOf a) ∨ ∃ b ∈ s.attempts.rows, numberOf b = numberOf a

theorem OpensOnly.refl (may : Numbered → Prop) (s : Ledger) : OpensOnly may s s :=
  fun a ha => .inr ⟨a, ha, rfl⟩

theorem OpensOnly.trans {may : Numbered → Prop} {s t u : Ledger} (h : OpensOnly may s t)
    (h' : OpensOnly may t u) : OpensOnly may s u := by
  intro a ha
  rcases h' a ha with hmay | ⟨b, hb, hsame⟩
  · exact .inl hmay
  · rw [← hsame]
    exact h b hb

/-- No attempt has the number. -/
def Unopened (s : Ledger) (n : Numbered) : Prop := ∀ a ∈ s.attempts.rows, numberOf a ≠ n

theorem OpensOnly.unopened {may : Numbered → Prop} {s s' : Ledger} {n : Numbered}
    (h : OpensOnly may s s') (hn : ¬ may n) (hs : Unopened s n) : Unopened s' n := by
  intro a ha hsame
  rcases h a ha with hmay | ⟨b, hb, hsame'⟩
  · exact hn (hsame ▸ hmay)
  · exact hs b hb (hsame'.trans hsame)

/-- A start opens an attempt under a number that no attempt has. -/
def opensNew (g : Assumed) : (β : Type) → StoreOp Text β → StoreState Text → Prop
  | _, .sql (.startTaskAttempt runId taskId attemptNumber), s =>
    g.numbered → Unopened (ledger s) (runId, taskId, attemptNumber)
  | _, _, _ => True

/-- A process moves the ledger and opens its own attempts only, and relies on the others to do no
more. -/
def lifecycle (g : Assumed) (w : Watch) : Contract (StoreOp Text) (StoreState Text) where
  inv s := Sound g (ledger s)
  rely s s' := Evolves g (ledger s) (ledger s') ∧
    OpensOnly (fun n => g.numbered → ¬ w.opens n) (ledger s) (ledger s')
  guar s s' := Move g (ledger s) (ledger s') ∧
    OpensOnly (fun n => g.numbered → w.opens n) (ledger s) (ledger s')
  pre := opensNew g
  refl _ := ⟨.refl, .refl _ _⟩
  trans h h' := ⟨Relation.ReflTransGen.trans h.1 h'.1, h.2.trans h'.2⟩

/-- The calls that leave the ledger alone. -/
def Quiet : (β : Type) → StoreOp Text β → Prop
  | _, .sql (.insertRun _ _) | _, .sql (.updateRun _ _) | _, .sql (.savePlan _)
  | _, .sql (.saveTasks _) | _, .sql (.updateTask _ _) | _, .sql (.startTaskAttempt _ _ _)
  | _, .sql (.updateTaskAndFinishAttempt _ _ _ _ _) | _, .sql (.finishOpenTaskAttempts _ _ _ _)
  | _, .sql (.cancelTaskAndOpenAttempts _ _) => False
  | _, _ => True

variable {g : Assumed} {w : Watch} {codec : Codec Text} {sha256Digest : String → String}
  {s s' : StoreState Text}

theorem quiet_ledger {op : StoreOp Text β} (h : Quiet β op) (t : Supply) :
    ledger (handle codec sha256Digest β op t s).2 = ledger s := by
  cases op with
  | sql op =>
    cases op <;> first | exact h.elim | rfl | skip
    · -- an idempotency record
      rename_i key
      change ledger (committed s ((s.keys.insert key).map fun keys => { s with keys := keys })).2 = _
      cases s.keys.insert key <;> rfl
    · -- a lifecycle request
      rename_i request key
      change ledger (settle s (s.insertLifecycleRequest request key)).2 = _
      unfold StoreState.insertLifecycleRequest
      cases s.requests.insert request <;> cases s.keys.insert key <;> rfl
    · rename_i request
      change ledger (settle s (s.applyLifecycleRequest request t.now)).2 = _
      unfold StoreState.applyLifecycleRequest
      dsimp only
      split <;> rfl
  | lease op => rfl
  | checkpoint op => rfl
  | tools op => rfl

/-! ## Calls that open no attempt -/

/-- The call that opens an attempt. -/
def Opening : (β : Type) → StoreOp Text β → Prop
  | _, .sql (.startTaskAttempt _ _ _) => True
  | _, _ => False

theorem Quiet.not_opening {op : StoreOp Text β} (h : Quiet β op) : ¬ Opening β op := by
  intro hopening
  cases op with
  | sql op => cases op <;> first | exact h | exact hopening
  | lease op => exact hopening
  | checkpoint op => exact hopening
  | tools op => exact hopening

theorem opensNew_of_not {op : StoreOp Text β} (h : ¬ Opening β op) : opensNew g β op s := by
  cases op with
  | sql op => cases op <;> first | exact trivial | exact absurd trivial h
  | lease op => trivial
  | checkpoint op => trivial
  | tools op => trivial

theorem Closes.refl (attempts : Table TaskAttempt.attemptId) : Closes attempts attempts :=
  fun _ ha => .inl ha

theorem closes_closeAttempts (which : TaskAttempt → Bool) (state : TaskState)
    (errorId : TaskAttempt → Option String) (now : Timestamp) :
    Closes s.attempts (s.closeAttempts which state errorId now) := by
  intro a ha
  obtain ⟨b, hb, rfl⟩ := List.mem_map.mp ha
  split
  · exact .inr ⟨Option.some_ne_none now, b, hb, rfl, rfl, rfl, rfl⟩
  · exact .inl hb

theorem Closes.opensOnly {s s' : Ledger} (h : Closes s.attempts s'.attempts)
    (may : Numbered → Prop) : OpensOnly may s s' := by
  intro a ha
  rcases h a ha with hmem | ⟨-, b, hb, -, hrun, htask, hnumber⟩
  · exact .inr ⟨a, hmem, rfl⟩
  · exact .inr ⟨b, hb, by rw [numberOf, numberOf, hrun, htask, hnumber]⟩

/-- Every other call closes attempts at most. -/
theorem closes_handle {op : StoreOp Text β} (h : ¬ Opening β op) (t : Supply) :
    Closes s.attempts (handle codec sha256Digest β op t s).2.attempts := by
  have hquiet (hop : Quiet β op) :
      Closes s.attempts (handle codec sha256Digest β op t s).2.attempts := by
    have hledger : ledger (handle codec sha256Digest β op t s).2 = ledger s := quiet_ledger hop t
    have hattempts : (handle codec sha256Digest β op t s).2.attempts = s.attempts :=
      congrArg Ledger.attempts hledger
    rw [hattempts]
    exact .refl s.attempts
  cases op with
  | lease op => exact hquiet trivial
  | checkpoint op => exact hquiet trivial
  | tools op => exact hquiet trivial
  | sql op =>
    cases op with
    | insertRun run key =>
      change Closes s.attempts (committed s (s.insertRun run key)).2.attempts
      unfold StoreState.insertRun
      cases s.runs.insert run with
      | none => exact .refl _
      | some runs => cases s.keys.insert key <;> exact .refl _
    | updateRun run v =>
      change Closes s.attempts (settle s (s.updateRun run v)).2.attempts
      unfold StoreState.updateRun
      split <;> exact .refl _
    | savePlan plan =>
      change Closes s.attempts (settle s (s.savePlan plan)).2.attempts
      unfold StoreState.savePlan
      split
      · exact .refl _
      · split <;> exact .refl _
    | saveTasks tasks =>
      change Closes s.attempts (settle s (s.saveTasks tasks)).2.attempts
      unfold StoreState.saveTasks
      split <;> exact .refl _
    | updateTask task v =>
      change Closes s.attempts (settle s (s.updateTask task v)).2.attempts
      unfold StoreState.updateTask
      split <;> exact .refl _
    | startTaskAttempt runId taskId n => exact absurd trivial h
    | updateTaskAndFinishAttempt task v attemptId state errorId =>
      change Closes s.attempts
        (settle s (s.updateTaskAndFinishAttempt task v attemptId state errorId t.now)).2.attempts
      unfold StoreState.updateTaskAndFinishAttempt
      dsimp only
      split
      · exact closes_closeAttempts _ _ _ _
      · exact .refl _
    | finishOpenTaskAttempts runId taskId state errorId => exact closes_closeAttempts _ _ _ _
    | cancelTaskAndOpenAttempts task v =>
      change Closes s.attempts (settle s (s.cancelTaskAndOpenAttempts task v t.now)).2.attempts
      unfold StoreState.cancelTaskAndOpenAttempts
      split
      · exact closes_closeAttempts _ _ _ _
      · exact .refl _
    | _ => exact hquiet trivial

theorem opensOnly_handle {op : StoreOp Text β} (h : ¬ Opening β op) (may : Numbered → Prop)
    (t : Supply) : OpensOnly may (ledger s) (ledger (handle codec sha256Digest β op t s).2) :=
  Closes.opensOnly (closes_handle h t) may

/-! ## Rules for the lifecycle -/

/-- Knowledge that moves keep. -/
def Persists (g : Assumed) (K : Ledger → Prop) : Prop := ∀ ⦃l l'⦄, Evolves g l l' → K l → K l'

theorem Persists.and {K L : Ledger → Prop} (hK : Persists g K) (hL : Persists g L) :
    Persists g fun l => K l ∧ L l :=
  fun _ _ h hKL => ⟨hK h hKL.1, hL h hKL.2⟩

theorem Persists.forall {κ : Sort*} {K : κ → Ledger → Prop} (hK : ∀ x, Persists g (K x)) :
    Persists g fun l => ∀ x, K x l :=
  fun _ _ h hall x => hK x h (hall x)

theorem persists_const (p : Prop) : Persists g fun _ => p := fun _ _ _ h => h

theorem Persists.imp {p : Prop} {K : Ledger → Prop} (hK : Persists g K) :
    Persists g fun l => p → K l :=
  fun _ _ h hp p' => hK h (hp p')

theorem Persists.keeps {K : Ledger → Prop} (hK : Persists g K) :
    (lifecycle g w : Contract (StoreOp Text) (StoreState Text)).Keeps fun s => K (ledger s) := by
  intro s s' h _ hKs
  rcases h with h | h
  · exact hK h.1 hKs
  · exact hK (.single h.1) hKs

theorem persists_runCopy (run : RunRecord) : Persists g fun l => l.RunCopy run :=
  fun _ _ h hrun => h.runCopy hrun

theorem persists_taskCopy (task : TaskRecord) : Persists g fun l => l.TaskCopy task :=
  fun _ _ h htask => h.taskCopy htask

theorem persists_taskView (home : PlanSpec) (tasks : List TaskRecord) :
    Persists g fun l => TaskView g l home tasks :=
  fun _ _ h hview => h.taskView hview

theorem persists_stored (plan : PlanSpec) : Persists g fun l => plan ∈ l.plans.rows :=
  fun _ _ h hplan => h.grows.2.2 plan hplan

theorem persists_materialized (plan : PlanSpec) : Persists g fun l => Materialized l plan :=
  fun _ _ h hplan => h.materialized hplan

theorem persists_dependenciesDone (task : TaskRecord) :
    Persists g fun l => DependenciesDone l task :=
  fun _ _ h htask => h.dependenciesDone htask

theorem persists_failedBeside (runId planId : String) :
    Persists g fun l => FailedBeside l runId planId :=
  fun _ _ h hfailed => h.failedBeside hfailed

/-- Every step of the program is a move; when it returns, the result satisfies the
postcondition. -/
abbrev Does (g : Assumed) (w : Watch) (codec : Codec Text) (sha256Digest : String → String)
    (p : StoreProg Text α) (R : α → Ledger → Prop) (s : StoreState Text) : Prop :=
  (lifecycle g w).Meets (assumedExec g w codec sha256Digest) p (onOk fun a s => R a (ledger s)) s

variable {p : StoreProg Text α} {f : α → StoreProg Text β} {K : Ledger → Prop}
  {R : α → Ledger → Prop} {T : β → Ledger → Prop}

theorem Does.seq (hK : Persists g K) (hs : K (ledger s)) (hp : Does g w codec sha256Digest p R s)
    (hf : ∀ a s', Sound g (ledger s') → K (ledger s') → R a (ledger s') →
      Does g w codec sha256Digest (f a) T s') : Does g w codec sha256Digest (p >>= f) T s :=
  Contract.Meets.seq hK.keeps hs hp hf

theorem Does.ofExcept {r : Except Exn α} (hK : Persists g K) (hs : K (ledger s))
    (hf : ∀ a s', r = .ok a → Sound g (ledger s') → K (ledger s') →
      Does g w codec sha256Digest (f a) T s') :
    Does g w codec sha256Digest (Prog.ofExcept r >>= f) T s :=
  Contract.Meets.ofExcept hK.keeps hs hf

theorem Does.pure {a : α} (hR : Persists g (R a)) (h : R a (ledger s)) :
    Does g w codec sha256Digest (Pure.pure a) R s :=
  Contract.Meets.pure hR.keeps h

theorem Does.raise {e : Exn} : Does g w codec sha256Digest (Prog.raise e : StoreProg Text α) R s :=
  fun _ _ _ => trivial

theorem Does.mono {R' : α → Ledger → Prop} (hp : Does g w codec sha256Digest p R s)
    (h : ∀ a l, Sound g l → R a l → R' a l) : Does g w codec sha256Digest p R' s := by
  refine Contract.Meets.mono hp fun r s' hinv hr => ?_
  cases r with
  | ok a => exact h a _ hinv hr
  | error e => trivial

theorem Does.keep (hp : Does g w codec sha256Digest p R s) (hK : Persists g K) (hs : K (ledger s)) :
    Does g w codec sha256Digest p (fun a l => R a l ∧ K l) s := by
  refine Contract.Meets.mono (hp.frame hK.keeps hs) fun r s' _ hr => ?_
  cases r with
  | ok a => exact hr
  | error e => trivial

theorem Does.tryCatch {handler : Exn → StoreProg Text α} (hp : Does g w codec sha256Digest p R s)
    (hK : Persists g K) (hs : K (ledger s))
    (hh : ∀ e s', Sound g (ledger s') → K (ledger s') →
      Does g w codec sha256Digest (handler e) R s') :
    Does g w codec sha256Digest (p.tryCatch handler) R s :=
  Contract.Meets.tryCatch (hp.frame hK.keeps hs) (fun _ _ _ h => h.1)
    fun e s' hinv h => hh e s' hinv h.2

theorem Does.mapM' {K : α → Ledger → Prop} {T : α → β → Ledger → Prop}
    {f : α → StoreProg Text β} {l : List α} (hK : ∀ a, Persists g (K a))
    (hT : ∀ a b, Persists g (T a b))
    (hf : ∀ a s, Sound g (ledger s) → K a (ledger s) → Does g w codec sha256Digest (f a) (T a) s)
    (hs : Sound g (ledger s)) (hl : ∀ a ∈ l, K a (ledger s)) :
    Does g w codec sha256Digest (l.mapM' f) (fun bs m => List.Forall₂ (fun a b => T a b m) l bs) s :=
  Contract.Meets.mapM' (R := fun a s => K a (ledger s)) (T := fun a b s => T a b (ledger s))
    (fun a => (hK a).keeps) (fun a b => (hT a b).keeps) hf hl hs

/-- A call whose effect is a move whatever is supplied to it. -/
theorem does_call {op : StoreOp Text α} (hop : ¬ Opening α op) (hK : Persists g K)
    (hs : K (ledger s)) (hR : ∀ a, Persists g (R a))
    (h : ∀ s t x s', Sound g (ledger s) → K (ledger s) → Admits g w op s →
      handle codec sha256Digest α op t s = (x, s') →
        Move g (ledger s) (ledger s') ∧ ∀ a, x = .ok a → R a (ledger s')) :
    Does g w codec sha256Digest (Prog.perform op) R s := by
  refine Contract.Meets.perform hK.keeps hs (fun x => ?_)
    fun s hinv hKs => ⟨opensNew_of_not hop, ?_⟩
  · cases x with
    | ok a => exact (hR a).keeps
    | error e => exact Contract.keeps_const True
  · rintro x s' (⟨hadmits, t, hstep⟩ | ⟨e, rfl, rfl⟩)
    · obtain ⟨hmove, hok⟩ := h s t x s' hinv hKs hadmits hstep
      have hopens : OpensOnly (fun n => g.numbered → w.opens n) (ledger s)
          (ledger (handle codec sha256Digest α op t s).2) := opensOnly_handle hop _ t
      rw [hstep] at hopens
      refine ⟨⟨hmove, hopens⟩, hmove.sound hinv, ?_⟩
      cases x with
      | ok a => exact hok a rfl
      | error e => trivial
    · exact ⟨⟨.quiet, .refl _ _⟩, hinv, trivial⟩

/-- A quiet call, with what its answer says of the ledger. -/
theorem does_quiet {op : StoreOp Text α} (hop : Quiet α op) (hK : Persists g K)
    (hs : K (ledger s)) (hR : ∀ a, Persists g (R a))
    (h : ∀ s t, Sound g (ledger s) → K (ledger s) → Admits g w op s →
      ∀ a, (handle codec sha256Digest α op t s).1 = .ok a → R a (ledger s)) :
    Does g w codec sha256Digest (Prog.perform op) R s := by
  refine does_call hop.not_opening hK hs hR fun s t x s' hinv hKs hadmits hstep => ?_
  have hledger : ledger (handle codec sha256Digest α op t s).2 = ledger s := quiet_ledger hop t
  have hanswer := h s t hinv hKs hadmits
  rw [hstep] at hledger hanswer
  change ledger s' = ledger s at hledger
  rw [hledger]
  exact ⟨.quiet, hanswer⟩

/-- Nothing is lost over a program of quiet calls, and its result is what it always is. -/
theorem does_calls {E : α → Prop} (hp : p.Calls Quiet) (he : p.Ends E) :
    Does g w codec sha256Digest p (fun a _ => E a) s := by
  have hquiet : Does g w codec sha256Digest p (fun _ _ => True) s := by
    refine Contract.Meets.mono (Contract.Meets.of_calls (Contract.keeps_const True) hp trivial
      fun δ op s hop hinv _ => ⟨opensNew_of_not hop.not_opening, ?_⟩) fun r _ _ _ => by
        cases r <;> trivial
    rintro x s' (⟨-, t, hstep⟩ | ⟨e, rfl, rfl⟩)
    · have hledger : ledger (handle codec sha256Digest δ op t s).2 = ledger s := quiet_ledger hop t
      rw [hstep] at hledger
      change ledger s' = ledger s at hledger
      refine ⟨?_, ?_⟩
      · change Move g (ledger s) (ledger s') ∧ OpensOnly _ (ledger s) (ledger s')
        rw [hledger]
        exact ⟨.quiet, .refl _ _⟩
      · change Sound g (ledger s')
        rw [hledger]
        exact hinv
    · exact ⟨⟨.quiet, .refl _ _⟩, hinv⟩
  exact (Contract.Meets.ends hquiet he).mono fun r _ _ hr => by
    cases r with
    | ok a => exact hr.2
    | error e => trivial

/-- A program of quiet calls, and what follows it. -/
theorem Does.after (hK : Persists g K) (hs : K (ledger s)) (hp : p.Calls Quiet)
    (hf : ∀ a s', Sound g (ledger s') → K (ledger s') →
      Does g w codec sha256Digest (f a) T s') : Does g w codec sha256Digest (p >>= f) T s :=
  Does.seq hK hs (does_calls hp (Prog.ends_true p)) fun a s' hsound hKs _ => hf a s' hsound hKs

/-! ## Runs -/

/-- Some run of the identifier has its plan made active. -/
def PlannedRun (l : Ledger) (runId : String) : Prop :=
  ∃ run ∈ l.runs.rows, run.runId = runId ∧ Planned run.state

theorem persists_plannedRun (runId : String) : Persists g fun l => PlannedRun l runId := by
  rintro l l' h ⟨run, hrun, rfl, hplanned⟩
  obtain ⟨run', hrun', hid, hlater⟩ := h.grows.1 run hrun
  refine ⟨run', hrun', hid, ?_⟩
  rcases hlater with rfl | ⟨-, hlegal⟩
  · exact hplanned
  · exact hplanned.legal hlegal

theorem PlannedRun.of_copy {l : Ledger} {run : RunRecord} (h : l.RunCopy run)
    (hplanned : Planned run.state) : PlannedRun l run.runId := by
  obtain ⟨row, hrow, hid, hlater⟩ := h
  refine ⟨row, hrow, hid, ?_⟩
  rcases hlater with rfl | ⟨-, hlegal⟩
  · exact hplanned
  · exact hplanned.legal hlegal

/-- What a run that was read is. -/
structure ReadRun (runId : String) (run : RunRecord) (l : Ledger) : Prop where
  runId : run.runId = runId
  copy : l.RunCopy run

theorem persists_readRun {runId : String} (run : RunRecord) : Persists g (ReadRun runId run) :=
  fun _ _ h hrun => ⟨hrun.runId, h.runCopy hrun.copy⟩

theorem readRun_of_find {l : Ledger} {runId : String} {run : RunRecord}
    (h : l.runs.find runId = some run) : ReadRun runId run l := by
  obtain ⟨hmem, hid⟩ := Table.find_eq_some.mp h
  exact ⟨hid, .of_mem hmem⟩

theorem getRun_eq_ok {runId : String} {run : RunRecord} (h : s.getRun runId = .ok run) :
    s.runs.find runId = some run := by
  unfold StoreState.getRun at h
  split at h
  · next hfind => rw [hfind, Except.ok.inj h]
  · cases h

theorem does_getRun (runId : String) :
    Does g w codec sha256Digest (sql (.getRun runId)) (ReadRun runId) s :=
  does_quiet trivial (persists_const True) trivial persists_readRun fun _ _ _ _ _ _ h =>
    readRun_of_find (getRun_eq_ok h)

theorem persists_activates (run : RunRecord) : Persists g fun l => Activates l run :=
  fun _ _ h hrun => h.activates hrun

/-- A run that was read with its plan active. -/
structure ReadPlanned (runId : String) (run : RunRecord) (l : Ledger) : Prop
    extends ReadRun runId run l where
  planned : Planned run.state
  active : Activates l run

theorem persists_readPlanned {runId : String} (run : RunRecord) :
    Persists g (ReadPlanned runId run) :=
  fun _ _ h hrun => { hrun with copy := h.runCopy hrun.copy, active := h.activates hrun.active }

theorem does_getRun_planned {runId : String} (hs : PlannedRun (ledger s) runId) :
    Does g w codec sha256Digest (sql (.getRun runId)) (ReadPlanned runId) s := by
  refine does_quiet trivial (persists_plannedRun runId) hs persists_readPlanned
    fun s _ hsound hK _ run h => ?_
  obtain ⟨row, hrow, hid, hplanned⟩ := hK
  obtain ⟨hmem, hid'⟩ := Table.find_eq_some.mp (getRun_eq_ok h)
  obtain rfl : row = run := Table.row_unique _ hrow hmem (hid.trans hid'.symm)
  exact ⟨⟨hid, .of_mem hrow⟩, hplanned, hsound.activated row hrow hplanned⟩

theorem does_getRun_at {runId runId' : String} (hid : runId = runId')
    (hs : PlannedRun (ledger s) runId') :
    Does g w codec sha256Digest (sql (.getRun runId)) (ReadPlanned runId') s := by
  subst hid
  exact does_getRun_planned hs

theorem does_findRun (runId : String) :
    Does g w codec sha256Digest (sql (.findRun runId))
      (fun found l => ∀ read, found = some read → ReadRun runId read l) s :=
  does_quiet trivial (persists_const True) trivial
    (fun _ => Persists.forall fun found => (persists_readRun found).imp) fun _ _ _ _ _ _ h _ hrun =>
      readRun_of_find ((Except.ok.inj h).trans hrun)

theorem updateRun_eq_ok {run answer : RunRecord} {v : Nat}
    (h : s.updateRun run v = .ok (answer, s')) : answer = withVersion run v ∧
      ∃ row ∈ s.runs.rows, row.runId = run.runId ∧ row.version = v ∧
        s' = { s with runs := s.runs.replace (withVersion run v) } := by
  unfold StoreState.updateRun at h
  split at h
  · next runs hswap =>
    obtain ⟨row, hrow, hid, hv, rfl⟩ := Table.swap_eq_some.mp hswap
    obtain ⟨rfl, rfl⟩ := Prod.mk.inj (Except.ok.inj h)
    exact ⟨rfl, row, hrow, hid, hv, rfl⟩
  · cases h

/-- A refused call changes nothing, a successful one has what its transaction computed. -/
theorem settle_eq {σ : Type} {s s' : σ} {r : Except Exn (α × σ)} {x : Except Exn α}
    (h : settle s r = (x, s')) : (∃ e, x = .error e ∧ s' = s) ∨ ∃ a, x = .ok a ∧ r = .ok (a, s') := by
  cases r with
  | error e =>
    obtain ⟨rfl, rfl⟩ := Prod.mk.inj h
    exact .inl ⟨e, rfl, rfl⟩
  | ok r =>
    obtain ⟨rfl, rfl⟩ := Prod.mk.inj h
    exact .inr ⟨r.1, rfl, rfl⟩

/-- A transaction that may be refused: only its success needs to be looked at. -/
theorem does_settle {op : StoreOp Text α} (hopening : ¬ Opening α op)
    {c : Supply → StoreState Text → Except Exn (α × StoreState Text)}
    (hop : ∀ t s, handle codec sha256Digest α op t s = settle s (c t s))
    (hK : Persists g K) (hs : K (ledger s)) (hR : ∀ a, Persists g (R a))
    (h : ∀ s t a s', Sound g (ledger s) → K (ledger s) → Admits g w op s →
      c t s = .ok (a, s') → Move g (ledger s) (ledger s') ∧ R a (ledger s')) :
    Does g w codec sha256Digest (Prog.perform op) R s := by
  refine does_call hopening hK hs hR fun s t x s' hinv hKs hadmits hstep => ?_
  rw [hop] at hstep
  rcases settle_eq hstep with ⟨e, rfl, rfl⟩ | ⟨a, rfl, hcommit⟩
  · exact ⟨.quiet, fun a ha => by cases ha⟩
  · obtain ⟨hmove, hRa⟩ := h s t a s' hinv hKs hadmits hcommit
    refine ⟨hmove, fun b hb => ?_⟩
    rwa [← Except.ok.inj hb]

/-- An update computed from a copy of the run replaces that very row. -/
theorem does_updateRun {old new : RunRecord} (hK : Persists g K) (hs : K (ledger s))
    (hcopy : (ledger s).RunCopy old) (hid : new.runId = old.runId)
    (hstep : ∀ l, Sound g l → K l → old ∈ l.runs.rows →
      (g.calm → new.state = .FAILED → new.activePlanId = some w.planId) →
      RunStep g l old (withVersion new old.version)) :
    Does g w codec sha256Digest (sql (.updateRun new old.version))
      (fun run l => run = withVersion new old.version ∧ l.RunCopy run) s := by
  refine does_settle (c := fun _ s => s.updateRun new old.version) id (fun _ _ => rfl)
    (hK.and (persists_runCopy old)) ⟨hs, hcopy⟩
    (fun run => (persists_const _).and (persists_runCopy run))
    fun s t run s' hinv hKs hadmits hok => ?_
  obtain ⟨rfl, row, hrow, hrowid, hv, rfl⟩ := updateRun_eq_ok hok
  obtain rfl : row = old := hKs.2.current hrow (hrowid.trans hid) hv
  have hrun := hstep (ledger s) hinv hKs.1 hrow fun hg => hadmits.active hg new rfl
  exact ⟨.run hrow hrun, rfl, .of_mem ((Table.mem_replace hrow hrun.runId _).mpr (.inl rfl))⟩

/-- An update that keeps the state and the plan of the run. -/
theorem does_touchRun {old new : RunRecord} (hcopy : (ledger s).RunCopy old)
    (hid : new.runId = old.runId) (hstate : new.state = old.state)
    (hplan : new.activePlanId = old.activePlanId) :
    Does g w codec sha256Digest (sql (.updateRun new old.version))
      (fun run l => run = withVersion new old.version ∧ l.RunCopy run) s := by
  refine does_updateRun (persists_const True) trivial hcopy hid fun l _ _ _ _ => ?_
  have hstate' : (withVersion new old.version).state = old.state := hstate
  exact
    { runId := hid
      version := rfl
      legal := by rw [hstate']; exact .refl
      plan := .inl ⟨hplan, fun h => hstate' ▸ h⟩
      completed := fun h => .inl (hstate' ▸ h)
      failed := fun h => .inl (hstate' ▸ h) }

end DurableAgent.Orchestration
