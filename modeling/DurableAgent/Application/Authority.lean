import DurableAgent.Application.Bearing
import DurableAgent.Application.Factory
import DurableAgent.Application.Transitions
import DurableAgent.Library.Session
import DurableAgent.Orchestration.Regions

/-!
# Recovery under other settings

Hosts work on one store, each with settings of its own. A recovery compares the fingerprint of its
settings with the one in the checkpoint that it continues from. What follows for the authority of
the tools, against that under which the checkpoint was written.
-/

namespace DurableAgent.Orchestration

open Library Library.Prog Store Application

variable {Text ι α β : Type} {runId fingerprint : String} {codec : Codec Text}
  {sha256Digest : String → String} {s s' : StoreState Text}

/-! ## The stored run -/

/-- The stored run, if there is one, bears the fingerprint. -/
def Kept (runId fingerprint : String) (s : StoreState Text) : Prop :=
  ∀ run ∈ s.runs.rows, Bears runId fingerprint run

def Known (runId : String) (s : StoreState Text) : Prop := ∃ run ∈ s.runs.rows, run.runId = runId

theorem kept_find {id : String} {run : RunRecord} (hs : Kept runId fingerprint s)
    (h : s.runs.find id = some run) : Bears runId fingerprint run :=
  hs run (Table.find_eq_some.mp h).1

/-- What a call that keeps to the fingerprint is answered, and what it leaves; the rows that it
adds are judged apart. -/
theorem kept_handleSql {op : SqlOp β} {t : Supply} (hs : Kept runId fingerprint s)
    (hop : BearingCall runId fingerprint β (.sql op : StoreOp Text β))
    (hnew : ∀ run ∈ (handleSql β op t s).2.runs.rows, ¬ Known run.runId s →
      Bears runId fingerprint run) :
    BearingAnswer runId fingerprint β (.sql op : StoreOp Text β) (handleSql β op t s).1 ∧
      Kept runId fingerprint (handleSql β op t s).2 := by
  have hsame (hwrites : Region.runs ∉ (sqlEffect β op).writes) :
      Kept runId fingerprint (handleSql β op t s).2 := by
    have hruns : Same .runs s (handleSql β op t s).2 := handleSql_same hwrites
    change (handleSql β op t s).2.runs = s.runs at hruns
    unfold Kept
    rw [hruns]
    exact hs
  cases op
  case getRun id =>
    refine ⟨?_, hs⟩
    cases hfound : s.getRun id with
    | error e => rw [show (handleSql _ (.getRun id) t s).1 = s.getRun id from rfl, hfound]; trivial
    | ok run =>
      rw [show (handleSql _ (.getRun id) t s).1 = s.getRun id from rfl, hfound]
      unfold StoreState.getRun at hfound
      split at hfound
      · next found hfind =>
        cases hfound
        exact kept_find hs hfind
      · cases hfound
  case findRun id =>
    refine ⟨?_, hs⟩
    change BearingAnswer runId fingerprint _ (.sql (.findRun id) : StoreOp Text _)
      (.ok (s.runs.find id))
    cases hfound : s.runs.find id with
    | none => trivial
    | some run => exact kept_find hs hfound
  case insertRun run key =>
    change BearingAnswer runId fingerprint _ (.sql (.insertRun run key) : StoreOp Text _)
      (committed s (s.insertRun run key)).1 ∧ Kept runId fingerprint
        (committed s (s.insertRun run key)).2
    change ∀ run' ∈ (committed s (s.insertRun run key)).2.runs.rows, _ at hnew
    cases hinsert : s.insertRun run key with
    | none => exact ⟨trivial, hs⟩
    | some s₁ =>
      rw [hinsert] at hnew
      simp only [StoreState.insertRun, Option.bind_eq_bind, Option.bind_eq_some_iff] at hinsert
      obtain ⟨runs, hruns, keys, -, hs₁⟩ := hinsert
      cases hs₁
      have hrows := Table.insert_rows hruns
      have hfree : ¬ Known run.runId s := by
        rintro ⟨row, hrow, hid⟩
        have hmem : run.runId ∈ s.runs.rows.map RunRecord.runId := hid ▸ List.mem_map_of_mem hrow
        unfold Table.insert at hruns
        rw [dif_pos hmem] at hruns
        cases hruns
      have hbears : Bears runId fingerprint run := by
        refine hnew run ?_ hfree
        change run ∈ runs.rows
        rw [hrows]
        exact List.mem_cons_self
      refine ⟨hbears, fun row hrow => ?_⟩
      change row ∈ runs.rows at hrow
      rw [hrows] at hrow
      rcases List.mem_cons.mp hrow with rfl | hrow
      · exact hbears
      · exact hs row hrow
  case updateRun run v =>
    change BearingAnswer runId fingerprint _ (.sql (.updateRun run v) : StoreOp Text _)
      (settle s (s.updateRun run v)).1 ∧ Kept runId fingerprint (settle s (s.updateRun run v)).2
    unfold StoreState.updateRun
    split
    · next runs hswap =>
      obtain ⟨row, hrow, hkey, -, rfl⟩ := Table.swap_eq_some.mp hswap
      have hkeep : (withVersion run v).runId = row.runId := hkey.symm
      refine ⟨fun hid => hop hid, fun row' hrow' => ?_⟩
      rcases (Table.mem_replace hrow hkeep row').mp hrow' with rfl | ⟨hrow', -⟩
      · exact fun hid => hop hid
      · exact hs row' hrow'
    · exact ⟨trivial, hs⟩
  all_goals exact ⟨trivial, hsame (by simp [sqlEffect, Effect.writes])⟩

/-- A run that is stored stays. -/
theorem known_handleSql {op : SqlOp β} {t : Supply} (h : Known runId s) :
    Known runId (handleSql β op t s).2 := by
  have hsame (hwrites : Region.runs ∉ (sqlEffect β op).writes) :
      Known runId (handleSql β op t s).2 := by
    have hruns : Same .runs s (handleSql β op t s).2 := handleSql_same hwrites
    change (handleSql β op t s).2.runs = s.runs at hruns
    unfold Known
    rw [hruns]
    exact h
  obtain ⟨row, hrow, hid⟩ := h
  cases op
  case insertRun run key =>
    change Known runId (committed s (s.insertRun run key)).2
    cases hinsert : s.insertRun run key with
    | none => exact ⟨row, hrow, hid⟩
    | some s₁ =>
      simp only [StoreState.insertRun, Option.bind_eq_bind, Option.bind_eq_some_iff] at hinsert
      obtain ⟨runs, hruns, keys, -, hs₁⟩ := hinsert
      cases hs₁
      refine ⟨row, ?_, hid⟩
      change row ∈ runs.rows
      rw [Table.insert_rows hruns]
      exact List.mem_cons_of_mem run hrow
  case updateRun run v =>
    change Known runId (settle s (s.updateRun run v)).2
    unfold StoreState.updateRun
    split
    · next runs hswap =>
      obtain ⟨old, hold, hkey, -, rfl⟩ := Table.swap_eq_some.mp hswap
      have hkeep : (withVersion run v).runId = old.runId := hkey.symm
      by_cases hrun : run.runId = runId
      · exact ⟨withVersion run v, (Table.mem_replace hold hkeep _).mpr (.inl rfl), hrun⟩
      · refine ⟨row, (Table.mem_replace hold hkeep _).mpr (.inr ⟨hrow, ?_⟩), hid⟩
        rw [hid]
        exact fun heq => hrun heq.symm
    · exact ⟨row, hrow, hid⟩
  all_goals exact hsame (by simp [sqlEffect, Effect.writes])

theorem known_step {op : StoreOp Text β} {x : Except Exn β} (h : Known runId s)
    (hstep : faultyExec codec sha256Digest β op s x s') : Known runId s' := by
  rcases hstep with ⟨t, ht⟩ | ⟨e, rfl, rfl⟩
  · cases op with
    | sql op =>
      have hknown := @known_handleSql _ _ _ _ op t h
      rw [show handleSql β op t s = (x, s') from ht] at hknown
      exact hknown
    | _ =>
      cases ht
      exact h
  · exact h

theorem kept_step {op : StoreOp Text β} {x : Except Exn β} (hs : Kept runId fingerprint s)
    (hop : BearingCall runId fingerprint β op)
    (hstep : faultyExec codec sha256Digest β op s x s')
    (hnew : ∀ run ∈ s'.runs.rows, ¬ Known run.runId s → Bears runId fingerprint run) :
    BearingAnswer runId fingerprint β op x ∧ Kept runId fingerprint s' := by
  rcases hstep with ⟨t, ht⟩ | ⟨e, rfl, rfl⟩
  · cases op with
    | sql op =>
      have hsql : handleSql β op t s = (x, s') := ht
      have hkept := kept_handleSql (t := t) hs hop (by rw [hsql]; exact hnew)
      rw [hsql] at hkept
      exact hkept
    | _ =>
      cases ht
      exact ⟨trivial, hs⟩
  · refine ⟨?_, hs⟩
    cases op with
    | sql op => cases op <;> trivial
    | _ => trivial

/-! ## Hosts -/

/-- A process with settings of its own, and with paths that resolve in its own way. -/
structure Host (Text : Type) (sha256Digest : String → String) where
  settings : Configuration.Settings
  resolve : String → String
  agent : Agent Text
  reads : agent.settings = settings.loop resolve sha256Digest

namespace Host

variable (host : Host Text sha256Digest)

def ownFingerprint : String := host.settings.fingerprint host.resolve sha256Digest

theorem agent_fingerprint : host.agent.settings.fingerprint = host.ownFingerprint := by
  rw [host.reads]
  rfl

end Host

/-- What a host is asked for: a call of the service, or a recovery on its own. -/
inductive Errand where
  | service (c : ServiceCall)
  | recovery (runId workerId : String)

def Errand.program (A : Agent Text) : Errand → StoreProg Text (Option RecoveryResult)
  | .service c => do
    c.program A
    pure none
  | .recovery runId workerId => do
    let result ← A.resume runId workerId
    pure (some result)

/-- The hosts before their first steps. -/
def hostSession (hosts : ι → Host Text sha256Digest) (errands : ι → Errand)
    (shared : StoreState Text) :
    Session (StoreOp Text) Exn (Option RecoveryResult) (StoreState Text) ι :=
  ⟨fun i => (errands i).program (hosts i).agent, shared⟩

theorem errand_bearing {A : Agent Text} (errand : Errand) :
    Bearing runId fingerprint (errand.program A) fun _ => True := by
  cases errand with
  | service c => exact Issues.bind (program_bearing c) fun _ _ => trivial
  | recovery id workerId => exact Issues.bind resume_bearing fun _ _ => trivial

/-! ## Runs of hosts -/

variable {digest : String → String}
  {S S' : Session (StoreOp Text) Exn (Option RecoveryResult) (StoreState Text) ι}
  {hosts : ι → Host Text sha256Digest} {errands : ι → Errand}

/-- The stored run bears the fingerprint, and every caller keeps to it. -/
def Abides (runId fingerprint : String)
    (S : Session (StoreOp Text) Exn (Option RecoveryResult) (StoreState Text) ι) : Prop :=
  Kept runId fingerprint S.shared ∧
    ∀ i, Bearing runId fingerprint (S.callers i) fun _ => True

theorem known_or_kept (runId : String) (s : StoreState Text) :
    (∃ fingerprint, Kept runId fingerprint s) ∧
      (¬ Known runId s → ∀ fingerprint, Kept runId fingerprint s) := by
  have hall : ¬ Known runId s → ∀ fingerprint, Kept runId fingerprint s :=
    fun h fingerprint run hrun hid => absurd ⟨run, hrun, hid⟩ h
  refine ⟨?_, hall⟩
  by_cases h : Known runId s
  · obtain ⟨row, hrow, hid⟩ := h
    refine ⟨row.configurationFingerprint, fun run hrun hrunId => ?_⟩
    rw [s.runs.row_unique hrun hrow (hrunId.trans hid.symm)]
  · exact ⟨"", hall h ""⟩

variable [DecidableEq ι]

theorem Abides.step (h : Abides runId fingerprint S)
    (hstep : SessionStep (faultyExec codec digest) S S')
    (hnew : ∀ run ∈ S'.shared.runs.rows, ¬ Known run.runId S.shared →
      Bears runId fingerprint run) : Abides runId fingerprint S' := by
  obtain ⟨hkept, hcallers⟩ := h
  obtain @⟨_, _, i, op, k, x, s', hi, hop⟩ := hstep
  have hcaller := hcallers i
  rw [hi] at hcaller
  obtain ⟨hanswer, hkept'⟩ := kept_step hkept hcaller.1 hop hnew
  refine ⟨hkept', fun j => ?_⟩
  change Bearing runId fingerprint (Function.update S.callers i (k x) j) fun _ => True
  by_cases hj : j = i
  · subst hj
    rw [Function.update_self]
    exact hcaller.2 x hanswer
  · rw [Function.update_of_ne hj]
    exact hcallers j

theorem known_session (h : SessionStep (faultyExec codec digest) S S')
    (hknown : Known runId S.shared) : Known runId S'.shared := by
  obtain ⟨-, hop⟩ := h
  exact known_step hknown hop

/-- In every run there is one fingerprint that the run bears throughout; before the run is stored
it may be any. -/
theorem abides_runs {s : StoreState Text} (runId : String)
    (h : SessionRuns (faultyExec codec digest) (hostSession hosts errands s) S) :
    (∃ fingerprint, Abides runId fingerprint S) ∧
      (¬ Known runId S.shared → ∀ fingerprint, Abides runId fingerprint S) := by
  induction h with
  | refl =>
    obtain ⟨⟨fingerprint, hkept⟩, hall⟩ := known_or_kept runId s
    exact ⟨⟨fingerprint, hkept, fun i => errand_bearing _⟩,
      fun hunknown fingerprint => ⟨hall hunknown fingerprint, fun i => errand_bearing _⟩⟩
  | @tail S₁ S₂ _ hlast ih =>
    obtain ⟨⟨fingerprint, habides⟩, hall⟩ := ih
    by_cases hknown : Known runId S₁.shared
    · refine ⟨⟨fingerprint, habides.step hlast fun run _ hunknown hid => ?_⟩, fun hunknown => ?_⟩
      · rw [hid] at hunknown
        exact absurd hknown hunknown
      · exact absurd (known_session hlast hknown) hunknown
    · obtain ⟨⟨fingerprint', hkept'⟩, hkeptAll⟩ := known_or_kept runId S₂.shared
      refine ⟨⟨fingerprint', (hall hknown fingerprint').step hlast fun run hrun _ => ?_⟩,
        fun hunknown fingerprint => (hall hknown fingerprint).step hlast fun run hrun _ => ?_⟩
      · exact hkept' run hrun
      · exact hkeptAll hunknown fingerprint run hrun

/-! ## What a recovery continues from -/

omit [DecidableEq ι] in
theorem ends_after {E : β → Prop} {p : StoreProg Text α} {f : α → StoreProg Text β}
    (hf : ∀ a, (f a).Ends E) : (p >>= f).Ends E :=
  Ends.bind (ends_true p) fun a _ => hf a

/-- A recovery that returns has continued from a checkpoint with the fingerprint of its own
settings. -/
theorem resume_ends {A : Agent Text} {id workerId : String} :
    (A.resume id workerId).Ends fun result =>
      result.checkpoint.payload.configurationFingerprint = A.settings.fingerprint := by
  refine ends_after fun lease => Ends.tryCatch (ends_after fun run => ?_) fun e => ?_
  · split
    · trivial
    · refine ends_after fun run => ends_after fun checkpoint => ?_
      have hrequired : (A.requireConfiguration run.runId checkpoint).Ends fun _ =>
          checkpoint.payload.configurationFingerprint = A.settings.fingerprint := by
        unfold Agent.requireConfiguration
        split
        · next hsame => exact hsame
        · exact ends_after (f := fun _ => raise _) fun _ => trivial
      refine Ends.bind hrequired fun _ hsame => ?_
      refine ends_after fun validated => ends_after fun run => ends_after fun reconciled => ?_
      refine ends_after fun tasks => ends_after fun tasks => ends_after fun state => ?_
      refine ends_after fun now => ends_after fun run => ends_after fun plan => ?_
      exact ends_after fun written => ends_after fun _ => hsame
  · exact ends_after (f := fun _ => raise e) fun _ => trivial

theorem errand_ends (host : Host Text sha256Digest) (errand : Errand) :
    (errand.program host.agent).Ends fun found => ∀ result ∈ found,
      result.checkpoint.payload.configurationFingerprint = host.ownFingerprint := by
  cases errand with
  | service c => exact ends_after fun _ result h => absurd h (Option.not_mem_none result)
  | recovery id workerId =>
    refine Ends.bind resume_ends fun result hresult found hfound => ?_
    obtain rfl := Option.mem_some_iff.mp hfound
    rw [← host.agent_fingerprint]
    exact hresult

/-- Settings of one fingerprint grant the same authority exactly where they allow the same
commands and environment variables. Hosts with any settings work on one store, with calls that fail
and hosts that stop: where a checkpoint is written by a host whose settings have the fingerprint
that its run is stored with, the authority of every host whose recovery continues from it is that
of the writer, exactly where the two allow the same commands and environment variables. -/
theorem configuration_compatibility (hinj : Function.Injective sha256Digest) :
    (∀ (s s' : Configuration.Settings) (resolve resolve' : String → String),
      s.fingerprint resolve sha256Digest = s'.fingerprint resolve' sha256Digest →
        (authority s = authority s' ↔ SameProcesses s s')) ∧
    ∀ (hosts : ι → Host Text sha256Digest) (errands : ι → Errand) (s : StoreState Text)
      (S₁ S₂ : Session (StoreOp Text) Exn (Option RecoveryResult) (StoreState Text) ι) (w r : ι)
      (envelope : CheckpointEnvelope) (expected : Nat) (k) (result : RecoveryResult),
      SessionRuns (faultyExec codec digest) (hostSession hosts errands s) S₁ →
      S₁.callers w = .call (.checkpoint (.appendCheckpoint envelope expected)) k →
      (∃ run ∈ S₁.shared.runs.rows, run.runId = envelope.runId ∧
        run.configurationFingerprint = (hosts w).ownFingerprint) →
      SessionRuns (faultyExec codec digest) S₁ S₂ →
      S₂.callers r = .done (.ok (some result)) → result.checkpoint = envelope →
        (authority (hosts w).settings = authority (hosts r).settings ↔
          SameProcesses (hosts w).settings (hosts r).settings) := by
  refine ⟨fun s s' resolve resolve' h => authority_eq_iff hinj h, ?_⟩
  intro hosts errands s S₁ S₂ w r envelope expected k result hfirst hwrites hstored hsecond hended
    hcheckpoint
  obtain ⟨⟨fingerprint, hkept, hcallers⟩, -⟩ := abides_runs envelope.runId hfirst
  obtain ⟨run, hrun, hid, hown⟩ := hstored
  have hwriter := hcallers w
  rw [hwrites] at hwriter
  have hwritten : envelope.payload.configurationFingerprint = fingerprint := hwriter.1 rfl
  have hread := SessionRuns.ends (hfirst.trans hsecond)
    (fun i => errand_ends (hosts i) (errands i)) r
  rw [hended] at hread
  have hresult := hread result rfl
  apply @authority_eq_iff (hosts w).resolve (hosts r).resolve _ hinj
  change (hosts w).ownFingerprint = (hosts r).ownFingerprint
  rw [← hresult, hcheckpoint, hwritten, ← hkept run hrun hid, hown]

/-! ## A recovery of a run that was just created -/

/-- The default settings. -/
def plainHostSettings : Configuration.Settings where
  repositoryRoot := "/r"
  retry := plainRetry
  modelContextLimit_bounds := by decide
  fixedBudget_bounds := by decide
  contextCompressionThreshold_bounds := Configuration.default_threshold
  checkpointEveryTasks_bounds := plainSettings.checkpointEveryTasks_bounds
  maximumConcurrency_bounds := plainSettings.maximumConcurrency_bounds
  leaseTtlSeconds_bounds := plainSettings.leaseTtlSeconds_bounds
  leaseRenewalSeconds_bounds := plainSettings.leaseRenewalSeconds_bounds
  maximumToolOutputBytes_bounds := by decide
  plain_command_names := by decide
  reserved_below_limit := by decide
  renewal_below_half_ttl := plainSettings.renewal_below_half_ttl

/-- A host of the instance, with some commands. -/
def plainHost (settings : Configuration.Settings) : Host CheckpointEnvelope id where
  settings := settings
  resolve := id
  agent := { plainAgent with settings := settings.loop id id }
  reads := rfl

/-- The first host creates a run, another one recovers it. -/
def plainErrands : Nat → Errand
  | 0 => .service (.createRun "objective" "owner" "key" none)
  | _ => .recovery "run-r" "worker"

def plainSession : Session (StoreOp CheckpointEnvelope) Exn (Option RecoveryResult)
    (StoreState CheckpointEnvelope) Nat :=
  hostSession (fun _ => plainHost plainHostSettings) plainErrands plainStore

/-- The checkpoint that a program is about to append. -/
def nextAppend : StoreProg Text α → Option CheckpointEnvelope
  | .call (.checkpoint (.appendCheckpoint envelope _)) _ => some envelope
  | _ => none

theorem nextAppend_eq_some {p : StoreProg Text α} {envelope : CheckpointEnvelope}
    (h : nextAppend p = some envelope) : ∃ expected k,
      p = .call (.checkpoint (.appendCheckpoint envelope expected)) k := by
  unfold nextAppend at h
  split at h
  · next expected k =>
    obtain rfl := Option.some.inj h
    exact ⟨expected, k, rfl⟩
  · cases h

/-- What a recovery has returned. -/
def recovered (p : StoreProg Text (Option RecoveryResult)) : Option RecoveryResult :=
  match p with
  | .done (.ok found) => found
  | _ => none

theorem recovered_eq_some {p : StoreProg Text (Option RecoveryResult)} {result : RecoveryResult}
    (h : recovered p = some result) : p = .done (.ok (some result)) := by
  unfold recovered at h
  split at h
  · rw [h]
  · cases h

abbrev sessionPlay (schedule : List (Nat × Supply))
    (S : Session (StoreOp CheckpointEnvelope) Exn (Option RecoveryResult)
      (StoreState CheckpointEnvelope) Nat) :=
  S.play (handle plainCodec plainAgent.sha256Digest) schedule

theorem sessionPlay_runs (schedule : List (Nat × Supply))
    (S : Session (StoreOp CheckpointEnvelope) Exn (Option RecoveryResult)
      (StoreState CheckpointEnvelope) Nat) :
    SessionRuns plainExec S (sessionPlay schedule S) := by
  have hadmitted : S.admitted (handle plainCodec plainAgent.sha256Digest) (fun _ _ _ => True)
      schedule = true := by
    induction schedule generalizing S with
    | nil => rfl
    | cons step schedule ih =>
      unfold Session.admitted
      split
      · simp [ih]
      · exact ih S
  refine (Session.play_guarded _ (fun _ _ _ => True) schedule S hadmitted).mono ?_
  exact fun _ _ _ _ _ h => .inl h.2

/-- The second caller has recovered from the checkpoint of a stored run that the first one was
about to append. -/
def recoversFrom (S₁ S₂ : Session (StoreOp CheckpointEnvelope) Exn (Option RecoveryResult)
      (StoreState CheckpointEnvelope) Nat) : Bool :=
  match nextAppend (S₁.callers 0), recovered (S₂.callers 1) with
  | some envelope, some result => result.checkpoint = envelope ∧
      ∃ run ∈ S₁.shared.runs.rows, run.runId = envelope.runId
  | _, _ => false

theorem recoversFrom_spec {S₁ S₂ : Session (StoreOp CheckpointEnvelope) Exn
    (Option RecoveryResult) (StoreState CheckpointEnvelope) Nat}
    (h : recoversFrom S₁ S₂ = true) : ∃ envelope result, nextAppend (S₁.callers 0) = some envelope ∧
      recovered (S₂.callers 1) = some result ∧ result.checkpoint = envelope ∧
      ∃ run ∈ S₁.shared.runs.rows, run.runId = envelope.runId := by
  unfold recoversFrom at h
  split at h
  · next envelope result happends hrecovered =>
    exact ⟨envelope, result, happends, hrecovered, of_decide_eq_true h⟩
  · cases h

/-- The first host creates the run up to its first checkpoint. -/
def creationTurns : List (Nat × Supply) := turns 0 (List.replicate 26 "r")

/-- It goes on to the end, and the other host recovers the run. -/
def recoveryTurns : List (Nat × Supply) :=
  turns 0 (List.replicate 5 "r") ++ turns 1 ((List.range 30).map fun n => s!"r{n}")

theorem recoversFrom_plain : recoversFrom (sessionPlay creationTurns plainSession)
    (sessionPlay recoveryTurns (sessionPlay creationTurns plainSession)) = true := by
  decide +kernel

/-- The run is created up to its first checkpoint, and recovered from it. -/
theorem configuration_compatibility_plain : ∃ S₁ S₂ envelope result,
    SessionRuns plainExec plainSession S₁ ∧ nextAppend (S₁.callers 0) = some envelope ∧
      SessionRuns plainExec S₁ S₂ ∧ recovered (S₂.callers 1) = some result ∧
      result.checkpoint = envelope ∧ (authority plainHostSettings = authority plainHostSettings ↔
        SameProcesses plainHostSettings plainHostSettings) := by
  have hfirst := sessionPlay_runs creationTurns plainSession
  have hsecond := sessionPlay_runs recoveryTurns (sessionPlay creationTurns plainSession)
  have hfrom := recoversFrom_spec recoversFrom_plain
  generalize sessionPlay creationTurns plainSession = S₁ at *
  generalize sessionPlay recoveryTurns S₁ = S₂ at *
  obtain ⟨envelope, result, happends, hrecovered, hcheckpoint, run, hrun, hid⟩ := hfrom
  obtain ⟨expected, k, hwrites⟩ := nextAppend_eq_some happends
  have hended := recovered_eq_some hrecovered
  -- what was written bears the fingerprint of the run, and what was read that of the host
  have hwritten : run.configurationFingerprint = envelope.payload.configurationFingerprint := by
    obtain ⟨⟨fingerprint, hkept, hcallers⟩, -⟩ := abides_runs envelope.runId hfirst
    have hwriter := hcallers 0
    rw [hwrites] at hwriter
    rw [hkept run hrun hid, hwriter.1 rfl]
  have hread := SessionRuns.ends (hfirst.trans hsecond)
    (fun i => errand_ends (plainHost plainHostSettings) (plainErrands i)) 1
  rw [hended] at hread
  have hstored : run.configurationFingerprint = (plainHost plainHostSettings).ownFingerprint := by
    rw [hwritten, ← hcheckpoint, hread result rfl]
  exact ⟨S₁, S₂, envelope, result, hfirst, happends, hsecond, hrecovered, hcheckpoint,
    (configuration_compatibility Function.injective_id).2 (fun _ => plainHost plainHostSettings)
      plainErrands plainStore S₁ S₂ 0 1 envelope expected k result hfirst hwrites
      ⟨run, hrun, hid, hstored⟩ hsecond hended hcheckpoint⟩

/-- A shell that may run other commands has the same fingerprint. -/
theorem fingerprint_ignores_commands : ∃ s s' : Configuration.Settings,
    (∀ resolve sha256Digest, s.fingerprint resolve sha256Digest =
      s'.fingerprint resolve sha256Digest) ∧ authority s ≠ authority s' :=
  ⟨{ plainHostSettings with allowShell := true },
    { plainHostSettings with
      allowShell := true, allowedCommands := ["bash"], plain_command_names := by decide },
    fun _ _ => rfl, by decide⟩

end DurableAgent.Orchestration
