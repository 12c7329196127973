import DurableAgent.Application.StuckRuns
import DurableAgent.Library.History
import DurableAgent.Orchestration.Auditing
import DurableAgent.Reporting.Structure

/-!
# The audit trail of a run

Every report shows, for each event of its run that is to be shown, one line with what the publisher
had at hand, and the failures of the run are among them. Two things go wrong, both in recovery: the
line of a fallback names no rejected checkpoint, and the attempt of a dead worker has no line.
-/

namespace DurableAgent.Orchestration

open Library Library.Prog Store Contract Events

-- Reducing a call of the service would otherwise reduce the text that it strips.
attribute [local irreducible] strip

variable {Text ι : Type} {codec : Codec Text} {sha256Digest : String → String} {A : Agent Text}
  {α : Type}

/-! ## Creation and requests -/

section Service

variable {run : RunRecord} {runId ownerId objective reason idempotencyKey requestHash : String}
  {kind : LifecycleKind}

theorem plain_referencedRun {key : IdempotencyKey} :
    (referencedRun key : StoreProg Text RunRecord).Calls Plain := by
  refine Calls.bind (plain_sql rfl) fun found => ?_
  cases found <;> trivial

theorem plain_earlierRun {key : Option IdempotencyKey} :
    (earlierRun requestHash key : StoreProg Text _).Calls Plain := by
  cases key with
  | none => trivial
  | some key =>
    unfold earlierRun
    dsimp only
    split
    · trivial
    · exact Calls.bind plain_referencedRun fun _ => trivial

theorem plain_storeRun : (A.storeRun run idempotencyKey requestHash).Calls Plain := by
  refine Calls.bind (plain_sql rfl) fun existing => Calls.bind plain_earlierRun fun earlier => ?_
  refine Calls.bind (plain_sql rfl) fun now => ?_
  cases earlier with
  | some earlier => trivial
  | none =>
    refine Calls.bind (plain_sql rfl) fun inserted => ?_
    split
    · trivial
    · refine Calls.bind (plain_sql rfl) fun existing => ?_
      cases existing with
      | none => trivial
      | some key =>
        unfold winningRun
        dsimp only
        split
        · refine Calls.bind (plain_sql rfl) fun found => ?_
          cases found <;> trivial
        · trivial

theorem plain_planRun {index : String × String} : (A.planRun run objective index).Calls Plain := by
  refine Calls.bind (plain_publish (by decide)) fun _ => Calls.bind trivial fun state => ?_
  refine Calls.bind (plain_sql rfl) fun now => Calls.bind (plain_sql rfl) fun run => ?_
  refine Calls.bind (plain_sql rfl) fun plan => Calls.bind (plain_sql rfl) fun _ => ?_
  refine Calls.bind (plain_sql rfl) fun _ => Calls.bind trivial fun state => ?_
  refine Calls.bind (plain_sql rfl) fun now => Calls.bind (plain_sql rfl) fun run => ?_
  refine Calls.bind plain_writeCheckpoint fun _ => ?_
  exact Calls.bind (plain_publish (by decide)) fun _ => trivial

theorem plain_resolveRepository {repositoryPath : Option String} :
    (A.resolveRepository repositoryPath).Calls Plain := by
  refine Calls.bind (plain_sql rfl) fun r => ?_
  obtain ⟨repository, isDir⟩ := r
  dsimp only
  split
  · trivial
  · refine Calls.bind (plain_sql rfl) fun r => ?_
    obtain ⟨configuredRoot, isDir'⟩ := r
    dsimp only
    split <;> trivial

theorem plain_createRun {repositoryPath : Option String} :
    (A.createRun objective ownerId idempotencyKey repositoryPath).Calls Plain := by
  unfold Agent.createRun
  dsimp only
  split
  · trivial
  · split
    · trivial
    · refine Calls.bind plain_resolveRepository fun repository => ?_
      refine Calls.bind (Calls.bind (plain_sql rfl) fun _ => plain_earlierRun) fun existing => ?_
      cases existing with
      | some existing => trivial
      | none =>
        refine Calls.bind (plain_sql rfl) fun index => Calls.bind (plain_sql rfl) fun _ => ?_
        refine Calls.bind (plain_sql rfl) fun now => Calls.bind (plain_sql rfl) fun runId => ?_
        refine Calls.bind plain_storeRun fun run => ?_
        split
        · trivial
        · exact plain_planRun

theorem plain_ownedRun : (ownedRun runId ownerId : StoreProg Text RunRecord).Calls Plain := by
  refine Calls.bind (plain_sql rfl) fun run => ?_
  split <;> trivial

theorem plain_earlierRequest {key : Option IdempotencyKey} :
    (earlierRequest kind requestHash key : StoreProg Text _).Calls Plain := by
  cases key with
  | none => trivial
  | some key =>
    unfold earlierRequest
    dsimp only
    split
    · trivial
    · refine Calls.bind (plain_sql rfl) fun found => ?_
      cases found <;> trivial

theorem plain_newRequest :
    (A.newRequest run ownerId kind reason idempotencyKey requestHash).Calls Plain := by
  refine Calls.bind (plain_sql rfl) fun _ => Calls.bind (plain_sql rfl) fun _ => ?_
  refine Calls.bind (plain_sql rfl) fun _ => Calls.bind plain_earlierRequest fun earlier => ?_
  refine Calls.bind (plain_sql rfl) fun _ => ?_
  cases earlier with
  | some earlier => trivial
  | none => exact Calls.bind (plain_sql rfl) fun _ => trivial

theorem plain_findLifecycleRequest :
    (A.findLifecycleRequest ownerId runId kind idempotencyKey requestHash).Calls Plain :=
  Calls.bind (plain_sql rfl) fun _ => plain_earlierRequest

theorem plain_requestPauseOf :
    (A.requestPauseOf runId ownerId reason idempotencyKey).Calls Plain := by
  refine Calls.bind plain_ownedRun fun run => ?_
  split
  · trivial
  · refine Calls.bind plain_findLifecycleRequest fun existing => ?_
    cases existing with
    | some existing => trivial
    | none =>
      unfold Agent.pauseUnlessFound
      dsimp only
      split
      · trivial
      · refine Calls.bind plain_newRequest fun request => Calls.bind ?_ fun _ => ?_
        · unfold requestPause
          split
          · refine Calls.bind trivial fun state => Calls.bind (plain_sql rfl) fun now => ?_
            exact Calls.bind (plain_sql rfl) fun _ => trivial
          · trivial
        · exact Calls.bind (plain_publish (by decide)) fun _ => trivial

theorem plain_requestCancelOf :
    (A.requestCancelOf runId ownerId reason idempotencyKey).Calls Plain := by
  refine Calls.bind plain_ownedRun fun run => ?_
  split
  · trivial
  · refine Calls.bind plain_findLifecycleRequest fun existing => ?_
    cases existing with
    | some existing => trivial
    | none =>
      unfold Agent.cancelUnlessFound
      dsimp only
      split
      · trivial
      · exact Calls.bind plain_newRequest fun _ =>
          Calls.bind (plain_publish (by decide)) fun _ => trivial

theorem plain_isReplay {maximumTasks : Option Int} {key : Option String} :
    (A.isReplay runId ownerId maximumTasks key).Calls Plain := by
  cases key with
  | none => trivial
  | some key =>
    unfold Agent.isReplay
    dsimp only
    split
    · trivial
    · refine Calls.bind (Calls.bind (plain_sql rfl) fun existing => ?_) fun _ => trivial
      refine Calls.bind (plain_sql rfl) fun now => ?_
      cases existing with
      | some existing =>
        unfold claimUnlessFound priorIntent
        dsimp only
        split
        · trivial
        · split <;> trivial
      | none =>
        refine Calls.bind (plain_sql rfl) fun inserted => ?_
        split
        · trivial
        · refine Calls.bind (plain_sql rfl) fun existing => ?_
          cases existing with
          | none => trivial
          | some key =>
            unfold concurrentIntent
            dsimp only
            split <;> trivial

end Service

/-! ## Recovery -/

section Recovery

variable {run : RunRecord} {runId workerId : String} {lease : LeaseRecord}
  {checkpoint : CheckpointEnvelope}

theorem plain_getTasks {reader : Reader} :
    (getTasks reader runId : StoreProg Text _).Calls Plain := by
  refine plain_within within_getTasks ?_
  cases reader <;> rfl

theorem plain_enterRecovery : (enterRecovery run : StoreProg Text _).Calls Plain := by
  unfold enterRecovery
  split
  · trivial
  · exact Calls.bind trivial fun state => Calls.bind (plain_sql rfl) fun now => plain_sql rfl

theorem plain_validateRepository : (A.validateRepository run checkpoint).Calls Plain := by
  unfold Agent.validateRepository
  split
  · next snapshotId manifestHash _ _ _ _ =>
    refine Calls.bind (plain_sql rfl) fun previous => Calls.bind (plain_sql rfl) fun current => ?_
    split
    · trivial
    · refine Calls.bind ?_ fun _ => ?_
      · exact @plain_occurrence Text run.runId
          (.drift snapshotId manifestHash current.2 A.settings.repositoryDriftPolicy) rfl rfl
      · split
        · trivial
        · refine Calls.bind (plain_sql rfl) fun _ => Calls.bind (plain_sql rfl) fun _ => ?_
          refine Calls.bind (plain_sql rfl) fun now => ?_
          exact Calls.bind (plain_sql rfl) fun _ => trivial
  · trivial

theorem plain_reviseIf {drifted : Bool} : (A.reviseIf drifted run).Calls Plain := by
  unfold Agent.reviseIf
  split
  · refine Calls.bind (plain_sql rfl) fun previous => Calls.bind plain_getTasks fun prior => ?_
    refine Calls.bind (plain_sql rfl) fun revised => Calls.bind (plain_sql rfl) fun _ => ?_
    refine Calls.bind (plain_sql rfl) fun _ => Calls.bind (plain_sql rfl) fun now => ?_
    refine Calls.bind (plain_sql rfl) fun run => ?_
    exact Calls.bind (plain_publish (by decide)) fun _ => trivial
  · trivial

theorem plain_recoverTask {task : TaskRecord} :
    (recoverTask task : StoreProg Text TaskRecord).Calls Plain := by
  unfold recoverTask
  split
  · exact Calls.bind trivial fun _ => plain_sql rfl
  · split
    · refine Calls.bind (plain_sql rfl) fun errorId => Calls.bind (plain_sql rfl) fun _ => ?_
      refine Calls.bind trivial fun state => Calls.bind plain_finishedWhen fun finishedAt => ?_
      refine Calls.bind (plain_sql rfl) fun task => Calls.bind ?_ fun task => ?_
      · unfold readyIf
        split
        · exact Calls.bind trivial fun _ => plain_sql rfl
        · trivial
      · exact Calls.bind (plain_publish (by decide)) fun _ => trivial
    · trivial

theorem plain_resumeFrom : (A.resumeFrom lease run checkpoint).Calls Plain := by
  refine Calls.bind ?_ fun _ => Calls.bind plain_validateRepository fun r => ?_
  · unfold Agent.requireConfiguration
    split
    · trivial
    · exact Calls.bind (plain_publish (by decide)) fun _ => trivial
  · obtain ⟨run, drifted⟩ := r
    refine Calls.bind plain_reviseIf fun run => ?_
    refine Calls.bind (Calls.mapOp (fun _ _ => trivial) _) fun reconciled => ?_
    refine Calls.bind plain_getTasks fun tasks => ?_
    refine Calls.bind (Calls.mapM' (fun _ => plain_recoverTask) tasks) fun tasks => ?_
    refine Calls.bind trivial fun state => Calls.bind (plain_sql rfl) fun now => ?_
    refine Calls.bind (plain_sql rfl) fun run => Calls.bind (plain_sql rfl) fun plan => ?_
    refine Calls.bind plain_writeCheckpoint fun postRecovery => Calls.bind ?_ fun _ => trivial
    exact @plain_occurrence Text run.runId (.recovered checkpoint.checkpointId drifted
      (reconciled.map ToolResult.toolResultId) lease.fencingToken postRecovery.checkpointId) rfl rfl

theorem plain_resume : (A.resume runId workerId).Calls Plain := by
  refine Calls.bind (plain_within (within_ofLease _) rfl) fun lease => Calls.tryCatch ?_ fun e => ?_
  · refine Calls.bind (plain_sql rfl) fun run => ?_
    split
    · trivial
    · refine Calls.bind plain_enterRecovery fun run => ?_
      exact Calls.bind (plain_within (within_recoverLatest _ _) rfl) fun _ => plain_resumeFrom
  · exact Calls.bind (plain_within (within_ofLease _) rfl) fun _ => trivial

end Recovery

/-! ## The calls of the service -/

section Calls

variable [DecidableEq ι] {i : ι} {s : StoreState Text × Trail ι} {runId ownerId : String}
  {maximumTasks : Option Int} {p : StoreProg Text α} {R : α → StoreState Text × Trail ι → Prop}

theorem plain_newWorkerId : (newWorkerId ownerId : StoreProg Text String).Calls Plain :=
  Calls.bind (plain_sql rfl) fun _ => trivial

theorem plain_currentResult {run : RunRecord} :
    (currentResult run : StoreProg Text _).Calls Plain :=
  Calls.bind plain_getTasks fun _ => trivial

/-- The answer of a replay only reads, so it may be given while an event is owed. -/
theorem audits_replayConflict {replay : Bool} {e : Exn} :
    Audits codec sha256Digest i (replayConflict runId ownerId replay e) (fun _ _ => True) s := by
  unfold replayConflict
  split
  · split
    · have howned : (ownedRun runId ownerId : StoreProg Text _).Calls
          (Within [.read, .selectTasks .answer]) := by
        refine Calls.bind (within_sql rfl) fun run => ?_
        split <;> trivial
      have hcurrent (run : RunRecord) : (currentResult run : StoreProg Text _).Calls
          (Within [.read, .selectTasks .answer]) :=
        Calls.bind within_getTasks fun _ => trivial
      exact audits_mute (Calls.bind howned hcurrent) rfl
    · exact fun _ _ _ => trivial
  · exact fun _ _ _ => trivial

theorem audits_advanceOwned (h : Paid i s) :
    Audits codec sha256Digest i (A.advanceOwned runId ownerId maximumTasks)
      (fun _ _ => True) s := by
  refine Meets.next (audits_plain plain_ownedRun h) fun _ s₁ _ h₁ => ?_
  refine Meets.next (audits_plain plain_newWorkerId h₁) fun workerId s₂ _ h₂ => ?_
  exact (audits_advance h₂).mono fun r _ _ _ => by cases r <;> trivial

theorem audits_resumeOwned {idempotencyKey : Option String} (h : Paid i s) :
    Audits codec sha256Digest i (A.resumeOwned runId ownerId maximumTasks idempotencyKey)
      (fun _ _ => True) s := by
  refine Meets.next (audits_plain plain_ownedRun h) fun run s₁ _ h₁ => ?_
  refine Meets.next (audits_plain plain_isReplay h₁) fun replay s₂ _ h₂ => ?_
  split
  · exact (audits_plain plain_currentResult h₂).mono fun r _ _ _ => by cases r <;> trivial
  · refine Meets.next (audits_plain plain_newWorkerId h₂) fun workerId s₃ _ h₃ => ?_
    refine Meets.tryCatch (Q := onOk fun _ s' => Paid i s') ?_ (fun _ _ _ _ => trivial)
      fun _ _ _ _ => audits_replayConflict
    exact Meets.next (audits_plain plain_resume h₃) fun _ s₄ _ h₄ => audits_advance h₄

theorem audits_answered (hp : Audits codec sha256Digest i p R s) :
    Audits codec sha256Digest i (p >>= fun _ => Pure.pure ()) (fun _ _ => True) s :=
  Meets.next hp fun _ _ _ _ _ _ _ => trivial

/-- Every call of the service publishes the failures that it commits. -/
theorem audits_program {call : ServiceCall} (h : Paid i s) :
    Audits codec sha256Digest i (call.program A) (fun _ _ => True) s := by
  cases call with
  | createRun =>
    apply audits_answered
    apply audits_plain _ h
    apply plain_createRun
  | advance => exact audits_answered (audits_advanceOwned h)
  | pause => exact audits_answered (audits_plain plain_requestPauseOf h)
  | resume => exact audits_answered (audits_resumeOwned h)
  | cancel => exact audits_answered (audits_plain plain_requestCancelOf h)

end Calls

/-! ## Every history -/

section Histories

variable [DecidableEq ι] {i : ι} {P : Pool (StoreOp Text) Exn (StoreState Text × Trail ι) ι}
  {processes : ι → Process Text} {journal : Tools.World} {rows : List EventRow}
  {str : Json → String}

omit [DecidableEq ι] in
/-- Nothing has failed in a fresh database. -/
theorem audited_freshStore :
    Audited ((freshStore journal : StoreState Text), ({} : Trail ι)) where
  readable _ h := by cases h
  told _ h := by cases h

theorem meets_servicePool :
    PoolMeets (@auditing Text ι) (auditedExec codec sha256Digest)
      (fun _ => onOk fun _ _ => True) ((servicePool processes (freshStore journal)).beside {}) :=
  fun _ => ⟨audited_freshStore, audits_program rfl⟩

/-- The lines tell of the failure, with the error that was recorded for it, where they are those of
the run that the error was recorded for. -/
def Represented (str : Json → String) (errors : List ErrorRow) (runId : String)
    (lines : List String) (f : FailedAttempt) : Prop :=
  ∃ row ∈ errors, f.errorId = some row.errorId ∧ row.taskId = some f.taskId ∧
    (row.runId = runId → ∃ retryable,
      (Occurrence.failure f.state f.taskId f.attempt row.errorId row.error retryable).entry str ∈
        lines)

omit [DecidableEq ι] in
theorem Tells.represented {errors : List ErrorRow} {events : List Checkpoints.Event}
    {f : FailedAttempt} {event : Checkpoints.Event} (h : Tells errors f event)
    (hevent : event ∈ events) (hrows : Holds rows events) (runId : String) :
    Represented str errors runId (auditHistory str rows runId) f := by
  obtain ⟨row, hrow, herror, htask, retryable, rfl⟩ := h
  refine ⟨row, hrow, herror, htask, fun hrun => ⟨retryable, ?_⟩⟩
  rw [auditHistory_holds hrows, List.mem_filterMap]
  exact ⟨_, List.mem_filter.mpr ⟨hevent, decide_eq_true hrun⟩, auditEntry_event rfl⟩

/-- Any processes with any calls of the service, interleaved in any way, with calls that fail,
processes that stop and checkpoints that are damaged. A report on the rows of the events so far
tells of each event of its run that is to be shown, in order and in what its publisher had at hand,
just where no recovery of the run has fallen back to an older checkpoint. Each failure is
represented, but for those that a thread has yet to publish and those of dead workers that recovery
has committed, and a thread that saves a report has none to publish. Every entry is one line. -/
theorem service_auditTrail {isPrintable : Char → Bool} {G : Reporting.ReportGenerator}
    {data : Reporting.ReportInput} {reportId : String} {now : Timestamp}
    {bundle : Reporting.ReportBundle}
    (hrun : ThreadRuns (auditedExec codec sha256Digest)
      ((servicePool processes (freshStore journal)).beside {}) P)
    (hrows : Holds rows P.shared.1.checkpoints.events)
    (hreport : G.generate data reportId now = .ok bundle)
    (hsection : data.failuresAndRecoveries =
      auditHistory (Tools.pyStr isPrintable) rows data.run.runId) :
    (Recounted (Tools.pyStr isPrintable) P.shared.1.checkpoints.events bundle.report.runId
        bundle.report.failuresAndRecoveries ↔
      ∀ event ∈ P.shared.1.checkpoints.events, event.runId = bundle.report.runId →
        event.eventType ≠ "checkpoint.recovered") ∧
    (∀ f ∈ P.shared.2.failures, (∃ j, P.shared.2.owed j = some f) ∨ f ∈ P.shared.2.abandoned ∨
      Represented (Tools.pyStr isPrintable) P.shared.1.errors bundle.report.runId
        bundle.report.failuresAndRecoveries f) ∧
    (∀ j reportId runId format isPartial k,
      P.threads j = .call (.sql (.saveReport reportId runId format isPartial)) k →
        P.shared.2.owed j = none) ∧
    ∀ line ∈ bundle.report.failuresAndRecoveries, OneLine 1246 line := by
  have hmeets := meets_servicePool.runs compatible_auditing hrun
  have haudited : Audited P.shared := meets_servicePool.invariant compatible_auditing hrun
    audited_freshStore fun _ _ _ _ _ h _ => h
  obtain ⟨hdocument, -⟩ := Reporting.generate_markdown hreport
  have hlines : bundle.report.failuresAndRecoveries =
      auditHistory (Tools.pyStr isPrintable) rows bundle.report.runId := by
    rw [hdocument]
    exact hsection
  rw [hlines]
  refine ⟨recounted_iff bounded_arr haudited.readable hrows _, fun f hf => ?_,
    fun j _ _ _ _ _ hj => hmeets.pre hj, fun line hline => ?_⟩
  · rcases haudited.told f hf with howed | habandoned | ⟨event, hevent, htells⟩
    · exact .inl howed
    · exact .inr (.inl habandoned)
    · exact .inr (.inr (htells.represented hevent hrows _))
  · obtain ⟨row, -, hrow⟩ := List.mem_filterMap.mp hline
    exact oneLine_reported hrow

end Histories

/-! ## A run that fails, and a recovery after damage -/

section Runs

/-- The fields of the payload of an event. -/
def payloadFields (event : Checkpoints.Event) : Option (List (String × Json)) :=
  match event.payload with
  | .obj fields => some fields
  | _ => none

/-- The rows of a log of events from which nothing was compacted. -/
def logRows (events : List Checkpoints.Event) : List EventRow :=
  events.mapIdx fun n event =>
    { eventId := toString n, runId := event.runId, sequence := n + 1, eventType := event.eventType
      taskId := event.taskId, payload := (payloadFields event).getD [], createdAt := 0 }

theorem holds_logRows {events : List Checkpoints.Event}
    (h : ∀ event ∈ events, (payloadFields event).isSome = true) :
    Holds (logRows events) events := by
  have hpayload : ∀ event ∈ events, .obj ((payloadFields event).getD []) = event.payload := by
    intro event hevent
    have hsome := h event hevent
    unfold payloadFields at hsome ⊢
    cases hobj : event.payload <;> simp_all
  constructor
  · unfold Increasing logRows
    rw [List.pairwise_iff_getElem]
    intro a b ha hb hab _
    simp only [List.getElem_mapIdx]
    omega
  · congr 1
    unfold logRows
    apply List.ext_getElem
    · rw [List.length_map, List.length_mapIdx]
    · intro n hn hn'
      rw [List.getElem_map, List.getElem_mapIdx]
      unfold rowEvent
      dsimp only
      rw [hpayload _ (List.getElem_mem hn')]

abbrev auditedHandle (i : Nat) : Handler (StoreOp CheckpointEnvelope) Exn Store.Supply
    (StoreState CheckpointEnvelope × Trail Nat) :=
  (handle plainCodec plainAgent.sha256Digest).recorded (noteFailure i)

/-- The inputs of a report with these entries. -/
def auditReport (entries : List String) : Reporting.ReportInput :=
  { Reporting.emptyReport "objective" with
    run := { (Reporting.emptyReport "objective").run with runId := "run-r" }
    failuresAndRecoveries := entries }

theorem generate_auditReport (entries : List String) : ∃ G bundle,
    Reporting.ReportGenerator.generate G (auditReport entries) "report-1" 0 = .ok bundle ∧
      bundle.report.runId = "run-r" ∧ bundle.report.failuresAndRecoveries = entries := by
  obtain ⟨bundle, h⟩ := @Reporting.generate_ok
    (Reporting.textGenerator (Reporting.document (auditReport entries) "report-1" 0))
    (auditReport entries) "report-1" 0 rfl rfl (fun _ => rfl) rfl
  have hreport := (Reporting.generate_markdown h).1
  exact ⟨_, bundle, h, by rw [hreport]; rfl, by rw [hreport]; rfl⟩

/-- A run is created, and its task fails for good. -/
def failingAdvance : List (Nat × Store.Supply) :=
  planTurns fatalPlan 0 (List.replicate 38 "r") ++ failingTurns 1 ((List.range 100).map toString)

/-- The report tells of the failure. -/
theorem service_auditTrail_failed : ∃ P,
    ThreadRuns (auditedExec plainCodec plainAgent.sha256Digest) (advancingPool.beside {}) P ∧
    P.shared.2.failures = [⟨"A", 1, .FAILED_TERMINAL, some "error-39"⟩] ∧
    ∃ bundle : Reporting.ReportBundle, bundle.report.failuresAndRecoveries =
      ["task.failed_terminal: A, attempt 1, category TOOL_EXECUTION: failed"] ∧
      Recounted (Tools.pyStr fun _ => true) P.shared.1.checkpoints.events "run-r"
        bundle.report.failuresAndRecoveries := by
  obtain ⟨P, hP⟩ : ∃ P, P = (advancingPool.beside ({} : Trail Nat)).playEach auditedHandle
      failingAdvance := ⟨_, rfl⟩
  have hrun : ThreadRuns (auditedExec plainCodec plainAgent.sha256Digest)
      (advancingPool.beside {}) P := by
    rw [hP]
    exact (Pool.playEach_runs auditedHandle failingAdvance _).mono
      fun i β op s x s' hop => ⟨s, ⟨_, rfl⟩, .inl hop⟩
  have hfailures : P.shared.2.failures = [⟨"A", 1, .FAILED_TERMINAL, some "error-39"⟩] := by
    rw [hP]
    decide +kernel
  have hrows : Holds (logRows P.shared.1.checkpoints.events) P.shared.1.checkpoints.events := by
    rw [hP]
    exact holds_logRows (by decide +kernel)
  have hlines : auditHistory (Tools.pyStr fun _ => true)
      (logRows P.shared.1.checkpoints.events) "run-r" =
        ["task.failed_terminal: A, attempt 1, category TOOL_EXECUTION: failed"] := by
    rw [hP]
    decide +kernel
  have hnone : ∀ event ∈ P.shared.1.checkpoints.events, event.runId = "run-r" →
      event.eventType ≠ "checkpoint.recovered" := by
    rw [hP]
    decide +kernel
  obtain ⟨G, bundle, hreport, hid, hentries⟩ := generate_auditReport
    (auditHistory (Tools.pyStr fun _ => true) (logRows P.shared.1.checkpoints.events) "run-r")
  have haudit := (service_auditTrail hrun hrows hreport rfl).1
  rw [hid] at haudit
  exact ⟨P, hrun, hfailures, bundle, hentries.trans hlines, haudit.mpr hnone⟩

/-- The newest of two checkpoints is damaged, if at all. -/
def damagedRows (rows : List (Checkpoints.CheckpointRow CheckpointEnvelope)) :
    List (Checkpoints.CheckpointRow CheckpointEnvelope) :=
  rows.map fun row => if row.sequence = 2 then
    { row with envelopeJson := { row.envelopeJson with payloadHash := "damaged" } } else row

/-- Calls before some of which the newest checkpoint is damaged. -/
def damagedHandle (i : Nat) : Handler (StoreOp CheckpointEnvelope) Exn (Store.Supply × Bool)
    (StoreState CheckpointEnvelope × Trail Nat) := fun β op t s =>
  let checkpoints := s.1.checkpoints
  let rows := if t.2 then damagedRows checkpoints.rows else checkpoints.rows
  auditedHandle i β op t.1 ({ s.1 with checkpoints := { checkpoints with rows := rows } }, s.2)

/-- A creation, an advance, and then resumes. -/
def resumedPool : Pool (StoreOp CheckpointEnvelope) Exn (StoreState CheckpointEnvelope) Nat :=
  plainPool fun
    | 0 => .createRun "objective" "owner" "key" none
    | 1 => .advance "run-r" "owner" none
    | _ => .resume "run-r" "owner" none none

/-- A worker stops while its task is running, and the run is resumed after its lease from the older
of two checkpoints, and completed. -/
def damagedResume : List (Nat × Store.Supply × Bool) :=
  (turns 0 (List.replicate 38 "r") ++ turns 1 ((List.range 34).map toString)).map
      (Prod.map id fun t => (t, false)) ++
    (laterTurns 2 ((List.range 140).map fun n => toString (n + 100))).map
      (Prod.map id fun t => (t, true))

/-- The report does not name the rejected checkpoint, and no line tells of the attempt of the worker
that stopped. -/
theorem service_auditTrail_damaged : ∃ P,
    ThreadRuns (auditedExec plainCodec plainAgent.sha256Digest) (resumedPool.beside {}) P ∧
    (P.threads 2).returned = true ∧
    ∃ rows, Holds rows P.shared.1.checkpoints.events ∧
      auditHistory (Tools.pyStr fun _ => true) rows "run-r" =
        ["checkpoint.recovered: selected sequence 1 after rejecting None",
          "checkpoint.recovered: selected sequence 1 after rejecting None",
          "recovery.completed: resumed from checkpoint checkpoint-r; repository drifted=False"] ∧
      ¬ Recounted (Tools.pyStr fun _ => true) P.shared.1.checkpoints.events "run-r"
        (auditHistory (Tools.pyStr fun _ => true) rows "run-r") ∧
      ¬ ∀ f ∈ P.shared.2.failures, Represented (Tools.pyStr fun _ => true) P.shared.1.errors "run-r"
        (auditHistory (Tools.pyStr fun _ => true) rows "run-r") f := by
  obtain ⟨P, hP⟩ : ∃ P, P = (resumedPool.beside ({} : Trail Nat)).playEach damagedHandle
      damagedResume := ⟨_, rfl⟩
  have hrun : ThreadRuns (auditedExec plainCodec plainAgent.sha256Digest)
      (resumedPool.beside {}) P := by
    rw [hP]
    exact (Pool.playEach_runs damagedHandle damagedResume _).mono
      fun i β op s x s' ⟨t, hop⟩ => ⟨_, ⟨_, rfl⟩, .inl ⟨t.1, hop⟩⟩
  have hreturned : (P.threads 2).returned = true := by
    rw [hP]
    decide +kernel
  have hrows : Holds (logRows P.shared.1.checkpoints.events) P.shared.1.checkpoints.events := by
    rw [hP]
    exact holds_logRows (by decide +kernel)
  have hlines : auditHistory (Tools.pyStr fun _ => true)
      (logRows P.shared.1.checkpoints.events) "run-r" =
      ["checkpoint.recovered: selected sequence 1 after rejecting None",
        "checkpoint.recovered: selected sequence 1 after rejecting None",
        "recovery.completed: resumed from checkpoint checkpoint-r; repository drifted=False"] := by
    rw [hP]
    decide +kernel
  have hfallback : ∃ event ∈ P.shared.1.checkpoints.events, event.runId = "run-r" ∧
      event.eventType = "checkpoint.recovered" := by
    rw [hP]
    decide +kernel
  have hfailures : P.shared.2.failures = [⟨"A", 1, .FAILED_RETRYABLE, some "error-115"⟩] := by
    rw [hP]
    decide +kernel
  have herrors : ∀ row ∈ P.shared.1.errors, row.runId = "run-r" ∧ ∀ retryable,
      (Occurrence.failure .FAILED_RETRYABLE "A" 1 row.errorId row.error retryable).entry
        (Tools.pyStr fun _ => true) ∉ auditHistory (Tools.pyStr fun _ => true)
          (logRows P.shared.1.checkpoints.events) "run-r" := by
    rw [hP]
    decide +kernel
  have haudited : Audited P.shared := meets_servicePool.invariant compatible_auditing hrun
    audited_freshStore fun _ _ _ _ _ h _ => h
  refine ⟨P, hrun, hreturned, _, hrows, hlines, fun hrecounted => ?_, fun hall => ?_⟩
  · obtain ⟨event, hevent, hid, htype⟩ := hfallback
    exact (recounted_iff bounded_arr haudited.readable hrows "run-r").mp hrecounted event hevent hid
      htype
  · obtain ⟨row, hrow, -, -, hentry⟩ := hall _ (hfailures ▸ List.mem_cons_self)
    obtain ⟨hid, hnone⟩ := herrors row hrow
    obtain ⟨retryable, hmem⟩ := hentry hid
    exact hnone retryable hmem

end Runs

end DurableAgent.Orchestration
