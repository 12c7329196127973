import DurableAgent.Library.Lines
import DurableAgent.Persistence.EventLog
import DurableAgent.Recovery.Manager
import DurableAgent.Tools.Registered

/-!
# What reports show of the events

The publishers of an event and the one that renders it for reports meet in the keys of a payload
only. Here stands what each publisher has at hand, the event it publishes, and the line that tells
what it had at hand. The line is what reports show, except for the fallback to an older checkpoint.
-/

namespace DurableAgent.Orchestration

open Library Events

/-- What reports show, with what its publisher has at hand. -/
inductive Occurrence where
  | failure (state : TaskState) (taskId : String) (attempt : Nat) (errorId : String)
      (error : DurableAgentError) (retryable : Bool)
  | paused (reason checkpointId : String)
  | cancelled (reason checkpointId : String)
  | stuck
  | recovered (checkpointId : String) (drifted : Bool) (resultIds : List String)
      (fencingToken : Nat) (postRecoveryId : String)
  | drift (snapshotId manifestHash currentHash : String) (policy : RepositoryDriftPolicy)
  | fallback (selected : CheckpointEnvelope) (rejections : List Checkpoints.Rejection)

/-- The event that is published for a failure that leaves its task in a state. -/
def failureEventType : TaskState → String
  | .WAITING => "manual_review.required"
  | .FAILED_RETRYABLE => "task.failed_retryable"
  | _ => "task.failed_terminal"

def failureEvents : List String :=
  ["task.failed_retryable", "task.failed_terminal", "manual_review.required"]

def shownEvents : List String :=
  failureEvents ++ ["run.paused", "run.cancelled", "run.failed", "recovery.completed",
    "checkpoint.recovered", "repository.drift_detected"]

theorem failureEventType_mem (state : TaskState) : failureEventType state ∈ failureEvents := by
  cases state <;> decide

theorem failureEvents_subset : failureEvents ⊆ shownEvents := List.subset_append_left _ _

namespace Occurrence

/-- The event that its publisher publishes. -/
def event (runId : String) : Occurrence → Checkpoints.Event
  | .failure state taskId attempt errorId error retryable =>
    ⟨runId, failureEventType state, .obj
      [("attempt", .int attempt), ("error_id", .str errorId),
        ("category", .str (ErrorCategory.value error.cls.category)),
        ("message", .str error.message), ("retryable", .bool retryable)], some taskId⟩
  | .paused reason checkpointId =>
    ⟨runId, "run.paused", .obj
      [("reason", .str reason), ("checkpoint_id", .str checkpointId)], none⟩
  | .cancelled reason checkpointId =>
    ⟨runId, "run.cancelled", .obj
      [("reason", .str reason), ("checkpoint_id", .str checkpointId)], none⟩
  | .stuck =>
    ⟨runId, "run.failed", .obj [("reason", .str "no ready tasks and plan is incomplete")], none⟩
  | .recovered checkpointId drifted resultIds fencingToken postRecoveryId =>
    ⟨runId, "recovery.completed", .obj
      [("checkpoint_id", .str checkpointId), ("repository_drifted", .bool drifted),
        ("reconciled_tool_results", .ofStrings resultIds), ("fencing_token", .int fencingToken),
        ("post_recovery_checkpoint_id", .str postRecoveryId)], none⟩
  | .drift snapshotId manifestHash currentHash policy =>
    ⟨runId, "repository.drift_detected", .obj
      [("previous_snapshot_id", .str snapshotId), ("previous_manifest_hash", .str manifestHash),
        ("current_manifest_hash", .str currentHash),
        ("policy", .str (RepositoryDriftPolicy.value policy))], none⟩
  | .fallback selected rejections =>
    ⟨runId, "checkpoint.recovered", .obj
      [("selected_checkpoint_id", .str selected.checkpointId),
        ("selected_sequence", .int selected.sequence),
        ("rejected", .arr (rejections.map Checkpoints.Rejection.payload))], none⟩

/-- An older checkpoint stands in for rejected ones. -/
def isFallback : Occurrence → Bool
  | .fallback _ _ => true
  | _ => false

def isFailure : Occurrence → Bool
  | .failure _ _ _ _ _ _ => true
  | _ => false

variable (str : Json → String)

/-- The task that a failure is told of. -/
def subject (taskId : String) : String :=
  bounded str (.str (if taskId = "" then "run" else taskId))

/-- The line that tells what the publisher had at hand. -/
def entry : Occurrence → String
  | .failure .WAITING taskId _ _ error _ =>
    "manual_review.required: " ++ subject str taskId ++ ", category " ++
      bounded str (.str (ErrorCategory.value error.cls.category)) ++ ": " ++
      bounded str (.str error.message)
  | .failure state taskId attempt _ error _ =>
    failureEventType state ++ ": " ++ subject str taskId ++ ", attempt " ++
      bounded str (.int attempt) ++ ", category " ++
      bounded str (.str (ErrorCategory.value error.cls.category)) ++ ": " ++
      bounded str (.str error.message)
  | .paused reason _ => "run.paused" ++ ": " ++ bounded str (.str reason)
  | .cancelled reason _ => "run.cancelled" ++ ": " ++ bounded str (.str reason)
  | .stuck => "run.failed" ++ ": " ++ bounded str (.str "no ready tasks and plan is incomplete")
  | .recovered checkpointId drifted _ _ _ =>
    "recovery.completed: resumed from checkpoint " ++ bounded str (.str checkpointId) ++
      "; repository drifted=" ++ bounded str (.bool drifted)
  | .drift _ _ _ policy =>
    "repository.drift_detected: policy " ++
      bounded str (.str (RepositoryDriftPolicy.value policy))
  | .fallback selected rejections =>
    "checkpoint.recovered: selected sequence " ++ bounded str (.int selected.sequence) ++
      " after rejecting " ++
      bounded str (.arr (rejections.map Checkpoints.Rejection.payload))

end Occurrence

/-! ## The reader -/

/-- The event that a row holds. -/
def rowEvent (row : EventRow) : Checkpoints.Event :=
  ⟨row.runId, row.eventType, .obj row.payload, row.taskId⟩

section Reader

variable {str : Json → String} {row : EventRow} {runId : String}

/-- `_reportable_audit_entry` of an event that is in no table yet. -/
def auditEntry (str : Json → String) (event : Checkpoints.Event) : Option String :=
  match event.payload with
  | .obj payload => reportableAuditEntry str
    { eventId := "", runId := event.runId, sequence := 0, eventType := event.eventType
      taskId := event.taskId, payload := payload, createdAt := 0 }
  | _ => none

/-- Neither the identifier nor the number nor the time of a row is shown. -/
theorem auditEntry_rowEvent : auditEntry str (rowEvent row) = reportableAuditEntry str row := rfl

theorem reportableAuditEntry_unshown (h : row.eventType ∉ shownEvents) :
    reportableAuditEntry str row = none := by
  simp only [shownEvents, failureEvents, List.mem_append, List.mem_cons, List.not_mem_nil,
    or_false, not_or] at h
  simp [reportableAuditEntry, h]

/-- A task without a name is told of as the run. -/
theorem taskOrRun_eq {taskId : String} (h : row.taskId = some taskId) :
    row.taskOrRun str = Occurrence.subject str taskId := by
  unfold EventRow.taskOrRun Occurrence.subject
  rw [h]
  by_cases hid : taskId = ""
  · rw [if_pos hid, hid]
    rfl
  · rw [if_neg hid, Option.filter_some, if_pos (by simpa using hid), Option.getD_some]

/-- A publisher and the reader agree on each key, but for those of a fallback. -/
theorem auditEntry_event {o : Occurrence} (h : o.isFallback = false) :
    auditEntry str (o.event runId) = some (o.entry str) := by
  cases o with
  | failure state taskId attempt errorId error retryable =>
    have hsubject := @taskOrRun_eq str
      ⟨"", runId, 0, failureEventType state, some taskId, [], 0⟩ taskId rfl
    unfold Occurrence.event auditEntry reportableAuditEntry
    dsimp only
    cases state with
    | WAITING =>
      rw [if_neg (by decide), if_neg (by decide), if_pos (by decide)]
      exact hsubject ▸ rfl
    | _ =>
      rw [if_pos (by decide)]
      exact hsubject ▸ rfl
  | paused | cancelled | stuck =>
    unfold Occurrence.event auditEntry reportableAuditEntry
    dsimp only
    rw [if_neg (by decide), if_pos (by decide)]
    rfl
  | recovered =>
    unfold Occurrence.event auditEntry reportableAuditEntry
    dsimp only
    rw [if_neg (by decide), if_neg (by decide), if_neg (by decide), if_pos (by decide)]
    rfl
  | drift =>
    unfold Occurrence.event auditEntry reportableAuditEntry
    dsimp only
    rw [if_neg (by decide), if_neg (by decide), if_neg (by decide), if_neg (by decide),
      if_neg (by decide), if_pos (by decide)]
    rfl
  | fallback => cases h

/-- The reader looks for the rejected checkpoints under a key that no publisher writes. -/
theorem auditEntry_fallback {selected : CheckpointEnvelope}
    {rejections : List Checkpoints.Rejection} :
    auditEntry str ((Occurrence.fallback selected rejections).event runId) =
      some ("checkpoint.recovered: selected sequence " ++ bounded str (.int selected.sequence) ++
        " after rejecting " ++ bounded str .null) := by
  unfold Occurrence.event auditEntry reportableAuditEntry
  dsimp only
  rw [if_neg (by decide), if_neg (by decide), if_neg (by decide), if_neg (by decide),
    if_pos (by decide)]
  rfl

theorem eventType_fallback {o : Occurrence} :
    (o.event runId).eventType = "checkpoint.recovered" ↔ o.isFallback = true := by
  cases o with
  | failure state =>
    cases state <;> simp [Occurrence.event, Occurrence.isFallback, failureEventType]
  | _ => simp [Occurrence.event, Occurrence.isFallback]

/-- But for a fallback, the event is one that its publisher and the reader agree on. -/
def Readable (event : Checkpoints.Event) : Prop :=
  event.eventType = "checkpoint.recovered" ∨
    ∃ o : Occurrence, o.isFallback = false ∧ event = o.event event.runId

/-- The line tells what the publisher of the event had at hand. -/
def Recounts (str : Json → String) (event : Checkpoints.Event) (line : String) : Prop :=
  ∃ o : Occurrence, event = o.event event.runId ∧ line = o.entry str

/-- The reader recounts an event just where it is no fallback. -/
theorem recounts_iff {event : Checkpoints.Event}
    (hstr : ∀ items, bounded str (.arr items) ≠ bounded str .null) (h : Readable event) :
    (∃ line, auditEntry str event = some line ∧ Recounts str event line) ↔
      event.eventType ≠ "checkpoint.recovered" := by
  constructor
  · rintro ⟨line, hline, o, hevent, rfl⟩ hfallback
    rw [hevent] at hfallback
    cases o with
    | fallback selected rejections =>
      rw [hevent, auditEntry_fallback] at hline
      exact hstr _ ((String.append_right_inj _).mp (Option.some.inj hline)).symm
    | _ => cases eventType_fallback.mp hfallback
  · intro hne
    obtain ⟨o, hread, hevent⟩ := h.resolve_left hne
    refine ⟨o.entry str, ?_, o, hevent, rfl⟩
    rw [hevent]
    exact auditEntry_event hread

end Reader

/-! ## Texts of values -/

section Texts

variable {str : Json → String} {value : Json} {c : Char} {rest : List Char}

/-- A text that does not begin with white space keeps its beginning. -/
theorem bounded_start (h : (str value).toList = c :: rest) (hc : isSpace c = false) :
    ∃ rest', (bounded str value).toList = c :: rest' := by
  unfold bounded
  dsimp only
  rw [String.toList_ofList, String.toList_intercalate, h, List.splitOnP_cons_eq_if_modifyHead,
    if_neg (by simp [hc])]
  cases hpieces : rest.splitOnP isSpace with
  | nil => exact absurd hpieces (List.splitOnP_ne_nil _ _)
  | cons first pieces =>
    rw [List.modifyHead_cons, List.filter_cons_of_pos (by simp), List.map_cons, List.map_cons,
      String.toList_ofList]
    by_cases hnil : ((pieces.filter fun word => ¬ word.isEmpty).map String.ofList).map
        String.toList = []
    · rw [hnil, List.intercalate_singleton, String.toList_ofList]
      exact ⟨_, rfl⟩
    · rw [List.intercalate_cons_of_ne_nil hnil, String.toList_ofList]
      exact ⟨_, rfl⟩

/-- A list is not shown as nothing is. -/
theorem bounded_arr {isPrintable : Char → Bool} (items : List Json) :
    bounded (Tools.pyStr isPrintable) (.arr items) ≠ bounded (Tools.pyStr isPrintable) .null := by
  intro heq
  obtain ⟨rest, hlist⟩ := @bounded_start (Tools.pyStr isPrintable) (.arr items) '['
    (Tools.spaced (Tools.reprItems isPrintable items) ++ [']']) String.toList_ofList (by decide)
  obtain ⟨rest', hnull⟩ := @bounded_start (Tools.pyStr isPrintable) .null 'N' ['o', 'n', 'e']
    String.toList_ofList (by decide)
  rw [heq, hnull] at hlist
  have hhead := (List.cons.inj hlist).1
  revert hhead
  decide

end Texts

/-! ## One line -/

section OneLine

variable {str : Json → String} {row : EventRow} {value : Json} {a b text : String}

/-- The only white space of the text are blanks, and it is no longer than a length. -/
structure OneLine (length : Nat) (text : String) : Prop where
  blanks : ∀ c ∈ text.toList, isSpace c = true → c = ' '
  bound : text.length ≤ length

theorem OneLine.append {m n : Nat} (ha : OneLine m a) (hb : OneLine n b) :
    OneLine (m + n) (a ++ b) := by
  constructor
  · intro c hc
    rw [String.toList_append, List.mem_append] at hc
    rcases hc with hc | hc
    · exact ha.blanks c hc
    · exact hb.blanks c hc
  · rw [String.length_append]
    exact Nat.add_le_add ha.bound hb.bound

theorem OneLine.mono {m n : Nat} (h : OneLine m text) (hmn : m ≤ n) : OneLine n text :=
  ⟨h.blanks, h.bound.trans hmn⟩

theorem oneLine_bounded : OneLine 300 (bounded str value) := by
  unfold bounded
  constructor
  · intro c hc hspace
    rw [String.toList_ofList] at hc
    have hjoined := List.mem_of_mem_take hc
    rw [String.toList_intercalate] at hjoined
    rcases mem_intercalate hjoined with hblank | ⟨piece, hpiece, hword⟩
    · simpa using hblank
    · rw [List.map_map] at hpiece
      obtain ⟨word, hmem, rfl⟩ := List.mem_map.mp hpiece
      have hnone := of_mem_splitOnP (List.mem_of_mem_filter hmem) c (by simpa using hword)
      rw [hspace] at hnone
      cases hnone
  · rw [String.length_ofList]
    exact List.length_take_le _ _

theorem oneLine_literal (h : text.toList.all fun c => !isSpace c || c == ' ') :
    OneLine text.length text := by
  refine ⟨fun c hc hspace => ?_, le_refl _⟩
  have hall := List.all_eq_true.mp h c hc
  rw [hspace] at hall
  simpa using hall

/-- Whatever a row holds, its line is a line. -/
theorem oneLine_reported {line : String} (h : reportableAuditEntry str row = some line) :
    OneLine 1246 line := by
  have htype (types : List String) (hmem : row.eventType ∈ types)
      (hall : types.all fun t => decide (t.length ≤ 21) && t.toList.all fun c =>
        !isSpace c || c == ' ') : OneLine 21 row.eventType := by
    have heach := List.all_eq_true.mp hall _ hmem
    rw [Bool.and_eq_true, decide_eq_true_eq] at heach
    exact (oneLine_literal heach.2).mono heach.1
  have hsubject : OneLine 300 (row.taskOrRun str) := oneLine_bounded
  have hfield (name : String) : OneLine 300 (bounded str (row.field name)) := oneLine_bounded
  unfold reportableAuditEntry at h
  dsimp only at h
  split at h
  · next hmem =>
    obtain rfl := Option.some.inj h
    refine OneLine.mono ((((((((htype _ hmem (by decide)).append
      (oneLine_literal (by decide))).append hsubject).append (oneLine_literal (by decide))).append
      (hfield _)).append (oneLine_literal (by decide))).append (hfield _)).append
      (oneLine_literal (by decide)) |>.append (hfield _)) (by decide)
  · split at h
    · next hmem =>
      obtain rfl := Option.some.inj h
      exact (((htype _ hmem (by decide)).append (oneLine_literal (by decide))).append
        (hfield _)).mono (by decide)
    · split at h
      · obtain rfl := Option.some.inj h
        exact (((((oneLine_literal (by decide)).append hsubject).append
          (oneLine_literal (by decide))).append (hfield _)).append
          (oneLine_literal (by decide)) |>.append (hfield _)).mono (by decide)
      · split at h
        · obtain rfl := Option.some.inj h
          exact ((((oneLine_literal (by decide)).append (hfield _)).append
            (oneLine_literal (by decide))).append (hfield _)).mono (by decide)
        · split at h
          · obtain rfl := Option.some.inj h
            exact ((((oneLine_literal (by decide)).append (hfield _)).append
              (oneLine_literal (by decide))).append (hfield _)).mono (by decide)
          · split at h
            · obtain rfl := Option.some.inj h
              exact ((oneLine_literal (by decide)).append (hfield _)).mono (by decide)
            · cases h

end OneLine

/-! ## The table of events -/

section Table

variable {str : Json → String} {rows : List EventRow} {events : List Checkpoints.Event}
  {sha256Digest : String → String} {h h' : History}

/-- An event that reports show. -/
def Shown (event : Checkpoints.Event) : Prop := event.eventType ∈ shownEvents

instance (event : Checkpoints.Event) : Decidable (Shown event) :=
  inferInstanceAs (Decidable (_ ∈ _))

/-- The rows of each run are numbered in their order, and are those of the events, less some that
reports do not show. -/
structure Holds (rows : List EventRow) (events : List Checkpoints.Event) : Prop where
  increasing : Increasing EventRow.runId EventRow.sequence rows
  shown : (rows.map rowEvent).filter (fun event => Shown event) =
    events.filter fun event => Shown event

theorem filterMap_shown : (events.filter fun event => Shown event).filterMap (auditEntry str) =
    events.filterMap (auditEntry str) := by
  induction events with
  | nil => rfl
  | cons event events ih =>
    by_cases hshown : Shown event
    · rw [List.filter_cons_of_pos (by simpa using hshown), List.filterMap_cons, List.filterMap_cons,
        ih]
    · have hnone : auditEntry str event = none := by
        unfold auditEntry
        split
        · exact reportableAuditEntry_unshown hshown
        · rfl
      rw [List.filter_cons_of_neg (by simpa using hshown), List.filterMap_cons, hnone, ih]

/-- What a report shows of a run are the lines of its events, in the order of publication. -/
theorem auditHistory_holds (h : Holds rows events) (runId : String) :
    auditHistory str rows runId =
      (events.filter fun event => event.runId = runId).filterMap (auditEntry str) := by
  have hrows : (rows.filter fun row => row.runId = runId).map rowEvent =
      (rows.map rowEvent).filter fun event => event.runId = runId := by
    rw [List.filter_map]
    rfl
  calc auditHistory str rows runId
      = ((rows.filter fun row => row.runId = runId).map rowEvent).filterMap (auditEntry str) := by
        unfold auditHistory
        rw [stream_eq h.increasing, List.filterMap_map]
        exact List.filterMap_congr fun row _ => auditEntry_rowEvent.symm
    _ = (((rows.map rowEvent).filter fun event => Shown event).filter
          fun event => event.runId = runId).filterMap (auditEntry str) := by
        rw [hrows, ← filterMap_shown, List.filter_comm]
    _ = (events.filter fun event => event.runId = runId).filterMap (auditEntry str) := by
        rw [h.shown, List.filter_comm, filterMap_shown]

/-- The elements are in step with what a function makes of them just where it makes something of
each. -/
theorem forall₂_filterMap {α β : Type} {R : α → β → Prop} {f : α → Option β} {l : List α} :
    List.Forall₂ R l (l.filterMap f) ↔ ∀ a ∈ l, ∃ b, f a = some b ∧ R a b := by
  constructor
  · intro h a ha
    have hall := List.filterMap_length_eq_length.mp h.length_eq.symm
    induction l with
    | nil => cases ha
    | cons x l ih =>
      obtain ⟨b, hb⟩ := Option.isSome_iff_exists.mp (hall x List.mem_cons_self)
      rw [List.filterMap_cons_some hb] at h
      obtain ⟨hx, hl⟩ := List.forall₂_cons.mp h
      rcases List.mem_cons.mp ha with rfl | ha
      · exact ⟨b, hb, hx⟩
      · exact ih hl ha fun y hy => hall y (List.mem_cons_of_mem x hy)
  · intro h
    induction l with
    | nil => exact .nil
    | cons x l ih =>
      obtain ⟨b, hb, hx⟩ := h x List.mem_cons_self
      rw [List.filterMap_cons_some hb]
      exact .cons hx (ih fun a ha => h a (List.mem_cons_of_mem x ha))

/-- The lines tell, in order, of each event of the run that is to be shown. -/
def Recounted (str : Json → String) (events : List Checkpoints.Event) (runId : String)
    (lines : List String) : Prop :=
  List.Forall₂ (Recounts str)
    ((events.filter fun event => event.runId = runId).filter fun event => Shown event) lines

/-- A report recounts a run just where no fallback is among its events. -/
theorem recounted_iff (hstr : ∀ items, bounded str (.arr items) ≠ bounded str .null)
    (hread : ∀ event ∈ events, Shown event → Readable event) (h : Holds rows events)
    (runId : String) : Recounted str events runId (auditHistory str rows runId) ↔
      ∀ event ∈ events, event.runId = runId → event.eventType ≠ "checkpoint.recovered" := by
  unfold Recounted
  rw [auditHistory_holds h, ← filterMap_shown, forall₂_filterMap]
  simp only [List.mem_filter, decide_eq_true_eq, and_imp]
  constructor
  · intro hall event hevent hrun hfallback
    have hshown : Shown event := by
      rw [Shown, hfallback]
      decide
    exact (recounts_iff hstr (hread event hevent hshown)).mp (hall event hevent hrun hshown)
      hfallback
  · intro hnone event hevent hrun hshown
    exact (recounts_iff hstr (hread event hevent hshown)).mpr (hnone event hevent hrun)

theorem shown_summary {olderThan : Timestamp} {id : String} {gone : List EventRow} {row : EventRow}
    (h : Summarizes sha256Digest olderThan id gone row) : ¬ Shown (rowEvent row) := by
  change row.eventType ∉ shownEvents
  rw [h.eventType]
  decide

/-- What compaction removes and what it leaves instead are not shown. -/
theorem shown_compacted {s s' : EventStore} {olderThan : Timestamp} {id : String}
    {tombstone : EventRow} (hc : Compacted sha256Digest olderThan id tombstone s s') :
    (s'.events.map rowEvent).filter (fun event => Shown event) =
      (s.events.map rowEvent).filter fun event => Shown event := by
  have hpermanent : shownEvents ⊆ permanentAuditEvents := by decide
  have hnew := shown_summary hc.summarizes
  rw [hc.events, List.map_append, List.filter_append, List.map_singleton, List.filter_singleton]
  simp only [hnew, decide_false, cond_false, List.append_nil]
  rw [List.filter_map, List.filter_map, List.filter_filter]
  congr 1
  apply List.filter_congr
  intro row _
  by_cases hshown : Shown (rowEvent row)
  · have hkept : ¬ Events.Eligible s olderThan row := fun heligible =>
      heligible.2.2.1 (hpermanent hshown)
    simp [hshown, hkept]
  · simp [hshown]

theorem shown_does {β : Type} {op : EventOp β} {x : Except Exn β}
    (hdoes : Events.Does sha256Digest β op h x h')
    (hholds : (h.store.events.map rowEvent).filter (fun event => Shown event) =
      (h.committed.map rowEvent).filter fun event => Shown event) :
    (h'.store.events.map rowEvent).filter (fun event => Shown event) =
      (h'.committed.map rowEvent).filter fun event => Shown event := by
  cases op with
  | now | newEventId =>
    obtain rfl : h' = h := hdoes
    exact hholds
  | appendEvent draft =>
    rcases hdoes with rfl | ⟨row, -, -, -, hevents, hcommitted⟩
    · exact hholds
    · rw [hevents, hcommitted, List.map_append, List.map_append, List.filter_append,
        List.filter_append, hholds]
  | terminalRunIds =>
    obtain ⟨-, rfl⟩ := hdoes
    exact hholds
  | compactRun runId olderThan dryRun =>
    obtain ⟨-, ⟨rfl, -⟩ | ⟨-, tombstone, hc, hcommitted⟩⟩ := hdoes
    · exact hholds
    · have hnew := shown_summary hc.summarizes
      rw [shown_compacted hc, hholds, hcommitted, List.map_append, List.filter_append]
      simp [hnew]
  | insertRun | moveRun =>
    obtain ⟨hevents, hcommitted, -⟩ := hdoes
    rw [hevents, hcommitted]
    exact hholds

/-- Whatever publications and compactions are interleaved, the rows hold what was committed. -/
theorem holds_eventPool {ι : Type} [DecidableEq ι] {calls : ι → EventCall}
    {runs : Table RunRecord.runId} {P : Pool EventOp Exn History ι}
    (hrun : PoolRuns (unreliable sha256Digest) (eventPool calls runs) P) :
    Holds P.shared.store.events (P.shared.committed.map rowEvent) := by
  let Kept (h : History) : Prop := Events.Sound h ∧
    (h.store.events.map rowEvent).filter (fun event => Shown event) =
      (h.committed.map rowEvent).filter fun event => Shown event
  have hstep (β : Type) (op : EventOp β) (s : History) (x : Except Exn β) (s' : History)
      (_ : True) (hs : Kept s) (hop : unreliable sha256Digest β op s x s') : Kept s' := by
    refine ⟨(unreliable_keeps hs.1 hop).1, ?_⟩
    rcases unreliable_does hs.1 hop with rfl | ⟨y, hdoes⟩
    · exact hs.2
    · exact shown_does hdoes hs.2
  have hkept : Kept P.shared :=
    (hrun.invariant (fun _ => Prog.calls_true _) ⟨sound_eventPool, rfl⟩ hstep).1
  exact ⟨hkept.1.issued.rows_increasing, hkept.2⟩

/-- Three publications and the compaction that removes two of them. -/
theorem holds_eventPool_retention : ∃ P,
    PoolRuns (unreliable Events.plainDigest)
      (eventPool Events.retentionCalls Events.retentionRuns) P ∧
    Holds P.shared.store.events (P.shared.committed.map rowEvent) := by
  have hreach := Events.supplied_runs Events.plainDigest
    (Events.inTurn [(0, 3), (1, 3), (2, 3), (3, 2)])
    (eventPool Events.retentionCalls Events.retentionRuns)
  exact ⟨_, hreach, holds_eventPool hreach⟩

end Table

end DurableAgent.Orchestration
