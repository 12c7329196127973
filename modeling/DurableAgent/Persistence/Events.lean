import DurableAgent.Domain.Models
import DurableAgent.Domain.Plan
import DurableAgent.Domain.StateMachine
import DurableAgent.Library.Numbering
import DurableAgent.Library.Program
import DurableAgent.Library.Table

/-!
# The event log

The rows of `events`, with the operations of the store that append to them and compact them, each
transaction one call, and what reports render of them.
-/

namespace DurableAgent.Events

open Library

/-- A row of `events`. -/
structure EventRow where
  eventId : String
  runId : String
  sequence : Nat
  eventType : String
  taskId : Option String
  payload : List (String × Json)
  createdAt : Timestamp

/-- An event that is to be appended. -/
structure Draft where
  eventId : String
  runId : String
  eventType : String
  taskId : Option String
  payload : List (String × Json)
  createdAt : Timestamp

/-- `_TERMINAL_RUN_STATES` -/
def terminalRunStates : List RunState := [.COMPLETED, .FAILED, .CANCELLED]

/-- `_PERMANENT_AUDIT_EVENTS` -/
def permanentAuditEvents : List String :=
  ["run.created", "run.completed", "run.failed", "run.cancelled", "run.paused", "pause.requested",
    "cancellation.requested", "task.failed_retryable", "task.failed_terminal",
    "manual_review.required", "plan.created", "plan.revised", "recovery.completed",
    "recovery.configuration_incompatible", "recovery.abandoned_attempt", "checkpoint.recovered",
    "checkpoint.recovery_failed", "repository.drift_detected", "retention.events_compacted"]

/-- `str.startswith` -/
def startsWith (text start : String) : Bool := start.toList.isPrefixOf text.toList

/-- The events that compaction may remove. -/
def Removable (row : EventRow) : Prop :=
  row.eventType ∉ permanentAuditEvents ∧ startsWith row.eventType "security." = false ∧
    startsWith row.eventType "retention." = false

instance (row : EventRow) : Decidable (Removable row) := inferInstanceAs (Decidable (_ ∧ _))

structure EventStore where
  runs : Table RunRecord.runId
  events : List EventRow

/-- What a call takes from outside the store. -/
structure Supply where
  now : Timestamp
  freshId : String

inductive EventOp : Type → Type where
  | now : EventOp Timestamp
  | newEventId : EventOp String
  /-- One transaction of `publish`. -/
  | appendEvent (draft : Draft) : EventOp Unit
  | terminalRunIds : EventOp (List String)
  /-- One transaction of `compact_terminal_events`; the number of candidates. -/
  | compactRun (runId : String) (olderThan : Timestamp) (dryRun : Bool) : EventOp Nat
  | insertRun (run : RunRecord) : EventOp Unit
  /-- A run moves to another state, if the table of transitions allows it. -/
  | moveRun (runId : String) (target : RunState) : EventOp Unit

/-- `SQLAlchemyError` -/
def isSqlAlchemyError : Exn → Bool
  | .other _ => true
  | .agent _ => false

abbrev integrityError : Exn := .other "IntegrityError"
abbrev conflict (message : String) : Exn := .of .concurrencyConflict message

section Transactions

/-- INSERT into `events`: identifiers are unique, and so are numbers within a run. -/
def insertEvent (rows : List EventRow) (row : EventRow) : Option (List EventRow) :=
  if rows.any fun old => old.eventId = row.eventId ∨
      (old.runId = row.runId ∧ old.sequence = row.sequence) then none
  else some (rows ++ [row])

/-- `select(func.max(EventORM.sequence))`, zero where there is none -/
def latestSequence (rows : List EventRow) (runId : String) : Nat :=
  latestNumber EventRow.runId EventRow.sequence rows runId

def Draft.row (draft : Draft) (sequence : Nat) : EventRow :=
  { eventId := draft.eventId, runId := draft.runId, sequence, eventType := draft.eventType
    taskId := draft.taskId, payload := draft.payload, createdAt := draft.createdAt }

/-- The stored event is the one that is to be appended. -/
def Draft.sameAs (draft : Draft) (row : EventRow) : Bool :=
  row.runId = draft.runId ∧ row.eventType = draft.eventType ∧ row.taskId = draft.taskId ∧
    canonicalJson (.obj row.payload) = canonicalJson (.obj draft.payload)

variable (s : EventStore)

/-- The transaction of `publish`: an event that is stored already is not stored again. -/
def EventStore.append (draft : Draft) : Except Exn (Unit × EventStore) :=
  match s.events.find? fun row => row.eventId = draft.eventId with
  | some existing =>
    if draft.sameAs existing then .ok ((), s)
    else .error (conflict "event ID already stores a different event")
  | none =>
    match insertEvent s.events (draft.row (latestSequence s.events draft.runId + 1)) with
    | some events => .ok ((), { s with events := events })
    | none => .error integrityError

/-- The terminal runs, by their identifiers. -/
def EventStore.terminalRunIds : List String :=
  ((s.runs.rows.filter fun run => run.state ∈ terminalRunStates).map RunRecord.runId).insertionSort
    (· ≤ ·)

/-- The old events of a run, in order. -/
def EventStore.olderRows (runId : String) (olderThan : Timestamp) : List EventRow :=
  (s.events.filter fun row => row.runId = runId ∧ row.createdAt < olderThan).insertionSort
    fun a b => a.sequence ≤ b.sequence

def EventStore.candidates (runId : String) (olderThan : Timestamp) : List EventRow :=
  (s.olderRows runId olderThan).filter fun row => Removable row

/-- An entry of the archive manifest. -/
def EventRow.manifestEntry (row : EventRow) : Json :=
  .obj [("event_id", .str row.eventId), ("sequence", .int row.sequence),
    ("event_type", .str row.eventType), ("task_id", Json.ofOption row.taskId),
    ("payload", .obj row.payload), ("created_at", .str row.createdAt.isoformat)]

variable (sha256Digest : String → String)

/-- The row that stands for the candidates from now on. -/
def EventStore.tombstone (runId : String) (olderThan : Timestamp) (candidates : List EventRow)
    (first last : EventRow) (t : Supply) : EventRow :=
  { eventId := s!"event-{t.freshId}", runId, sequence := latestSequence s.events runId + 1
    eventType := "retention.events_compacted", taskId := none
    payload :=
      [("count", .int candidates.length), ("first_sequence", .int first.sequence),
        ("last_sequence", .int last.sequence),
        ("archive_manifest_sha256",
          .str (sha256Digest (canonicalJson (.arr (candidates.map EventRow.manifestEntry))))),
        ("cutoff", .str olderThan.isoformat)]
    createdAt := t.now }

/-- The candidates make way for the tombstone. -/
def EventStore.removeRows (candidates : List EventRow) (tombstone : EventRow) :
    Except Exn (Nat × EventStore) :=
  match insertEvent s.events tombstone with
  | some events => .ok (candidates.length,
      { s with events := events.filter fun row => row.eventId ∉ candidates.map EventRow.eventId })
  | none => .error integrityError

/-- The transaction of `compact_terminal_events` for one run. -/
def EventStore.compactRun (runId : String) (olderThan : Timestamp) (dryRun : Bool) (t : Supply) :
    Except Exn (Nat × EventStore) :=
  match s.runs.find runId with
  | none => .ok (0, s)
  | some run =>
    if run.state ∉ terminalRunStates then .ok (0, s)
    else
      let candidates := s.candidates runId olderThan
      match candidates.head?, candidates.getLast? with
      | some first, some last =>
        if dryRun then .ok (candidates.length, s)
        else s.removeRows candidates
          (s.tombstone sha256Digest runId olderThan candidates first last t)
      | _, _ => .ok (0, s)

def EventStore.insertRun (run : RunRecord) : Except Exn (Unit × EventStore) :=
  match s.runs.insert run with
  | some runs => .ok ((), { s with runs := runs })
  | none => .error integrityError

def EventStore.moveRun (runId : String) (target : RunState) : Except Exn (Unit × EventStore) :=
  match s.runs.find runId with
  | none => .error (.of .notFound s!"run not found: {runId}")
  | some run => do
    let state ← transitionRun run.state target
    pure ((), { s with runs := s.runs.replace { run with state, version := run.version + 1 } })

/-- The answer and the state of a transaction. -/
def settle {α : Type} : Except Exn (α × EventStore) → Except Exn α × EventStore
  | .ok (a, s') => (.ok a, s')
  | .error e => (.error e, s)

/-- The effect of each call. -/
def handle : Handler EventOp Exn Supply EventStore
  | _, .now, t, s => (.ok t.now, s)
  | _, .newEventId, t, s => (.ok s!"event-{t.freshId}", s)
  | _, .appendEvent draft, _, s => settle s (s.append draft)
  | _, .terminalRunIds, _, s => (.ok s.terminalRunIds, s)
  | _, .compactRun runId olderThan dryRun, t, s =>
    settle s (s.compactRun sha256Digest runId olderThan dryRun t)
  | _, .insertRun run, _, s => settle s (s.insertRun run)
  | _, .moveRun runId target, _, s => settle s (s.moveRun runId target)

end Transactions

/-! ## Operations -/

section Operations

open Prog

abbrev EventProg (α : Type) := Prog EventOp Exn α

/-- The attempts that are left to `publish`. -/
def appendAttempts (draft : Draft) : Nat → EventProg String
  | 0 => raise (conflict "concurrent event append retry limit exceeded")
  | attempts + 1 =>
    (do
      perform (.appendEvent draft)
      pure draft.eventId : EventProg String).tryCatch fun e =>
        if isSqlAlchemyError e then appendAttempts draft attempts else raise e

/-- `SqlStore.publish` -/
def publish (runId eventType : String) (taskId : Option String)
    (payload : List (String × Json)) : EventProg String := do
  let eventId ← perform .newEventId
  let createdAt ← perform .now
  appendAttempts { eventId, runId, eventType, taskId, payload, createdAt } 8

/-- A point in time as a caller gives it. -/
structure Cutoff where
  time : Timestamp
  timezoneAware : Bool

/-- The loop of `compact_terminal_events` over the terminal runs. -/
def compactRuns (olderThan : Timestamp) (dryRun : Bool) :
    List String → Nat → List String → EventProg (Nat × List String)
  | [], eligible, compactedRuns => pure (eligible, compactedRuns)
  | runId :: runIds, eligible, compactedRuns => do
    let candidates ← perform (.compactRun runId olderThan dryRun)
    if candidates = 0 then compactRuns olderThan dryRun runIds eligible compactedRuns
    else compactRuns olderThan dryRun runIds (eligible + candidates) (compactedRuns ++ [runId])

/-- `SqlStore.compact_terminal_events` -/
def compactTerminalEvents (olderThan : Cutoff) (dryRun : Bool) :
    EventProg (Nat × List String) :=
  if olderThan.timezoneAware = false then
    raise (.other "event retention cutoff must be timezone-aware")
  else do
    let runIds ← perform .terminalRunIds
    compactRuns olderThan.time dryRun runIds 0 []

/-- One call that writes events, or one that writes a run beside them. -/
inductive EventCall where
  | publish (runId eventType : String) (taskId : Option String) (payload : List (String × Json))
  | compact (olderThan : Cutoff) (dryRun : Bool)
  | insertRun (run : RunRecord)
  | moveRun (runId : String) (target : RunState)

def EventCall.program : EventCall → EventProg Unit
  | .publish runId eventType taskId payload => do
    let _ ← Events.publish runId eventType taskId payload
  | .compact olderThan dryRun => do
    let _ ← compactTerminalEvents olderThan dryRun
  | .insertRun run => perform (.insertRun run)
  | .moveRun runId target => perform (.moveRun runId target)

end Operations

/-! ## Reports -/

section Reports

/-- `SqlStore.stream` -/
def stream (rows : List EventRow) (runId : String) : List EventRow :=
  (rows.filter fun row => row.runId = runId).insertionSort fun a b => a.sequence ≤ b.sequence

variable (str : Json → String)

/-- The first 300 characters of a text, with single blanks between its words. -/
def bounded (value : Json) : String :=
  let words := ((str value).toList.splitOnP isSpace).filter fun word => ¬ word.isEmpty
  String.ofList ((" ".intercalate (words.map String.ofList)).toList.take 300)

/-- `dict.get` -/
def EventRow.field (row : EventRow) (name : String) : Json := (row.payload.lookup name).getD .null

/-- The task an entry names -/
def EventRow.taskOrRun (row : EventRow) : String :=
  bounded str (.str ((row.taskId.filter fun taskId => taskId ≠ "").getD "run"))

/-- `_reportable_audit_entry`, given the texts of values -/
def reportableAuditEntry (row : EventRow) : Option String :=
  let text (name : String) : String := bounded str (row.field name)
  if row.eventType ∈ ["task.failed_retryable", "task.failed_terminal"] then
    some (row.eventType ++ ": " ++ row.taskOrRun str ++ ", attempt " ++ text "attempt" ++
      ", category " ++ text "category" ++ ": " ++ text "message")
  else if row.eventType ∈ ["run.paused", "run.cancelled", "run.failed"] then
    some (row.eventType ++ ": " ++ text "reason")
  else if row.eventType = "manual_review.required" then
    some ("manual_review.required: " ++ row.taskOrRun str ++ ", category " ++ text "category" ++
      ": " ++ text "message")
  else if row.eventType = "recovery.completed" then
    some ("recovery.completed: resumed from checkpoint " ++ text "checkpoint_id" ++
      "; repository drifted=" ++ text "repository_drifted")
  else if row.eventType = "checkpoint.recovered" then
    some ("checkpoint.recovered: selected sequence " ++ text "selected_sequence" ++
      " after rejecting " ++ text "rejected_sequences")
  else if row.eventType = "repository.drift_detected" then
    some ("repository.drift_detected: policy " ++ text "policy")
  else none

/-- The entries of a report on a run. -/
def auditHistory (rows : List EventRow) (runId : String) : List String :=
  (stream rows runId).filterMap (reportableAuditEntry str)

end Reports

end DurableAgent.Events
