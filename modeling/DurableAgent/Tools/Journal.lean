import DurableAgent.Domain.Models
import DurableAgent.Library.Program

/-!
# The tool-call journal

The journal calls of the SQL store, each one transaction, and the two calls into a tool itself.
Beside the tables the world keeps a log of what the guarantees speak of: recorded intents,
reopened calls as they were found, and runs of tool bodies.
-/

namespace DurableAgent.Tools

open Library

/-- The tables `tool_calls` and `tool_results`. -/
structure Journal where
  calls : List ToolCall
  results : List ToolResult

inductive Entry where
  | intent (call : ToolCall)
  | retry (found : ToolCall) (result : Option ToolResult)
  | ran (toolName : String) (arguments : Json) (call : ToolCall)

/-- The journal and its log, newest first. -/
structure World where
  journal : Journal
  log : List Entry

/-- What a call takes from outside: clock, fresh identifier, the order of an unordered listing,
and how a tool behaves. -/
structure Supply where
  now : Timestamp
  freshId : String
  order : List String
  outcome : Except Exn (List (String × Json))
  reconciled : Except Exn (Option ToolResult)

inductive JournalOp : Type → Type where
  | now : JournalOp Timestamp
  | newId (kind : String) : JournalOp String
  | getByIdempotencyKey (key : String) : JournalOp (Option (ToolCall × Option ToolResult))
  | recordIntent (call : ToolCall) : JournalOp Unit
  | updateStatus (callId : String) (status : ToolCallStatus) : JournalOp Unit
  | prepareRetry (callId : String) : JournalOp Unit
  | recordResult (result : ToolResult) : JournalOp Unit
  | uncertainCalls (runId : String) : JournalOp (List ToolCall)
  /-- The body of the named tool, which is given the arguments; `call` is the record that the
  caller runs it for. -/
  | runTool (toolName : String) (arguments : Json) (call : ToolCall) :
      JournalOp (List (String × Json))
  | reconcileTool (call : ToolCall) : JournalOp (Option ToolResult)

namespace Journal

def resultOf (callId : String) (s : Journal) : Option ToolResult :=
  s.results.find? fun result => result.toolCallId = callId

/-- `SqlStore.get_by_idempotency_key` -/
def getByIdempotencyKey (key : String) (s : Journal) : Option (ToolCall × Option ToolResult) :=
  (s.calls.find? fun row => row.idempotencyKey = key).map fun row =>
    (row, s.resultOf row.toolCallId)

/-- `SqlStore.record_intent`; both the identifier and the key are unique. -/
def recordIntent (call : ToolCall) (s : Journal) : Except Exn Journal :=
  if s.calls.any fun row =>
      row.toolCallId = call.toolCallId ∨ row.idempotencyKey = call.idempotencyKey then
    .error (.of .idempotencyConflict "duplicate tool call or idempotency key")
  else .ok { s with calls := call :: s.calls }

/-- A call that enters a status at a time. -/
def withStatus (status : ToolCallStatus) (now : Timestamp) (call : ToolCall) : ToolCall :=
  { call with
    status := status
    startedAt := if status = .RUNNING then some now else call.startedAt
    finishedAt := if status = .SUCCEEDED ∨ status = .FAILED ∨ status = .NEEDS_REVIEW then some now
      else call.finishedAt }

/-- The rows with one call changed. -/
def modify (callId : String) (f : ToolCall → ToolCall) (s : Journal) : Journal :=
  { s with calls := s.calls.map fun row => if row.toolCallId = callId then f row else row }

/-- `SqlStore.update_status` -/
def updateStatus (callId : String) (status : ToolCallStatus) (now : Timestamp) (s : Journal) :
    Except Exn Journal :=
  if s.calls.any fun row => row.toolCallId = callId then
    .ok (s.modify callId (withStatus status now))
  else .error (.of .notFound s!"tool call not found: {callId}")

/-- A call that is open for another attempt. -/
def reopened (call : ToolCall) : ToolCall :=
  { call with
    status := .INTENT_RECORDED, attempt := call.attempt + 1, startedAt := none, finishedAt := none
    attempt_pos := Nat.le_add_left 1 call.attempt }

/-- `SqlStore.prepare_retry`, with the row that it reopens. -/
def prepareRetry (callId : String) (s : Journal) : Except Exn (ToolCall × Journal) :=
  if s.resultOf callId |>.isSome then
    .error (.of .concurrencyConflict "completed tool calls cannot be retried")
  else
    match s.calls.find? fun row => row.toolCallId = callId ∧ row.status = .FAILED with
    | none => .error (.of .concurrencyConflict "tool call is not eligible for retry")
    | some row => .ok (row, s.modify callId reopened)

/-- `SqlStore.record_result`; a result refers to a stored call, and each call has one at most. -/
def recordResult (result : ToolResult) (now : Timestamp) (s : Journal) : Except Exn Journal :=
  if (s.results.any fun row =>
      row.toolResultId = result.toolResultId ∨ row.toolCallId = result.toolCallId) ∨
      ¬ s.calls.any fun row => row.toolCallId = result.toolCallId then
    .error (.of .idempotencyConflict "tool call already has a result")
  else
    .ok ({ s with results := result :: s.results }.modify result.toolCallId
      fun row => { row with
        status := if result.success then .SUCCEEDED else .FAILED, finishedAt := some now })

/-- `SqlStore.uncertain_calls`, in no order of its own -/
def uncertainCalls (runId : String) (order : List String) (s : Journal) : List ToolCall :=
  let rows := s.calls.filter fun row => row.runId = runId ∧
    (row.status = .INTENT_RECORDED ∨ row.status = .RUNNING ∨ row.status = .UNCERTAIN)
  if order.isPerm (rows.map ToolCall.toolCallId) then
    order.filterMap fun callId => rows.find? fun row => row.toolCallId = callId
  else rows

end Journal

/-- The effect of each call. -/
def handle : Handler JournalOp Exn Supply World
  | _, .now, t, w => (.ok t.now, w)
  | _, .newId kind, t, w => (.ok s!"{kind}-{t.freshId}", w)
  | _, .getByIdempotencyKey key, _, w => (.ok (w.journal.getByIdempotencyKey key), w)
  | _, .recordIntent call, _, w =>
    match w.journal.recordIntent call with
    | .ok journal => (.ok (), ⟨journal, .intent call :: w.log⟩)
    | .error e => (.error e, w)
  | _, .updateStatus callId status, t, w =>
    match w.journal.updateStatus callId status t.now with
    | .ok journal => (.ok (), { w with journal := journal })
    | .error e => (.error e, w)
  | _, .prepareRetry callId, _, w =>
    match w.journal.prepareRetry callId with
    | .ok (found, journal) => (.ok (), ⟨journal, .retry found (w.journal.resultOf callId) :: w.log⟩)
    | .error e => (.error e, w)
  | _, .recordResult result, t, w =>
    match w.journal.recordResult result t.now with
    | .ok journal => (.ok (), { w with journal := journal })
    | .error e => (.error e, w)
  | _, .uncertainCalls runId, t, w => (.ok (w.journal.uncertainCalls runId t.order), w)
  | _, .runTool toolName arguments call, t, w =>
    (t.outcome, { w with log := .ran toolName arguments call :: w.log })
  | _, .reconcileTool _, t, w => (t.reconciled, w)

/-- What of a call never changes once it is recorded. -/
structure Identity where
  toolCallId : String
  idempotencyKey : String
  toolName : String
  arguments : Json
  argumentsHash : String

def Identity.of (call : ToolCall) : Identity :=
  ⟨call.toolCallId, call.idempotencyKey, call.toolName, call.arguments, call.argumentsHash⟩

/-- The identity that an entry records. -/
def Entry.recorded : Entry → Option Identity
  | .intent call => some (.of call)
  | _ => none

/-- The intents of a log. -/
def recorded (log : List Entry) : List Identity := log.filterMap Entry.recorded

namespace Journal

variable {s s' : Journal} {callId key : String} {call : ToolCall} {result : ToolResult}

def identities (s : Journal) : List Identity := s.calls.map Identity.of

theorem identities_modify {f : ToolCall → ToolCall} (hf : ∀ row, Identity.of (f row) = .of row) :
    (s.modify callId f).identities = s.identities := by
  rw [identities, modify, List.map_map, identities]
  apply List.map_congr_left
  intro row _
  by_cases hrow : row.toolCallId = callId
  · simp [hrow, hf]
  · simp [hrow]

@[simp] theorem results_modify {f : ToolCall → ToolCall} :
    (s.modify callId f).results = s.results := rfl

/-! ## What one journal call can do -/

theorem recordIntent_eq_ok (h : s.recordIntent call = .ok s') :
    (∀ row ∈ s.calls, row.toolCallId ≠ call.toolCallId ∧
      row.idempotencyKey ≠ call.idempotencyKey) ∧
      s' = { s with calls := call :: s.calls } := by
  unfold recordIntent at h
  split at h
  · cases h
  · next hfresh =>
    refine ⟨fun row hrow => ?_, (Except.ok.inj h).symm⟩
    rw [List.any_eq_true] at hfresh
    constructor
    · intro hid
      exact hfresh ⟨row, hrow, by simp [hid]⟩
    · intro hkey
      exact hfresh ⟨row, hrow, by simp [hkey]⟩

theorem updateStatus_eq_ok {status : ToolCallStatus} {now : Timestamp}
    (h : s.updateStatus callId status now = .ok s') :
    s' = s.modify callId (withStatus status now) := by
  unfold updateStatus at h
  split at h
  · exact (Except.ok.inj h).symm
  · cases h

theorem prepareRetry_eq_ok {found : ToolCall} (h : s.prepareRetry callId = .ok (found, s')) :
    s.resultOf callId = none ∧ found ∈ s.calls ∧ found.toolCallId = callId ∧
      found.status = .FAILED ∧ s' = s.modify callId reopened := by
  unfold prepareRetry at h
  split at h
  · cases h
  · next hresult =>
    split at h
    · cases h
    · next row hrow =>
      obtain ⟨rfl, rfl⟩ := Prod.mk.inj (Except.ok.inj h)
      have hfound := List.find?_some hrow
      rw [decide_eq_true_iff] at hfound
      exact ⟨by simpa using hresult, List.mem_of_find?_eq_some hrow, hfound.1, hfound.2, rfl⟩

theorem recordResult_eq_ok {now : Timestamp} (h : s.recordResult result now = .ok s') :
    (∀ row ∈ s.results, row.toolCallId ≠ result.toolCallId) ∧
      s'.results = result :: s.results ∧ s'.identities = s.identities := by
  unfold recordResult at h
  split at h
  · cases h
  · next hfresh =>
    obtain rfl := Except.ok.inj h
    refine ⟨fun row hrow hid => hfresh (.inl ?_), rfl, identities_modify fun _ => rfl⟩
    exact List.any_eq_true.mpr ⟨row, hrow, by simp [hid]⟩

theorem getByIdempotencyKey_eq_some {found : Option ToolResult}
    (h : s.getByIdempotencyKey key = some (call, found)) :
    call ∈ s.calls ∧ call.idempotencyKey = key ∧ s.resultOf call.toolCallId = found := by
  obtain ⟨row, hrow, heq⟩ := Option.map_eq_some_iff.mp h
  obtain ⟨rfl, rfl⟩ := Prod.mk.inj heq
  exact ⟨List.mem_of_find?_eq_some hrow, by simpa using List.find?_some hrow, rfl⟩

end Journal

end DurableAgent.Tools
