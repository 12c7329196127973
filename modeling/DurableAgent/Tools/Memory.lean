import DurableAgent.Library.Dict
import DurableAgent.Tools.Executor

/-!
# The in-memory journal

`InMemoryToolJournal`, which the tests use in place of the SQL store. It keeps three dictionaries,
and it never writes the times of a call.
-/

namespace DurableAgent.Tools

open Library

/-- `InMemoryToolJournal` -/
structure InMemoryToolJournal where
  calls : Dict String ToolCall
  results : Dict String ToolResult
  keys : Dict String String

/-- One run of a tool body. -/
structure Execution where
  toolName : String
  arguments : Json
  toolCallId : String

/-- The journal and the runs of tool bodies, newest first. -/
structure MemoryWorld where
  journal : InMemoryToolJournal
  executions : List Execution

/-- The statuses of a call that nobody knows the outcome of. -/
def Unsettled (status : ToolCallStatus) : Prop :=
  status = .INTENT_RECORDED ∨ status = .RUNNING ∨ status = .UNCERTAIN

instance (status : ToolCallStatus) : Decidable (Unsettled status) := by
  unfold Unsettled
  infer_instance

namespace InMemoryToolJournal

def empty : InMemoryToolJournal := ⟨.empty, .empty, .empty⟩

/-- The exception of a dictionary that lacks the key. -/
def keyError (key : String) : Exn := .other s!"'{key}'"

/-- `InMemoryToolJournal.get_by_idempotency_key` -/
def getByIdempotencyKey (key : String) (s : InMemoryToolJournal) :
    Except Exn (Option (ToolCall × Option ToolResult)) :=
  match s.keys.get key with
  | none => .ok none
  | some callId =>
    match s.calls.get callId with
    | none => .error (keyError callId)
    | some call => .ok (some (call, s.results.get callId))

/-- `InMemoryToolJournal.record_intent` -/
def recordIntent (call : ToolCall) (s : InMemoryToolJournal) : Except Exn InMemoryToolJournal :=
  if (s.keys.get call.idempotencyKey).isSome then
    .error (.other "duplicate tool idempotency key")
  else
    .ok { s with
      calls := s.calls.set call.toolCallId call
      keys := s.keys.set call.idempotencyKey call.toolCallId }

/-- `InMemoryToolJournal.update_status` -/
def updateStatus (callId : String) (status : ToolCallStatus) (s : InMemoryToolJournal) :
    Except Exn InMemoryToolJournal :=
  match s.calls.get callId with
  | none => .error (keyError callId)
  | some call => .ok { s with calls := s.calls.set callId { call with status := status } }

/-- `InMemoryToolJournal.prepare_retry` -/
def prepareRetry (callId : String) (s : InMemoryToolJournal) : Except Exn InMemoryToolJournal :=
  match s.calls.get callId with
  | none => .error (keyError callId)
  | some call =>
    if call.status ≠ .FAILED ∨ (s.results.get callId).isSome then
      .error (.other "only failed tool calls without results can be retried")
    else .ok { s with calls := s.calls.set callId (Journal.reopened call) }

/-- `InMemoryToolJournal.record_result`; the result stays also where no call has its id. -/
def recordResult (result : ToolResult) (s : InMemoryToolJournal) :
    Except Exn Unit × InMemoryToolJournal :=
  let stored := { s with results := s.results.set result.toolCallId result }
  match stored.updateStatus result.toolCallId
      (if result.success then .SUCCEEDED else .FAILED) with
  | .ok updated => (.ok (), updated)
  | .error e => (.error e, stored)

/-- `InMemoryToolJournal.uncertain_calls`, in the order of the intents -/
def uncertainCalls (runId : String) (s : InMemoryToolJournal) : List ToolCall :=
  s.calls.values.filter fun call => call.runId = runId ∧ Unsettled call.status

end InMemoryToolJournal

/-- The effect of each call on the in-memory journal. -/
def handleInMemory : Handler JournalOp Exn Supply MemoryWorld
  | _, .now, t, m => (.ok t.now, m)
  | _, .newId kind, t, m => (.ok s!"{kind}-{t.freshId}", m)
  | _, .getByIdempotencyKey key, _, m => (m.journal.getByIdempotencyKey key, m)
  | _, .recordIntent call, _, m =>
    match m.journal.recordIntent call with
    | .ok journal => (.ok (), { m with journal := journal })
    | .error e => (.error e, m)
  | _, .updateStatus callId status, _, m =>
    match m.journal.updateStatus callId status with
    | .ok journal => (.ok (), { m with journal := journal })
    | .error e => (.error e, m)
  | _, .prepareRetry callId, _, m =>
    match m.journal.prepareRetry callId with
    | .ok journal => (.ok (), { m with journal := journal })
    | .error e => (.error e, m)
  | _, .recordResult result, _, m =>
    ((m.journal.recordResult result).1, { m with journal := (m.journal.recordResult result).2 })
  | _, .uncertainCalls runId, _, m => (.ok (m.journal.uncertainCalls runId), m)
  | _, .runTool toolName arguments call, t, m =>
    (t.outcome,
      { m with executions := ⟨toolName, arguments, call.toolCallId⟩ :: m.executions })
  | _, .reconcileTool _, t, m => (t.reconciled, m)

/-- The run of a tool body that an entry records. -/
def Entry.execution : Entry → Option Execution
  | .ran toolName arguments call => some ⟨toolName, arguments, call.toolCallId⟩
  | _ => none

/-- A call without the times that only the SQL journal writes. -/
def untimed (call : ToolCall) : ToolCall := { call with startedAt := none, finishedAt := none }

namespace Journal

variable {s : Journal} {callId : String} {f : ToolCall → ToolCall}

def callOf (callId : String) (s : Journal) : Option ToolCall :=
  s.calls.find? fun row => row.toolCallId = callId

def keyOf (key : String) (s : Journal) : Option ToolCall :=
  s.calls.find? fun row => row.idempotencyKey = key

theorem callOf_eq_some {row : ToolCall} (hids : (s.calls.map ToolCall.toolCallId).Nodup) :
    s.callOf callId = some row ↔ row ∈ s.calls ∧ row.toolCallId = callId := by
  constructor
  · intro h
    exact ⟨List.mem_of_find?_eq_some h, by simpa using List.find?_some h⟩
  · rintro ⟨hrow, hid⟩
    cases h : s.callOf callId with
    | none => simpa [hid] using List.find?_eq_none.mp h row hrow
    | some found =>
      have hfound : found.toolCallId = callId := by simpa using List.find?_some h
      have hsame := List.inj_on_of_nodup_map hids (List.mem_of_find?_eq_some h) hrow
        (hfound.trans hid.symm)
      rw [hsame]

theorem ids_modify (hf : ∀ row, Identity.of (f row) = .of row) :
    (s.modify callId f).calls.map ToolCall.toolCallId = s.calls.map ToolCall.toolCallId := by
  have hidentities := congrArg (List.map Identity.toolCallId)
    (@identities_modify s callId f hf)
  rw [identities, identities, List.map_map, List.map_map] at hidentities
  exact hidentities

theorem callOf_modify (hf : ∀ row, Identity.of (f row) = .of row) (j : String) :
    (s.modify callId f).callOf j = if j = callId then (s.callOf j).map f else s.callOf j := by
  have hcomp : ((fun row : ToolCall => decide (row.toolCallId = j)) ∘
      fun row : ToolCall => if row.toolCallId = callId then f row else row) =
      fun row => decide (row.toolCallId = j) := by
    funext row
    have hid : (f row).toolCallId = row.toolCallId := congrArg Identity.toolCallId (hf row)
    by_cases hrow : row.toolCallId = callId
    · simp [hrow, hid]
    · simp [hrow]
  unfold callOf modify
  rw [List.find?_map, hcomp]
  cases hfind : s.calls.find? fun row => row.toolCallId = j with
  | none => simp
  | some row =>
    have hid : row.toolCallId = j := by simpa using List.find?_some hfind
    by_cases hj : j = callId
    · simp [hid, hj]
    · simp [hid, hj]

theorem keyOf_modify (hf : ∀ row, Identity.of (f row) = .of row) (key : String) :
    ((s.modify callId f).keyOf key).map ToolCall.toolCallId =
      (s.keyOf key).map ToolCall.toolCallId := by
  have hcomp : ((fun row : ToolCall => decide (row.idempotencyKey = key)) ∘
      fun row : ToolCall => if row.toolCallId = callId then f row else row) =
      fun row => decide (row.idempotencyKey = key) := by
    funext row
    have hkey : (f row).idempotencyKey = row.idempotencyKey :=
      congrArg Identity.idempotencyKey (hf row)
    by_cases hrow : row.toolCallId = callId
    · simp [hrow, hkey]
    · simp [hrow]
  unfold keyOf modify
  rw [List.find?_map, hcomp, Option.map_map]
  apply congrArg (Option.map · _)
  funext row
  have hid : (f row).toolCallId = row.toolCallId := congrArg Identity.toolCallId (hf row)
  by_cases hrow : row.toolCallId = callId
  · simp [hrow, hid]
  · simp [hrow]

end Journal

end DurableAgent.Tools
