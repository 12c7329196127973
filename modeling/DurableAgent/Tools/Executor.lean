import DurableAgent.Tools.Journal
import Mathlib.Data.List.Nodup

/-!
# The tool executor

`ToolExecutor.execute` and `ToolExecutor.reconcile_uncertain` as programs over the journal. The
schema validator, the redactor and the digest are given from outside, and so are the tools: their
bodies and their reconciliation may do and answer anything.
-/

namespace DurableAgent.Tools

open Library
open Library.Prog hiding call

/-- Effective permissions for one application/owner boundary. -/
structure ToolPolicy where
  allowedPermissions : List String := ["repository.read", "artifact.write"]
  approvedHighImpactTools : List String := []
  maximumOutputBytes : Nat := 1000000
  maximumOutputBytes_bound : 1024 ≤ maximumOutputBytes := by decide

theorem ToolPolicy.default_bound : 1024 ≤ 1000000 := by decide

/-- Tools by their declared stable names. -/
structure ToolRegistry where
  tools : List ToolDefinition
  distinct : (tools.map ToolDefinition.name).Nodup := by decide

/-- `ToolRegistry.get` -/
def ToolRegistry.get (registry : ToolRegistry) (name : String) : Except Exn ToolDefinition :=
  match registry.tools.find? fun definition => definition.name = name with
  | some definition => .ok definition
  | none => .error (.of .notFound s!"unknown tool: {name}")

structure ToolExecutor where
  registry : ToolRegistry
  policy : ToolPolicy
  /-- What is wrong with a schema itself. -/
  checkSchema : Json → Option String
  /-- Why a value does not fit a schema. -/
  validate : Json → Json → Option String
  redact : Json → Json
  sha256Digest : String → String

/-- A list of names as it is printed in a message. -/
def pyList (names : List String) : String :=
  "[" ++ ", ".intercalate (names.map fun name => "'" ++ name ++ "'") ++ "]"

/-- The first bytes of a text; a character that is cut through becomes a replacement character. -/
def preview : Nat → List Char → List Char
  | _, [] => []
  | 0, _ => []
  | budget, c :: rest =>
    if c.utf8Size ≤ budget then c :: preview (budget - c.utf8Size) rest else ['\uFFFD']

example : preview 3 ['a', 'é', 'b'] = ['a', 'é'] ∧ preview 2 ['a', 'é', 'b'] = ['a', '\uFFFD'] := by
  decide

namespace ToolExecutor

variable (E : ToolExecutor)

/-- `_validate_schema` -/
def validateSchema (schema value : Json) (kind : String) : Except Exn Unit :=
  match E.checkSchema schema with
  | some message => .error (.of .toolExecution s!"invalid tool {kind} schema: {message}")
  | none =>
    match E.validate schema value with
    | some message => .error (.of .toolExecution s!"tool {kind} validation failed: {message}")
    | none => .ok ()

/-- What is checked of a call before the journal is asked: permissions, approval, arguments. -/
def authorize (definition : ToolDefinition) (toolName : String) (arguments : Json) :
    Except Exn Unit :=
  let missing := definition.requiredPermissions.filter fun permission =>
    permission ∉ E.policy.allowedPermissions
  if missing ≠ [] then
    .error (.of .securityPolicy
      s!"tool {toolName} requires denied permissions: {pyList (missing.insertionSort (· ≤ ·))}")
  else if definition.sideEffectClass = .NON_IDEMPOTENT ∧
      toolName ∉ E.policy.approvedHighImpactTools then
    .error (.of .securityPolicy s!"high-impact tool requires explicit approval: {toolName}")
  else E.validateSchema definition.inputSchema arguments "input"

def argumentsHash (arguments : Json) : String := E.sha256Digest (canonicalJson arguments)

/-- `_bound_output`: the fields of the output, and whether it was truncated. -/
def boundOutput (value : Json) : List (String × Json) × Bool :=
  let fields := match value with
    | .obj fields => fields
    | value => [("value", value)]
  let serialized := canonicalJson (.obj fields)
  if serialized.utf8ByteSize ≤ E.policy.maximumOutputBytes then (fields, false)
  else
    ([("truncated", .bool true), ("original_bytes", .int serialized.utf8ByteSize),
      ("preview", .str (String.ofList (preview E.policy.maximumOutputBytes serialized.toList)))],
      true)

/-- The exit code of an output that has an integer one. -/
def exitCode (output : List (String × Json)) : Option Int :=
  match output.lookup "exit_code" with
  | some (.int n) => some n
  | some (.bool b) => some (if b then 1 else 0)
  | _ => none

/-- Domain errors of a run pass through; any other exception is wrapped. -/
def toolFailure (toolName : String) : Exn → Exn
  | .agent e => .agent e
  | .other text => .of .toolExecution s!"tool {toolName} failed: {text}"

/-- The body of the tool with the checks of its output. -/
def runBody (definition : ToolDefinition) (toolName : String) (arguments : Json)
    (call : ToolCall) : Prog JournalOp Exn (List (String × Json) × Bool) := do
  let rawOutput ← perform (.runTool toolName arguments call)
  Prog.done (E.validateSchema definition.outputSchema (.obj rawOutput) "output")
  pure (E.boundOutput (E.redact (.obj rawOutput)))

/-- What `execute` does once it holds a call that it may run. -/
def runCall (definition : ToolDefinition) (toolName : String) (arguments : Json)
    (call : ToolCall) : Prog JournalOp Exn ToolResult := do
  perform (.updateStatus call.toolCallId .RUNNING)
  let started ← perform .now
  let (output, truncated) ← (E.runBody definition toolName arguments call).tryCatch fun exc => do
    perform (.updateStatus call.toolCallId .FAILED)
    raise (toolFailure toolName exc)
  let toolResultId ← perform (.newId "toolresult")
  let finished ← perform .now
  let createdAt ← perform .now
  let result : ToolResult :=
    { toolResultId, toolCallId := call.toolCallId, success := true, output := .obj output
      outputHash := E.sha256Digest (canonicalJson (.obj output))
      exitCode := exitCode output, truncated, duration := max (finished - started) 0, createdAt
      duration_nonneg := le_max_right (finished - started) 0 }
  perform (.recordResult result)
  pure result

/-- A key that is not in the journal: its intent is recorded and run. -/
def runNew (definition : ToolDefinition) (runId taskId toolName : String) (arguments : Json)
    (idempotencyKey : String) : Prog JournalOp Exn ToolResult := do
  let toolCallId ← perform (.newId "toolcall")
  let createdAt ← perform .now
  let call : ToolCall :=
    { toolCallId, runId, taskId, toolName, arguments, argumentsHash := E.argumentsHash arguments
      idempotencyKey, sideEffectClass := definition.sideEffectClass, createdAt
      attempt_pos := counter_start }
  perform (.recordIntent call)
  E.runCall definition toolName arguments call

/-- A key that is in the journal: its result, another attempt, or a refusal. -/
def runExisting (definition : ToolDefinition) (toolName : String) (arguments : Json)
    (call : ToolCall) (result : Option ToolResult) : Prog JournalOp Exn ToolResult :=
  if call.toolName ≠ toolName ∨ call.argumentsHash ≠ E.argumentsHash arguments then
    raise (.of .securityPolicy "tool idempotency key was reused for different input")
  else
    match result with
    | some result => pure result
    | none =>
      if call.status = .FAILED ∧ definition.retrySafe then do
        perform (.prepareRetry call.toolCallId)
        E.runCall definition toolName arguments call
      else
        raise (.of .manualReviewRequired
          s!"tool call {call.toolCallId} has an uncertain result; reconcile before retry")

/-- What `execute` does with what the journal holds for the key. -/
def runFound (definition : ToolDefinition) (runId taskId toolName : String) (arguments : Json)
    (idempotencyKey : String) :
    Option (ToolCall × Option ToolResult) → Prog JournalOp Exn ToolResult
  | some (existing, result) => E.runExisting definition toolName arguments existing result
  | none => E.runNew definition runId taskId toolName arguments idempotencyKey

/-- `ToolExecutor.execute` -/
def execute (runId taskId toolName : String) (arguments : Json) (idempotencyKey : String) :
    Prog JournalOp Exn ToolResult := do
  let definition ← Prog.done (E.registry.get toolName)
  Prog.done (E.authorize definition toolName arguments)
  let found ← perform (.getByIdempotencyKey idempotencyKey)
  E.runFound definition runId taskId toolName arguments idempotencyKey found

/-- One uncertain call: its reconciled result, or none where it may be retried. -/
def reconcileCall (call : ToolCall) : Prog JournalOp Exn (Option ToolResult) := do
  let definition ← Prog.done (E.registry.get call.toolName)
  match ← perform (.reconcileTool call) with
  | some result => do
    perform (.recordResult result)
    pure (some result)
  | none =>
    if call.sideEffectClass = .NON_IDEMPOTENT then do
      perform (.updateStatus call.toolCallId .NEEDS_REVIEW)
      raise (.of .manualReviewRequired
        s!"non-idempotent call {call.toolCallId} cannot be reconciled")
    else if definition.retrySafe = false then do
      perform (.updateStatus call.toolCallId .NEEDS_REVIEW)
      raise (.of .manualReviewRequired
        s!"non-retry-safe call {call.toolCallId} cannot be reconciled")
    else do
      perform (.updateStatus call.toolCallId .FAILED)
      pure none

/-- `ToolExecutor.reconcile_uncertain` -/
def reconcileUncertain (runId : String) : Prog JournalOp Exn (List ToolResult) := do
  let calls ← perform (.uncertainCalls runId)
  let reconciled ← calls.mapM' E.reconcileCall
  pure (reconciled.filterMap id)

end ToolExecutor

/-- One call of the executor, with any arguments. -/
inductive ToolRequest where
  | execute (runId taskId toolName : String) (arguments : Json) (idempotencyKey : String)
  | reconcileUncertain (runId : String)

def ToolRequest.program (E : ToolExecutor) : ToolRequest → Prog JournalOp Exn Unit
  | .execute runId taskId toolName arguments idempotencyKey => do
    let _ ← E.execute runId taskId toolName arguments idempotencyKey
  | .reconcileUncertain runId => do let _ ← E.reconcileUncertain runId

end DurableAgent.Tools
