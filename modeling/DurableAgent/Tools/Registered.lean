import DurableAgent.Repository.Models
import DurableAgent.Security.Paths
import DurableAgent.Tools.Executor

/-!
# The registered tools

The ten tools that the application registers, by their definitions and their `reconcile`. Three of
them find out whether the effect of a call took place; the others answer that they do not know.
What tool bodies do is left to the supplies of the executor.
-/

namespace DurableAgent.Tools

open Security

/-! ## Texts of values -/

/-- The UTF-8 encoding of a text. -/
def utf8 (text : String) : List UInt8 := text.toList.flatMap String.utf8EncodeChar

/-- So many hexadecimal digits of a number. -/
def hexDigits : Nat → Nat → List Char
  | 0, _ => []
  | width + 1, n => hexDigits width (n / 16) ++ [Json.hexDigit (n % 16)]

/-- One character in the `repr` of a string in the given quotes; the Unicode tables say which
characters above ASCII are printed. -/
def reprChar (isPrintable : Char → Bool) (quotes c : Char) : List Char :=
  if c = quotes ∨ c = '\\' then ['\\', c]
  else if c = '\n' then ['\\', 'n']
  else if c = '\r' then ['\\', 'r']
  else if c = '\t' then ['\\', 't']
  else if c.toNat < 32 ∨ c.toNat = 127 then '\\' :: 'x' :: hexDigits 2 c.toNat
  else if c.toNat < 127 ∨ isPrintable c then [c]
  else if c.toNat < 256 then '\\' :: 'x' :: hexDigits 2 c.toNat
  else if c.toNat < 65536 then '\\' :: 'u' :: hexDigits 4 c.toNat
  else '\\' :: 'U' :: hexDigits 8 c.toNat

/-- `repr` of a string -/
def reprString (isPrintable : Char → Bool) (text : String) : List Char :=
  let quotes := if '\'' ∈ text.toList ∧ '"' ∉ text.toList then '"' else '\''
  quotes :: text.toList.flatMap (reprChar isPrintable quotes) ++ [quotes]

/-- The texts of the members of a list or dictionary. -/
def spaced : List (List Char) → List Char
  | [] => []
  | [text] => text
  | text :: rest => text ++ ',' :: ' ' :: spaced rest

mutual

/-- `repr` of JSON-compatible data; a dictionary keeps its order. -/
def repr (isPrintable : Char → Bool) : Json → List Char
  | .null => "None".toList
  | .bool b => if b then "True".toList else "False".toList
  | .int n => (toString n).toList
  | .str s => reprString isPrintable s
  | .arr items => '[' :: spaced (reprItems isPrintable items) ++ [']']
  | .obj fields => '{' :: spaced (reprFields isPrintable fields) ++ ['}']

def reprItems (isPrintable : Char → Bool) : List Json → List (List Char)
  | [] => []
  | item :: items => repr isPrintable item :: reprItems isPrintable items

def reprFields (isPrintable : Char → Bool) : List (String × Json) → List (List Char)
  | [] => []
  | (key, value) :: fields =>
    (reprString isPrintable key ++ ':' :: ' ' :: repr isPrintable value) ::
      reprFields isPrintable fields

end

/-- `str` of JSON-compatible data -/
def pyStr (isPrintable : Char → Bool) : Json → String
  | .str s => s
  | value => String.ofList (repr isPrintable value)

example : pyStr (fun _ => true) (.obj [("a", .arr [.int (-3), .null]), ("b", .str "it's\n")]) =
    "\x7b'a': [-3, None], 'b': \"it's\\n\"\x7d" := by decide

/-! ## The definitions -/

/-- The schema of an object with these properties and no others. -/
def closedObject (properties : List (String × Json)) (required : List String) : Json :=
  .obj [("type", .str "object"), ("properties", .obj properties),
    ("required", .ofStrings required), ("additionalProperties", .bool false)]

/-- The schema of an object that has at least these properties. -/
def objectWith (required : List String) : Json :=
  .obj [("type", .str "object"), ("required", .ofStrings required)]

def typed (type : String) : Json := .obj [("type", .str type)]

def nonEmpty : Json := .obj [("type", .str "string"), ("minLength", .int 1)]

def upTo (maxLength : Int) : Json :=
  .obj [("type", .str "string"), ("minLength", .int 1), ("maxLength", .int maxLength)]

def limited (maximum : Int) : Json :=
  .obj [("type", .str "integer"), ("minimum", .int 1), ("maximum", .int maximum)]

def digest : Json :=
  .obj [("type", .str "string"), ("pattern", .str "^[0-9a-f]\x7b64\x7d$")]

def arrayOf (type : String) : Json := .obj [("type", .str "array"), ("items", typed type)]

def argv : Json :=
  .obj [("type", .str "array"), ("items", typed "string"), ("minItems", .int 1)]

/-- The tools of the application's registry. -/
inductive Tool where
  | repositoryFileReader | documentRetriever | controlledFileWriter | patchApplication
  | repositoryIndex | repositorySearch | researchSearch | shellCommandRunner | testRunner
  | artifactRecorder
  deriving DecidableEq, Repr

namespace Tool

/-- The tools in the order they are registered in. -/
def all : List Tool :=
  [.repositoryFileReader, .documentRetriever, .controlledFileWriter, .patchApplication,
    .repositoryIndex, .repositorySearch, .researchSearch, .shellCommandRunner, .testRunner,
    .artifactRecorder]

/-- The `definition` of each tool -/
def definition : Tool → ToolDefinition
  | .repositoryFileReader =>
    { name := "repository.read"
      inputSchema := closedObject [("path", nonEmpty)] ["path"]
      outputSchema := objectWith ["path", "content", "content_hash"]
      requiredPermissions := ["repository.read"], sideEffectClass := .NONE, retrySafe := true }
  | .documentRetriever =>
    { name := "document.retrieve"
      inputSchema := closedObject [("path", nonEmpty)] ["path"]
      outputSchema := objectWith ["path", "content", "content_hash", "untrusted"]
      requiredPermissions := ["repository.read"], sideEffectClass := .NONE, retrySafe := true }
  | .controlledFileWriter =>
    { name := "repository.write"
      inputSchema := closedObject
        [("path", nonEmpty), ("content", typed "string"),
          ("expected_hash", .obj [("type", .ofStrings ["string", "null"])])]
        ["path", "content", "expected_hash"]
      outputSchema := objectWith ["path", "content_hash", "bytes"]
      requiredPermissions := ["repository.write"], sideEffectClass := .IDEMPOTENT
      retrySafe := true }
  | .patchApplication =>
    { name := "repository.patch"
      inputSchema := closedObject
        [("path", nonEmpty), ("old", nonEmpty), ("new", typed "string"),
          ("expected_hash", digest), ("expected_result_hash", digest)]
        ["path", "old", "new", "expected_hash", "expected_result_hash"]
      outputSchema := objectWith ["path", "content_hash", "bytes", "replacements"]
      requiredPermissions := ["repository.patch"], sideEffectClass := .IDEMPOTENT
      retrySafe := true }
  | .repositoryIndex =>
    { name := "repository.index"
      inputSchema := closedObject
        [("snapshot_id", upTo 256),
          ("previous_snapshot_id", .obj [("type", .ofStrings ["string", "null"]),
            ("minLength", .int 1), ("maxLength", .int 256)])]
        ["snapshot_id"]
      outputSchema := closedObject
        [("snapshot_id", typed "string"), ("manifest_hash", typed "string"),
          ("file_count", typed "integer"), ("total_bytes", typed "integer"),
          ("warnings", arrayOf "string")]
        ["snapshot_id", "manifest_hash", "file_count", "total_bytes", "warnings"]
      requiredPermissions := ["repository.read"], sideEffectClass := .IDEMPOTENT
      retrySafe := true }
  | .repositorySearch =>
    { name := "repository.search"
      inputSchema := closedObject
        [("snapshot_id", upTo 256), ("query", upTo 10000), ("limit", limited 100)]
        ["snapshot_id", "query"]
      outputSchema := closedObject
        [("snapshot_id", typed "string"), ("manifest_hash", typed "string"),
          ("items", arrayOf "object")]
        ["snapshot_id", "manifest_hash", "items"]
      requiredPermissions := ["repository.read"], sideEffectClass := .NONE, retrySafe := true }
  | .researchSearch =>
    { name := "research.search"
      inputSchema := closedObject [("query", upTo 10000), ("limit", limited 50)] ["query"]
      outputSchema := closedObject
        [("items", arrayOf "object"), ("untrusted", .obj [("const", .bool true)])]
        ["items", "untrusted"]
      requiredPermissions := ["network.research"], sideEffectClass := .NONE, retrySafe := true }
  | .shellCommandRunner =>
    { name := "shell.run"
      inputSchema := closedObject [("argv", argv), ("cwd", typed "string")] ["argv"]
      outputSchema := objectWith ["argv", "exit_code", "stdout", "stderr", "truncated"]
      requiredPermissions := ["process.execute"], sideEffectClass := .REVERSIBLE
      retrySafe := false }
  | .testRunner =>
    { name := "test.run"
      inputSchema := closedObject [("argv", argv), ("cwd", typed "string")] ["argv"]
      outputSchema := objectWith ["argv", "exit_code", "stdout", "stderr", "truncated"]
      requiredPermissions := ["process.execute"], sideEffectClass := .REVERSIBLE
      retrySafe := false }
  | .artifactRecorder =>
    { name := "artifact.record"
      inputSchema := closedObject
        [("artifact_id", nonEmpty), ("content", typed "string"), ("media_type", nonEmpty)]
        ["artifact_id", "content", "media_type"]
      outputSchema := objectWith ["artifact_id", "content_hash"]
      requiredPermissions := ["artifact.write"], sideEffectClass := .IDEMPOTENT
      retrySafe := true }

theorem names_distinct : ((all.map definition).map ToolDefinition.name).Nodup := by decide

/-- The tool of this name. -/
def named (name : String) : Option Tool := all.find? fun tool => tool.definition.name = name

end Tool

/-- The registry of the application. -/
def toolRegistry : ToolRegistry := ⟨Tool.all.map Tool.definition, Tool.names_distinct⟩

/-! ## Reconciliation -/

/-- The settings that executor and tools work under; the digest is of bytes. -/
structure Toolkit where
  policy : ToolPolicy
  checkSchema : Json → Option String
  validate : Json → Json → Option String
  redact : Json → Json
  sha256 : List UInt8 → String
  isPrintable : Char → Bool
  repositoryRoot : PurePath
  /-- The root that the index tool has resolved when it was built. -/
  indexRoot : PurePath

/-- What reconciliation looks at: the files, and the stored indexes by their snapshot. -/
structure Workspace where
  files : FileSystem
  indexes : String → Option RepositoryIndex

namespace Toolkit

variable (T : Toolkit)

/-- `sha256_digest` of a text -/
def sha256Digest (text : String) : String := T.sha256 (utf8 text)

def executor : ToolExecutor :=
  { registry := toolRegistry, policy := T.policy, checkSchema := T.checkSchema
    validate := T.validate, redact := T.redact, sha256Digest := T.sha256Digest }

/-- An argument that has to be there. -/
def argument (call : ToolCall) (key : String) : Except Exn Json :=
  match call.arguments with
  | .obj fields =>
    match fields.lookup key with
    | some value => .ok value
    | none => .error (.other s!"'{key}'")
  | _ => .error (.other s!"'{key}'")

/-- `_result` of the tools that write a file -/
def fileResult (ws : Workspace) (path : PurePath) (content : List UInt8) :
    Except Exn (List (String × Json)) := do
  let root ← (ws.files.resolveAny T.repositoryRoot).mapError OSFailure.exn
  match path.relativeTo root with
  | none => .error (.other s!"'{path.asPosix}' is not in the subpath of '{root.asPosix}'")
  | some relative =>
    .ok [("path", .str relative.asPosix), ("content_hash", .str (T.sha256 content)),
      ("bytes", .int content.length)]

/-- The result of a call whose file is found as the call leaves it. -/
def reconciledFile (now : Timestamp) (call : ToolCall) (output : List (String × Json)) :
    ToolResult :=
  { toolResultId := s!"reconciled-{call.toolCallId}", toolCallId := call.toolCallId
    success := true, output := .obj output
    outputHash := T.sha256Digest (pyStr T.isPrintable (.obj output))
    duration := 0, createdAt := now }

/-- `ControlledFileWriterTool.reconcile` -/
def reconcileWrite (ws : Workspace) (now : Timestamp) (call : ToolCall) :
    Except Exn (Option ToolResult) := do
  let target ← argument call "path"
  let path ← resolveWithinRoot ws.files T.repositoryRoot (pyStr T.isPrintable target) false
  let isThere ← (ws.files.isThere path).mapError OSFailure.exn
  if isThere then
    let content ← argument call "content"
    let found ← openReadonlyNoFollow ws.files path
    if found = utf8 (pyStr T.isPrintable content) then
      let output ← T.fileResult ws path found
      pure (some (T.reconciledFile now call output))
    else pure none
  else pure none

/-- `PatchApplicationTool.reconcile` -/
def reconcilePatch (ws : Workspace) (now : Timestamp) (call : ToolCall) :
    Except Exn (Option ToolResult) := do
  let target ← argument call "path"
  let path ← resolveWithinRoot ws.files T.repositoryRoot (pyStr T.isPrintable target) true
  let raw ← openReadonlyNoFollow ws.files path
  let expected ← argument call "expected_result_hash"
  match expected with
  | .str hash =>
    if T.sha256 raw = hash then
      let output ← T.fileResult ws path raw
      pure (some (T.reconciledFile now call (output ++ [("replacements", .int 0)])))
    else pure none
  | _ => pure none

/-- `RepositoryIndexTool._output` -/
def indexOutput (index : RepositoryIndex) : List (String × Json) :=
  [("snapshot_id", .str index.snapshot.snapshotId),
    ("manifest_hash", .str index.snapshot.manifestHash),
    ("file_count", .int index.snapshot.fileCount),
    ("total_bytes", .int index.snapshot.totalBytes), ("warnings", .ofStrings index.warnings)]

/-- `RepositoryIndexTool.reconcile` -/
def reconcileIndex (ws : Workspace) (now : Timestamp) (freshId : String) (call : ToolCall) :
    Except Exn (Option ToolResult) :=
  match argument call "snapshot_id" with
  | .ok (.str snapshotId) =>
    match ws.indexes snapshotId with
    | none => .ok none
    | some index => do
      let root ← (ws.files.resolveAny (.ofString index.snapshot.root)).mapError OSFailure.exn
      if root ≠ T.indexRoot then
        .error (.of .securityPolicy "snapshot ID belongs to a different repository root")
      else
        let output := indexOutput index
        pure (some
          { toolResultId := s!"toolresult-{freshId}", toolCallId := call.toolCallId
            success := true, output := .obj output
            outputHash := T.sha256Digest (canonicalJson (.obj output))
            duration := 0, createdAt := now })
  | _ => .ok none

/-- The `reconcile` of each tool -/
def reconcileAs (ws : Workspace) (now : Timestamp) (freshId : String) (call : ToolCall) :
    Tool → Except Exn (Option ToolResult)
  | .controlledFileWriter => T.reconcileWrite ws now call
  | .patchApplication => T.reconcilePatch ws now call
  | .repositoryIndex => T.reconcileIndex ws now freshId call
  | _ => .ok none

/-- The `reconcile` of the tool that the call is to -/
def reconcile (ws : Workspace) (now : Timestamp) (freshId : String) (call : ToolCall) :
    Except Exn (Option ToolResult) :=
  match Tool.named call.toolName with
  | some tool => T.reconcileAs ws now freshId call tool
  | none => .ok none

end Toolkit

end DurableAgent.Tools
