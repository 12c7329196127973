import DurableAgent.Library.Occurrences
import DurableAgent.Security.FileChanges
import DurableAgent.Tools.Registered

/-!
# The tools that write files

`ControlledFileWriterTool.execute` and `PatchApplicationTool.execute` over a file tree, with every
tree that a call goes through on its way: a crash leaves one of them.
-/

namespace DurableAgent.Tools

open Library Security
open Toolkit (argument)

/-- How a call has gone. -/
structure FileExecution where
  /-- The trees that a crash may leave. -/
  left : List FileTree
  tree : FileTree
  answer : Except Exn (List (String × Json))

/-- A call that changes nothing. -/
def FileExecution.still (tree : FileTree) (answer : Except Exn (List (String × Json))) : FileExecution :=
  ⟨[tree], tree, answer⟩

/-- The text is one and the same as the digest. -/
def isDigest (value : Json) (digest : String) : Bool :=
  match value with
  | .str text => text = digest
  | _ => false

def workspace (tree : FileTree) : Workspace := ⟨tree.fileSystem, fun _ => none⟩

structure ControlledFileWriterTool where
  toolkit : Toolkit
  maximumBytes : Nat := 2000000

namespace ControlledFileWriterTool

variable (W : ControlledFileWriterTool)

/-- What `execute` does before it writes: the target, the content, and whether it is to be
written. -/
def check (tree : FileTree) (call : ToolCall) : Except Exn (PurePath × List UInt8 × Bool) := do
  let text ← argument call "content"
  let content := utf8 (pyStr W.toolkit.isPrintable text)
  if content.length > W.maximumBytes then
    .error (.of .toolExecution "write exceeds file size limit")
  else
    let target ← argument call "path"
    let path ← resolveWithinRoot tree.fileSystem W.toolkit.repositoryRoot
      (pyStr W.toolkit.isPrintable target) false
    let expected ← argument call "expected_hash"
    if tree.isThere path then
      let current ← openReadonlyNoFollow tree.fileSystem path
      if isDigest expected (W.toolkit.sha256 current) then .ok (path, content, true)
      else if current = content then .ok (path, content, false)
      else .error (.of .toolExecution "file changed since expected hash was captured")
    else
      match expected with
      | .null => .ok (path, content, true)
      | _ => .error (.of .toolExecution "expected hash supplied for a missing file")

/-- `mkstemp` beside the target, the writing and the atomic replacement. The suffix is what
`mkstemp` has come to. -/
def replaceFile (tree : FileTree) (path : PurePath) (content : List UInt8) (suffix : String) :
    FileExecution :=
  let above := path.parts.dropLast
  let temporary := above ++ [".durable-agent-" ++ suffix]
  if ¬ tree.isDirectory above then
    .still tree (.error (.other "[Errno 20] Not a directory"))
  else if tree.node temporary ≠ none then
    .still tree (.error (.other "[Errno 17] No usable temporary file name found"))
  else
    let written (part : List UInt8) := tree.put temporary (some (.file part))
    let started := tree :: content.inits.map written
    let unlinked := (written content).put temporary none
    if path.parts.any fun name => Char.ofNat 0 ∈ name.toList then
      ⟨started ++ [unlinked], unlinked, .error (.other "embedded null byte")⟩
    else if tree.node path.parts = some .directory then
      ⟨started ++ [unlinked], unlinked, .error (.other "[Errno 21] Is a directory")⟩
    else
      let replaced := (written content).rename temporary path.parts
      ⟨started ++ [replaced], replaced, W.toolkit.fileResult (workspace replaced) path content⟩

/-- `ControlledFileWriterTool.execute` -/
def execute (tree : FileTree) (call : ToolCall) (suffix : String) : FileExecution :=
  match W.check tree call with
  | .error e => .still tree (.error e)
  | .ok (path, content, false) =>
    .still tree (W.toolkit.fileResult (workspace tree) path content)
  | .ok (path, content, true) => W.replaceFile tree path content suffix

end ControlledFileWriterTool

/-- `bytes.decode("utf-8")` -/
def decodeUtf8 (raw : List UInt8) : Option String := String.fromUTF8? raw.toByteArray

structure PatchApplicationTool where
  writer : ControlledFileWriterTool

namespace PatchApplicationTool

variable (P : PatchApplicationTool)

/-- What `execute` does before it writes: an answer, or the text that is to be written. -/
def check (tree : FileTree) (call : ToolCall) :
    Except Exn (List (String × Json) ⊕ String) := do
  let T := P.writer.toolkit
  let target ← argument call "path"
  let path ← resolveWithinRoot tree.fileSystem T.repositoryRoot (pyStr T.isPrintable target) true
  let raw ← openReadonlyNoFollow tree.fileSystem path
  let expected ← argument call "expected_hash"
  if isDigest expected (T.sha256 raw) = false then
    let expectedResult ← argument call "expected_result_hash"
    if isDigest expectedResult (T.sha256 raw) then
      let output ← T.fileResult (workspace tree) path raw
      .ok (.inl (output ++ [("replacements", .int 0)]))
    else .error (.of .toolExecution "file changed since patch input was captured")
  else
    match decodeUtf8 raw with
    | none => .error (.of .toolExecution "patch target is not UTF-8 text")
    | some content =>
      let old ← argument call "old"
      let fragment := (pyStr T.isPrintable old).toList
      let occurrences := count fragment content.toList
      if occurrences ≠ 1 then
        .error (.of .toolExecution
          s!"patch fragment must occur exactly once; found {occurrences}")
      else
        let new ← argument call "new"
        let updated := String.ofList
          (replaceFirst fragment (pyStr T.isPrintable new).toList content.toList)
        let expectedResult ← argument call "expected_result_hash"
        if isDigest expectedResult (T.sha256Digest updated) then .ok (.inr updated)
        else .error (.of .toolExecution "expected result hash does not match computed patch")

/-- The call that is handed to the writer. -/
def writeCall (call : ToolCall) (updated : String) : Except Exn ToolCall := do
  let target ← argument call "path"
  let expected ← argument call "expected_hash"
  .ok { call with
    arguments := .obj [("path", target), ("content", .str updated), ("expected_hash", expected)] }

/-- `PatchApplicationTool.execute` -/
def execute (tree : FileTree) (call : ToolCall) (suffix : String) : FileExecution :=
  match P.check tree call with
  | .error e => .still tree (.error e)
  | .ok (.inl output) => .still tree (.ok output)
  | .ok (.inr updated) =>
    match writeCall call updated with
    | .error e => .still tree (.error e)
    | .ok write =>
      let done := P.writer.execute tree write suffix
      { done with answer := done.answer.map fun output => output ++ [("replacements", .int 1)] }

end PatchApplicationTool

end DurableAgent.Tools
