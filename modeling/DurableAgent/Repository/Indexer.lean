import DurableAgent.Domain.CanonicalJson
import DurableAgent.Domain.Errors
import DurableAgent.Domain.Plan
import DurableAgent.Library.Dict
import DurableAgent.Repository.Models
import Mathlib.Data.List.Sort

/-!
# The repository indexer

`LocalRepositoryIndexer.index` over what the walk of the repository yields. Chunks, summaries and
the repository map are left out, and so are the media type and the language of a file.
-/

namespace DurableAgent.Repository

open Library

/-- A file that the walk yields. -/
structure WalkedFile where
  /-- What the walk warned of before it came to the file. -/
  skipped : List String := []
  relativePath : String
  size : Nat
  raw : List UInt8

/-- What `_walk` yields at present: no path twice. -/
structure Walk where
  files : List WalkedFile
  /-- What the walk warned of after the last file. -/
  skipped : List String := []
  nodup_paths : (files.map WalkedFile.relativePath).Nodup

/-- `printable` of `_decode_text` -/
def printable (byte : UInt8) : Bool := byte = 9 ∨ byte = 10 ∨ byte = 13 ∨ (32 ≤ byte ∧ byte < 127)

/-- `_decode_text` answers a text. A byte order mark, which the decoder drops, is valid itself. -/
def decodesText (raw : List UInt8) : Bool :=
  let start := raw.take 8192
  if 0 ∈ start then false
  else if (ByteArray.mk raw.toArray).validateUTF8 then true
  else ¬ (raw ≠ [] ∧ start.countP printable * 100 < min raw.length 8192 * 85)

theorem default_limits : 0 < 2000000 ∧ 0 < 100000000 := by decide

structure LocalRepositoryIndexer where
  maximumFileBytes : Nat := 2000000
  maximumRepositoryBytes : Nat := 100000000
  /-- `sha256_digest` of bytes -/
  sha256 : List UInt8 → String
  /-- `sha256_digest` of a text -/
  sha256Digest : String → String
  /-- How many indicators `classify_untrusted` finds in a file. -/
  injectionIndicators : String → List UInt8 → Nat
  limits_positive : 0 < maximumFileBytes ∧ 0 < maximumRepositoryBytes := by decide

/-- What the loop over the walk has come to. -/
structure Indexed where
  totalBytes : Nat := 0
  files : List RepositoryFile := []
  warnings : List String := []

/-- The file as it is in the index before, under its path. -/
abbrev PreviousByPath := Dict String RepositoryFile

/-- `previous_by_path` -/
def previousByPath : Option RepositoryIndex → PreviousByPath
  | none => .empty
  | some previous => .ofPairs
      ((previous.snapshot.files.filter fun item => item.isDeleted = false).map fun item =>
        (item.relativePath, item))

/-- How a file has changed. -/
def changeKind (prior : Option RepositoryFile) (contentHash : String) : FileChangeKind :=
  match prior with
  | none => .NEW
  | some prior => if prior.contentHash = contentHash then .UNCHANGED else .MODIFIED

namespace LocalRepositoryIndexer

variable (I : LocalRepositoryIndexer)

/-- The warning of a file in which there are indicators of a prompt injection. -/
def injectionWarnings (file : WalkedFile) : List String :=
  let indicators := I.injectionIndicators file.relativePath file.raw
  if indicators = 0 then []
  else [s!"prompt-injection indicators in untrusted file: {file.relativePath} ({indicators})"]

/-- What the index records of a text file. -/
def repositoryFile (previous : PreviousByPath) (snapshotId : String) (file : WalkedFile) :
    RepositoryFile :=
  let contentHash := I.sha256 file.raw
  { snapshotId, relativePath := file.relativePath, contentHash, sizeBytes := file.size
    changeKind := changeKind (previous.get file.relativePath) contentHash }

/-- One file of the loop over the walk. -/
def indexFile (previous : PreviousByPath) (snapshotId : String) (done : Indexed)
    (file : WalkedFile) : Except Exn Indexed :=
  let warnings := done.warnings ++ file.skipped
  if file.size > I.maximumFileBytes then
    .ok { done with
      warnings :=
        warnings ++ [s!"skipped oversized file: {file.relativePath} ({file.size} bytes)"] }
  else
    let totalBytes := done.totalBytes + file.size
    if totalBytes > I.maximumRepositoryBytes then
      .error (.of .domainValidation
        s!"repository exceeds {I.maximumRepositoryBytes} byte indexing limit")
    else if file.raw.length ≠ file.size then
      .error (.of .securityPolicy s!"file changed while indexing: {file.relativePath}")
    else if decodesText file.raw = false then
      .ok { done with
        totalBytes
        warnings := warnings ++ [s!"skipped unsupported binary file: {file.relativePath}"] }
    else
      .ok
        { totalBytes, files := done.files ++ [I.repositoryFile previous snapshotId file]
          warnings := warnings ++ I.injectionWarnings file }

/-- The loop over the walk. -/
def indexFiles (previous : PreviousByPath) (snapshotId : String) :
    List WalkedFile → Indexed → Except Exn Indexed
  | [], done => .ok done
  | file :: rest, done => do
    let done ← I.indexFile previous snapshotId done file
    indexFiles previous snapshotId rest done

end LocalRepositoryIndexer

/-- What is recorded of a file that is gone. -/
def tombstone (snapshotId : String) (prior : RepositoryFile) : RepositoryFile :=
  { prior with snapshotId := snapshotId, changeKind := .DELETED, isDeleted := true }

/-- The tombstones of the files that were there before and have not been seen. -/
def tombstones (previous : PreviousByPath) (snapshotId : String) (seen : List String) :
    List RepositoryFile :=
  let gone := (previous.entries.insertionSort fun a b => a.1 ≤ b.1).filter fun item =>
    item.1 ∉ seen
  gone.map fun item => tombstone snapshotId item.2

/-- `files.sort` by the relative path -/
def sortByPath (files : List RepositoryFile) : List RepositoryFile :=
  files.insertionSort fun a b => a.relativePath ≤ b.relativePath

/-- What the manifest says of a file. -/
def manifestEntry (item : RepositoryFile) : Json :=
  .obj [("path", .str item.relativePath), ("hash", .str item.contentHash),
    ("deleted", .bool item.isDeleted)]

def manifest (files : List RepositoryFile) : Json := .arr (files.map manifestEntry)

/-- `LocalRepositoryIndexer.index` under the identifier that is given or new. -/
def LocalRepositoryIndexer.index (I : LocalRepositoryIndexer) (root : String) (walk : Walk)
    (previous : Option RepositoryIndex) (snapshotId : String) : Except Exn RepositoryIndex :=
  if snapshotId.toList.all isSpace ∨ 256 < snapshotId.length then
    .error (.of .domainValidation "snapshot ID must contain 1 to 256 characters")
  else do
    let done ← I.indexFiles (previousByPath previous) snapshotId walk.files {}
    let seen := done.files.map RepositoryFile.relativePath
    let files := sortByPath
      (done.files ++ tombstones (previousByPath previous) snapshotId seen)
    .ok
      { snapshot :=
          { snapshotId, root, manifestHash := I.sha256Digest (canonicalJson (manifest files))
            fileCount := files.countP fun item => ¬ item.isDeleted
            totalBytes := done.totalBytes, files }
        warnings := done.warnings ++ walk.skipped }

end DurableAgent.Repository
