import DurableAgent.Repository.Chunking

/-!
# The contents of an index

`LocalRepositoryIndexer.index` with all that it records: files with their types, chunks, summaries,
dependencies and the repository map.
-/

namespace DurableAgent.Repository

open Library

/-- One file in a snapshot, with its type. -/
structure FileRecord extends RepositoryFile where
  fileId : String
  mediaType : String
  language : Option String := none
  indexedAt : Timestamp
  deriving DecidableEq

structure FileSummary where
  summaryId : String
  snapshotId : String
  relativePath : String
  sourceHash : String
  text : String
  symbols : List String := []
  imports : List String := []
  valid : Bool := true
  createdAt : Timestamp
  deriving DecidableEq

/-- A snapshot with the types of its files. -/
structure SnapshotRecord where
  snapshotId : String
  root : String
  manifestHash : String
  fileCount : Nat
  totalBytes : Nat
  files : List FileRecord := []
  createdAt : Timestamp
  deriving DecidableEq

/-- Complete index output. -/
structure IndexRecord where
  snapshot : SnapshotRecord
  chunks : List RepositoryChunk
  summaries : List FileSummary
  repositoryMap : String
  moduleDependencies : Dict String (List String) := .empty
  warnings : List String := []
  deriving DecidableEq

/-- `value or fallback` -/
def textOr (value : Option String) (fallback : String) : String :=
  match value with
  | none => fallback
  | some text => if text = "" then fallback else text

/-! ## Types of files -/

/-- `_LANGUAGES` -/
def languages : List (String × String) :=
  [(".py", "python"), (".pyi", "python"), (".js", "javascript"), (".jsx", "javascript"),
    (".ts", "typescript"), (".tsx", "typescript"), (".go", "go"), (".rs", "rust"),
    (".java", "java"), (".kt", "kotlin"), (".c", "c"), (".h", "c"), (".cpp", "cpp"),
    (".hpp", "cpp"), (".rb", "ruby"), (".sh", "shell"), (".sql", "sql"), (".md", "markdown"),
    (".rst", "rst"), (".txt", "text"), (".json", "json"), (".yaml", "yaml"), (".yml", "yaml"),
    (".toml", "toml"), (".xml", "xml"), (".html", "html"), (".htm", "html"), (".css", "css"),
    (".ini", "ini"), (".cfg", "ini")]

/-- `_CONFIG_NAMES` -/
def configNames : List String :=
  ["Dockerfile", "Makefile", "Procfile", ".gitignore", ".dockerignore", ".env.example"]

/-- `PurePath.name` of a relative path -/
def nameOf (relative : String) : List Char := (relative.toList.splitOn '/').getLastD []

/-- `PurePath.suffix` of a name -/
def suffixOf (name : List Char) : List Char :=
  let behind := (name.reverse.takeWhile (· ≠ '.')).reverse
  if behind ≠ [] ∧ behind.length + 1 < name.length then '.' :: behind else []

/-- The strings of a record, each a field of its own. -/
def FileRecord.strings (record : FileRecord) : List String :=
  [record.fileId, record.snapshotId, record.relativePath, record.contentHash, record.mediaType] ++
    record.language.toList

/-- The checks of the model; a digest always is one. -/
def FileRecord.validated (record : FileRecord) : Except Exn FileRecord :=
  if record.strings.any hasNul then .error (.other "NUL bytes are not allowed") else .ok record

/-! ## Summaries -/

/-- `str.strip` of some characters -/
def stripped (p : Char → Bool) (line : List Char) : List Char :=
  ((line.dropWhile p).reverse.dropWhile p).reverse

/-- The first line that is not blank, without what comments begin and end with. -/
def openingOf (text : String) : List Char :=
  match (splitLines isLineBreak text.toList).find? fun line => stripped isSpace line ≠ [] with
  | some line => stripped (fun c => c ∈ "# */\t".toList) line
  | none => []

/-- `_summarize` -/
def summarize (relative : String) (language : Option String) (text : String)
    (symbols imports : List String) : String :=
  let count := (splitLines isLineBreak text.toList).length
  let opening := openingOf text
  let kind := textOr language "text"
  let defined := ", ".intercalate (symbols.take 20)
  let imported := ", ".intercalate (imports.take 20)
  " ".intercalate <|
    [s!"{relative} is {kind} ({count} lines)."] ++
    (if opening = [] then [] else [s!"Opening content: {String.ofList (opening.take 160)}."]) ++
    (if symbols = [] then [] else [s!"Defines: {defined}."]) ++
    if imports = [] then [] else [s!"Imports: {imported}."]

def FileSummary.strings (summary : FileSummary) : List String :=
  [summary.summaryId, summary.snapshotId, summary.relativePath, summary.sourceHash, summary.text]

/-- The checks of the model. -/
def FileSummary.validated (summary : FileSummary) : Except Exn FileSummary :=
  if summary.strings.any hasNul then .error (.other "NUL bytes are not allowed") else .ok summary

/-- The symbols that are summarized of a path, the last summary first. -/
def symbolsUnder (summaries : List FileSummary) (relative : String) : List String :=
  ((summaries.reverse.find? fun summary => summary.relativePath = relative).map
    FileSummary.symbols).getD []

/-- What the repository map says of a file. -/
def mapLines (summaries : List FileSummary) (file : FileRecord) : List String :=
  let kind := if file.isDeleted then "deleted" else textOr file.language file.mediaType
  let symbols := symbolsUnder summaries file.relativePath
  let listed := ", ".intercalate symbols
  s!"- `{file.relativePath}` ({kind}, {file.sizeBytes} bytes)" ::
    if symbols = [] then [] else [s!"  - symbols: {listed}"]

/-- `_repository_map` -/
def repositoryMap (files : List FileRecord) (summaries : List FileSummary) : String :=
  "\n".intercalate ("# Repository map" :: files.flatMap (mapLines summaries)) ++ "\n"

/-! ## The indexer -/

/-- The indexer with everything that it asks its surroundings for. -/
structure FullIndexer extends ContentIndexer where
  /-- `str.lower` -/
  lower : String → String
  /-- `mimetypes.guess_type` of a name -/
  guessType : String → Option String
  /-- `raw.decode("utf-8", errors="replace")` -/
  decodeReplacing : List UInt8 → String
  /-- A path that can be encoded: the walk has put no surrogates in it for bytes of a name. A path
  with surrogates stands here under some name of its own. -/
  encodes : String → Bool
  /-- The identifier and the times that are new for a file, by its path. -/
  newSummaryId : String → String
  indexedAt : String → Timestamp
  summarizedAt : String → Timestamp
  createdAt : Timestamp

/-- What the loop over the walk has come to. -/
structure Contents where
  totalBytes : Nat := 0
  files : List FileRecord := []
  chunks : List RepositoryChunk := []
  summaries : List FileSummary := []
  dependencies : Dict String (List String) := .empty
  warnings : List String := []

namespace FullIndexer

variable (F : FullIndexer)

/-- `_decode_text` of a file that is text -/
def decodeText (raw : List UInt8) : String :=
  match String.fromUTF8? raw.toByteArray with
  | some text =>
    match text.toList with
    | [] => ""
    | c :: rest => if c.toNat = 0xfeff then String.ofList rest else text
  | none => F.decodeReplacing raw

/-- `_detect_type` -/
def detectType (relative : String) : Option String × String :=
  let name := String.ofList (nameOf relative)
  let suffix := F.lower (String.ofList (suffixOf (nameOf relative)))
  let language := match languages.lookup suffix with
    | some language => some language
    | none => if name ∈ configNames then some "configuration" else none
  let mediaType := textOr (F.guessType name) "text/plain"
  (language, if mediaType = "application/octet-stream" ∧ language.isSome then "text/plain"
    else mediaType)

/-- `_stable_file_id` -/
def stableFileId (relative : String) : Except Exn String :=
  if F.encodes relative = false then .error (.other "surrogates not allowed")
  else .ok ("file-" ++ F.shortDigest relative)

/-- The files of the index before by their paths. -/
abbrev PreviousRecords := Dict String FileRecord

/-- `previous_by_path` -/
def previousRecords : Option IndexRecord → PreviousRecords
  | none => .empty
  | some previous => .ofPairs
      ((previous.snapshot.files.filter fun item => item.isDeleted = false).map fun item =>
        (item.relativePath, item))

/-- What the index records of a text file. -/
def fileRecord (previous : PreviousRecords) (snapshotId fileId : String) (file : WalkedFile) :
    FileRecord :=
  let contentHash := F.sha256 file.raw
  let (language, mediaType) := F.detectType file.relativePath
  { snapshotId, relativePath := file.relativePath, contentHash, sizeBytes := file.size
    changeKind :=
      changeKind ((previous.get file.relativePath).map FileRecord.toRepositoryFile) contentHash
    fileId, mediaType, language
    indexedAt := F.indexedAt file.relativePath }

/-- What `_chunks_for` reads of the record of a file. -/
def typed (record : FileRecord) : TypedFile :=
  { fileId := record.fileId, relativePath := record.relativePath, language := record.language }

def summaryOf (record : FileRecord) (text snapshotId : String) (symbols imports : List String) :
    FileSummary :=
  { summaryId := F.newSummaryId record.relativePath, snapshotId
    relativePath := record.relativePath, sourceHash := record.contentHash
    text := summarize record.relativePath record.language text symbols imports
    symbols, imports, createdAt := F.summarizedAt record.relativePath }

/-- A text file of the loop over the walk. -/
def readText (previous : PreviousRecords) (snapshotId : String) (done : Contents)
    (file : WalkedFile) : Except Exn Contents := do
  let text := F.decodeText file.raw
  let fileId ← F.stableFileId file.relativePath
  let record ← (F.fileRecord previous snapshotId fileId file).validated
  let (chunks, symbols, imports) ← F.chunksFor (typed record) text snapshotId
  let summary ← (F.summaryOf record text snapshotId symbols imports).validated
  .ok
    { totalBytes := done.totalBytes + file.size
      files := done.files ++ [record]
      chunks := done.chunks ++ chunks
      summaries := done.summaries ++ [summary]
      dependencies := done.dependencies.set file.relativePath imports
      warnings := done.warnings ++ file.skipped ++ F.injectionWarnings file }

/-- One file of the loop over the walk. -/
def readFile (previous : PreviousRecords) (snapshotId : String) (done : Contents)
    (file : WalkedFile) : Except Exn Contents :=
  if file.size > F.maximumFileBytes then
    .ok { done with
      warnings := done.warnings ++ file.skipped ++
        [s!"skipped oversized file: {file.relativePath} ({file.size} bytes)"] }
  else if done.totalBytes + file.size > F.maximumRepositoryBytes then
    .error (.of .domainValidation
      s!"repository exceeds {F.maximumRepositoryBytes} byte indexing limit")
  else if file.raw.length ≠ file.size then
    .error (.of .securityPolicy s!"file changed while indexing: {file.relativePath}")
  else if decodesText file.raw = false then
    .ok { done with
      totalBytes := done.totalBytes + file.size
      warnings := done.warnings ++ file.skipped ++
        [s!"skipped unsupported binary file: {file.relativePath}"] }
  else F.readText previous snapshotId done file

/-- The loop over the walk. -/
def readFiles (previous : PreviousRecords) (snapshotId : String) :
    List WalkedFile → Contents → Except Exn Contents
  | [], done => .ok done
  | file :: rest, done => do
    let done ← F.readFile previous snapshotId done file
    readFiles previous snapshotId rest done

/-- What is recorded of a file that is gone. -/
def tombstone (snapshotId : String) (prior : FileRecord) : FileRecord :=
  { prior with snapshotId := snapshotId, changeKind := .DELETED, isDeleted := true }

/-- The tombstones of the files that were there before and have not been seen. -/
def tombstones (previous : PreviousRecords) (snapshotId : String) (seen : List String) :
    List FileRecord :=
  let gone := (previous.entries.insertionSort fun a b => a.1 ≤ b.1).filter fun item =>
    item.1 ∉ seen
  gone.map fun item => tombstone snapshotId item.2

/-- `files.sort` by the relative path -/
def sortRecords (files : List FileRecord) : List FileRecord :=
  files.insertionSort fun a b => a.relativePath ≤ b.relativePath

/-- `LocalRepositoryIndexer.index` with all that it records -/
def record (root : String) (walk : Walk) (previous : Option IndexRecord) (snapshotId : String) :
    Except Exn IndexRecord :=
  if snapshotId.toList.all isSpace ∨ 256 < snapshotId.length then
    .error (.of .domainValidation "snapshot ID must contain 1 to 256 characters")
  else do
    let done ← F.readFiles (previousRecords previous) snapshotId walk.files {}
    let seen := done.files.map fun item => item.relativePath
    let files := sortRecords (done.files ++ tombstones (previousRecords previous) snapshotId seen)
    let manifest := manifest (files.map FileRecord.toRepositoryFile)
    .ok
      { snapshot :=
          { snapshotId, root, manifestHash := F.sha256Digest (canonicalJson manifest)
            fileCount := files.countP fun item => ¬ item.isDeleted
            totalBytes := done.totalBytes, files, createdAt := F.createdAt }
        chunks := done.chunks
        summaries := done.summaries
        repositoryMap := repositoryMap files done.summaries
        moduleDependencies := done.dependencies
        warnings := done.warnings ++ walk.skipped }

end FullIndexer

end DurableAgent.Repository
