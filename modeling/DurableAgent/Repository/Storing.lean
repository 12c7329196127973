import DurableAgent.Library.Table
import DurableAgent.Repository.Content

/-!
# Indexes in the database

`save_repository_index` splits an index over the tables of snapshots, files and chunks, with the
rest in a JSON column; `get_repository_index` puts it together again, in the order that the
database gives. Texts are ordered by their code points.
-/

namespace DurableAgent.Repository

open Library

/-! ## Rows -/

def FileChangeKind.value : FileChangeKind → String
  | .NEW => "NEW"
  | .UNCHANGED => "UNCHANGED"
  | .MODIFIED => "MODIFIED"
  | .DELETED => "DELETED"

/-- A row of `repository_snapshots`. -/
structure SnapshotRow where
  snapshotId : String
  root : String
  manifestHash : String
  fileCount : Nat
  totalBytes : Nat
  indexPayload : Json
  createdAt : Timestamp

/-- A row of `repository_files`. -/
structure FileRow where
  repositoryFilePk : String
  fileId : String
  snapshotId : String
  relativePath : String
  contentHash : String
  sizeBytes : Nat
  mediaType : String
  language : Option String
  changeKind : String
  isDeleted : Bool
  indexedAt : Timestamp

def fileRow (snapshotId : String) (file : FileRecord) : FileRow :=
  { repositoryFilePk := s!"{snapshotId}:{file.fileId}", fileId := file.fileId, snapshotId
    relativePath := file.relativePath, contentHash := file.contentHash
    sizeBytes := file.sizeBytes, mediaType := file.mediaType, language := file.language
    changeKind := FileChangeKind.value file.changeKind, isDeleted := file.isDeleted
    indexedAt := file.indexedAt }

def kindOfValue (value : String) : Except Exn FileChangeKind :=
  match [FileChangeKind.NEW, .UNCHANGED, .MODIFIED, .DELETED].find? fun kind =>
    FileChangeKind.value kind = value with
  | some kind => .ok kind
  | none => .error (.other "Input should be 'NEW', 'MODIFIED', 'UNCHANGED' or 'DELETED'")

/-- `_repository_file_from_row` -/
def repositoryFileFromRow (row : FileRow) : Except Exn FileRecord := do
  let changeKind ← kindOfValue row.changeKind
  .ok
    { fileId := row.fileId, snapshotId := row.snapshotId, relativePath := row.relativePath
      contentHash := row.contentHash, sizeBytes := row.sizeBytes, mediaType := row.mediaType
      language := row.language, changeKind, isDeleted := row.isDeleted
      indexedAt := row.indexedAt }

/-! ## The JSON column -/

/-- `FileSummary.model_dump(mode="json")` -/
def FileSummary.modelDump (summary : FileSummary) : Json :=
  .obj [("summary_id", .str summary.summaryId), ("snapshot_id", .str summary.snapshotId),
    ("relative_path", .str summary.relativePath), ("source_hash", .str summary.sourceHash),
    ("text", .str summary.text), ("symbols", .ofStrings summary.symbols),
    ("imports", .ofStrings summary.imports), ("valid", .bool summary.valid),
    ("created_at", .str summary.createdAt.jsonFormat)]

def member (value : Json) (name : String) : Option Json :=
  match value with
  | .obj fields => fields.lookup name
  | _ => none

def stringOf : Json → Option String
  | .str s => some s
  | _ => none

def stringsOf : Json → Option (List String)
  | .arr items => items.mapM stringOf
  | _ => none

def boolOf : Json → Option Bool
  | .bool b => some b
  | _ => none

def itemsOf : Json → Option (List Json)
  | .arr items => some items
  | _ => none

/-- `FileSummary.model_validate`; `readTime` is how a time is read from its text. -/
def FileSummary.modelValidate (readTime : String → Option Timestamp) (value : Json) :
    Option FileSummary := do
  let summaryId ← (member value "summary_id").bind stringOf
  let snapshotId ← (member value "snapshot_id").bind stringOf
  let relativePath ← (member value "relative_path").bind stringOf
  let sourceHash ← (member value "source_hash").bind stringOf
  let text ← (member value "text").bind stringOf
  let symbols ← (member value "symbols").bind stringsOf
  let imports ← (member value "imports").bind stringsOf
  let valid ← (member value "valid").bind boolOf
  let createdAt ← ((member value "created_at").bind stringOf).bind readTime
  some { summaryId, snapshotId, relativePath, sourceHash, text, symbols, imports, valid, createdAt }

/-- What is stored of an index beside its files and chunks. -/
def payload (index : IndexRecord) : Json :=
  .obj [("summaries", .arr (index.summaries.map FileSummary.modelDump)),
    ("repository_map", .str index.repositoryMap),
    ("module_dependencies", .obj (index.moduleDependencies.entries.map fun entry =>
      (entry.1, .ofStrings entry.2))),
    ("warnings", .ofStrings index.warnings)]

/-- The dependencies as they are read from the column. -/
def dependenciesOf : Json → Option (Dict String (List String))
  | .obj fields => (fields.mapM fun field => (stringsOf field.2).map fun names =>
      (field.1, names)).map Dict.ofPairs
  | _ => none

def summariesOf (readTime : String → Option Timestamp) (value : Json) :
    Option (List FileSummary) := do
  let items ← (member value "summaries").bind itemsOf
  items.mapM (FileSummary.modelValidate readTime)

/-! ## Tables -/

/-- The tables of the indexes. Every file and chunk refers to a snapshot. -/
structure IndexTables where
  snapshots : Table SnapshotRow.snapshotId
  files : Table FileRow.repositoryFilePk
  chunks : Table RepositoryChunk.chunkId
  files_referenced : ∀ row ∈ files.rows, row.snapshotId ∈ snapshots.rows.map SnapshotRow.snapshotId
  chunks_referenced : ∀ row ∈ chunks.rows,
    row.snapshotId ∈ snapshots.rows.map SnapshotRow.snapshotId

def snapshotRow (index : IndexRecord) : SnapshotRow :=
  { snapshotId := index.snapshot.snapshotId, root := index.snapshot.root
    manifestHash := index.snapshot.manifestHash, fileCount := index.snapshot.fileCount
    totalBytes := index.snapshot.totalBytes, indexPayload := payload index
    createdAt := index.snapshot.createdAt }

def fileRows (index : IndexRecord) : List FileRow :=
  index.snapshot.files.map (fileRow index.snapshot.snapshotId)

namespace IndexTables

def conflict : Exn := .of .idempotencyConflict "repository snapshot already exists"

/-- `save_repository_index` -/
def saveRepositoryIndex (tables : IndexTables) (index : IndexRecord) : Except Exn IndexTables :=
  match hs : tables.snapshots.insert (snapshotRow index),
      hf : tables.files.insertAll (fileRows index),
      hc : tables.chunks.insertAll index.chunks with
  | some snapshots, some files, some chunks =>
    -- the unique paths of a snapshot, and the foreign key of the chunks
    if h : (index.snapshot.files.map fun file => file.relativePath).Nodup ∧
        ∀ chunk ∈ index.chunks,
          chunk.snapshotId ∈ snapshots.rows.map SnapshotRow.snapshotId then
      .ok
        { snapshots, files, chunks
          files_referenced := by
            intro row hrow
            rw [Table.insert_rows hs, List.map_cons]
            obtain hnew | hold := (Table.mem_insertAll hf row).mp hrow
            · obtain ⟨file, -, rfl⟩ := List.mem_map.mp hnew
              exact List.mem_cons_self
            · exact List.mem_cons_of_mem _ (tables.files_referenced row hold)
          chunks_referenced := by
            intro row hrow
            obtain hnew | hold := (Table.mem_insertAll hc row).mp hrow
            · exact h.2 row hnew
            · rw [Table.insert_rows hs, List.map_cons]
              exact List.mem_cons_of_mem _ (tables.chunks_referenced row hold) }
    else .error conflict
  | _, _, _ => .error conflict

/-- The key that the chunks are ordered by. -/
def chunkKey (chunk : RepositoryChunk) : String ×ₗ ℕ := toLex (chunk.relativePath, chunk.startLine)

def filesOf (tables : IndexTables) (snapshotId : String) : List FileRow :=
  tables.files.select (fun row => row.snapshotId = snapshotId) FileRow.relativePath

def chunksOf (tables : IndexTables) (snapshotId : String) : List RepositoryChunk :=
  tables.chunks.select (fun row => row.snapshotId = snapshotId) chunkKey

/-- A missing or wrong part of the column. -/
def damaged : Exn := .other "index payload does not have the expected form"

/-- `get_repository_index` -/
def getRepositoryIndex (readTime : String → Option Timestamp) (tables : IndexTables)
    (snapshotId : String) : Except Exn IndexRecord :=
  match tables.snapshots.find snapshotId with
  | none => .error (.of .notFound s!"repository snapshot not found: {snapshotId}")
  | some row => do
    let files ← (tables.filesOf snapshotId).mapM repositoryFileFromRow
    let chunks := tables.chunksOf snapshotId
    let summaries ← (summariesOf readTime row.indexPayload).elim (.error damaged) .ok
    let repositoryMap ← ((member row.indexPayload "repository_map").bind stringOf).elim
      (.error damaged) .ok
    let moduleDependencies ← ((member row.indexPayload "module_dependencies").bind
      dependenciesOf).elim (.error damaged) .ok
    let warnings ← ((member row.indexPayload "warnings").bind stringsOf).elim (.error damaged) .ok
    .ok
      { snapshot :=
          { snapshotId := row.snapshotId, root := row.root, manifestHash := row.manifestHash
            fileCount := row.fileCount, totalBytes := row.totalBytes, files
            createdAt := row.createdAt }
        chunks, summaries, repositoryMap, moduleDependencies, warnings }

end IndexTables

end DurableAgent.Repository
