import DurableAgent.Repository.Indexing
import DurableAgent.Repository.Partition
import DurableAgent.Repository.Storing

/-!
# Indexes that are stored and read back

The files, the column and the chunks of an index come back as they were, the chunks in the order of
their paths. The walk goes through the files of a directory before its subdirectories, so this need
not be the order in which they were indexed.
-/

namespace DurableAgent.Repository

open Library

variable {readTime : String → Option Timestamp} {index : IndexRecord} {snapshotId : String}

/-! ## Rows and columns -/

theorem kindOfValue_value (kind : FileChangeKind) :
    kindOfValue (FileChangeKind.value kind) = .ok kind := by
  cases kind <;> decide

theorem repositoryFileFromRow_fileRow {file : FileRecord} (h : file.snapshotId = snapshotId) :
    repositoryFileFromRow (fileRow snapshotId file) = .ok file := by
  subst h
  unfold repositoryFileFromRow
  rw [show (fileRow file.snapshotId file).changeKind =
    FileChangeKind.value file.changeKind from rfl, kindOfValue_value]
  rfl

theorem mapM_repositoryFileFromRow {files : List FileRecord}
    (h : ∀ file ∈ files, file.snapshotId = snapshotId) :
    (files.map (fileRow snapshotId)).mapM repositoryFileFromRow = .ok files := by
  induction files with
  | nil => rfl
  | cons file files ih =>
    rw [List.map_cons, List.mapM_cons, repositoryFileFromRow_fileRow (h file List.mem_cons_self),
      ih fun other hother => h other (List.mem_cons_of_mem file hother)]
    rfl

theorem mapM_some {α β : Type} {f : α → β} {g : β → Option α} {items : List α}
    (h : ∀ a ∈ items, g (f a) = some a) : (items.map f).mapM g = some items := by
  induction items with
  | nil => rfl
  | cons a items ih =>
    rw [List.map_cons, List.mapM_cons, h a List.mem_cons_self,
      ih fun b hb => h b (List.mem_cons_of_mem a hb)]
    rfl

theorem stringsOf_ofStrings (items : List String) : stringsOf (.ofStrings items) = some items := by
  change (items.map Json.str).mapM stringOf = some items
  apply mapM_some
  intro s _
  rfl

/-- The times of the summaries are read from the texts that they have in the column. -/
def Readable (readTime : String → Option Timestamp) (summaries : List FileSummary) : Prop :=
  ∀ summary ∈ summaries, readTime summary.createdAt.jsonFormat = some summary.createdAt

theorem modelValidate_modelDump {summary : FileSummary}
    (hread : readTime summary.createdAt.jsonFormat = some summary.createdAt) :
    FileSummary.modelValidate readTime summary.modelDump = some summary := by
  simp [FileSummary.modelValidate, FileSummary.modelDump, member, List.lookup_cons, stringOf, boolOf,
    stringsOf_ofStrings, hread]

theorem summariesOf_payload (hread : Readable readTime index.summaries) :
    summariesOf readTime (payload index) = some index.summaries :=
  mapM_some fun summary hsummary => modelValidate_modelDump (hread summary hsummary)

theorem dependenciesOf_payload :
    (member (payload index) "module_dependencies").bind dependenciesOf =
      some index.moduleDependencies := by
  have hentries : (index.moduleDependencies.entries.map fun entry =>
      (entry.1, Json.ofStrings entry.2)).mapM (fun field => (stringsOf field.2).map fun names =>
        (field.1, names)) = some index.moduleDependencies.entries := by
    apply mapM_some
    intro entry _
    rw [stringsOf_ofStrings]
    rfl
  change Option.map Dict.ofPairs (List.mapM _ _) = _
  rw [hentries, Option.map_some, Dict.ofPairs_self]

/-! ## Chunks of a file and of several -/

/-- The chunks of the file at a path, in their order. -/
structure ChunksAt (snapshotId path : String) (chunks : List RepositoryChunk) : Prop where
  nonempty : chunks ≠ []
  path : ∀ chunk ∈ chunks, chunk.relativePath = path
  snapshot : ∀ chunk ∈ chunks, chunk.snapshotId = snapshotId
  ascending : chunks.Pairwise fun a b => a.startLine < b.startLine

/-- The definitions that the parser finds lie separate in the lines of the text. -/
def ContentIndexer.ParsesLines (C : ContentIndexer) : Prop :=
  ∀ text body, C.parse text = .tree body → Separate (fileLines text).length (symbolsOf body)

theorem ContentIndexer.ParsesLines.separate {C : ContentIndexer} (hparse : C.ParsesLines)
    {file : TypedFile} {text : String} {body : List TopLevel}
    (h : C.bodyOf file text = .ok body) :
    Separate (fileLines text).length (symbolsOf body) := by
  have hnone : Separate (fileLines text).length (symbolsOf []) := ⟨by simp [symbolsOf], .nil⟩
  unfold ContentIndexer.bodyOf at h
  split at h
  · split at h
    · next body' hbody =>
      rw [← Except.ok.inj h]
      exact hparse text body' hbody
    · rw [← Except.ok.inj h]
      exact hnone
    · cases h
  · rw [← Except.ok.inj h]
    exact hnone

theorem chunksAt_chunksFor {C : ContentIndexer} (hparse : C.ParsesLines) {file : TypedFile}
    {text : String} {chunks : List RepositoryChunk} {names imports : List String}
    (h : C.chunksFor file text snapshotId = .ok (chunks, names, imports)) :
    ChunksAt snapshotId file.relativePath chunks := by
  obtain ⟨body, hbody, -⟩ := of_bind_ok h
  obtain ⟨rfl, -, -⟩ := ContentIndexer.chunksFor_ok hbody h
  have hseparate := hparse.separate hbody
  constructor
  · intro hnil
    have hnumbers := flatMap_chunkRanges C.chunkLines_pos hseparate
    rw [List.map_eq_nil_iff.mp hnil] at hnumbers
    have hlines := List.length_pos_of_ne_nil (ContentIndexer.fileLines_ne_nil text)
    have hlength := congrArg List.length hnumbers
    simp only [List.flatMap_nil, List.length_nil, List.length_range'] at hlength
    omega
  · intro chunk hchunk
    obtain ⟨r, -, rfl⟩ := List.mem_map.mp hchunk
    rfl
  · intro chunk hchunk
    obtain ⟨r, -, rfl⟩ := List.mem_map.mp hchunk
    rfl
  · rw [List.pairwise_map]
    apply List.Pairwise.imp_of_mem _ (ascending_chunkRanges C.chunkLines_pos hseparate)
    intro a b ha hb hlt
    have hle := (mem_chunkRanges C.chunkLines_pos hseparate ha).1
    change a.first < b.first
    omega

open IndexTables

theorem chunkKey_le_of_path_lt {a b : RepositoryChunk} (h : a.relativePath < b.relativePath) :
    chunkKey a ≤ chunkKey b :=
  (Prod.Lex.toLex_lt_toLex.mpr (.inl h)).le

/-- The chunks of several files are in the order of their keys exactly if the files are. -/
theorem sorted_chunks_iff {pieces : List (String × List RepositoryChunk)}
    (hpieces : ∀ piece ∈ pieces, ChunksAt snapshotId piece.1 piece.2)
    (hnodup : (pieces.map Prod.fst).Nodup) :
    ((pieces.flatMap Prod.snd).Pairwise fun a b => chunkKey a ≤ chunkKey b) ↔
      (pieces.map Prod.fst).Pairwise (· ≤ ·) := by
  rw [List.pairwise_flatMap, List.pairwise_map]
  constructor
  · rintro ⟨-, hbetween⟩
    apply List.Pairwise.imp_of_mem _ hbetween
    intro p q hp hq hkeys
    obtain ⟨a, ha⟩ := List.exists_mem_of_ne_nil _ (hpieces p hp).nonempty
    obtain ⟨b, hb⟩ := List.exists_mem_of_ne_nil _ (hpieces q hq).nonempty
    have hle := Prod.Lex.monotone_fst _ _ (hkeys a ha b hb)
    change a.relativePath ≤ b.relativePath at hle
    rwa [(hpieces p hp).path a ha, (hpieces q hq).path b hb] at hle
  · intro hpaths
    have hdistinct := List.pairwise_map.mp hnodup
    constructor
    · intro piece hpiece
      apply List.Pairwise.imp_of_mem _ (hpieces piece hpiece).ascending
      intro a b ha hb hlt
      have hpath : a.relativePath = b.relativePath := by
        rw [(hpieces piece hpiece).path a ha, (hpieces piece hpiece).path b hb]
      exact (Prod.Lex.toLex_lt_toLex.mpr (.inr ⟨hpath, hlt⟩)).le
    · apply List.Pairwise.imp_of_mem _ (hpaths.and hdistinct)
      rintro p q hp hq ⟨hle, hne⟩ a ha b hb
      apply chunkKey_le_of_path_lt
      rw [(hpieces p hp).path a ha, (hpieces q hq).path b hb]
      exact lt_of_le_of_ne hle hne

theorem nodup_chunkKey {pieces : List (String × List RepositoryChunk)}
    (hpieces : ∀ piece ∈ pieces, ChunksAt snapshotId piece.1 piece.2)
    (hnodup : (pieces.map Prod.fst).Nodup) :
    ((pieces.flatMap Prod.snd).map chunkKey).Nodup := by
  rw [List.Nodup, List.pairwise_map, List.pairwise_flatMap]
  constructor
  · intro piece hpiece
    apply (hpieces piece hpiece).ascending.imp
    intro a b hlt heq
    have hstart : a.startLine = b.startLine := congrArg (fun key => (ofLex key).2) heq
    omega
  · apply List.Pairwise.imp_of_mem _ (List.pairwise_map.mp hnodup)
    intro p q hp hq hne a ha b hb heq
    have hpath : a.relativePath = b.relativePath := congrArg (fun key => (ofLex key).1) heq
    rw [(hpieces p hp).path a ha, (hpieces q hq).path b hb] at hpath
    exact hne hpath

/-! ## What is saved and loaded -/

namespace IndexTables

variable {tables tables' : IndexTables}

theorem saveRepositoryIndex_ok (h : tables.saveRepositoryIndex index = .ok tables') :
    tables.snapshots.insert (snapshotRow index) = some tables'.snapshots ∧
      tables.files.insertAll (fileRows index) = some tables'.files ∧
      tables.chunks.insertAll index.chunks = some tables'.chunks ∧
      (index.snapshot.files.map fun file => file.relativePath).Nodup := by
  unfold saveRepositoryIndex at h
  split at h
  · next snapshots files chunks hs hf hc =>
    split at h
    · next hkeys =>
      rw [← Except.ok.inj h]
      exact ⟨hs, hf, hc, hkeys.1⟩
    · cases h
  · cases h

/-- No row refers to a snapshot that is not there yet. -/
theorem unreferenced (h : tables.saveRepositoryIndex index = .ok tables') :
    (∀ row ∈ tables.files.rows, row.snapshotId ≠ index.snapshot.snapshotId) ∧
      ∀ row ∈ tables.chunks.rows, row.snapshotId ≠ index.snapshot.snapshotId := by
  have hfree := Table.free_of_insert (saveRepositoryIndex_ok h).1
  constructor
  · intro row hrow heq
    apply hfree
    rw [show (snapshotRow index).snapshotId = row.snapshotId from heq.symm]
    exact tables.files_referenced row hrow
  · intro row hrow heq
    apply hfree
    rw [show (snapshotRow index).snapshotId = row.snapshotId from heq.symm]
    exact tables.chunks_referenced row hrow

/-- The files come back as they were, if they were in the order of their paths. -/
theorem filesOf_saved (h : tables.saveRepositoryIndex index = .ok tables')
    (hsorted : index.snapshot.files.Pairwise fun a b => a.relativePath ≤ b.relativePath) :
    tables'.filesOf index.snapshot.snapshotId = fileRows index := by
  obtain ⟨-, hfiles, -, hnodup⟩ := saveRepositoryIndex_ok h
  apply (Table.select_insertAll_eq_iff hfiles _ (unreferenced h).1 _).mpr
  · rw [fileRows, List.pairwise_map]
    exact hsorted
  · intro row hrow
    obtain ⟨file, -, rfl⟩ := List.mem_map.mp hrow
    rfl
  · rw [fileRows, List.map_map]
    exact hnodup

/-- Everything comes back as it was, but the chunks in the order of the database. -/
theorem getRepositoryIndex_saved (hread : Readable readTime index.summaries)
    (h : tables.saveRepositoryIndex index = .ok tables')
    (hsorted : index.snapshot.files.Pairwise fun a b => a.relativePath ≤ b.relativePath)
    (hids : ∀ file ∈ index.snapshot.files, file.snapshotId = index.snapshot.snapshotId) :
    tables'.getRepositoryIndex readTime index.snapshot.snapshotId =
      .ok { index with chunks := tables'.chunksOf index.snapshot.snapshotId } := by
  have hfind : tables'.snapshots.find index.snapshot.snapshotId = some (snapshotRow index) :=
    Table.find_insert (saveRepositoryIndex_ok h).1
  have hmap : (member (payload index) "repository_map").bind stringOf = some index.repositoryMap :=
    rfl
  have hwarnings : (member (payload index) "warnings").bind stringsOf = some index.warnings :=
    stringsOf_ofStrings index.warnings
  unfold getRepositoryIndex
  rw [hfind]
  dsimp only [snapshotRow]
  rw [filesOf_saved h hsorted, fileRows, mapM_repositoryFileFromRow hids,
    summariesOf_payload hread, hmap, dependenciesOf_payload, hwarnings]
  rfl

end IndexTables

/-! ## What the indexer records -/

namespace FullIndexer

variable {F : FullIndexer} {previous : PreviousRecords} {done done' : Contents}
  {file : WalkedFile} {record : FileRecord} {chunks : List RepositoryChunk}

/-- What is recorded of a text file, and its chunks. -/
def Made (F : FullIndexer) (previous : PreviousRecords) (snapshotId : String) (file : WalkedFile)
    (piece : FileRecord × List RepositoryChunk) : Prop :=
  ∃ fileId names imports, F.stableFileId file.relativePath = .ok fileId ∧
    piece.1 = F.fileRecord previous snapshotId fileId file ∧
    F.chunksFor (typed piece.1) (F.decodeText file.raw) snapshotId = .ok (piece.2, names, imports)

theorem validated_record {record' : FileRecord} (h : record.validated = .ok record') :
    record = record' := by
  unfold FileRecord.validated at h
  split at h
  · cases h
  · exact Except.ok.inj h

theorem readText_ok (h : F.readText previous snapshotId done file = .ok done') :
    ∃ piece, F.Made previous snapshotId file piece ∧ done'.files = done.files ++ [piece.1] ∧
      done'.chunks = done.chunks ++ piece.2 := by
  obtain ⟨fileId, hid, h⟩ := of_bind_ok h
  obtain ⟨record, hrecord, h⟩ := of_bind_ok h
  obtain ⟨⟨chunks, names, imports⟩, hchunks, h⟩ := of_bind_ok h
  obtain ⟨summary, -, h⟩ := of_bind_ok h
  obtain rfl := validated_record hrecord
  rw [← Except.ok.inj h]
  exact ⟨(_, chunks), ⟨fileId, names, imports, hid, rfl, hchunks⟩, rfl, rfl⟩

theorem readFile_ok (h : F.readFile previous snapshotId done file = .ok done') :
    (F.keeps file = false ∧ done'.files = done.files ∧ done'.chunks = done.chunks) ∨
      (F.keeps file = true ∧ F.readText previous snapshotId done file = .ok done') := by
  unfold readFile at h
  split at h
  · next hsize =>
    left
    rw [← Except.ok.inj h]
    refine ⟨?_, rfl, rfl⟩
    simp [LocalRepositoryIndexer.keeps]
    omega
  · next hsize =>
    split at h
    · cases h
    · split at h
      · cases h
      · split at h
        · next htext =>
          left
          rw [← Except.ok.inj h]
          exact ⟨by simp [LocalRepositoryIndexer.keeps, htext], rfl, rfl⟩
        · next htext =>
          right
          refine ⟨?_, h⟩
          simp [LocalRepositoryIndexer.keeps, htext]
          omega

/-- Every record is made of one of the files. -/
theorem exists_made {files : List WalkedFile} {pieces : List (FileRecord × List RepositoryChunk)}
    {piece : FileRecord × List RepositoryChunk}
    (h : List.Forall₂ (F.Made previous snapshotId) files pieces) (hpiece : piece ∈ pieces) :
    ∃ file ∈ files, F.Made previous snapshotId file piece := by
  induction h with
  | nil => cases hpiece
  | @cons file first files pieces hmade _ ih =>
    obtain rfl | hpiece := List.mem_cons.mp hpiece
    · exact ⟨file, List.mem_cons_self, hmade⟩
    · obtain ⟨other, hother, hmade'⟩ := ih hpiece
      exact ⟨other, List.mem_cons_of_mem file hother, hmade'⟩

theorem readFiles_ok {files : List WalkedFile}
    (h : F.readFiles previous snapshotId files done = .ok done') :
    ∃ pieces, List.Forall₂ (F.Made previous snapshotId) (files.filter F.keeps) pieces ∧
      done'.files = done.files ++ pieces.map Prod.fst ∧
      done'.chunks = done.chunks ++ pieces.flatMap Prod.snd := by
  induction files generalizing done with
  | nil =>
    rw [← Except.ok.inj h]
    exact ⟨[], .nil, by simp, by simp⟩
  | cons file files ih =>
    obtain ⟨done₁, hfile, hrest⟩ := of_bind_ok h
    obtain ⟨pieces, hpieces, hfiles, hchunks⟩ := ih hrest
    obtain ⟨hskip, hfiles₁, hchunks₁⟩ | ⟨hkeep, htext⟩ := readFile_ok hfile
    · refine ⟨pieces, ?_, ?_, ?_⟩
      · rwa [List.filter_cons_of_neg (by simp [hskip])]
      · rw [hfiles, hfiles₁]
      · rw [hchunks, hchunks₁]
    · obtain ⟨piece, hmade, hfiles₁, hchunks₁⟩ := readText_ok htext
      refine ⟨piece :: pieces, ?_, ?_, ?_⟩
      · rw [List.filter_cons_of_pos hkeep]
        exact .cons hmade hpieces
      · rw [hfiles, hfiles₁, List.map_cons, List.append_assoc]
        rfl
      · rw [hchunks, hchunks₁, List.flatMap_cons, List.append_assoc]

variable {root : String} {walk : Walk} {prior : Option IndexRecord}

theorem record_ok (h : F.record root walk prior snapshotId = .ok index) :
    ∃ pieces, List.Forall₂ (F.Made (previousRecords prior) snapshotId)
        (walk.files.filter F.keeps) pieces ∧
      index.snapshot.snapshotId = snapshotId ∧
      index.snapshot.files = sortRecords (pieces.map Prod.fst ++
        tombstones (previousRecords prior) snapshotId
          ((pieces.map Prod.fst).map fun item => item.relativePath)) ∧
      index.chunks = pieces.flatMap Prod.snd := by
  unfold FullIndexer.record at h
  split at h
  · cases h
  · obtain ⟨done, hdone, h⟩ := of_bind_ok h
    obtain ⟨pieces, hpieces, hfiles, hchunks⟩ := readFiles_ok hdone
    rw [List.nil_append] at hfiles hchunks
    rw [← Except.ok.inj h, hfiles, hchunks]
    exact ⟨pieces, hpieces, rfl, rfl, rfl⟩

theorem pairwise_sortRecords (files : List FileRecord) :
    (sortRecords files).Pairwise fun a b => a.relativePath ≤ b.relativePath := by
  have htotal : Std.Total fun a b : FileRecord => a.relativePath ≤ b.relativePath :=
    ⟨fun a b => le_total _ _⟩
  have htrans : IsTrans FileRecord fun a b => a.relativePath ≤ b.relativePath :=
    ⟨fun _ _ _ => le_trans⟩
  exact List.pairwise_insertionSort _ _

theorem snapshotId_tombstones {seen : List String}
    (h : record ∈ tombstones previous snapshotId seen) : record.snapshotId = snapshotId := by
  obtain ⟨entry, -, rfl⟩ := List.mem_map.mp h
  rfl

theorem snapshotId_files (h : F.record root walk prior snapshotId = .ok index)
    (hrecord : record ∈ index.snapshot.files) : record.snapshotId = snapshotId := by
  obtain ⟨pieces, hpieces, -, hfiles, -⟩ := record_ok h
  rw [hfiles, sortRecords, List.mem_insertionSort, List.mem_append] at hrecord
  obtain hpresent | hgone := hrecord
  · obtain ⟨piece, hpiece, rfl⟩ := List.mem_map.mp hpresent
    obtain ⟨file, -, fileId, names, imports, -, hrecord, -⟩ := exists_made hpieces hpiece
    rw [hrecord]
    rfl
  · exact snapshotId_tombstones hgone

/-- The chunks of an index, file by file. -/
theorem chunks_record (hparse : F.ParsesLines)
    (h : F.record root walk prior snapshotId = .ok index) :
    ∃ pieces : List (String × List RepositoryChunk),
      (∀ piece ∈ pieces, ChunksAt snapshotId piece.1 piece.2) ∧
      pieces.map Prod.fst = (walk.files.filter F.keeps).map WalkedFile.relativePath ∧
      index.chunks = pieces.flatMap Prod.snd := by
  obtain ⟨pieces, hpieces, -, -, hchunks⟩ := record_ok h
  rw [hchunks]
  clear hchunks
  generalize walk.files.filter F.keeps = files at hpieces
  induction hpieces with
  | nil => exact ⟨[], by simp, rfl, rfl⟩
  | @cons file piece files pieces hmade hpieces ih =>
    obtain ⟨rest, hrest, hpaths, hchunks⟩ := ih
    obtain ⟨fileId, names, imports, -, hrecord, hmade⟩ := hmade
    refine ⟨(file.relativePath, piece.2) :: rest, ?_, ?_, ?_⟩
    · intro other hother
      obtain rfl | hother := List.mem_cons.mp hother
      · have hat := chunksAt_chunksFor hparse hmade
        rwa [hrecord] at hat
      · exact hrest other hother
    · rw [List.map_cons, List.map_cons, hpaths]
    · rw [List.flatMap_cons, List.flatMap_cons, hchunks]

/-- An index is read back as it was exactly if its files were walked in the order of their paths:
the database orders the chunks by path. -/
theorem getRepositoryIndex_saved_iff (F : FullIndexer) (readTime : String → Option Timestamp)
    (root : String) (walk : Walk) (prior : Option IndexRecord) (snapshotId : String)
    (index : IndexRecord) (tables tables' : IndexTables) (hparse : F.ParsesLines)
    (hread : Readable readTime index.summaries)
    (h : F.record root walk prior snapshotId = .ok index)
    (hsave : tables.saveRepositoryIndex index = .ok tables') :
    tables'.getRepositoryIndex readTime snapshotId = .ok index ↔
      ((walk.files.filter F.keeps).map WalkedFile.relativePath).Pairwise (· ≤ ·) := by
  obtain ⟨made, -, hid, hfiles, -⟩ := record_ok h
  obtain ⟨pieces, hpieces, hpaths, hchunks⟩ := chunks_record hparse h
  have hsorted : index.snapshot.files.Pairwise fun a b => a.relativePath ≤ b.relativePath := by
    rw [hfiles]
    exact pairwise_sortRecords _
  have hids (file : FileRecord) (hfile : file ∈ index.snapshot.files) :
      file.snapshotId = index.snapshot.snapshotId := (snapshotId_files h hfile).trans hid.symm
  have hnodup : (pieces.map Prod.fst).Nodup := by
    rw [hpaths]
    exact walk.nodup_paths.sublist (List.filter_sublist.map _)
  have hnew (chunk : RepositoryChunk) (hchunk : chunk ∈ index.chunks) :
      chunk.snapshotId = index.snapshot.snapshotId := by
    rw [hchunks] at hchunk
    obtain ⟨piece, hpiece, hchunk⟩ := List.mem_flatMap.mp hchunk
    rw [(hpieces piece hpiece).snapshot chunk hchunk, hid]
  have hdistinct : (index.chunks.map chunkKey).Nodup := by
    rw [hchunks]
    exact nodup_chunkKey hpieces hnodup
  have hback := Table.select_insertAll_eq_iff (saveRepositoryIndex_ok hsave).2.2.1 hnew
    (unreferenced hsave).2 hdistinct
  have hload := getRepositoryIndex_saved hread hsave hsorted hids
  rw [← hpaths, ← sorted_chunks_iff hpieces hnodup, ← hchunks, ← hback, ← hid, hload]
  constructor
  · intro heq
    exact congrArg IndexRecord.chunks (Except.ok.inj heq)
  · intro hchunksOf
    rw [chunksOf, hchunksOf]

/-! ## Two files -/

/-- A hexadecimal digit for each character. -/
def hexDigest (codes : List Nat) : String :=
  String.ofList (codes.map fun code => Json.hexDigit (code % 16))

/-- An indexer at the start of the clock. -/
def clocklessIndexer : FullIndexer where
  sha256 raw := hexDigest (raw.map UInt8.toNat)
  sha256Digest text := hexDigest (text.toList.map Char.toNat)
  injectionIndicators _ _ := 0
  limits_positive := default_limits
  parse _ := .syntaxError
  lower := id
  guessType _ := none
  decodeReplacing _ := ""
  encodes _ := true
  newSummaryId relative := "reposum-" ++ hexDigest (relative.toList.map Char.toNat)
  indexedAt _ := 0
  summarizedAt _ := 0
  createdAt := 0

def emptyFile (relative : String) : WalkedFile := { relativePath := relative, size := 0, raw := [] }

/-- The walk of a directory with a file and a subdirectory. -/
def nestedWalk : Walk := { files := [emptyFile "b", emptyFile "a/x"], nodup_paths := by decide }

/-- The walk of a directory with two files. -/
def flatWalk : Walk := { files := [emptyFile "a", emptyFile "b"], nodup_paths := by decide }

def noIndexes : IndexTables where
  snapshots := .empty
  files := .empty
  chunks := .empty
  files_referenced := by simp [Table.empty]
  chunks_referenced := by simp [Table.empty]

/-- An index, the tables that it is saved in, and the index that is loaded from them. -/
def storedAndLoaded (walk : Walk) : Except Exn (IndexRecord × IndexTables × IndexRecord) := do
  let index ← clocklessIndexer.record "." walk none "s"
  let tables ← noIndexes.saveRepositoryIndex index
  let again ← tables.getRepositoryIndex (fun _ => some 0) "s"
  .ok (index, tables, again)

theorem storedAndLoaded_ok {walk : Walk} {again : IndexRecord} {tables : IndexTables}
    (h : storedAndLoaded walk = .ok (index, tables, again)) :
    clocklessIndexer.record "." walk none "s" = .ok index ∧
      noIndexes.saveRepositoryIndex index = .ok tables ∧
      tables.getRepositoryIndex (fun _ => some 0) "s" = .ok again := by
  obtain ⟨index', hindex, h⟩ := of_bind_ok h
  obtain ⟨tables', htables, h⟩ := of_bind_ok h
  obtain ⟨again', hagain, h⟩ := of_bind_ok h
  obtain ⟨rfl, hrest⟩ := Prod.mk.inj (Except.ok.inj h)
  obtain ⟨rfl, rfl⟩ := Prod.mk.inj hrest
  exact ⟨hindex, htables, hagain⟩

/-- The chunks of the file in the subdirectory come to stand before those of the other file. -/
theorem nested_chunks_reordered : ∃ index tables again,
    clocklessIndexer.record "." nestedWalk none "s" = .ok index ∧
    noIndexes.saveRepositoryIndex index = .ok tables ∧
    Readable (fun _ => some 0) index.summaries ∧
    tables.getRepositoryIndex (fun _ => some 0) "s" = .ok again ∧ again ≠ index ∧
    index.chunks.map RepositoryChunk.relativePath = ["b", "a/x"] ∧
    again.chunks.map RepositoryChunk.relativePath = ["a/x", "b"] := by
  have h : (storedAndLoaded nestedWalk).toOption.any (fun p =>
      p.1.summaries.all (fun summary => summary.createdAt = 0) ∧
      p.1.chunks.map RepositoryChunk.relativePath = ["b", "a/x"] ∧
      p.2.2.chunks.map RepositoryChunk.relativePath = ["a/x", "b"]) = true := by
    decide +kernel
  cases hall : storedAndLoaded nestedWalk with
  | error e =>
    rw [hall] at h
    cases h
  | ok p =>
    obtain ⟨index, tables, again⟩ := p
    rw [hall] at h
    obtain ⟨htimes, hchunks, hagain⟩ := of_decide_eq_true h
    obtain ⟨hrecord, hsave, hget⟩ := storedAndLoaded_ok hall
    refine ⟨index, tables, again, hrecord, hsave, ?_, hget, ?_, hchunks, hagain⟩
    · intro summary hsummary
      rw [of_decide_eq_true (List.all_eq_true.mp htimes summary hsummary)]
    · rintro rfl
      rw [hchunks] at hagain
      exact absurd hagain (by decide)

/-- Two files in one directory come back in their order. -/
theorem getRepositoryIndex_saved_flat : ∃ index tables,
    clocklessIndexer.record "." flatWalk none "s" = .ok index ∧
    noIndexes.saveRepositoryIndex index = .ok tables ∧
    tables.getRepositoryIndex (fun _ => some 0) "s" = .ok index := by
  have h : (storedAndLoaded flatWalk).toOption.any (fun p =>
      p.1.summaries.all (fun summary => summary.createdAt = 0)) = true := by
    decide +kernel
  cases hall : storedAndLoaded flatWalk with
  | error e =>
    rw [hall] at h
    cases h
  | ok p =>
    obtain ⟨index, tables, again⟩ := p
    rw [hall] at h
    obtain ⟨hrecord, hsave, -⟩ := storedAndLoaded_ok hall
    refine ⟨index, tables, hrecord, hsave, ?_⟩
    apply (getRepositoryIndex_saved_iff clocklessIndexer (fun _ => some 0) "." flatWalk none "s"
      index noIndexes tables (fun text body hbody => by cases hbody) _ hrecord hsave).mpr
    · decide +kernel
    · intro summary hsummary
      rw [of_decide_eq_true (List.all_eq_true.mp h summary hsummary)]

end FullIndexer

end DurableAgent.Repository
