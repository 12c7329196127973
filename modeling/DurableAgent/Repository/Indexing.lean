import DurableAgent.Domain.Commitment
import DurableAgent.Library.Generation
import DurableAgent.Library.Table
import DurableAgent.Repository.Indexer
import DurableAgent.Security.Paths
import Mathlib.Data.String.Basic

/-!
# What an index records

An index lists the next generation of the repository: the present files with their content
hashes, and tombstones for the files of the index before that are gone. Its manifest hash stands
for exactly that.
-/

namespace DurableAgent.Repository

open Library

variable {I : LocalRepositoryIndexer} {previous : PreviousByPath} {snapshotId path : String}

/-! ## Files -/

/-- A file under distinct paths is found under its own. -/
theorem find_path {files : List RepositoryFile}
    (h : (files.map RepositoryFile.relativePath).Nodup) {file : RepositoryFile} :
    files.find? (fun item => item.relativePath = path) = some file ↔
      file ∈ files ∧ file.relativePath = path :=
  Table.find_eq_some (t := ⟨files, h⟩)

/-- What the files say of each path. -/
def generation (files : List RepositoryFile) : Generation String String := fun path =>
  (files.find? fun item => item.relativePath = path).map fun item =>
    (item.contentHash, item.isDeleted)

theorem generation_eq_some {files : List RepositoryFile}
    (h : (files.map RepositoryFile.relativePath).Nodup) {hash : String} {deleted : Bool} :
    generation files path = some (hash, deleted) ↔ ∃ file ∈ files,
      file.relativePath = path ∧ file.contentHash = hash ∧ file.isDeleted = deleted := by
  unfold generation
  rw [Option.map_eq_some_iff]
  constructor
  · rintro ⟨file, hfile, heq⟩
    obtain ⟨hmem, hpath⟩ := (find_path h).mp hfile
    obtain ⟨rfl, rfl⟩ := Prod.mk.inj heq
    exact ⟨file, hmem, hpath, rfl, rfl⟩
  · rintro ⟨file, hmem, hpath, rfl, rfl⟩
    exact ⟨file, (find_path h).mpr ⟨hmem, hpath⟩, rfl⟩

/-- The files of an index, one for each path in the order of the paths. -/
def Listed (files : List RepositoryFile) : Prop :=
  files.Pairwise fun a b => a.relativePath < b.relativePath

theorem Listed.nodup {files : List RepositoryFile} (h : Listed files) :
    (files.map RepositoryFile.relativePath).Nodup := by
  rw [List.Nodup, List.pairwise_map]
  exact h.imp fun hab => ne_of_lt hab

theorem sortByPath_perm (files : List RepositoryFile) : (sortByPath files).Perm files :=
  List.perm_insertionSort _ files

theorem listed_sortByPath {files : List RepositoryFile}
    (h : (files.map RepositoryFile.relativePath).Nodup) : Listed (sortByPath files) := by
  have hsorted : (sortByPath files).Pairwise fun a b => a.relativePath ≤ b.relativePath :=
    List.pairwise_insertionSort _ files
  have hnodup := (List.Perm.map RepositoryFile.relativePath (sortByPath_perm files)).nodup_iff.mpr h
  rw [List.Nodup, List.pairwise_map] at hnodup
  exact (hsorted.and hnodup).imp fun hab => lt_of_le_of_ne hab.1 hab.2

/-- Sorting changes nothing that the files say of the paths. -/
theorem generation_sortByPath {files : List RepositoryFile}
    (h : (files.map RepositoryFile.relativePath).Nodup) :
    generation (sortByPath files) = generation files := by
  funext path
  ext ⟨hash, deleted⟩
  rw [generation_eq_some (listed_sortByPath h).nodup, generation_eq_some h]
  simp only [(sortByPath_perm files).mem_iff]

/-! ## Manifests -/

/-- What a manifest says of a file. -/
def triple (item : RepositoryFile) : String × String × Bool :=
  (item.relativePath, item.contentHash, item.isDeleted)

/-- Two manifests are one text exactly if they say the same. -/
theorem canonicalJson_manifest {files files' : List RepositoryFile} :
    canonicalJson (manifest files) = canonicalJson (manifest files') ↔
      files.map triple = files'.map triple := by
  have hmanifest (files : List RepositoryFile) : manifest files =
      .arr ((files.map triple).map fun t =>
        .obj [("path", .str t.1), ("hash", .str t.2.1), ("deleted", .bool t.2.2)]) := by
    rw [manifest, List.map_map]
    rfl
  constructor
  · intro h
    have hsorted := sorted_eq_of_canonicalJson_eq h
    rw [hmanifest, hmanifest] at hsorted
    refine Json.arr_injective (fun a b hab => ?_) hsorted
    simp [Json.sorted, Json.sortedFields, List.insertionSort, List.orderedInsert] at hab
    exact Prod.ext hab.2.2 (Prod.ext hab.2.1 hab.1)
  · intro h
    rw [hmanifest, hmanifest, h]

/-- Listed files say the same in the same order when they say the same of every path. -/
theorem triples_eq_iff {files files' : List RepositoryFile} (h : Listed files)
    (h' : Listed files') : files.map triple = files'.map triple ↔
      generation files = generation files' := by
  have hmem {l : List RepositoryFile} (hl : Listed l) (path hash : String) (deleted : Bool) :
      (path, hash, deleted) ∈ l.map triple ↔ generation l path = some (hash, deleted) := by
    rw [generation_eq_some hl.nodup, List.mem_map]
    simp [triple]
  have hsorted {l : List RepositoryFile} (hl : Listed l) :
      (l.map triple).Pairwise fun a b => a.1 < b.1 := List.pairwise_map.mpr hl
  constructor
  · intro heq
    funext path
    ext ⟨hash, deleted⟩
    rw [← hmem h, ← hmem h', heq]
  · intro heq
    have : Std.Irrefl fun a b : String × String × Bool => a.1 < b.1 := ⟨fun a => lt_irrefl a.1⟩
    refine List.Pairwise.eq_of_mem_iff (hsorted h) (hsorted h') fun t => ?_
    obtain ⟨path, hash, deleted⟩ := t
    rw [hmem h, hmem h', heq]

/-! ## The loop over the walk -/

/-- A file that is not skipped. -/
def LocalRepositoryIndexer.keeps (I : LocalRepositoryIndexer) (file : WalkedFile) : Bool :=
  file.size ≤ I.maximumFileBytes ∧ decodesText file.raw = true

/-- The content hash of each path that is indexed. -/
def LocalRepositoryIndexer.contents (I : LocalRepositoryIndexer) (walk : Walk) :
    String → Option String := fun path =>
  ((walk.files.filter I.keeps).find? fun file => file.relativePath = path).map fun file =>
    I.sha256 file.raw

theorem indexFile_ok {done done' : Indexed} {file : WalkedFile}
    (h : I.indexFile previous snapshotId done file = .ok done') :
    done'.files = done.files ++
      ([file].filter I.keeps).map (I.repositoryFile previous snapshotId) := by
  unfold LocalRepositoryIndexer.indexFile at h
  dsimp only at h
  split at h
  · next hsize =>
    have hskip : I.keeps file = false := by
      simp [LocalRepositoryIndexer.keeps]
      omega
    rw [← Except.ok.inj h, List.filter_cons_of_neg (by simp [hskip])]
    simp
  · next hsize =>
    split at h
    · cases h
    · split at h
      · cases h
      · split at h
        · next htext =>
          have hskip : I.keeps file = false := by simp [LocalRepositoryIndexer.keeps, htext]
          rw [← Except.ok.inj h, List.filter_cons_of_neg (by simp [hskip])]
          simp
        · next htext =>
          have hkeep : I.keeps file = true := by
            simp [LocalRepositoryIndexer.keeps, htext]
            omega
          rw [← Except.ok.inj h, List.filter_cons_of_pos hkeep]
          simp

theorem indexFiles_ok {files : List WalkedFile} {done done' : Indexed}
    (h : I.indexFiles previous snapshotId files done = .ok done') :
    done'.files = done.files ++
      (files.filter I.keeps).map (I.repositoryFile previous snapshotId) := by
  induction files generalizing done with
  | nil =>
    rw [← Except.ok.inj h]
    simp
  | cons file rest ih =>
    obtain ⟨done₁, hfile, hrest⟩ := Security.bind_eq_ok.mp h
    have hhead := indexFile_ok hfile
    have htail := ih hrest
    rw [htail, hhead, List.append_assoc, ← List.map_append, ← List.filter_append]
    rfl

/-! ## Indexes -/

/-- An index as the indexer makes it. -/
structure Wellformed (sha256Digest : String → String) (index : RepositoryIndex) : Prop where
  listed : Listed index.snapshot.files
  manifestHash : index.snapshot.manifestHash =
    sha256Digest (canonicalJson (manifest index.snapshot.files))
  /-- `""` is no identifier. -/
  named : index.snapshot.snapshotId ≠ ""

/-- What an index says of each path; without an index nothing is known. -/
def generationOf (index : Option RepositoryIndex) : Generation String String :=
  generation ((index.map fun index => index.snapshot.files).getD [])

/-- Two indexes have one manifest hash exactly if they say the same of every path. -/
theorem Wellformed.manifestHash_eq_iff {sha256Digest : String → String} {a b : RepositoryIndex}
    (hsha : Function.Injective sha256Digest) (ha : Wellformed sha256Digest a)
    (hb : Wellformed sha256Digest b) : a.snapshot.manifestHash = b.snapshot.manifestHash ↔
      generationOf (some a) = generationOf (some b) := by
  rw [ha.manifestHash, hb.manifestHash, hsha.eq_iff, canonicalJson_manifest]
  exact triples_eq_iff ha.listed hb.listed

/-- The file that is in an index under a path, the last one where there are several. -/
def liveFile (index : Option RepositoryIndex) (path : String) : Option RepositoryFile :=
  ((index.map fun index => index.snapshot.files).getD []).reverse.find? fun item =>
    item.isDeleted = false ∧ item.relativePath = path

/-- The files of the index before are those that are in it, whatever index it is. -/
theorem get_previousByPath (index : Option RepositoryIndex) (path : String) :
    (previousByPath index).get path = liveFile index path := by
  cases index with
  | none => rfl
  | some index =>
    rw [previousByPath, Dict.get_ofPairs, ← List.map_reverse, ← List.filter_reverse, List.find?_map,
      List.find?_filter, Option.map_map]
    simp only [Function.comp_def, Option.map_id_fun', id_eq, decide_eq_true_eq]
    rfl

theorem path_of_previousByPath {index : Option RepositoryIndex} {file : RepositoryFile}
    (h : (path, file) ∈ (previousByPath index).entries) : file.relativePath = path := by
  rw [← Dict.get_eq_some, get_previousByPath] at h
  have hfound := List.find?_some h
  exact (of_decide_eq_true hfound).2

/-- The files of the index before by their paths. -/
theorem mem_previousByPath {index : Option RepositoryIndex}
    (h : ∀ i ∈ index, Wellformed I.sha256Digest i) {file : RepositoryFile} :
    (path, file) ∈ (previousByPath index).entries ↔
      ∃ i ∈ index, file ∈ i.snapshot.files ∧ file.isDeleted = false ∧ file.relativePath = path := by
  cases index with
  | none => simp [previousByPath, Dict.empty]
  | some i =>
    have hnodup : (((i.snapshot.files.filter fun item => item.isDeleted = false).map fun item =>
        (item.relativePath, item)).map Prod.fst).Nodup := by
      rw [List.map_map]
      exact (h i rfl).listed.nodup.sublist (List.filter_sublist.map _)
    rw [previousByPath, Dict.ofPairs_entries hnodup]
    simp
    tauto

theorem previousByPath_live {index : Option RepositoryIndex}
    (h : ∀ i ∈ index, Wellformed I.sha256Digest i) {hash : String} :
    (generationOf index).live path = some hash ↔
      ∃ file, (path, file) ∈ (previousByPath index).entries ∧ file.contentHash = hash := by
  rw [Generation.live_eq_some]
  cases index with
  | none => simp [generationOf, generation, previousByPath, Dict.empty]
  | some i =>
    have hnodup := (h i rfl).listed.nodup
    simp only [mem_previousByPath h, Option.mem_some_iff, exists_eq_left']
    rw [generationOf, Option.map_some, Option.getD_some, generation_eq_some hnodup]
    constructor
    · rintro ⟨file, hfile, hpath, hhash, hdeleted⟩
      exact ⟨file, ⟨hfile, hdeleted, hpath⟩, hhash⟩
    · rintro ⟨file, ⟨hfile, hdeleted, hpath⟩, hhash⟩
      exact ⟨file, hfile, hpath, hhash, hdeleted⟩

theorem mem_tombstones {seen : List String} {file : RepositoryFile} :
    file ∈ tombstones previous snapshotId seen ↔
      ∃ path prior, (path, prior) ∈ previous.entries ∧ path ∉ seen ∧
        file = tombstone snapshotId prior := by
  unfold tombstones
  simp only [List.mem_map, List.mem_filter, List.mem_insertionSort, decide_eq_true_iff]
  constructor
  · rintro ⟨⟨path, prior⟩, ⟨hentry, hseen⟩, rfl⟩
    exact ⟨path, prior, hentry, hseen, rfl⟩
  · rintro ⟨path, prior, hentry, hseen, rfl⟩
    exact ⟨(path, prior), ⟨hentry, hseen⟩, rfl⟩

/-- The paths of the tombstones are those under which the gone files were known. -/
theorem tombstones_paths (index : Option RepositoryIndex) (seen : List String) :
    ((tombstones (previousByPath index) snapshotId seen).map RepositoryFile.relativePath).Nodup ∧
      ∀ file ∈ tombstones (previousByPath index) snapshotId seen, file.relativePath ∉ seen := by
  constructor
  · have hsorted := List.perm_insertionSort
      (fun a b : String × RepositoryFile => a.1 ≤ b.1) (previousByPath index).entries
    have hkeys := (hsorted.map Prod.fst).nodup_iff.mpr (previousByPath index).nodup_keys
    rw [tombstones, List.map_map, List.map_congr_left (g := Prod.fst)]
    · exact hkeys.sublist (List.filter_sublist.map _)
    · intro entry hentry
      have hmem := hsorted.mem_iff.mp (List.mem_of_mem_filter hentry)
      have hpath : entry.2.relativePath = entry.1 := path_of_previousByPath hmem
      exact hpath
  · intro file hfile
    obtain ⟨path, prior, hentry, hseen, rfl⟩ := mem_tombstones.mp hfile
    change prior.relativePath ∉ seen
    rw [path_of_previousByPath hentry]
    exact hseen

theorem contents_eq_some {walk : Walk} {hash : String} :
    I.contents walk path = some hash ↔
      ∃ file ∈ walk.files.filter I.keeps, file.relativePath = path ∧ I.sha256 file.raw = hash := by
  have hnodup := walk.nodup_paths.sublist ((List.filter_sublist (p := I.keeps)).map _)
  have hfind (file : WalkedFile) := @Table.find_eq_some _ _ _ _
    ⟨walk.files.filter I.keeps, hnodup⟩ path file
  unfold LocalRepositoryIndexer.contents
  rw [Option.map_eq_some_iff]
  constructor
  · rintro ⟨file, hfile, rfl⟩
    obtain ⟨hmem, hpath⟩ := (hfind file).mp hfile
    exact ⟨file, hmem, hpath, rfl⟩
  · rintro ⟨file, hmem, hpath, rfl⟩
    exact ⟨file, (hfind file).mpr ⟨hmem, hpath⟩, rfl⟩

section Index

variable {root : String} {walk : Walk} {index : Option RepositoryIndex} {again : RepositoryIndex}

/-- The present files with the tombstones of an index. -/
def unsorted (I : LocalRepositoryIndexer) (walk : Walk) (index : Option RepositoryIndex)
    (snapshotId : String) : List RepositoryFile :=
  let present := (walk.files.filter I.keeps).map (I.repositoryFile (previousByPath index) snapshotId)
  present ++ tombstones (previousByPath index) snapshotId (present.map RepositoryFile.relativePath)

theorem index_eq_ok (h : I.index root walk index snapshotId = .ok again) :
    again.snapshot.snapshotId = snapshotId ∧ snapshotId ≠ "" ∧
      again.snapshot.files = sortByPath (unsorted I walk index snapshotId) ∧
      again.snapshot.manifestHash =
        I.sha256Digest (canonicalJson (manifest again.snapshot.files)) := by
  unfold LocalRepositoryIndexer.index at h
  split at h
  · cases h
  · next hid =>
    obtain ⟨done, hdone, hagain⟩ := Security.bind_eq_ok.mp h
    have hfiles := indexFiles_ok hdone
    rw [List.nil_append] at hfiles
    rw [← Except.ok.inj hagain, hfiles]
    refine ⟨rfl, ?_, rfl, rfl⟩
    rintro rfl
    simp at hid

theorem unsorted_nodup :
    ((unsorted I walk index snapshotId).map RepositoryFile.relativePath).Nodup := by
  unfold unsorted
  dsimp only
  rw [List.map_append, List.nodup_append]
  obtain ⟨hnodup, hgone⟩ := @tombstones_paths snapshotId index
    (((walk.files.filter I.keeps).map
      (I.repositoryFile (previousByPath index) snapshotId)).map RepositoryFile.relativePath)
  refine ⟨?_, hnodup, ?_⟩
  · rw [List.map_map]
    exact walk.nodup_paths.sublist ((List.filter_sublist (p := I.keeps)).map _)
  · rintro path hpath other hother rfl
    obtain ⟨file, hfile, rfl⟩ := List.mem_map.mp hother
    exact hgone file hfile hpath

/-- The paths of the records are those with contents. -/
theorem mem_recorded_paths : path ∈ (((walk.files.filter I.keeps).map
    (I.repositoryFile previous snapshotId)).map RepositoryFile.relativePath) ↔
    I.contents walk path ≠ none := by
  rw [Option.ne_none_iff_exists', List.map_map]
  simp only [contents_eq_some, List.mem_map]
  constructor
  · rintro ⟨file, hfile, rfl⟩
    exact ⟨_, file, hfile, rfl, rfl⟩
  · rintro ⟨hash, file, hfile, hpath, -⟩
    exact ⟨file, hfile, hpath⟩

/-- The files are the next generation. -/
theorem generation_unsorted (hindex : ∀ i ∈ index, Wellformed I.sha256Digest i) :
    generation (unsorted I walk index snapshotId) = (generationOf index).next (I.contents walk) := by
  funext path
  ext ⟨hash, deleted⟩
  rw [generation_eq_some (unsorted_nodup)]
  unfold unsorted
  simp only [List.mem_append, mem_tombstones]
  constructor
  · rintro ⟨file, hfile | ⟨p, prior, hprior, hgone, rfl⟩, hpath, hhash, hdeleted⟩
    · obtain ⟨walked, hwalked, rfl⟩ := List.mem_map.mp hfile
      have hthere : I.contents walk path = some hash :=
        contents_eq_some.mpr ⟨walked, hwalked, hpath, hhash⟩
      rw [Generation.next_of_some hthere, ← hdeleted]
      rfl
    · obtain ⟨-, -, -, -, hp⟩ := (mem_previousByPath hindex).mp hprior
      obtain rfl : p = path := hp.symm.trans hpath
      rw [mem_recorded_paths, not_not] at hgone
      obtain rfl : true = deleted := hdeleted
      exact Generation.next_eq_tombstone.mpr
        ⟨hgone, (previousByPath_live hindex).mpr ⟨prior, hprior, hhash⟩⟩
  · intro hnext
    cases deleted with
    | false =>
      have hthere := Generation.live_eq_some.mpr hnext
      rw [Generation.live_next] at hthere
      obtain ⟨walked, hwalked, hpath, hhash⟩ := contents_eq_some.mp hthere
      exact ⟨_, .inl (List.mem_map_of_mem hwalked), hpath, hhash, rfl⟩
    | true =>
      obtain ⟨hgone, hlive⟩ := Generation.next_eq_tombstone.mp hnext
      obtain ⟨prior, hprior, hhash⟩ := (previousByPath_live hindex).mp hlive
      obtain ⟨-, -, -, -, hp⟩ := (mem_previousByPath hindex).mp hprior
      refine ⟨_, .inr ⟨path, prior, hprior, ?_, rfl⟩, hp, hhash, rfl⟩
      rw [mem_recorded_paths, not_not]
      exact hgone

/-- What indexing raises. -/
def Refused (e : Exn) : Prop := ∃ message, e = .of .domainValidation message ∨
  e = .of .securityPolicy message

theorem indexFile_error {done : Indexed} {file : WalkedFile} {e : Exn}
    (h : I.indexFile previous snapshotId done file = .error e) : Refused e := by
  unfold LocalRepositoryIndexer.indexFile at h
  dsimp only at h
  split at h
  · cases h
  · split at h
    · exact ⟨_, .inl (Except.error.inj h).symm⟩
    · split at h
      · exact ⟨_, .inr (Except.error.inj h).symm⟩
      · split at h <;> cases h

theorem indexFiles_error {files : List WalkedFile} {done : Indexed} {e : Exn}
    (h : I.indexFiles previous snapshotId files done = .error e) : Refused e := by
  induction files generalizing done with
  | nil => cases h
  | cons file rest ih =>
    unfold LocalRepositoryIndexer.indexFiles at h
    cases hfile : I.indexFile previous snapshotId done file with
    | error e' =>
      rw [hfile] at h
      rw [← Except.error.inj h]
      exact indexFile_error hfile
    | ok done' =>
      rw [hfile] at h
      exact ih h

theorem index_error {e : Exn} (h : I.index root walk index snapshotId = .error e) : Refused e := by
  unfold LocalRepositoryIndexer.index at h
  split at h
  · exact ⟨_, .inl (Except.error.inj h).symm⟩
  · cases hdone : I.indexFiles (previousByPath index) snapshotId walk.files {} with
    | error e' =>
      rw [hdone] at h
      rw [← Except.error.inj h]
      exact indexFiles_error hdone
    | ok done =>
      rw [hdone] at h
      cases h

/-- What indexing comes to: the next generation, under the identifier asked for. -/
theorem index_ok (hindex : ∀ i ∈ index, Wellformed I.sha256Digest i)
    (h : I.index root walk index snapshotId = .ok again) :
    again.snapshot.snapshotId = snapshotId ∧ Wellformed I.sha256Digest again ∧
      generationOf (some again) = (generationOf index).next (I.contents walk) := by
  obtain ⟨hid, hnamed, hfiles, hhash⟩ := index_eq_ok h
  refine ⟨hid, ⟨?_, hhash, ?_⟩, ?_⟩
  · rw [hfiles]
    exact listed_sortByPath (unsorted_nodup)
  · rw [hid]
    exact hnamed
  · rw [generationOf, Option.map_some, Option.getD_some, hfiles,
      generation_sortByPath (unsorted_nodup)]
    exact generation_unsorted hindex

end Index

/-! ## Indexing once more -/

/-- The files that an index gives as present, with their content hashes. -/
def contentsOf (index : RepositoryIndex) : String → Option String := (generationOf (some index)).live

/-- The index records that files were deleted. -/
def recordsDeletions (index : RepositoryIndex) : Bool :=
  index.snapshot.files.any RepositoryFile.isDeleted

theorem Wellformed.buries_iff {sha256Digest : String → String} {index : RepositoryIndex}
    (h : Wellformed sha256Digest index) :
    (generationOf (some index)).Buries ↔ recordsDeletions index = true := by
  unfold Generation.Buries recordsDeletions
  rw [List.any_eq_true]
  simp only [generationOf, Option.map_some, Option.getD_some, generation_eq_some h.listed.nodup]
  constructor
  · rintro ⟨-, -, file, hfile, -, -, hdeleted⟩
    exact ⟨file, hfile, hdeleted⟩
  · rintro ⟨file, hfile, hdeleted⟩
    exact ⟨_, _, file, hfile, rfl, rfl, hdeleted⟩

/-- Indexing against an index comes to its manifest hash exactly if the contents are the same and
the index records no deletion. -/
theorem reindex_same_iff (hsha : Function.Injective I.sha256Digest) {root : String} {walk : Walk}
    {index again : RepositoryIndex} (hindex : Wellformed I.sha256Digest index)
    (h : I.index root walk (some index) snapshotId = .ok again) :
    again.snapshot.manifestHash = index.snapshot.manifestHash ↔
      I.contents walk = contentsOf index ∧ recordsDeletions index = false := by
  obtain ⟨-, hagain, hnext⟩ := index_ok (by simpa using hindex) h
  rw [hagain.manifestHash_eq_iff hsha hindex, hnext, Generation.next_eq_iff, hindex.buries_iff,
    Bool.not_eq_true]
  rfl

end DurableAgent.Repository
