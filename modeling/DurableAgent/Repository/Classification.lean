import DurableAgent.Repository.Indexing
import Mathlib.Data.Set.Card

/-!
# How the files of an index have changed

Each file of an index is classified against the index before, whatever index that is. The changes
that are recorded lead from the files that were live to those that are there, over any number of
generations.
-/

namespace DurableAgent.Repository

open Library

variable {I : LocalRepositoryIndexer} {walk : Walk} {previous : Option RepositoryIndex}
  {snapshotId root path hash : String} {again : RepositoryIndex} {item : RepositoryFile}

/-- The content hashes of the live files of an index. -/
def liveHash (index : Option RepositoryIndex) (path : String) : Option String :=
  (liveFile index path).map RepositoryFile.contentHash

/-- What the record of a file says of its path. -/
def change (item : RepositoryFile) : String × Option String :=
  (item.relativePath, if item.changeKind = .DELETED then none else some item.contentHash)

/-! ## Kinds of changes -/

section Kinds

variable {prior : Option RepositoryFile}

theorem changeKind_ne_deleted : changeKind prior hash ≠ .DELETED := by
  unfold changeKind
  split
  · simp
  · split <;> simp

theorem changeKind_eq_new : changeKind prior hash = .NEW ↔
    prior.map RepositoryFile.contentHash = none := by
  cases prior with
  | none => simp [changeKind]
  | some prior =>
    by_cases hsame : prior.contentHash = hash <;> simp [changeKind, hsame]

theorem changeKind_eq_unchanged : changeKind prior hash = .UNCHANGED ↔
    prior.map RepositoryFile.contentHash = some hash := by
  cases prior with
  | none => simp [changeKind]
  | some prior =>
    by_cases hsame : prior.contentHash = hash <;> simp [changeKind, hsame]

theorem changeKind_eq_modified : changeKind prior hash = .MODIFIED ↔
    ∃ other, prior.map RepositoryFile.contentHash = some other ∧ other ≠ hash := by
  cases prior with
  | none => simp [changeKind]
  | some prior =>
    by_cases hsame : prior.contentHash = hash <;> simp [changeKind, hsame]

end Kinds

/-! ## Records of an index -/

/-- The records are those of the files that are indexed, and of those that were live and are not. -/
theorem mem_unsorted : item ∈ unsorted I walk previous snapshotId ↔
    (∃ file ∈ walk.files.filter I.keeps,
      item = I.repositoryFile (previousByPath previous) snapshotId file) ∨
    ∃ prior, liveFile previous prior.relativePath = some prior ∧
      I.contents walk prior.relativePath = none ∧ item = tombstone snapshotId prior := by
  unfold unsorted
  dsimp only
  rw [List.mem_append, mem_tombstones, List.mem_map]
  apply or_congr
  · simp only [eq_comm]
  · constructor
    · rintro ⟨path, prior, hentry, hgone, rfl⟩
      obtain rfl := path_of_previousByPath hentry
      rw [mem_recorded_paths, not_not] at hgone
      rw [← Dict.get_eq_some, get_previousByPath] at hentry
      exact ⟨prior, hentry, hgone, rfl⟩
    · rintro ⟨prior, hlive, hgone, rfl⟩
      rw [← get_previousByPath, Dict.get_eq_some] at hlive
      refine ⟨_, prior, hlive, ?_, rfl⟩
      rw [mem_recorded_paths, not_not]
      exact hgone

theorem mem_files (h : I.index root walk previous snapshotId = .ok again) :
    item ∈ again.snapshot.files ↔ item ∈ unsorted I walk previous snapshotId := by
  obtain ⟨-, -, hfiles, -⟩ := index_eq_ok h
  rw [hfiles, (sortByPath_perm _).mem_iff]

/-- The record of a path is that of a file that is indexed, or a tombstone. -/
theorem record_cases (h : I.index root walk previous snapshotId = .ok again)
    (hitem : item ∈ again.snapshot.files) :
    item.isDeleted = false ∧ I.contents walk item.relativePath = some item.contentHash ∧
        item.changeKind = changeKind (liveFile previous item.relativePath) item.contentHash ∨
      item.isDeleted = true ∧ I.contents walk item.relativePath = none ∧
        item.changeKind = .DELETED ∧
        liveHash previous item.relativePath = some item.contentHash := by
  have hmem := (mem_files h).mp hitem
  obtain ⟨file, hfile, rfl⟩ | ⟨prior, hlive, hgone, rfl⟩ := mem_unsorted.mp hmem
  · left
    refine ⟨rfl, contents_eq_some.mpr ⟨file, hfile, rfl, rfl⟩, ?_⟩
    rw [← get_previousByPath]
    rfl
  · right
    refine ⟨rfl, hgone, rfl, ?_⟩
    change (liveFile previous prior.relativePath).map _ = some prior.contentHash
    rw [hlive, Option.map_some]

theorem exists_record (h : I.index root walk previous snapshotId = .ok again)
    (hthere : I.contents walk path = some hash) : ∃ item ∈ again.snapshot.files,
      item.relativePath = path ∧ item.isDeleted = false ∧ item.contentHash = hash := by
  obtain ⟨file, hfile, hpath, hhash⟩ := contents_eq_some.mp hthere
  exact ⟨_, (mem_files h).mpr (mem_unsorted.mpr (.inl ⟨file, hfile, rfl⟩)), hpath, rfl, hhash⟩

theorem exists_tombstone (h : I.index root walk previous snapshotId = .ok again)
    (hlive : liveHash previous path ≠ none) (hgone : I.contents walk path = none) :
    ∃ item ∈ again.snapshot.files, item.relativePath = path ∧ item.changeKind = .DELETED := by
  obtain ⟨hash, hhash⟩ := Option.ne_none_iff_exists'.mp hlive
  obtain ⟨prior, hprior, -⟩ := Option.map_eq_some_iff.mp hhash
  have hfound := List.find?_some hprior
  obtain ⟨-, rfl⟩ := of_decide_eq_true hfound
  refine ⟨tombstone snapshotId prior, (mem_files h).mpr (mem_unsorted.mpr (.inr ?_)), rfl, rfl⟩
  exact ⟨prior, hprior, hgone, rfl⟩

theorem listed_of_index (h : I.index root walk previous snapshotId = .ok again) :
    Listed again.snapshot.files := by
  obtain ⟨-, -, hfiles, -⟩ := index_eq_ok h
  rw [hfiles]
  exact listed_sortByPath unsorted_nodup

/-! ## The changes between two indexes -/

theorem change_keys (files : List RepositoryFile) :
    (files.map change).map Prod.fst = files.map RepositoryFile.relativePath := by
  rw [List.map_map]
  rfl

/-- The changes that are recorded lead from the live files to the present ones. -/
theorem applied_changes (h : I.index root walk previous snapshotId = .ok again) :
    applied (liveHash previous) (again.snapshot.files.map change) = I.contents walk := by
  have hnodup : ((again.snapshot.files.map change).map Prod.fst).Nodup := by
    rw [change_keys]
    exact (listed_of_index h).nodup
  have hchange {item : RepositoryFile} (hitem : item ∈ again.snapshot.files) :
      applied (liveHash previous) (again.snapshot.files.map change) item.relativePath =
        (change item).2 := applied_of_mem hnodup (List.mem_map_of_mem hitem)
  funext path
  cases hthere : I.contents walk path with
  | some hash =>
    obtain ⟨item, hitem, rfl, hdeleted, rfl⟩ := exists_record h hthere
    have hkind : item.changeKind ≠ .DELETED := by
      obtain ⟨-, -, hkind⟩ | ⟨hyes, -⟩ := record_cases h hitem
      · rw [hkind]
        exact changeKind_ne_deleted
      · simp [hdeleted] at hyes
    rw [hchange hitem, change, if_neg hkind]
  | none =>
    by_cases hlive : liveHash previous path = none
    · rw [applied_of_notMem, hlive]
      rw [change_keys]
      intro hpath
      obtain ⟨item, hitem, rfl⟩ := List.mem_map.mp hpath
      obtain ⟨-, hsome, -⟩ | ⟨-, -, -, hsome⟩ := record_cases h hitem
      · simp [hthere] at hsome
      · simp [hlive] at hsome
    · obtain ⟨item, hitem, rfl, hkind⟩ := exists_tombstone h hlive hthere
      rw [hchange hitem, change, if_pos hkind]

/-- The live files of an index that has been made are the present ones. -/
theorem liveHash_again (h : I.index root walk previous snapshotId = .ok again) :
    liveHash (some again) = I.contents walk := by
  funext path
  ext hash
  unfold liveHash liveFile
  rw [Option.map_some, Option.getD_some, Option.map_eq_some_iff]
  constructor
  · rintro ⟨item, hfound, rfl⟩
    have hitem := List.mem_reverse.mp (List.mem_of_find?_eq_some hfound)
    have hitself := List.find?_some hfound
    obtain ⟨hdeleted, rfl⟩ := of_decide_eq_true hitself
    obtain ⟨-, hthere, -⟩ | ⟨hyes, -⟩ := record_cases h hitem
    · exact hthere
    · simp [hdeleted] at hyes
  · intro hthere
    obtain ⟨item, hitem, hpath, hdeleted, hhash⟩ := exists_record h hthere
    refine ⟨item, ?_, hhash⟩
    cases hfound : again.snapshot.files.reverse.find? fun item =>
        item.isDeleted = false ∧ item.relativePath = path with
    | none =>
      have hnot := List.find?_eq_none.mp hfound item (List.mem_reverse.mpr hitem)
      exact absurd (decide_eq_true ⟨hdeleted, hpath⟩) hnot
    | some other =>
      have hother := List.mem_reverse.mp (List.mem_of_find?_eq_some hfound)
      have hitself := List.find?_some hfound
      obtain ⟨-, hsame⟩ := of_decide_eq_true hitself
      exact congrArg some (List.inj_on_of_nodup_map (listed_of_index h).nodup hother hitem
        (hsame.trans hpath.symm))

theorem fileCount_eq (h : I.index root walk previous snapshotId = .ok again) :
    again.snapshot.fileCount = again.snapshot.files.countP fun item => ¬ item.isDeleted := by
  unfold LocalRepositoryIndexer.index at h
  split at h
  · cases h
  · obtain ⟨done, -, hagain⟩ := Security.bind_eq_ok.mp h
    rw [← Except.ok.inj hagain]

/-- The files are counted that are there at present. -/
theorem fileCount_eq_ncard (h : I.index root walk previous snapshotId = .ok again) :
    again.snapshot.fileCount = {path | I.contents walk path ≠ none}.ncard := by
  let present := (again.snapshot.files.filter fun item => ¬ item.isDeleted).map
    RepositoryFile.relativePath
  have hnodup : present.Nodup :=
    (listed_of_index h).nodup.sublist (List.filter_sublist.map _)
  have hset : {path | I.contents walk path ≠ none} = present.toFinset := by
    ext path
    simp only [present, Set.mem_ofPred_eq, List.coe_toFinset, List.mem_map, List.mem_filter]
    constructor
    · intro hthere
      obtain ⟨hash, hhash⟩ := Option.ne_none_iff_exists'.mp hthere
      obtain ⟨item, hitem, hpath, hdeleted, -⟩ := exists_record h hhash
      exact ⟨item, ⟨hitem, by simp [hdeleted]⟩, hpath⟩
    · rintro ⟨item, ⟨hitem, hnot⟩, rfl⟩
      obtain ⟨-, hthere, -⟩ | ⟨hdeleted, -⟩ := record_cases h hitem
      · simp [hthere]
      · simp [hdeleted] at hnot
  rw [fileCount_eq h, hset, Set.ncard_coe_finset, List.toFinset_card_of_nodup hnodup,
    List.length_map, List.countP_eq_length_filter]

/-- The classification of the files of an index against the index before. -/
structure Classified (I : LocalRepositoryIndexer) (walk : Walk) (previous : Option RepositoryIndex)
    (again : RepositoryIndex) : Prop where
  /-- Each path is there once, in order. -/
  listed : Listed again.snapshot.files
  indexed : ∀ path hash, I.contents walk path = some hash ↔ ∃ item ∈ again.snapshot.files,
    item.relativePath = path ∧ item.isDeleted = false ∧ item.contentHash = hash
  new : ∀ item ∈ again.snapshot.files, item.isDeleted = false →
    (item.changeKind = .NEW ↔ liveHash previous item.relativePath = none)
  unchanged : ∀ item ∈ again.snapshot.files, item.isDeleted = false →
    (item.changeKind = .UNCHANGED ↔
      liveHash previous item.relativePath = some item.contentHash)
  modified : ∀ item ∈ again.snapshot.files, item.isDeleted = false →
    (item.changeKind = .MODIFIED ↔
      ∃ hash, liveHash previous item.relativePath = some hash ∧ hash ≠ item.contentHash)
  marked : ∀ item ∈ again.snapshot.files, item.changeKind = .DELETED ↔ item.isDeleted = true
  /-- What was live and is not indexed is there as deleted, and nothing else. -/
  deleted : ∀ path, (∃ item ∈ again.snapshot.files,
    item.relativePath = path ∧ item.changeKind = .DELETED) ↔
      liveHash previous path ≠ none ∧ I.contents walk path = none
  /-- The changes lead from the files that were live to those that are there. -/
  applied : applied (liveHash previous) (again.snapshot.files.map change) = I.contents walk
  live : liveHash (some again) = I.contents walk
  count : again.snapshot.fileCount = {path | I.contents walk path ≠ none}.ncard

/-- Every index that is made classifies the files against the index before, whatever that is. -/
theorem index_classified (I : LocalRepositoryIndexer) (root : String) (walk : Walk)
    (previous : Option RepositoryIndex) (snapshotId : String) (again : RepositoryIndex)
    (h : I.index root walk previous snapshotId = .ok again) :
    Classified I walk previous again := by
  have hpresent {item : RepositoryFile} (hitem : item ∈ again.snapshot.files)
      (hdeleted : item.isDeleted = false) : item.changeKind =
        changeKind (liveFile previous item.relativePath) item.contentHash := by
    obtain ⟨-, -, hkind⟩ | ⟨hyes, -⟩ := record_cases h hitem
    · exact hkind
    · simp [hdeleted] at hyes
  constructor
  · exact listed_of_index h
  · intro path hash
    constructor
    · exact exists_record h
    · rintro ⟨item, hitem, rfl, hdeleted, rfl⟩
      obtain ⟨-, hthere, -⟩ | ⟨hyes, -⟩ := record_cases h hitem
      · exact hthere
      · simp [hdeleted] at hyes
  · intro item hitem hdeleted
    rw [hpresent hitem hdeleted, changeKind_eq_new]
    rfl
  · intro item hitem hdeleted
    rw [hpresent hitem hdeleted, changeKind_eq_unchanged]
    rfl
  · intro item hitem hdeleted
    rw [hpresent hitem hdeleted, changeKind_eq_modified]
    rfl
  · intro item hitem
    obtain ⟨hdeleted, -, hkind⟩ | ⟨hdeleted, -, hkind, -⟩ := record_cases h hitem
    · rw [hkind, hdeleted]
      simp [changeKind_ne_deleted]
    · rw [hkind, hdeleted]
      simp
  · intro path
    constructor
    · rintro ⟨item, hitem, rfl, hdeleted⟩
      obtain ⟨-, -, hkind⟩ | ⟨-, hgone, -, hlive⟩ := record_cases h hitem
      · exact absurd (hkind.symm.trans hdeleted) changeKind_ne_deleted
      · exact ⟨by simp [hlive], hgone⟩
    · rintro ⟨hlive, hgone⟩
      exact exists_tombstone h hlive hgone
  · exact applied_changes h
  · exact liveHash_again h
  · exact fileCount_eq_ncard h

/-- The digests are the texts themselves. -/
def textIndexer : LocalRepositoryIndexer where
  sha256 raw := String.ofList (raw.map fun byte => Char.ofNat byte.toNat)
  sha256Digest := id
  injectionIndicators _ _ := 0
  limits_positive := default_limits

def recorded (path hash : String) (isDeleted : Bool) : RepositoryFile where
  snapshotId := "snap-1"
  relativePath := path
  contentHash := hash
  sizeBytes := 1
  isDeleted := isDeleted

/-- An index of two files and a tombstone. -/
def firstIndex : RepositoryIndex where
  snapshot :=
    { snapshotId := "snap-1", root := "/r", manifestHash := "", fileCount := 2, totalBytes := 2
      files := [recorded "a" "a" false, recorded "b" "b" false, recorded "c" "c" true] }

/-- The first file has changed, the second is gone, and the third is back. -/
def secondWalk : Walk where
  files := [{ relativePath := "a", size := 1, raw := [98] },
    { relativePath := "c", size := 1, raw := [99] }]
  nodup_paths := by decide

theorem index_classified_second : ∃ again,
    textIndexer.index "/r" secondWalk (some firstIndex) "snap-2" = .ok again ∧
      Classified textIndexer secondWalk (some firstIndex) again := by
  have hok : (textIndexer.index "/r" secondWalk (some firstIndex) "snap-2").isOk = true := by
    decide +kernel
  cases h : textIndexer.index "/r" secondWalk (some firstIndex) "snap-2" with
  | error e =>
    rw [h] at hok
    cases hok
  | ok again => exact ⟨again, rfl, index_classified textIndexer "/r" _ _ "snap-2" again h⟩

/-! ## Generations -/

/-- Indexes that are made one after the other, each against the one before. -/
inductive Generations (I : LocalRepositoryIndexer) :
    Option RepositoryIndex → List RepositoryIndex → Prop where
  | last (previous : Option RepositoryIndex) : Generations I previous []
  | next {root : String} {walk : Walk} {previous : Option RepositoryIndex} {snapshotId : String}
      {again : RepositoryIndex} {later : List RepositoryIndex}
      (h : I.index root walk previous snapshotId = .ok again)
      (hlater : Generations I (some again) later) : Generations I previous (again :: later)

/-- The changes of any number of generations, in turn, lead to the files of the last. -/
theorem Generations.applied {generations : List RepositoryIndex}
    (h : Generations I previous generations) :
    Library.applied (liveHash previous)
        (generations.flatMap fun index => index.snapshot.files.map change) =
      liveHash (generations.getLast?.or previous) := by
  induction h with
  | last previous => rfl
  | @next root walk previous snapshotId again later h hlater ih =>
    rw [List.flatMap_cons, applied_append, applied_changes h, ← liveHash_again h, ih,
      List.getLast?_cons]
    cases later.getLast? <;> rfl

end DurableAgent.Repository
