import Mathlib.Data.List.TakeWhile
import Mathlib.Data.String.Basic
import DurableAgent.Domain.Base
import DurableAgent.Domain.Errors
import DurableAgent.Library.Table
import DurableAgent.Security.FileTree

/-!
# Retention of artifacts

The pass over the directory of the artifacts that removes the old files nobody has catalogued. The
pass stops at a symbolic link, and what it has removed by then stays removed. Nobody else writes to
the directory meanwhile.
-/

namespace DurableAgent.Artifacts

open Library Security

/-- An entry of the directory with what `lstat` tells of it; every other kind of inode counts as a
directory. -/
structure ArtifactEntry where
  name : String
  node : Node
  modified : Timestamp
  deriving DecidableEq

abbrev ArtifactRoot := Table ArtifactEntry.name

/-- `_ARTIFACT_ID.fullmatch` -/
def isArtifactId (name : String) : Bool :=
  match name.toList with
  | [] => false
  | first :: rest => first.isAlphanum && decide (rest.length ≤ 127) &&
      rest.all fun c => c.isAlphanum || c = '_' || c = '.' || c = '-'

/-- The names of artifacts and of what a write that was interrupted has left. -/
def artifactLike (name : String) : Bool :=
  isArtifactId name || ".artifact-".toList.isPrefixOf name.toList

def lstat (root : ArtifactRoot) (name : String) : Except Exn ArtifactEntry :=
  match root.find name with
  | some entry => .ok entry
  | none => .error (.other s!"[Errno 2] No such file or directory: {name}")

def unlink (root : ArtifactRoot) (name : String) : ArtifactRoot where
  rows := root.rows.filter fun entry => entry.name ≠ name
  nodup_keys := root.nodup_keys.sublist (List.filter_sublist.map _)

def refusal (name : String) : Exn :=
  .of .securityPolicy s!"refusing retention cleanup with symlink artifact: {name}"

variable (known : List String) (olderThan : Timestamp) (dryRun : Bool)

/-- The body of the loop: whether the entry is a candidate, and what it leaves. -/
def visit (root : ArtifactRoot) (name : String) : Except Exn (Bool × ArtifactRoot) :=
  if name = ".gitkeep" ∨ name ∈ known then .ok (false, root)
  else do
    let metadata ← lstat root name
    match metadata.node with
    | .link _ => .error (refusal name)
    | .directory => .ok (false, root)
    | .file _ =>
      if artifactLike name = false ∨ olderThan ≤ metadata.modified then .ok (false, root)
      else if dryRun then .ok (true, root)
      else
        -- the class and the age are looked at again before the removal
        let current ← lstat root name
        match current.node with
        | .file _ => .ok (true, if current.modified < olderThan then unlink root name else root)
        | _ => .error (.of .securityPolicy
            s!"artifact changed type during retention cleanup: {name}")

def pruneEntries : List String → ArtifactRoot → Except Exn (List String) × ArtifactRoot
  | [], root => (.ok [], root)
  | name :: rest, root =>
    match visit known olderThan dryRun root name with
    | .error e => (.error e, root)
    | .ok (candidate, left) =>
      let (candidates, pruned) := pruneEntries rest left
      (candidates.map fun names => if candidate then name :: names else names, pruned)

attribute [local simp] pruneEntries

/-- The entries by their names. -/
def sorted (root : ArtifactRoot) : List ArtifactEntry :=
  root.rows.insertionSort fun a b => a.name ≤ b.name

/-- `LocalArtifactStore.prune_orphans` -/
def pruneOrphans (root : ArtifactRoot) : Except Exn (List String) × ArtifactRoot :=
  pruneEntries known olderThan dryRun ((sorted root).map ArtifactEntry.name) root

/-! ## What a pass is to remove -/

def ArtifactEntry.isKnown (entry : ArtifactEntry) : Bool :=
  entry.name = ".gitkeep" ∨ entry.name ∈ known

/-- Where a pass stops. -/
def ArtifactEntry.isObstacle (entry : ArtifactEntry) : Bool :=
  match entry.node with
  | .link _ => !entry.isKnown known
  | _ => false

/-- An old regular file that looks like an artifact and is not catalogued. -/
def ArtifactEntry.isOrphan (entry : ArtifactEntry) : Bool :=
  match entry.node with
  | .file _ => !entry.isKnown known && artifactLike entry.name && entry.modified < olderThan
  | _ => false

/-- The orphans among entries that a pass comes to. -/
def orphans (entries : List ArtifactEntry) : List ArtifactEntry :=
  (entries.takeWhile fun entry => !entry.isObstacle known).filter fun entry =>
    entry.isOrphan known olderThan

/-- What a pass over entries answers. -/
def answer (entries : List ArtifactEntry) : Except Exn (List String) :=
  match entries.find? fun entry => entry.isObstacle known with
  | some entry => .error (refusal entry.name)
  | none => .ok ((orphans known olderThan entries).map ArtifactEntry.name)

section Visits

variable {known olderThan dryRun} {root : ArtifactRoot} {entry other : ArtifactEntry}
  {entries : List ArtifactEntry}

theorem lstat_of_mem (h : entry ∈ root.rows) : lstat root entry.name = .ok entry := by
  unfold lstat
  rw [Table.find_eq_some.mpr ⟨h, rfl⟩]

theorem mem_unlink {name : String} :
    other ∈ (unlink root name).rows ↔ other ∈ root.rows ∧ other.name ≠ name := by
  simp [unlink]

/-- What is removed is the entry itself. -/
theorem mem_unlink_self (h : entry ∈ root.rows) :
    other ∈ (unlink root entry.name).rows ↔ other ∈ root.rows ∧ other ≠ entry := by
  rw [mem_unlink]
  apply and_congr_right
  intro hother
  rw [not_iff_not]
  exact ⟨fun hname => root.row_unique hother h hname, fun hsame => by rw [hsame]⟩

/-- A visit stops at an obstacle; otherwise an orphan is a candidate, and is removed unless the
pass only looks. -/
theorem visit_of_mem (h : entry ∈ root.rows) :
    visit known olderThan dryRun root entry.name =
      if entry.isObstacle known then .error (refusal entry.name)
      else .ok (entry.isOrphan known olderThan,
        if entry.isOrphan known olderThan ∧ dryRun = false then unlink root entry.name
        else root) := by
  unfold visit ArtifactEntry.isObstacle ArtifactEntry.isOrphan
  by_cases hknown : entry.name = ".gitkeep" ∨ entry.name ∈ known
  · have htrue : entry.isKnown known = true := by simpa [ArtifactEntry.isKnown] using hknown
    rw [if_pos hknown]
    cases entry.node <;> simp [htrue]
  · have hfalse : entry.isKnown known = false := by
      simpa [ArtifactEntry.isKnown] using hknown
    rw [if_neg hknown, lstat_of_mem h]
    cases hnode : entry.node with
    | directory => simp [hnode, Bind.bind, Except.bind]
    | link target => simp [hnode, hfalse, Bind.bind, Except.bind]
    | file content =>
      by_cases hlike : artifactLike entry.name = true
      · by_cases hold : entry.modified < olderThan
        · cases dryRun <;> simp [hnode, hfalse, hlike, hold, Bind.bind, Except.bind]
        · simp [hnode, hold, not_lt.mp hold, Bind.bind, Except.bind]
      · simp [hnode, hlike, Bind.bind, Except.bind]

theorem orphans_cons_of_obstacle (h : entry.isObstacle known = true) :
    orphans known olderThan (entry :: entries) = [] := by
  simp [orphans, h]

theorem orphans_cons (h : entry.isObstacle known = false) :
    orphans known olderThan (entry :: entries) =
      if entry.isOrphan known olderThan then entry :: orphans known olderThan entries
      else orphans known olderThan entries := by
  simp [orphans, h, List.filter_cons]

theorem answer_cons_of_obstacle (h : entry.isObstacle known = true) :
    answer known olderThan (entry :: entries) = .error (refusal entry.name) := by
  simp [answer, h]

theorem answer_cons (h : entry.isObstacle known = false) :
    answer known olderThan (entry :: entries) =
      (answer known olderThan entries).map fun names =>
        if entry.isOrphan known olderThan then entry.name :: names else names := by
  unfold answer
  rw [List.find?_cons_of_neg (by simp [h]), orphans_cons h]
  cases entries.find? fun entry => entry.isObstacle known with
  | some found => rfl
  | none => by_cases horphan : entry.isOrphan known olderThan <;> simp [horphan, Except.map]

/-- The loop over entries that are all there. -/
theorem pruneEntries_spec (hmem : ∀ entry ∈ entries, entry ∈ root.rows)
    (hdistinct : entries.Nodup) :
    (pruneEntries known olderThan dryRun (entries.map ArtifactEntry.name) root).1 =
        answer known olderThan entries ∧
      ∀ other, other ∈
          (pruneEntries known olderThan dryRun (entries.map ArtifactEntry.name) root).2.rows ↔
        other ∈ root.rows ∧ (dryRun = true ∨ other ∉ orphans known olderThan entries) := by
  induction entries generalizing root with
  | nil => simp [answer, orphans]
  | cons entry rest ih =>
    have hentry : entry ∈ root.rows := hmem entry List.mem_cons_self
    obtain ⟨hfresh, hrest⟩ := List.nodup_cons.mp hdistinct
    rw [List.map_cons, pruneEntries, visit_of_mem hentry]
    by_cases hobstacle : entry.isObstacle known = true
    · rw [if_pos hobstacle, answer_cons_of_obstacle hobstacle,
        orphans_cons_of_obstacle hobstacle]
      simp
    · rw [Bool.not_eq_true] at hobstacle
      rw [if_neg (by simp [hobstacle]), answer_cons hobstacle, orphans_cons hobstacle]
      by_cases hgone : entry.isOrphan known olderThan = true ∧ dryRun = false
      · -- the entry is removed, the entries to come are not
        have hleft : ∀ other ∈ rest, other ∈ (unlink root entry.name).rows := by
          intro other hother
          rw [mem_unlink_self hentry]
          exact ⟨hmem other (List.mem_cons_of_mem _ hother), fun h => hfresh (h ▸ hother)⟩
        obtain ⟨hanswer, hrows⟩ := ih hleft hrest
        rw [if_pos hgone]
        refine ⟨by rw [← hanswer], fun other => ?_⟩
        rw [hrows, mem_unlink_self hentry]
        simp [hgone, and_assoc]
      · obtain ⟨hanswer, hrows⟩ :=
          ih (fun other hother => hmem other (List.mem_cons_of_mem _ hother)) hrest
        rw [if_neg hgone]
        refine ⟨by rw [← hanswer], fun other => ?_⟩
        cases dryRun with
        | true => simp [hrows]
        | false =>
          have hno : entry.isOrphan known olderThan = false := by simpa using hgone
          simp [hrows, hno]

end Visits

/-! ## The whole pass -/

section Passes

variable {known olderThan dryRun} {root : ArtifactRoot} {entry : ArtifactEntry}

theorem mem_sorted : entry ∈ sorted root ↔ entry ∈ root.rows :=
  (List.perm_insertionSort _ _).mem_iff

theorem nodup_sorted : (sorted root).Nodup :=
  (List.perm_insertionSort _ _).nodup_iff.mpr (root.nodup_keys.of_map _)

variable (known olderThan dryRun root) in
/-- A whole pass is the loop over all entries. -/
theorem pruneOrphans_spec :
    (pruneOrphans known olderThan dryRun root).1 = answer known olderThan (sorted root) ∧
      ∀ entry, entry ∈ (pruneOrphans known olderThan dryRun root).2.rows ↔
        entry ∈ root.rows ∧ (dryRun = true ∨ entry ∉ orphans known olderThan (sorted root)) :=
  pruneEntries_spec (fun _ => mem_sorted.mp) nodup_sorted

/-! ## What a pass comes to -/

theorem pairwise_sorted : (sorted root).Pairwise fun a b => a.name ≤ b.name := by
  have htotal : Std.Total fun a b : ArtifactEntry => a.name ≤ b.name :=
    ⟨fun a b => le_total a.name b.name⟩
  have htrans : IsTrans ArtifactEntry fun a b => a.name ≤ b.name := ⟨fun _ _ _ => le_trans⟩
  exact List.pairwise_insertionSort _ _

/-- The entries before and after the first obstacle. -/
theorem exists_split {link : ArtifactEntry} (hlink : link ∈ root.rows)
    (hfirst : ∀ entry ∈ root.rows, entry.isObstacle known = true → link.name ≤ entry.name) :
    ∃ before after, sorted root = before ++ link :: after ∧
      (∀ entry ∈ before, entry.isObstacle known = false) ∧
      ∀ entry ∈ root.rows, entry ∈ before ↔ entry.name < link.name := by
  obtain ⟨before, after, hsplit⟩ := List.append_of_mem (mem_sorted.mpr hlink)
  have hpairwise := @pairwise_sorted root
  have hnodup := @nodup_sorted root
  rw [hsplit] at hpairwise hnodup
  obtain ⟨-, htail, hcross⟩ := List.pairwise_append.mp hpairwise
  obtain ⟨-, -, hapart⟩ := List.nodup_append.mp hnodup
  have hmem (entry : ArtifactEntry) :
      entry ∈ root.rows ↔ entry ∈ before ∨ entry = link ∨ entry ∈ after := by
    rw [← mem_sorted, hsplit, List.mem_append, List.mem_cons]
  have hbefore (entry : ArtifactEntry) (hentry : entry ∈ before) : entry.name < link.name := by
    apply lt_of_le_of_ne (hcross entry hentry link List.mem_cons_self)
    intro hname
    have hsame := root.row_unique ((hmem entry).mpr (.inl hentry)) hlink hname
    exact hapart entry hentry link List.mem_cons_self hsame
  refine ⟨before, after, hsplit, fun entry hentry => ?_, fun entry hentry => ?_⟩
  · rw [← Bool.not_eq_true]
    intro hobstacle
    have hle := hfirst entry ((hmem entry).mpr (.inl hentry)) hobstacle
    exact absurd (hbefore entry hentry) (not_lt.mpr hle)
  · refine ⟨hbefore entry, fun hlt => ?_⟩
    rcases (hmem entry).mp hentry with hin | rfl | hin
    · exact hin
    · exact absurd hlt (lt_irrefl _)
    · exact absurd hlt (not_lt.mpr ((List.pairwise_cons.mp htail).1 entry hin))

variable (known olderThan dryRun root) in
/-- Where every symbolic link is catalogued, a pass answers with the orphans in the order of their
names and removes exactly these. Otherwise it refuses the first link that is not, and the orphans
before it are gone. A pass that only looks removes nothing. -/
theorem pruneOrphans_exact :
    ((∀ entry ∈ root.rows, entry.isObstacle known = false) →
      (pruneOrphans known olderThan dryRun root).1 =
        .ok (((sorted root).filter fun entry => entry.isOrphan known olderThan).map
          ArtifactEntry.name) ∧
      ∀ entry, entry ∈ (pruneOrphans known olderThan dryRun root).2.rows ↔
        entry ∈ root.rows ∧ (dryRun = true ∨ entry.isOrphan known olderThan = false)) ∧
    ∀ link ∈ root.rows, link.isObstacle known = true →
      (∀ entry ∈ root.rows, entry.isObstacle known = true → link.name ≤ entry.name) →
      (pruneOrphans known olderThan dryRun root).1 = .error (refusal link.name) ∧
      ∀ entry, entry ∈ (pruneOrphans known olderThan dryRun root).2.rows ↔
        entry ∈ root.rows ∧ (dryRun = true ∨
          ¬ (entry.isOrphan known olderThan = true ∧ entry.name < link.name)) := by
  obtain ⟨hanswer, hrows⟩ := pruneOrphans_spec known olderThan dryRun root
  constructor
  · intro hnone
    have hpassed : (sorted root).takeWhile (fun entry => !entry.isObstacle known) =
        sorted root := by
      apply List.takeWhile_eq_self_iff.mpr
      intro entry hentry
      rw [hnone entry (mem_sorted.mp hentry)]
      rfl
    have hfind : (sorted root).find? (fun entry => entry.isObstacle known) = none := by
      apply List.find?_eq_none.mpr
      intro entry hentry
      rw [hnone entry (mem_sorted.mp hentry)]
      simp
    have horphans : orphans known olderThan (sorted root) =
        (sorted root).filter fun entry => entry.isOrphan known olderThan := by
      rw [orphans, hpassed]
    refine ⟨?_, fun entry => ?_⟩
    · rw [hanswer, answer, hfind, horphans]
    · rw [hrows, horphans, List.mem_filter, mem_sorted]
      apply and_congr_right
      intro hentry
      simp [hentry]
  · intro link hlink hobstacle hfirst
    obtain ⟨before, after, hsplit, hclear, hbefore⟩ := exists_split hlink hfirst
    have horphans : orphans known olderThan (sorted root) =
        before.filter fun entry => entry.isOrphan known olderThan := by
      rw [orphans, hsplit, List.takeWhile_append_of_pos]
      · simp [hobstacle]
      · intro entry hentry
        rw [hclear entry hentry]
        rfl
    have hfind : (sorted root).find? (fun entry => entry.isObstacle known) = some link := by
      have hskip : before.find? (fun entry => entry.isObstacle known) = none := by
        apply List.find?_eq_none.mpr
        intro entry hentry
        rw [hclear entry hentry]
        simp
      rw [hsplit, List.find?_append, hskip]
      simp [hobstacle]
    refine ⟨?_, fun entry => ?_⟩
    · rw [hanswer, answer, hfind]
    · rw [hrows, horphans, List.mem_filter]
      apply and_congr_right
      intro hentry
      rw [hbefore entry hentry, and_comm]

/-! ## A pass after a pass -/

theorem takeWhile_filter {α : Type} {p q : α → Bool} (h : ∀ a, q a = false → p a = true)
    (l : List α) : (l.filter p).takeWhile q = (l.takeWhile q).filter p := by
  induction l with
  | nil => rfl
  | cons a l ih =>
    by_cases hq : q a = true
    · by_cases hp : p a = true
      · simp [hp, hq, ih]
      · simp [hp, hq, ih]
    · rw [Bool.not_eq_true] at hq
      simp [h a hq, hq]

theorem not_orphan_of_obstacle (h : entry.isObstacle known = true) :
    entry.isOrphan known olderThan = false := by
  unfold ArtifactEntry.isObstacle at h
  unfold ArtifactEntry.isOrphan
  cases hnode : entry.node with
  | directory => rfl
  | file content => simp [hnode] at h
  | link target => rfl

theorem obstacle_remains {entries : List ArtifactEntry} (h : entry.isObstacle known = true) :
    entry ∉ orphans known olderThan entries := by
  intro horphan
  have hisOrphan := (List.mem_filter.mp horphan).2
  rw [not_orphan_of_obstacle h] at hisOrphan
  cases hisOrphan

/-- Among the entries that a pass leaves there are no orphans that another pass would come to. -/
theorem orphans_left (entries : List ArtifactEntry) :
    orphans known olderThan
      (entries.filter fun entry => entry ∉ orphans known olderThan entries) = [] := by
  have hremain (entry : ArtifactEntry) (h : (!entry.isObstacle known) = false) :
      decide (entry ∉ orphans known olderThan entries) = true := by
    rw [decide_eq_true_eq]
    exact obstacle_remains (by simpa using h)
  rw [orphans, takeWhile_filter hremain, List.filter_filter, List.filter_eq_nil_iff]
  intro entry hentry
  simp only [Bool.and_eq_true, decide_eq_true_eq, not_and, not_not]
  intro horphan
  exact List.mem_filter.mpr ⟨hentry, horphan⟩

theorem answer_left (entries : List ArtifactEntry) :
    answer known olderThan
        (entries.filter fun entry => entry ∉ orphans known olderThan entries) =
      (answer known olderThan entries).map fun _ => [] := by
  have hfind : (entries.filter fun entry => entry ∉ orphans known olderThan entries).find?
        (fun entry => entry.isObstacle known) =
      entries.find? fun entry => entry.isObstacle known := by
    rw [List.find?_filter]
    congr 1
    funext entry
    by_cases hobstacle : entry.isObstacle known = true
    · simp [hobstacle, obstacle_remains hobstacle]
    · simp [hobstacle]
  unfold answer
  rw [hfind, orphans_left]
  cases entries.find? fun entry => entry.isObstacle known <;> rfl

/-- The order of the entries is that in which the pass before came to them. -/
theorem sorted_left : sorted (pruneOrphans known olderThan false root).2 =
    (sorted root).filter fun entry => entry ∉ orphans known olderThan (sorted root) := by
  have hmem (entry : ArtifactEntry) :
      entry ∈ sorted (pruneOrphans known olderThan false root).2 ↔
        entry ∈ (sorted root).filter fun entry =>
          entry ∉ orphans known olderThan (sorted root) := by
    rw [mem_sorted, (pruneOrphans_spec known olderThan false root).2, List.mem_filter, mem_sorted]
    simp
  have hperm := (List.perm_ext_iff_of_nodup nodup_sorted (nodup_sorted.filter _)).mpr hmem
  apply hperm.eq_of_pairwise _ pairwise_sorted (pairwise_sorted.filter _)
  intro a b ha hb hab hba
  have ha' : a ∈ root.rows := mem_sorted.mp (List.mem_filter.mp ((hmem a).mp ha)).1
  have hb' : b ∈ root.rows := mem_sorted.mp (List.mem_filter.mp hb).1
  exact root.row_unique ha' hb' (le_antisymm hab hba)

variable (known olderThan dryRun root) in
/-- A pass that only looks answers what the pass itself answers. After a pass another one finds
nothing, or is refused by the same link, and it leaves every entry. -/
theorem pruneOrphans_settles :
    (pruneOrphans known olderThan true root).1 = (pruneOrphans known olderThan false root).1 ∧
      (∀ entry, entry ∈ (pruneOrphans known olderThan true root).2.rows ↔ entry ∈ root.rows) ∧
      (pruneOrphans known olderThan dryRun (pruneOrphans known olderThan false root).2).1 =
        (pruneOrphans known olderThan false root).1.map (fun _ => []) ∧
      ∀ entry,
        entry ∈ (pruneOrphans known olderThan dryRun
          (pruneOrphans known olderThan false root).2).2.rows ↔
        entry ∈ (pruneOrphans known olderThan false root).2.rows := by
  obtain ⟨hlook, hlooked⟩ := pruneOrphans_spec known olderThan true root
  obtain ⟨hpass, -⟩ := pruneOrphans_spec known olderThan false root
  obtain ⟨hagain, hleft⟩ := pruneOrphans_spec known olderThan dryRun
    (pruneOrphans known olderThan false root).2
  rw [sorted_left] at hagain hleft
  refine ⟨hlook.trans hpass.symm, fun entry => ?_, ?_, fun entry => ?_⟩
  · rw [hlooked]
    simp
  · rw [hagain, hpass, answer_left]
  · rw [hleft, orphans_left]
    simp

end Passes

end DurableAgent.Artifacts
