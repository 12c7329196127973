import DurableAgent.Context.Budgeting
import Mathlib.Data.List.Dedup

/-!
# What a build keeps of its items

The selection and the removed items share out the input, and a summary names exactly what was
removed. Whether evidence survives rests on the room that is left: a build that removes items but
has no room for a summary loses what only they carry.
-/

namespace DurableAgent.Context

open Library

variable {manager : ContextManager} {budget : ContextBudget} {items : List ContextItem}
  {stamps : BuildStamps} {runId : String} {taskId : Option String} {level : SummaryLevel}
  {generation : Nat} {snapshot : ContextSnapshot} {summary : Option SummaryRecord}

/-! ## Shares -/

theorem fitting_sublist (limit : Nat) (rest : List ContextItem) (used : Nat) :
    (fitting limit rest used).Sublist rest := by
  induction rest generalizing used with
  | nil => exact .slnil
  | cons first rest ih =>
    unfold fitting
    by_cases hfits : used + first.estimatedTokens ≤ limit
    · rw [if_pos hfits]
      exact (ih _).cons_cons first
    · rw [if_neg hfits]
      exact (ih _).cons first

theorem mandatoryItems_nodup (h : items.Nodup) : (mandatoryItems items).Nodup :=
  (List.perm_insertionSort SelectedBefore _).nodup_iff.mpr (h.filter _)

theorem selected_nodup (h : items.Nodup) (hids : (items.map ContextItem.itemId).Nodup) :
    (budget.select items).selected.Nodup := by
  have hoptional : (optionalItems items).Nodup := (optionalItems_nodup hids).of_map
  refine List.nodup_append.mpr
    ⟨mandatoryItems_nodup h, (fitting_sublist _ _ _).nodup hoptional, ?_⟩
  rintro a ha b hb rfl
  have hpreserved := ((mem_mandatoryItems a).mp ha).2
  exact ((mem_optionalItems a).mp ((fitting_sublist _ _ _).subset hb)).2 hpreserved

/-- What is selected and what is removed share out the items. -/
theorem select_perm (hids : (items.map ContextItem.itemId).Nodup) :
    ((budget.select items).selected ++ (budget.select items).removed).Perm items := by
  have hitems : items.Nodup := hids.of_map
  have hboth : ((budget.select items).selected ++ (budget.select items).removed).Nodup := by
    refine List.nodup_append.mpr ⟨selected_nodup hitems hids, (removed_nodup hids).of_map, ?_⟩
    rintro a ha b hb rfl
    have hout := (List.mem_filter.mp hb).2
    simp only [decide_eq_true_eq] at hout
    exact hout (List.mem_map_of_mem ha)
  rw [List.perm_ext_iff_of_nodup hboth hitems]
  intro item
  rw [List.mem_append]
  constructor
  · rintro (h | h)
    · exact selected_subset item h
    · exact removed_subset item h
  · intro hitem
    by_cases hselected : item.itemId ∈ (budget.select items).selected.map ContextItem.itemId
    · left
      obtain ⟨other, hother, hid⟩ := List.mem_map.mp hselected
      rwa [← List.inj_on_of_nodup_map hids (selected_subset other hother) hitem hid]
    · right
      refine List.mem_filter.mpr ⟨(mem_optionalItems item).mpr ⟨hitem, fun hpreserved => ?_⟩, ?_⟩
      · apply hselected
        apply List.mem_map_of_mem
        exact List.mem_append_left _ ((mem_mandatoryItems item).mpr ⟨hitem, hpreserved⟩)
      · exact decide_eq_true hselected

theorem whole_perm (hids : (items.map ContextItem.itemId).Nodup) :
    (mandatoryItems items ++ optionalItems items).Perm items := by
  have hitems : items.Nodup := hids.of_map
  have hboth : (mandatoryItems items ++ optionalItems items).Nodup := by
    refine List.nodup_append.mpr ⟨mandatoryItems_nodup hitems, (optionalItems_nodup hids).of_map, ?_⟩
    rintro a ha b hb rfl
    exact ((mem_optionalItems a).mp hb).2 ((mem_mandatoryItems a).mp ha).2
  rw [List.perm_ext_iff_of_nodup hboth hitems]
  intro item
  rw [List.mem_append, mem_mandatoryItems, mem_optionalItems]
  tauto

/-! ## The records -/

/-- What a summary says of the removed items. -/
structure Names (manager : ContextManager) (dropped : List ContextItem) (maximumTokens : Nat)
    (record : SummaryRecord) : Prop where
  sources : record.sourceItemIds = dropped.map ContextItem.itemId
  removed : record.removedItemIds = dropped.map ContextItem.itemId
  hashes : record.sourceHashes.entries =
    dropped.map fun item => (item.itemId, manager.sha256Digest item.content)
  evidence : record.evidenceIds =
    (dropped.flatMap ContextItem.evidenceIds).dedup.insertionSort (· ≤ ·)
  content : record.content = summaryContent dropped maximumTokens
  tokens : record.estimatedTokens =
    min (estimateTokens (summaryContent dropped maximumTokens)) maximumTokens

theorem compress_names {stamp : Stamp} {removed : List ContextItem} {maximumTokens : Nat}
    {record : SummaryRecord} (hids : (removed.map ContextItem.itemId).Nodup)
    (h : manager.compress stamp runId removed level generation maximumTokens = .ok (some record)) :
    Names manager removed maximumTokens record := by
  unfold ContextManager.compress at h
  split at h
  · cases h
  · obtain ⟨validated, hvalidate, h⟩ := of_bind_ok h
    obtain rfl := Option.some.inj (Except.ok.inj h)
    unfold SummaryFields.validate at hvalidate
    split at hvalidate
    · obtain rfl := Except.ok.inj hvalidate
      refine ⟨rfl, rfl, ?_, rfl, rfl, rfl⟩
      apply Dict.ofPairs_entries
      rw [List.map_map]
      exact hids
    · cases hvalidate

/-- What a build that returns has done. -/
inductive Built (manager : ContextManager) (stamps : BuildStamps) (runId : String)
    (taskId : Option String) (items : List ContextItem) (level : SummaryLevel) (generation : Nat) :
    ContextSnapshot → Option SummaryRecord → Prop where
  /-- Everything fits below the threshold. -/
  | whole {snapshot : ContextSnapshot} {threshold : Nat}
      (hthreshold : manager.budget.compressionAt = .ok threshold)
      (hfits : tokens (mandatoryItems items) + tokens (optionalItems items) ≤ threshold)
      (hsnapshot : snapshot.toSnapshotFields =
        manager.budget.wholeSnapshot stamps runId taskId items) :
      Built manager stamps runId taskId items level generation snapshot none
  /-- Some items are selected, and what is removed is compressed where there is room. -/
  | selected {snapshot : ContextSnapshot} {summary : Option SummaryRecord} {threshold : Nat}
      (hthreshold : manager.budget.compressionAt = .ok threshold)
      (hover : threshold < tokens (mandatoryItems items) + tokens (optionalItems items))
      (hcompress : manager.compress stamps.summary runId (manager.budget.select items).removed level
        generation (manager.budget.available - tokens (manager.budget.select items).selected) =
          .ok summary)
      (hsnapshot : snapshot.toSnapshotFields = manager.budget.selectedSnapshot stamps runId taskId
        (manager.budget.select items) summary) :
      Built manager stamps runId taskId items level generation snapshot summary

theorem toSnapshotFields_of_validate {s : SnapshotFields} (h : s.validate = .ok snapshot) :
    snapshot.toSnapshotFields = s := by
  unfold SnapshotFields.validate at h
  split at h
  · obtain rfl := Except.ok.inj h
    rfl
  · cases h

theorem built_of_build
    (h : manager.build stamps runId taskId items level generation = .ok (snapshot, summary)) :
    (items.map ContextItem.itemId).Nodup ∧ tokens (mandatoryItems items) ≤ manager.budget.available ∧
      Built manager stamps runId taskId items level generation snapshot summary := by
  unfold ContextManager.build at h
  dsimp only at h
  split at h
  · cases h
  next hids =>
    split at h
    · cases h
    next hmandatory =>
      refine ⟨not_not.mp hids, not_lt.mp hmandatory, ?_⟩
      obtain ⟨threshold, hthreshold, h⟩ := of_bind_ok h
      split at h
      next hfits =>
        obtain ⟨validated, hvalidate, h⟩ := of_bind_ok h
        obtain ⟨rfl, rfl⟩ := Prod.mk.inj (Except.ok.inj h)
        exact .whole hthreshold hfits (toSnapshotFields_of_validate hvalidate)
      next hover =>
        obtain ⟨compressed, hcompress, h⟩ := of_bind_ok h
        obtain ⟨validated, hvalidate, h⟩ := of_bind_ok h
        obtain ⟨rfl, rfl⟩ := Prod.mk.inj (Except.ok.inj h)
        exact .selected hthreshold (not_le.mp hover) hcompress
          (toSnapshotFields_of_validate hvalidate)

/-! ## The law of the selection -/

/-- Among items of distinct identifiers, some are told by their identifiers. -/
theorem mem_iff_itemId {some : List ContextItem} (hids : (items.map ContextItem.itemId).Nodup)
    (hsome : ∀ item ∈ some, item ∈ items) {item : ContextItem} (hitem : item ∈ items) :
    item.itemId ∈ some.map ContextItem.itemId ↔ item ∈ some := by
  constructor
  · intro h
    obtain ⟨other, hother, hid⟩ := List.mem_map.mp h
    rwa [← List.inj_on_of_nodup_map hids (hsome other hother) hitem hid]
  · exact fun h => List.mem_map_of_mem h

theorem tokens_perm {xs ys : List ContextItem} (h : xs.Perm ys) : tokens xs = tokens ys :=
  (h.map ContextItem.estimatedTokens).sum_eq

theorem tokens_filter {some : List ContextItem} (hids : (items.map ContextItem.itemId).Nodup)
    (hsome : ∀ item ∈ some, item ∈ items) (hnodup : some.Nodup) :
    tokens (items.filter fun item => item.itemId ∈ some.map ContextItem.itemId) = tokens some := by
  apply tokens_perm
  rw [List.perm_ext_iff_of_nodup (hids.of_map.filter _) hnodup]
  intro item
  rw [List.mem_filter, decide_eq_true_eq]
  constructor
  · rintro ⟨hitem, h⟩
    exact (mem_iff_itemId hids hsome hitem).mp h
  · exact fun h => ⟨hsome item h, List.mem_map_of_mem h⟩

/-- What a summary takes of the budget. -/
def summaryTokens : Option SummaryRecord → Nat
  | some record => record.estimatedTokens
  | none => 0

/-- A summary names exactly the removed items, with their hashes and their evidence. -/
structure Covers (manager : ContextManager) (items : List ContextItem) (ids : List String)
    (record : SummaryRecord) : Prop where
  sources : record.sourceItemIds = ids
  removed : record.removedItemIds = ids
  hashes : ∀ id digest, record.sourceHashes.get id = some digest ↔
    ∃ item ∈ items, item.itemId = id ∧ id ∈ ids ∧ manager.sha256Digest item.content = digest
  evidence : ∀ e, e ∈ record.evidenceIds ↔
    ∃ item ∈ items, item.itemId ∈ ids ∧ e ∈ item.evidenceIds
  evidence_nodup : record.evidenceIds.Nodup

/-- What a snapshot and a summary say of the items they were built from. -/
structure Accounts (manager : ContextManager) (items : List ContextItem)
    (snapshot : ContextSnapshot) (summary : Option SummaryRecord) : Prop where
  partition : (snapshot.itemIds ++ snapshot.removedItemIds).Perm (items.map ContextItem.itemId)
  keeps : ∀ item ∈ items, item.Preserved → item.itemId ∈ snapshot.itemIds
  used : snapshot.usedTokens =
    tokens (items.filter fun item => item.itemId ∈ snapshot.itemIds) + summaryTokens summary
  budget : snapshot.budgetTokens = manager.budget.available
  within : snapshot.usedTokens ≤ manager.budget.available
  covers : ∀ record, summary = some record → Covers manager items snapshot.removedItemIds record

theorem covers_of_names {removed : List ContextItem} {maximumTokens : Nat} {record : SummaryRecord}
    (hids : (items.map ContextItem.itemId).Nodup) (hremoved : ∀ item ∈ removed, item ∈ items)
    (h : Names manager removed maximumTokens record) :
    Covers manager items (removed.map ContextItem.itemId) record where
  sources := h.sources
  removed := h.removed
  hashes id digest := by
    rw [Dict.get_eq_some, h.hashes, List.mem_map]
    constructor
    · rintro ⟨item, hitem, heq⟩
      obtain ⟨rfl, rfl⟩ := Prod.mk.inj heq
      exact ⟨item, hremoved item hitem, rfl, List.mem_map_of_mem hitem, rfl⟩
    · rintro ⟨item, hitem, rfl, hid, rfl⟩
      exact ⟨item, (mem_iff_itemId hids hremoved hitem).mp hid, rfl⟩
  evidence e := by
    rw [h.evidence, List.mem_insertionSort, List.mem_dedup, List.mem_flatMap]
    constructor
    · rintro ⟨item, hitem, he⟩
      exact ⟨item, hremoved item hitem, List.mem_map_of_mem hitem, he⟩
    · rintro ⟨item, hitem, hid, he⟩
      exact ⟨item, (mem_iff_itemId hids hremoved hitem).mp hid, he⟩
  evidence_nodup := by
    rw [h.evidence]
    exact (List.perm_insertionSort (· ≤ ·) _).nodup_iff.mpr (List.nodup_dedup _)

theorem accounts_of (active removed : List ContextItem)
    (hids : (items.map ContextItem.itemId).Nodup) (hperm : (active ++ removed).Perm items)
    (hkeeps : ∀ item ∈ items, item.Preserved → item ∈ active)
    (hactive : snapshot.itemIds = active.map ContextItem.itemId)
    (hremoved : snapshot.removedItemIds = removed.map ContextItem.itemId)
    (hused : snapshot.usedTokens = tokens active + summaryTokens summary)
    (hbudget : snapshot.budgetTokens = manager.budget.available)
    (hnames : ∀ record, summary = some record → ∃ maximumTokens,
      Names manager removed maximumTokens record) :
    Accounts manager items snapshot summary := by
  have hnodup : active.Nodup :=
    (List.nodup_append.mp (hperm.nodup_iff.mpr hids.of_map)).1
  have hsubset : ∀ item ∈ active, item ∈ items := fun item hitem =>
    hperm.subset (List.mem_append_left _ hitem)
  constructor
  · rw [hactive, hremoved, ← List.map_append]
    exact hperm.map _
  · intro item hitem hpreserved
    rw [hactive]
    exact List.mem_map_of_mem (hkeeps item hitem hpreserved)
  · rw [hactive, hused, tokens_filter hids hsubset hnodup]
  · exact hbudget
  · rw [← hbudget]
    exact snapshot.within_budget
  · intro record hrecord
    obtain ⟨maximumTokens, hrecord⟩ := hnames record hrecord
    rw [hremoved]
    exact covers_of_names hids (fun item hitem => hperm.subset (List.mem_append_right _ hitem))
      hrecord

theorem Built.accounts (hids : (items.map ContextItem.itemId).Nodup)
    (h : Built manager stamps runId taskId items level generation snapshot summary) :
    Accounts manager items snapshot summary := by
  have hkept (l : List ContextItem) (item : ContextItem) (hitem : item ∈ items)
      (hpreserved : item.Preserved) : item ∈ mandatoryItems items ++ l :=
    List.mem_append_left _ ((mem_mandatoryItems item).mpr ⟨hitem, hpreserved⟩)
  cases h with
  | whole hthreshold hfits hsnapshot =>
    refine accounts_of (mandatoryItems items ++ optionalItems items) [] hids ?_ (hkept _) ?_ ?_ ?_
      ?_ nofun
    · rw [List.append_nil]
      exact whole_perm hids
    · rw [hsnapshot]
      rfl
    · rw [hsnapshot]
      rfl
    · rw [hsnapshot]
      rfl
    · rw [hsnapshot]
      rfl
  | selected hthreshold hover hcompress hsnapshot =>
    refine accounts_of (manager.budget.select items).selected (manager.budget.select items).removed
      hids (select_perm hids) (hkept _) ?_ ?_ ?_ ?_ ?_
    · rw [hsnapshot]
      rfl
    · rw [hsnapshot]
      rfl
    · rw [hsnapshot]
      cases summary <;> rfl
    · rw [hsnapshot]
      rfl
    · rintro record rfl
      exact ⟨_, compress_names (removed_nodup hids) hcompress⟩

/-! ## When a build raises -/

theorem tokens_mandatoryItems :
    tokens (mandatoryItems items) = tokens (items.filter fun item => item.Preserved) :=
  tokens_perm (List.perm_insertionSort SelectedBefore _)

theorem build_refused (h : ¬ (items.map ContextItem.itemId).Nodup ∨
    manager.budget.available < tokens (mandatoryItems items)) :
    ∃ message, manager.build stamps runId taskId items level generation =
      .error (.of .domainValidation message) := by
  unfold ContextManager.build
  by_cases hids : (items.map ContextItem.itemId).Nodup
  · dsimp only
    rw [if_neg (not_not.mpr hids), if_pos (h.resolve_left (not_not.mpr hids))]
    exact ⟨_, rfl⟩
  · dsimp only
    rw [if_pos hids]
    exact ⟨_, rfl⟩

theorem build_overflow (hids : (items.map ContextItem.itemId).Nodup)
    (hfits : tokens (mandatoryItems items) ≤ manager.budget.available)
    (hfloat : Binary64.ofNat manager.budget.available = none) :
    manager.build stamps runId taskId items level generation =
      .error (.other "int too large to convert to float") := by
  simp [ContextManager.build, hids, not_lt.mpr hfits, ContextBudget.compressionAt, hfloat, bind,
    Except.bind]

/-- A window of so many times the smallest one. -/
def wideManager (times : Nat) (h : 1 ≤ times) : ContextManager where
  budget :=
    { contextLimit := 2048 * times, reservedOutput := 128, systemInstructions := 128
      userRequest := 128, contextLimit_min := by omega, reservedOutput_min := least_reservation
      systemInstructions_min := least_reservation, userRequest_min := least_reservation
      compressionThreshold_bounds := four_fifths
      reservations_fit := by omega }
  sha256Digest := id

theorem wideManager_available (times : Nat) (h : 1 ≤ times) :
    2 * times ≤ (wideManager times h).budget.available := by
  simp only [ContextBudget.available, wideManager]
  omega

theorem fitting_full {limit : Nat} (rest : List ContextItem) :
    fitting limit rest limit = rest.filter fun item => item.estimatedTokens = 0 := by
  induction rest with
  | nil => rfl
  | cons first rest ih =>
    unfold fitting
    by_cases hzero : first.estimatedTokens = 0
    · rw [hzero, Nat.add_zero, if_pos le_rfl, ih, List.filter_cons_of_pos (by simpa using hzero)]
    · rw [if_neg (by omega), ih, List.filter_cons_of_neg (by simpa using hzero)]

/-- The reserve of a summary is more than the least that a summary needs, so there is no room for
one only where the kept items leave none. -/
theorem room_iff (h : tokens (mandatoryItems items) ≤ budget.available) :
    budget.available - tokens (budget.select items).selected < 16 ↔
      budget.available < tokens (mandatoryItems items) + 16 := by
  have hfit := fitting_le (optionalItems items)
    (le_max_right (budget.available - min (max (budget.available / 5) 64) 1024)
      (tokens (mandatoryItems items)))
  simp only [ContextBudget.select, tokens_append]
  omega

/-- Where the kept items leave no room, only what is estimated at nothing is taken beside them. -/
theorem selected_crowded (h : tokens (mandatoryItems items) ≤ budget.available)
    (hcrowded : budget.available < tokens (mandatoryItems items) + 16) :
    (budget.select items).selected = mandatoryItems items ++
      (optionalItems items).filter fun item => item.estimatedTokens = 0 := by
  have hlimit : max (budget.available - min (max (budget.available / 5) 64) 1024)
      (tokens (mandatoryItems items)) = tokens (mandatoryItems items) := by
    omega
  unfold ContextBudget.select
  dsimp only
  rw [hlimit, fitting_full]

theorem mem_selected_crowded {item : ContextItem}
    (h : tokens (mandatoryItems items) ≤ budget.available)
    (hcrowded : budget.available < tokens (mandatoryItems items) + 16) (hitem : item ∈ items) :
    item ∈ (budget.select items).selected ↔ item.Preserved ∨ item.estimatedTokens = 0 := by
  rw [selected_crowded h hcrowded, List.mem_append, List.mem_filter, mem_mandatoryItems,
    mem_optionalItems, decide_eq_true_eq]
  tauto

/-- A selected item or the summary has the evidence. -/
def Carried (items : List ContextItem) (snapshot : ContextSnapshot)
    (summary : Option SummaryRecord) (e : String) : Prop :=
  (∃ item ∈ items, item.itemId ∈ snapshot.itemIds ∧ e ∈ item.evidenceIds) ∨
    ∃ record ∈ summary, e ∈ record.evidenceIds

/-- The evidence of the items that are dropped in a crowded window is on those that stay. -/
def Repeated (items : List ContextItem) : Prop :=
  ∀ item ∈ items, ¬ item.Preserved → 0 < item.estimatedTokens → ∀ e ∈ item.evidenceIds,
    ∃ other ∈ items, (other.Preserved ∨ other.estimatedTokens = 0) ∧ e ∈ other.evidenceIds

theorem carried_whole (hids : (items.map ContextItem.itemId).Nodup)
    (hsnapshot : snapshot.toSnapshotFields = budget.wholeSnapshot stamps runId taskId items)
    {item : ContextItem} (hitem : item ∈ items) {e : String} (he : e ∈ item.evidenceIds) :
    Carried items snapshot summary e := by
  refine .inl ⟨item, hitem, ?_, he⟩
  rw [hsnapshot]
  exact List.mem_map_of_mem ((whole_perm hids).mem_iff.mpr hitem)

theorem carried_summary {removed : List ContextItem} {maximumTokens : Nat} {record : SummaryRecord}
    (hnames : Names manager removed maximumTokens record) {item : ContextItem}
    (hitem : item ∈ removed) {e : String} (he : e ∈ item.evidenceIds) : e ∈ record.evidenceIds := by
  rw [hnames.evidence, List.mem_insertionSort, List.mem_dedup]
  exact List.mem_flatMap.mpr ⟨item, hitem, he⟩

theorem compress_none {stamp : Stamp} {removed : List ContextItem} {maximumTokens : Nat}
    (h : manager.compress stamp runId removed level generation maximumTokens = .ok none) :
    removed = [] ∨ maximumTokens < 16 := by
  unfold ContextManager.compress at h
  split at h
  · assumption
  · obtain ⟨record, -, h⟩ := of_bind_ok h
    cases h

theorem compress_crowded {stamp : Stamp} {removed : List ContextItem} {maximumTokens : Nat}
    (h : manager.compress stamp runId removed level generation maximumTokens = .ok summary)
    (hcrowded : maximumTokens < 16) : summary = none := by
  unfold ContextManager.compress at h
  rw [if_pos (.inr hcrowded)] at h
  exact (Except.ok.inj h).symm

/-- With room for a summary, what is not selected is in it. -/
theorem carried_roomy (hids : (items.map ContextItem.itemId).Nodup)
    (hcompress : manager.compress stamps.summary runId (budget.select items).removed level
      generation (budget.available - tokens (budget.select items).selected) = .ok summary)
    (hsnapshot : snapshot.toSnapshotFields =
      budget.selectedSnapshot stamps runId taskId (budget.select items) summary)
    (hroom : 16 ≤ budget.available - tokens (budget.select items).selected)
    {item : ContextItem} (hitem : item ∈ items) {e : String} (he : e ∈ item.evidenceIds) :
    Carried items snapshot summary e := by
  have hshare := (@select_perm budget items hids).mem_iff.mpr hitem
  obtain hselected | hremoved := List.mem_append.mp hshare
  · refine .inl ⟨item, hitem, ?_, he⟩
    rw [hsnapshot]
    exact List.mem_map_of_mem hselected
  · right
    cases summary with
    | none =>
      obtain hnil | hcrowded := compress_none hcompress
      · rw [hnil] at hremoved
        cases hremoved
      · omega
    | some record =>
      exact ⟨record, rfl, carried_summary (compress_names (removed_nodup hids) hcompress)
        hremoved he⟩

/-- Without room, the evidence that is left is that of the kept items and of empty ones. -/
theorem carried_crowded_iff (hids : (items.map ContextItem.itemId).Nodup)
    (hmandatory : tokens (mandatoryItems items) ≤ budget.available)
    (hcrowded : budget.available < tokens (mandatoryItems items) + 16)
    (hsnapshot : snapshot.toSnapshotFields =
      budget.selectedSnapshot stamps runId taskId (budget.select items) none) :
    (∀ item ∈ items, ∀ e ∈ item.evidenceIds, Carried items snapshot none e) ↔
      Repeated items := by
  have hstays (item : ContextItem) (hitem : item ∈ items) :
      item.itemId ∈ snapshot.itemIds ↔ item.Preserved ∨ item.estimatedTokens = 0 := by
    rw [hsnapshot, ← mem_selected_crowded hmandatory hcrowded hitem]
    exact mem_iff_itemId hids selected_subset hitem
  constructor
  · intro h item hitem _ _ e he
    obtain ⟨other, hother, hselected, hcarries⟩ | ⟨record, hnone, -⟩ := h item hitem e he
    · exact ⟨other, hother, (hstays other hother).mp hselected, hcarries⟩
    · cases hnone
  · intro h item hitem e he
    by_cases hstay : item.Preserved ∨ item.estimatedTokens = 0
    · exact .inl ⟨item, hitem, (hstays item hitem).mpr hstay, he⟩
    · rw [not_or] at hstay
      obtain ⟨other, hother, hkept, hcarries⟩ := h item hitem hstay.1 (by omega) e he
      exact .inl ⟨other, hother, (hstays other hother).mpr hkept, hcarries⟩

/-- A build keeps all evidence exactly if everything fits below the threshold, or the kept items
leave room for a summary, or what they crowd out has no evidence of its own. -/
theorem evidence_carried_iff (manager : ContextManager) (stamps : BuildStamps) (runId : String)
    (taskId : Option String) (items : List ContextItem) (level : SummaryLevel) (generation : Nat)
    (snapshot : ContextSnapshot) (summary : Option SummaryRecord)
    (h : manager.build stamps runId taskId items level generation = .ok (snapshot, summary)) :
    (∀ item ∈ items, ∀ e ∈ item.evidenceIds, Carried items snapshot summary e) ↔
      (∃ threshold, manager.budget.compressionAt = .ok threshold ∧ tokens items ≤ threshold) ∨
      tokens (items.filter fun item => item.Preserved) + 16 ≤ manager.budget.available ∨
      Repeated items := by
  obtain ⟨hids, hmandatory, hbuilt⟩ := built_of_build h
  have htotal : tokens (mandatoryItems items) + tokens (optionalItems items) = tokens items := by
    rw [← tokens_append]
    exact tokens_perm (whole_perm hids)
  rw [← tokens_mandatoryItems]
  cases hbuilt with
  | whole hthreshold hfits hsnapshot =>
    have hleft : ∃ threshold, manager.budget.compressionAt = .ok threshold ∧
        tokens items ≤ threshold := ⟨_, hthreshold, by rwa [← htotal]⟩
    exact iff_of_true (fun item hitem e he => carried_whole hids hsnapshot hitem he) (.inl hleft)
  | selected hthreshold hover hcompress hsnapshot =>
    have hleft : ¬ ∃ threshold, manager.budget.compressionAt = .ok threshold ∧
        tokens items ≤ threshold := by
      rintro ⟨threshold, hthreshold', hfits⟩
      obtain rfl := Except.ok.inj (hthreshold.symm.trans hthreshold')
      omega
    have hroom := room_iff hmandatory
    by_cases hcrowded : manager.budget.available < tokens (mandatoryItems items) + 16
    · obtain rfl := compress_crowded hcompress (hroom.mpr hcrowded)
      rw [carried_crowded_iff hids hmandatory hcrowded hsnapshot]
      simp [hleft, Nat.not_le.mpr hcrowded]
    · have hroomy : 16 ≤ manager.budget.available -
          tokens (manager.budget.select items).selected := by omega
      exact iff_of_true (fun item hitem e he => carried_roomy hids hcompress hsnapshot hroomy
        hitem he) (.inr (.inl (Nat.not_lt.mp hcrowded)))

/-- A window that leaves twenty tokens to the context. -/
def crowdedManager : ContextManager := ⟨budgetOf 1772 (4 / 5) (by decide) four_fifths, id⟩

def crowdedItems : List ContextItem :=
  [createItem ⟨"item-0", 0⟩ "constraint" "Do not write outside the repository root" 0 [] [] true
      (by decide),
    createItem ⟨"item-1", 0⟩ "finding" "The parser drops trailing bytes." 100 [] ["evidence-0"]
      false ordinary_priority]

/-- The constraint leaves too little for a summary, and the evidence of the finding is gone. -/
theorem evidence_lost : ∃ snapshot,
    crowdedManager.build firstStamps.build "run" none crowdedItems .TASK 1 = .ok (snapshot, none) ∧
      ¬ Carried crowdedItems snapshot none "evidence-0" := by
  have h : (crowdedManager.build firstStamps.build "run" none crowdedItems .TASK 1).toOption.any
      (fun built => built.2 = none ∧ built.1.itemIds = ["item-0"]) = true := by
    decide +kernel
  cases hbuild : crowdedManager.build firstStamps.build "run" none crowdedItems .TASK 1 with
  | error e =>
    rw [hbuild] at h
    cases h
  | ok built =>
    obtain ⟨snapshot, summary⟩ := built
    rw [hbuild] at h
    obtain ⟨rfl, hitems⟩ := of_decide_eq_true h
    dsimp only at hitems
    refine ⟨snapshot, rfl, ?_⟩
    rintro (⟨item, hitem, hselected, he⟩ | ⟨record, hnone, -⟩)
    · rw [hitems] at hselected
      simp only [crowdedItems, List.mem_cons, List.not_mem_nil, or_false] at hitem hselected
      obtain rfl | rfl := hitem
      · cases he
      · exact absurd hselected (by decide)
    · cases hnone

/-- In a wider window the evidence stays. -/
theorem evidence_carried_roomy : ∃ snapshot summary,
    roomyManager.build firstStamps.build "run" none crowdedItems .TASK 1 = .ok (snapshot, summary) ∧
      ∀ item ∈ crowdedItems, ∀ e ∈ item.evidenceIds, Carried crowdedItems snapshot summary e := by
  have h : (roomyManager.build firstStamps.build "run" none crowdedItems .TASK 1).toOption.isSome =
      true := by
    decide +kernel
  cases hbuild : roomyManager.build firstStamps.build "run" none crowdedItems .TASK 1 with
  | error e =>
    rw [hbuild] at h
    cases h
  | ok built =>
    obtain ⟨snapshot, summary⟩ := built
    refine ⟨snapshot, summary, rfl, ?_⟩
    apply (evidence_carried_iff _ _ _ _ _ _ _ _ _ hbuild).mpr
    exact .inr (.inl (by decide +kernel))

end DurableAgent.Context
