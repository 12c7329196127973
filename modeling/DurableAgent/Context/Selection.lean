import DurableAgent.Context.Manager

/-!
# What a build selects

The selection stays within the budget and the records it makes pass their validators, so `build`
raises where the mandatory items do not fit, and where the capacity is no float, and nowhere else.
-/

namespace DurableAgent.Context

open Library

variable {items : List ContextItem}

theorem mem_mandatoryItems (item : ContextItem) :
    item ∈ mandatoryItems items ↔ item ∈ items ∧ item.Preserved := by
  simp [mandatoryItems]

theorem mem_optionalItems (item : ContextItem) :
    item ∈ optionalItems items ↔ item ∈ items ∧ ¬ item.Preserved := by
  simp only [optionalItems, List.mem_insertionSort, List.mem_filter, mem_mandatoryItems,
    decide_eq_true_iff, not_and]
  exact ⟨fun ⟨hitem, h⟩ => ⟨hitem, h hitem⟩, fun ⟨hitem, h⟩ => ⟨hitem, fun _ => h⟩⟩

theorem optionalItems_nodup (h : (items.map ContextItem.itemId).Nodup) :
    ((optionalItems items).map ContextItem.itemId).Nodup := by
  have hperm := List.perm_insertionSort SelectedBefore
    (items.filter fun item => item ∉ mandatoryItems items)
  rw [optionalItems, (hperm.map ContextItem.itemId).nodup_iff]
  exact h.sublist (List.filter_sublist.map ContextItem.itemId)

theorem mem_summaryReferences {id : String} : id ∈ summaryReferences items ↔
    ∃ item ∈ items, item.category = "summary" ∧ id ∈ item.sourceRefs := by
  simp [summaryReferences, and_assoc]

@[simp] theorem tokens_append (xs ys : List ContextItem) :
    tokens (xs ++ ys) = tokens xs + tokens ys := by
  simp [tokens]

/-! ## The selection -/

theorem fitting_subset (limit : Nat) (rest : List ContextItem) (used : Nat) :
    ∀ item ∈ fitting limit rest used, item ∈ rest := by
  induction rest generalizing used with
  | nil => simp [fitting]
  | cons first rest ih =>
    intro item hitem
    unfold fitting at hitem
    split_ifs at hitem with hfits
    · rcases List.mem_cons.mp hitem with rfl | hitem
      · exact List.mem_cons_self
      · exact List.mem_cons_of_mem _ (ih _ item hitem)
    · exact List.mem_cons_of_mem _ (ih _ item hitem)

/-- What is taken stays below the limit. -/
theorem fitting_le {limit : Nat} (rest : List ContextItem) {used : Nat} (h : used ≤ limit) :
    used + tokens (fitting limit rest used) ≤ limit := by
  induction rest generalizing used with
  | nil => simpa [fitting, tokens] using h
  | cons first rest ih =>
    unfold fitting
    split_ifs with hfits
    · have hrest := ih hfits
      simp only [tokens, List.map_cons, List.sum_cons] at hrest ⊢
      omega
    · exact ih h

variable {budget : ContextBudget}

theorem select_le (h : tokens (mandatoryItems items) ≤ budget.available) :
    tokens (budget.select items).selected ≤ budget.available := by
  have hfit := fitting_le (optionalItems items)
    (le_max_right (budget.available - min (max (budget.available / 5) 64) 1024)
      (tokens (mandatoryItems items)))
  simp only [ContextBudget.select, tokens_append]
  omega

theorem selected_subset (item : ContextItem) (h : item ∈ (budget.select items).selected) :
    item ∈ items := by
  rcases List.mem_append.mp h with h | h
  · exact ((mem_mandatoryItems item).mp h).1
  · exact ((mem_optionalItems item).mp (fitting_subset _ _ _ item h)).1

theorem removed_subset (item : ContextItem) (h : item ∈ (budget.select items).removed) :
    item ∈ items :=
  ((mem_optionalItems item).mp (List.mem_filter.mp h).1).1

theorem removed_nodup (h : (items.map ContextItem.itemId).Nodup) :
    ((budget.select items).removed.map ContextItem.itemId).Nodup :=
  (optionalItems_nodup h).sublist (List.filter_sublist.map ContextItem.itemId)

/-! ## The summary -/

theorem sourceHashes_keys {removed : List ContextItem} (sha256Digest : String → String)
    (h : (removed.map ContextItem.itemId).Nodup) :
    (sourceHashes sha256Digest removed).keys = removed.map ContextItem.itemId := by
  have hpairs : ((removed.map fun item => (item.itemId, sha256Digest item.content)).map
      Prod.fst) = removed.map ContextItem.itemId := by
    rw [List.map_map]
    rfl
  rw [sourceHashes, Dict.keys, Dict.ofPairs_entries (by rw [hpairs]; exact h), hpairs]

theorem retainedConstraints_repeated {removed : List ContextItem} {generation : Nat}
    (h : 1 < generation) : retainedConstraints removed generation ≠ [] := by
  simp only [retainedConstraints]
  split_ifs with hnone
  · simp
  · exact fun heq => hnone ⟨h, heq⟩

/-- A summary that `_compress` makes of removed items. -/
structure Compresses (stamp : Stamp) (runId : String) (removed : List ContextItem)
    (level : SummaryLevel) (generation maximumTokens : Nat) (summary : SummaryRecord) : Prop where
  summaryId : summary.summaryId = stamp.id
  runId : summary.runId = runId
  level : summary.level = level
  generation : summary.generation = generation
  valid : summary.valid = true
  sources : summary.sourceSummaryIds = summaryReferences removed
  content : summary.content = summaryContent removed maximumTokens
  tokens_le : summary.estimatedTokens ≤ maximumTokens

variable {manager : ContextManager}

/-- There is a summary where something is removed and there is room to say what. -/
theorem compress_spec {stamp : Stamp} {runId : String} {removed : List ContextItem}
    {level : SummaryLevel} {generation maximumTokens : Nat}
    (hremoved : (removed.map ContextItem.itemId).Nodup) (hpos : 1 ≤ generation)
    (hle : generation ≤ 3) :
    ∃ summary, manager.compress stamp runId removed level generation maximumTokens = .ok summary ∧
      (summary = none ↔ removed = [] ∨ maximumTokens < 16) ∧
      ∀ record, summary = some record →
        Compresses stamp runId removed level generation maximumTokens record := by
  unfold ContextManager.compress
  split_ifs with hnone
  · exact ⟨none, rfl, by simp [hnone], by simp⟩
  · have hkeys := sourceHashes_keys manager.sha256Digest hremoved
    simp only [SummaryFields.validate]
    rw [dif_pos]
    · refine ⟨_, rfl, by simp [hnone], ?_⟩
      rintro record ⟨⟩
      exact ⟨rfl, rfl, rfl, rfl, rfl, rfl, rfl, min_le_right _ _⟩
    · constructor
      · intro hempty
        exact hnone (.inl (List.map_eq_nil_iff.mp hempty))
      · exact hpos
      · exact hle
      · simp [hkeys]
      · simp [hkeys]
      · exact retainedConstraints_repeated

/-! ## The build -/

/-- What a snapshot and a summary say of the items they were built from. -/
structure Builds (stamps : BuildStamps) (runId : String) (items : List ContextItem)
    (level : SummaryLevel) (generation : Nat) (snapshot : ContextSnapshot)
    (summary : Option SummaryRecord) (active removed : List ContextItem) : Prop where
  contextId : snapshot.contextId = stamps.context.id
  run : snapshot.runId = runId
  createdAt : snapshot.createdAt = stamps.context.time
  active_subset : ∀ item ∈ active, item ∈ items
  keeps : ∀ item ∈ items, item.Preserved → item ∈ active
  removed_subset : ∀ item ∈ removed, item ∈ items
  itemIds : snapshot.itemIds = active.map ContextItem.itemId
  summaryIds : snapshot.summaryIds =
    summaryReferences active ++ summary.toList.map fun record => record.summaryId
  compresses : ∀ record, summary = some record →
    ∃ maximumTokens, Compresses stamps.summary runId removed level generation maximumTokens record

/-- The mandatory items fit the capacity, and the capacity is a float. -/
structure Affordable (budget : ContextBudget) (items : List ContextItem) : Prop where
  fits : tokens (mandatoryItems items) ≤ budget.available
  float : Binary64.ofNat budget.available ≠ none

theorem compressionAt_ok (h : Binary64.ofNat budget.available ≠ none) :
    ∃ threshold, budget.compressionAt = .ok threshold ∧ threshold ≤ budget.available := by
  cases hfloat : Binary64.ofNat budget.available with
  | none => exact absurd hfloat h
  | some capacity =>
    have hok : budget.compressionAt =
        .ok ⌊Binary64.nearest (capacity * budget.compressionThreshold)⌋₊ := by
      simp [ContextBudget.compressionAt, hfloat]
    exact ⟨_, hok, budget.compressionAt_le hok⟩

theorem validate_ok {s : SnapshotFields} (hpos : 0 < s.budgetTokens)
    (hle : s.usedTokens ≤ s.budgetTokens) :
    ∃ snapshot, s.validate = .ok snapshot ∧ snapshot.toSnapshotFields = s :=
  ⟨⟨s, hpos, hle⟩, dif_pos ⟨hpos, hle⟩, rfl⟩

section Build

variable {stamps : BuildStamps} {runId : String} {taskId : Option String}
  {level : SummaryLevel} {generation : Nat}

/-- Everything below the threshold. -/
theorem wholeSnapshot_builds
    (hle : tokens (mandatoryItems items) + tokens (optionalItems items) ≤ budget.available) :
    ∃ snapshot, (budget.wholeSnapshot stamps runId taskId items).validate = .ok snapshot ∧
      Builds stamps runId items level generation snapshot none
        (mandatoryItems items ++ optionalItems items) [] := by
  rw [← tokens_append] at hle
  obtain ⟨snapshot, hsnapshot, hfields⟩ := validate_ok
    (s := budget.wholeSnapshot stamps runId taskId items) budget.available_pos hle
  refine ⟨snapshot, hsnapshot, ?_⟩
  constructor
  · rw [hfields, ContextBudget.wholeSnapshot]
  · rw [hfields, ContextBudget.wholeSnapshot]
  · rw [hfields, ContextBudget.wholeSnapshot]
  · intro item hitem
    rcases List.mem_append.mp hitem with hitem | hitem
    · exact ((mem_mandatoryItems item).mp hitem).1
    · exact ((mem_optionalItems item).mp hitem).1
  · intro item hitem hpreserved
    exact List.mem_append_left _ ((mem_mandatoryItems item).mpr ⟨hitem, hpreserved⟩)
  · simp
  · rw [hfields, ContextBudget.wholeSnapshot]
  · rw [hfields]
    simp [ContextBudget.wholeSnapshot]
  · simp

/-- A selection beside a summary that takes no more than what is left. -/
theorem selectedSnapshot_builds {summary : Option SummaryRecord} {maximumTokens : Nat}
    (hmaximum : maximumTokens = budget.available - tokens (budget.select items).selected)
    (hle : tokens (budget.select items).selected ≤ budget.available)
    (hsummary : ∀ record, summary = some record → Compresses stamps.summary runId
      (budget.select items).removed level generation maximumTokens record) :
    ∃ snapshot, (budget.selectedSnapshot stamps runId taskId (budget.select items)
        summary).validate = .ok snapshot ∧
      Builds stamps runId items level generation snapshot summary
        (budget.select items).selected (budget.select items).removed := by
  have hused : (budget.selectedSnapshot stamps runId taskId (budget.select items)
      summary).usedTokens ≤ budget.available := by
    cases summary with
    | none => simpa [ContextBudget.selectedSnapshot] using hle
    | some record =>
      have hrecord := (hsummary record rfl).tokens_le
      simp only [ContextBudget.selectedSnapshot]
      omega
  obtain ⟨snapshot, hsnapshot, hfields⟩ := validate_ok
    (s := budget.selectedSnapshot stamps runId taskId (budget.select items) summary)
    budget.available_pos hused
  refine ⟨snapshot, hsnapshot, ?_⟩
  constructor
  · rw [hfields]
    rfl
  · rw [hfields]
    rfl
  · rw [hfields]
    rfl
  · exact selected_subset
  · intro item hitem hpreserved
    exact List.mem_append_left _ ((mem_mandatoryItems item).mpr ⟨hitem, hpreserved⟩)
  · exact removed_subset
  · rw [hfields]
    rfl
  · rw [hfields]
    cases summary <;> simp [ContextBudget.selectedSnapshot]
  · intro record hsome
    exact ⟨maximumTokens, hsummary record hsome⟩

theorem build_ok (hnodup : (items.map ContextItem.itemId).Nodup) (hpos : 1 ≤ generation)
    (hle : generation ≤ 3) (h : Affordable manager.budget items) :
    ∃ snapshot summary active removed,
      manager.build stamps runId taskId items level generation = .ok (snapshot, summary) ∧
        Builds stamps runId items level generation snapshot summary active removed := by
  obtain ⟨threshold, hthreshold, hbelow⟩ := compressionAt_ok h.float
  simp only [ContextManager.build, not_true_eq_false, hnodup, if_false, not_lt.mpr h.fits,
    hthreshold, bind, Except.bind]
  by_cases hwhole : tokens (mandatoryItems items) + tokens (optionalItems items) ≤ threshold
  · obtain ⟨snapshot, hsnapshot, hbuilds⟩ := @wholeSnapshot_builds _ _ stamps runId taskId level
      generation (hwhole.trans hbelow)
    exact ⟨snapshot, none, _, [], by simp only [hwhole, if_true, hsnapshot], hbuilds⟩
  · obtain ⟨summary, hcompress, -, hrecord⟩ := @compress_spec manager stamps.summary runId _ level _
      (manager.budget.available - tokens (manager.budget.select items).selected)
      (@removed_nodup _ manager.budget hnodup) hpos hle
    obtain ⟨snapshot, hsnapshot, hbuilds⟩ := @selectedSnapshot_builds _ _ _ _ taskId _ _ _ _ rfl
      (select_le h.fits) hrecord
    exact ⟨snapshot, summary, _, _, by simp only [hwhole, if_false, hcompress, hsnapshot], hbuilds⟩

theorem build_error (h : ¬ Affordable manager.budget items) :
    ∃ e, manager.build stamps runId taskId items level generation = .error e := by
  unfold ContextManager.build
  by_cases hnodup : (items.map ContextItem.itemId).Nodup
  · by_cases hover : manager.budget.available < tokens (mandatoryItems items)
    · simp [hnodup, hover]
    · have hfloat : Binary64.ofNat manager.budget.available = none := by
        by_contra hne
        exact h ⟨not_lt.mp hover, hne⟩
      simp [hnodup, hover, ContextBudget.compressionAt, hfloat, bind, Except.bind]
  · simp [hnodup]

end Build

end DurableAgent.Context
