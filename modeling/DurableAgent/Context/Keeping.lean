import DurableAgent.Context.Selection
import DurableAgent.Context.Thread

/-!
# What a run's context keeps

The items carried, and those stored with every snapshot, have distinct identifiers that are in
use, and an item refers to a summary of the run just where it is navigation. So new identifiers
clash with nothing, and a success whose items are affordable is saved.
-/

namespace DurableAgent.Context

open Library

variable {runId : String}

/-- An item in use, which refers to summaries of the run just where it is navigation. -/
structure Tidy (t : ContextTables) (runId : String) (used : List String) (item : ContextItem) :
    Prop where
  inUse : item.itemId ∈ used
  refs_used : ∀ ref ∈ item.sourceRefs, ref ∈ used
  leads : ∀ ref ∈ item.sourceRefs, (item.category = "summary" ↔ Summarized t runId ref)

structure Kept (t : ContextTables) (runId : String) (used : List String)
    (items : List ContextItem) : Prop where
  nodup : (items.map ContextItem.itemId).Nodup
  tidy : ∀ item ∈ items, Tidy t runId used item

/-- A stored context lists summaries of the run, among them those its selected items refer to. -/
structure KeptRow (t : ContextTables) (runId : String) (used : List String) (row : ContextRow) :
    Prop where
  kept : Kept t runId used row.items
  listed : ∀ id ∈ row.snapshot.summaryIds, Summarized t runId id
  covers : ∀ item ∈ selectedItems row.snapshot row.items, item.category = "summary" →
    ∀ ref ∈ item.sourceRefs, ref ∈ row.snapshot.summaryIds

/-- The invariant of the states that a run's context reaches. -/
structure Sound (runId : String) (s : ContextState) : Prop where
  contexts_used : ∀ row ∈ s.tables.contexts.rows, row.contextId ∈ s.used
  summaries_used : ∀ row ∈ s.tables.summaries.rows, row.summaryId ∈ s.used
  payloads : ∀ row ∈ s.tables.summaries.rows, row.runId = runId →
    row.payload.summaryId = row.summaryId
  rows : ∀ row ∈ s.tables.contexts.rows, row.runId = runId → KeptRow s.tables runId s.used row
  working : ∀ w, s.working = some w → Kept s.tables runId s.used w.items

theorem Unstarted.sound {s : ContextState} (h : Unstarted runId s) : Sound runId s where
  contexts_used := h.contexts_used
  summaries_used := h.summaries_used
  payloads row hrow hrun := absurd hrun (h.no_summary row hrow)
  rows row hrow hrun := absurd hrun (h.no_context row hrow)
  working w hw := by simp [h.idle] at hw

/-! ## Items -/

section Items

variable {t t' : ContextTables} {used used' : List String}

/-- New identifiers and new summaries leave an item tidy. -/
theorem Tidy.mono {item : ContextItem} (h : Tidy t runId used item)
    (hused : ∀ id ∈ used, id ∈ used')
    (hsame : ∀ id ∈ used, (Summarized t' runId id ↔ Summarized t runId id)) :
    Tidy t' runId used' item where
  inUse := hused _ h.inUse
  refs_used ref href := hused _ (h.refs_used ref href)
  leads ref href := (h.leads ref href).trans (hsame ref (h.refs_used ref href)).symm

theorem Kept.mono {items : List ContextItem} (h : Kept t runId used items)
    (hused : ∀ id ∈ used, id ∈ used')
    (hsame : ∀ id ∈ used, (Summarized t' runId id ↔ Summarized t runId id)) :
    Kept t' runId used' items where
  nodup := h.nodup
  tidy item hitem := (h.tidy item hitem).mono hused hsame

theorem KeptRow.mono {row : ContextRow} (h : KeptRow t runId used row)
    (hused : ∀ id ∈ used, id ∈ used')
    (hsame : ∀ id ∈ used, (Summarized t' runId id ↔ Summarized t runId id))
    (hgrows : ∀ id, Summarized t runId id → Summarized t' runId id) :
    KeptRow t' runId used' row where
  kept := h.kept.mono hused hsame
  listed id hid := hgrows id (h.listed id hid)
  covers := h.covers

theorem Kept.selected {items : List ContextItem} (h : Kept t runId used items)
    (snapshot : ContextSnapshot) : Kept t runId used (selectedItems snapshot items) where
  nodup := h.nodup.sublist (List.filter_sublist.map ContextItem.itemId)
  tidy item hitem := h.tidy item (List.mem_filter.mp hitem).1

theorem Kept.append {xs ys : List ContextItem} (hx : Kept t runId used xs)
    (hy : Kept t runId used ys)
    (hnew : ∀ item ∈ ys, ∀ other ∈ xs, other.itemId ≠ item.itemId) :
    Kept t runId used (xs ++ ys) where
  nodup := by
    rw [List.map_append]
    apply hx.nodup.append hy.nodup
    intro id hid hid'
    obtain ⟨other, hother, rfl⟩ := List.mem_map.mp hid
    obtain ⟨item, hitem, hsame⟩ := List.mem_map.mp hid'
    exact hnew item hitem other hother hsame.symm
  tidy item hitem := by
    rcases List.mem_append.mp hitem with hitem | hitem
    · exact hx.tidy item hitem
    · exact hy.tidy item hitem

/-- The navigation to a summary of the run keeps the items tidy. -/
theorem Kept.withNavigation {items : List ContextItem} {stamp : Stamp}
    {summary : Option SummaryRecord} (h : Kept t runId used items) (hstamp : stamp.id ∈ used)
    (hnew : ∀ item ∈ items, item.itemId ≠ stamp.id)
    (hsummary : ∀ record, summary = some record →
      record.summaryId ∈ used ∧ Summarized t runId record.summaryId) :
    Kept t runId used (withNavigation stamp items summary) := by
  cases summary with
  | none => exact h
  | some record =>
    obtain ⟨hused, hsummarized⟩ := hsummary record rfl
    simp only [Context.withNavigation, appendSummaryNavigation]
    split_ifs
    · exact h
    · apply h.append
      · constructor
        · simp
        · intro item hitem
          rw [List.mem_singleton.mp hitem]
          constructor
          · exact hstamp
          · simpa [createItem] using hused
          · simpa [createItem] using hsummarized
      · intro item hitem other hother
        rw [List.mem_singleton.mp hitem]
        exact hnew other hother

/-- The two items of a success, whose task has no summary's identifier. -/
theorem recordItems_kept {success : Success} {stamps : SuccessStamps}
    (hne : stamps.state.id ≠ stamps.history.id) (hstate : stamps.state.id ∈ used)
    (hhistory : stamps.history.id ∈ used) (htask : success.taskId ∈ used)
    (hplain : ¬ Summarized t runId success.taskId) :
    Kept t runId used (recordItems stamps success) where
  nodup := by simpa [recordItems, createItem] using hne
  tidy item hitem := by
    simp only [recordItems, List.mem_cons, List.not_mem_nil, or_false] at hitem
    rcases hitem with rfl | rfl
    · constructor
      · exact hstate
      · simpa [createItem] using htask
      · simpa [createItem] using hplain
    · constructor
      · exact hhistory
      · simpa [createItem] using htask
      · simpa [createItem] using hplain

end Items

/-! ## Steps -/

theorem nextSummaryLevel_bounds (summary : Option SummaryRecord) :
    1 ≤ (nextSummaryLevel summary).2 ∧ (nextSummaryLevel summary).2 ≤ 3 := by
  unfold nextSummaryLevel
  split
  · decide
  · split_ifs <;> decide

section Steps

variable {manager : ContextManager} {s : ContextState} {w : Working} {success : Success}
  {stamps : SuccessStamps}

/-- What the freshness of a success says of its identifiers. -/
structure NewIds (s : ContextState) (success : Success) (stamps : SuccessStamps) : Prop where
  task : success.taskId ∉ s.used
  state : stamps.state.id ∉ s.used
  history : stamps.history.id ∉ s.used
  summary : stamps.build.summary.id ∉ s.used
  context : stamps.build.context.id ∉ s.used
  navigation : stamps.navigation.id ∉ s.used
  state_ne_history : stamps.state.id ≠ stamps.history.id
  task_ne_summary : success.taskId ≠ stamps.build.summary.id
  state_ne_navigation : stamps.state.id ≠ stamps.navigation.id
  history_ne_navigation : stamps.history.id ≠ stamps.navigation.id

theorem newIds (h : (ContextEvent.succeeded success stamps).Fresh s) :
    NewIds s success stamps := by
  obtain ⟨hnodup, hnew⟩ := h
  simp only [ContextEvent.ids, SuccessStamps.ids, List.nodup_cons, List.mem_cons, not_or] at hnodup
  constructor
  · exact hnew _ (by simp [ContextEvent.ids])
  · exact hnew _ (by simp [ContextEvent.ids, SuccessStamps.ids])
  · exact hnew _ (by simp [ContextEvent.ids, SuccessStamps.ids])
  · exact hnew _ (by simp [ContextEvent.ids, SuccessStamps.ids])
  · exact hnew _ (by simp [ContextEvent.ids, SuccessStamps.ids])
  · exact hnew _ (by simp [ContextEvent.ids, SuccessStamps.ids])
  · exact hnodup.2.1.1
  · exact hnodup.1.2.2.1
  · exact hnodup.2.1.2.2.2.1
  · exact hnodup.2.2.1.2.2.1

/-- The identifiers in use after an event. -/
abbrev ContextState.usedAfter (s : ContextState) (e : ContextEvent) : List String := s.used ++ e.ids

theorem Sound.used_of_summarized (h : Sound runId s) {id : String}
    (hid : Summarized s.tables runId id) : id ∈ s.used := by
  obtain ⟨row, hrow, -, rfl⟩ := hid
  exact h.summaries_used row hrow

theorem itemsAfter_kept (h : Sound runId s) (hw : s.working = some w)
    (hfresh : (ContextEvent.succeeded success stamps).Fresh s) :
    Kept s.tables runId (s.usedAfter (.succeeded success stamps)) (itemsAfter w success stamps) := by
  have hnew := newIds hfresh
  apply Kept.append
  · apply (h.working w hw).mono
    · exact fun id hid => List.mem_append_left _ hid
    · exact fun id _ => Iff.rfl
  · apply recordItems_kept hnew.state_ne_history
    · simp [ContextEvent.ids, SuccessStamps.ids]
    · simp [ContextEvent.ids, SuccessStamps.ids]
    · simp [ContextEvent.ids]
    · exact fun htask => hnew.task (h.used_of_summarized htask)
  · intro item hitem other hother hsame
    have hused := ((h.working w hw).tidy other hother).inUse
    simp only [recordItems, List.mem_cons, List.not_mem_nil, or_false] at hitem
    rw [hsame] at hused
    rcases hitem with rfl | rfl
    · exact hnew.state hused
    · exact hnew.history hused

/-- A success whose items are affordable is saved, and nothing clashes. -/
theorem bookkeep_ok (h : Sound runId s) (hw : s.working = some w)
    (hfresh : (ContextEvent.succeeded success stamps).Fresh s)
    (hafford : Affordable manager.budget (itemsAfter w success stamps)) :
    ∃ snapshot summary active removed t,
      Builds stamps.build runId (itemsAfter w success stamps) (nextSummaryLevel w.summary).1
        (nextSummaryLevel w.summary).2 snapshot summary active removed ∧
      Saved s.tables t snapshot (itemsAfter w success stamps) summary ∧
      buildAfter manager runId w success stamps = .ok (snapshot, summary) ∧
      s.step manager runId (.succeeded success stamps) =
        ⟨t, some (w.next success stamps snapshot summary),
          s.written ++ .committed success.taskId :: entries success snapshot,
          s.usedAfter (.succeeded success stamps)⟩ := by
  have hkept := itemsAfter_kept h hw hfresh
  obtain ⟨hpos, hle⟩ := nextSummaryLevel_bounds w.summary
  obtain ⟨snapshot, summary, active, removed, hbuild, hbuilds⟩ := @build_ok _ _ stamps.build
    runId (some success.taskId) (nextSummaryLevel w.summary).1 _ hkept.nodup hpos hle hafford
  have hnew := newIds hfresh
  have hcontext : ∀ row ∈ s.tables.contexts.rows, row.contextId ≠ snapshot.contextId := by
    intro row hrow hsame
    apply hnew.context
    rw [← hbuilds.contextId, ← hsame]
    exact h.contexts_used row hrow
  have hsummary : ∀ record, summary = some record →
      ∀ row ∈ s.tables.summaries.rows, row.summaryId ≠ record.summaryId := by
    intro record hrecord row hrow hsame
    obtain ⟨maximumTokens, hcompresses⟩ := hbuilds.compresses record hrecord
    apply hnew.summary
    rw [← hcompresses.summaryId, ← hsame]
    exact h.summaries_used row hrow
  obtain ⟨t, hsave, hsaved⟩ := @saveContext_ok _ _ (itemsAfter w success stamps) _ hcontext hsummary
  refine ⟨snapshot, summary, active, removed, t, hbuilds, hsaved, hbuild, ?_⟩
  simp only [ContextState.step, hw, bookkeep, buildAfter, hbuild, hsave, bind, Except.bind]

/-- A built snapshot lists what the selected items of its row refer to. -/
theorem Builds.covers {items active removed : List ContextItem} {level : SummaryLevel}
    {generation : Nat} {snapshot : ContextSnapshot} {summary : Option SummaryRecord}
    (h : Builds stamps.build runId items level generation snapshot summary active removed)
    (hnodup : (items.map ContextItem.itemId).Nodup) {item : ContextItem}
    (hitem : item ∈ selectedItems snapshot items) (hcategory : item.category = "summary")
    {ref : String} (href : ref ∈ item.sourceRefs) : ref ∈ snapshot.summaryIds := by
  simp only [selectedItems, List.mem_filter, h.itemIds, List.mem_map, decide_eq_true_iff] at hitem
  obtain ⟨hitem, other, hother, hsame⟩ := hitem
  have heq : other = item :=
    List.inj_on_of_nodup_map hnodup (h.active_subset other hother) hitem hsame
  subst heq
  rw [h.summaryIds]
  apply List.mem_append_left
  exact mem_summaryReferences.mpr ⟨other, hother, hcategory, href⟩

/-- Every summary that a built snapshot lists is its own or one that its items refer to. -/
theorem Builds.listed {items active removed : List ContextItem} {level : SummaryLevel}
    {generation : Nat} {snapshot : ContextSnapshot} {summary : Option SummaryRecord}
    (h : Builds stamps.build runId items level generation snapshot summary active removed)
    {id : String} (hid : id ∈ snapshot.summaryIds) :
    (∃ record, summary = some record ∧ record.summaryId = id) ∨
      ∃ item ∈ items, item.category = "summary" ∧ id ∈ item.sourceRefs := by
  rw [h.summaryIds, List.mem_append] at hid
  rcases hid with hid | hid
  · obtain ⟨item, hitem, hcategory, href⟩ := mem_summaryReferences.mp hid
    exact .inr ⟨item, h.active_subset item hitem, hcategory, href⟩
  · obtain ⟨record, hrecord, rfl⟩ := List.mem_map.mp hid
    exact .inl ⟨record, by simpa using hrecord, rfl⟩

/-- A success whose items are not affordable ends the call of `advance`. -/
theorem bookkeep_error (hw : s.working = some w)
    (h : ¬ Affordable manager.budget (itemsAfter w success stamps)) :
    ∃ e, buildAfter manager runId w success stamps = .error e ∧
      s.step manager runId (.succeeded success stamps) =
        ⟨s.tables, none, s.written ++ [.committed success.taskId],
          s.usedAfter (.succeeded success stamps)⟩ := by
  obtain ⟨e, he⟩ := @build_error _ _ stamps.build runId (some success.taskId)
    (nextSummaryLevel w.summary).1 (nextSummaryLevel w.summary).2 h
  exact ⟨e, he, by simp only [ContextState.step, hw, bookkeep, buildAfter, he, bind, Except.bind]⟩

/-- The summary that a stored snapshot names last is the one it has a row for. -/
theorem Sound.lastSummary (h : Sound runId s) {row : ContextRow}
    (hrow : row ∈ s.tables.contexts.rows) (hrun : row.runId = runId) {id : String}
    (hid : row.snapshot.summaryIds.getLast? = some id) :
    ∃ record, lastSummary s.tables row.snapshot = some record ∧ record.summaryId = id ∧
      Summarized s.tables runId id := by
  obtain ⟨found, hfound, hfoundRun, rfl⟩ :=
    (h.rows row hrow hrun).listed id (List.mem_of_getLast? hid)
  have hfind : s.tables.summaries.find found.summaryId = some found :=
    Table.find_eq_some.mpr ⟨hfound, rfl⟩
  exact ⟨found.payload, by simp [Context.lastSummary, hid, hfind],
    h.payloads found hfound hfoundRun, found, hfound, hfoundRun, rfl⟩

theorem Sound.reload_kept (h : Sound runId s) {stamp : Stamp} (hnew : stamp.id ∉ s.used) :
    Kept s.tables runId (s.usedAfter (.started stamp)) (reload s.tables runId stamp).items := by
  unfold reload latestContext
  cases hlatest : latestRow s.tables runId with
  | none =>
    constructor
    · simp
    · simp
  | some row =>
    obtain ⟨hrow, hrun⟩ := latestRow_mem hlatest
    have hselected := (h.rows row hrow hrun).kept.selected row.snapshot
    simp only [Option.map_some]
    apply (hselected.mono _ fun id _ => Iff.rfl).withNavigation
    · simp [ContextEvent.ids]
    · intro item hitem hsame
      exact hnew (hsame ▸ (hselected.tidy item hitem).inUse)
    · intro record hrecord
      cases hlast : row.snapshot.summaryIds.getLast? with
      | none => simp [Context.lastSummary, hlast] at hrecord
      | some id =>
        obtain ⟨found, hfound, hid, hsummarized⟩ := h.lastSummary hrow hrun hlast
        have heq : found = record := Option.some.inj (hfound.symm.trans hrecord)
        rw [← heq, hid]
        exact ⟨List.mem_append_left _ (h.used_of_summarized hsummarized), hsummarized⟩
    · exact fun id hid => List.mem_append_left _ hid

theorem Sound.started (h : Sound runId s) {stamp : Stamp}
    (hfresh : (ContextEvent.started stamp).Fresh s) :
    Sound runId (s.step manager runId (.started stamp)) where
  contexts_used row hrow := List.mem_append_left _ (h.contexts_used row hrow)
  summaries_used row hrow := List.mem_append_left _ (h.summaries_used row hrow)
  payloads := h.payloads
  rows row hrow hrun := (h.rows row hrow hrun).mono
    (fun id hid => List.mem_append_left _ hid) (fun id _ => Iff.rfl) fun id hid => hid
  working w hw := by
    obtain rfl : reload s.tables runId stamp = w := Option.some.inj hw
    exact h.reload_kept (hfresh.2 stamp.id (by simp [ContextEvent.ids]))

theorem Sound.invalidated (h : Sound runId s) (reason : String) :
    Sound runId (s.step manager runId (.invalidated reason)) where
  contexts_used := h.contexts_used
  summaries_used row hrow := by
    obtain ⟨old, hold, rfl⟩ := List.mem_map.mp hrow
    rw [SummaryRow.invalidated_summaryId]
    exact h.summaries_used old hold
  payloads row hrow hrun := by
    obtain ⟨old, hold, rfl⟩ := List.mem_map.mp hrow
    have hsame := h.payloads old hold (by simpa using hrun)
    unfold SummaryRow.invalidated
    split_ifs
    · exact hsame
    · exact hsame
  rows row hrow hrun := (h.rows row hrow hrun).mono (fun id hid => hid)
    (fun id _ => summarized_invalidate) fun id hid => summarized_invalidate.mpr hid
  working w hw := by cases hw

section Saved

variable {t : ContextTables} {snapshot : ContextSnapshot} {summary : Option SummaryRecord}
  {active removed : List ContextItem} {level : SummaryLevel} {generation : Nat}

theorem Builds.summary_ids {items : List ContextItem}
    (h : Builds stamps.build runId items level generation snapshot summary active removed)
    {record : SummaryRecord} (hrecord : summary = some record) :
    record.summaryId = stamps.build.summary.id ∧ record.runId = runId := by
  obtain ⟨maximumTokens, hcompresses⟩ := h.compresses record hrecord
  exact ⟨hcompresses.summaryId, hcompresses.runId⟩

variable (hbuilds : Builds stamps.build runId (itemsAfter w success stamps) level generation
  snapshot summary active removed)
  (hsaved : Saved s.tables t snapshot (itemsAfter w success stamps) summary)

include hbuilds hsaved

theorem summarized_saved (id : String) : Summarized t runId id ↔
    (∃ record, summary = some record ∧ record.summaryId = id) ∨ Summarized s.tables runId id :=
  summarized_save hsaved fun _ hrecord => (hbuilds.summary_ids hrecord).2

/-- A new summary has an identifier that nothing kept refers to. -/
theorem summarized_known (hfresh : (ContextEvent.succeeded success stamps).Fresh s) {id : String}
    (hid : id ∈ s.used ∨ id = success.taskId) :
    Summarized t runId id ↔ Summarized s.tables runId id := by
  have hnew := newIds hfresh
  rw [summarized_saved hbuilds hsaved id]
  constructor
  · rintro (⟨record, hrecord, rfl⟩ | hold)
    · rw [(hbuilds.summary_ids hrecord).1] at hid
      rcases hid with hused | htask
      · exact absurd hused hnew.summary
      · exact absurd htask.symm hnew.task_ne_summary
    · exact hold
  · exact .inr

/-- The items that were built from are kept beside the new summary. -/
theorem itemsAfter_saved (h : Sound runId s) (hw : s.working = some w)
    (hfresh : (ContextEvent.succeeded success stamps).Fresh s) :
    Kept t runId (s.usedAfter (.succeeded success stamps)) (itemsAfter w success stamps) where
  nodup := (itemsAfter_kept h hw hfresh).nodup
  tidy item hitem := by
    have htidy := (itemsAfter_kept h hw hfresh).tidy item hitem
    refine ⟨htidy.inUse, htidy.refs_used, fun ref href => ?_⟩
    have hknown : ref ∈ s.used ∨ ref = success.taskId := by
      rcases List.mem_append.mp hitem with hold | hadded
      · exact .inl (((h.working w hw).tidy item hold).refs_used ref href)
      · simp only [recordItems, List.mem_cons, List.not_mem_nil, or_false] at hadded
        rcases hadded with rfl | rfl
        · exact .inr (by simpa [createItem] using href)
        · exact .inr (by simpa [createItem] using href)
    rw [summarized_known hbuilds hsaved hfresh hknown]
    exact htidy.leads ref href

/-- The row of a new context. -/
theorem contextRow_kept (h : Sound runId s) (hw : s.working = some w)
    (hfresh : (ContextEvent.succeeded success stamps).Fresh s) :
    KeptRow t runId (s.usedAfter (.succeeded success stamps))
      (contextRow snapshot (itemsAfter w success stamps)) where
  kept := itemsAfter_saved hbuilds hsaved h hw hfresh
  listed id hid := by
    rcases hbuilds.listed hid with hown | ⟨item, hitem, hcategory, href⟩
    · exact (summarized_saved hbuilds hsaved id).mpr (.inl hown)
    · exact (((itemsAfter_saved hbuilds hsaved h hw hfresh).tidy item hitem).leads id href).mp
        hcategory
  covers _ hitem hcategory _ href :=
    hbuilds.covers (itemsAfter_kept h hw hfresh).nodup hitem hcategory href

/-- What is carried on to the next task. -/
theorem next_kept (h : Sound runId s) (hw : s.working = some w)
    (hfresh : (ContextEvent.succeeded success stamps).Fresh s) :
    Kept t runId (s.usedAfter (.succeeded success stamps))
      (w.next success stamps snapshot summary).items := by
  have hnew := newIds hfresh
  apply ((itemsAfter_saved hbuilds hsaved h hw hfresh).selected snapshot).withNavigation
  · simp [ContextEvent.ids, SuccessStamps.ids]
  · intro item hitem hclash
    rcases List.mem_append.mp (List.mem_filter.mp hitem).1 with hold | hadded
    · exact hnew.navigation (hclash ▸ ((h.working w hw).tidy item hold).inUse)
    · simp only [recordItems, List.mem_cons, List.not_mem_nil, or_false] at hadded
      rcases hadded with rfl | rfl
      · exact hnew.state_ne_navigation hclash
      · exact hnew.history_ne_navigation hclash
  · intro record hrecord
    have hid := (hbuilds.summary_ids hrecord).1
    exact ⟨by simp [hid, ContextEvent.ids, SuccessStamps.ids],
      (summarized_saved hbuilds hsaved _).mpr (.inl ⟨record, hrecord, rfl⟩)⟩

/-- The invariant holds after a success whose context was saved. -/
theorem Sound.saved (h : Sound runId s) (hw : s.working = some w)
    (hfresh : (ContextEvent.succeeded success stamps).Fresh s) (written : List Entry) :
    Sound runId ⟨t, some (w.next success stamps snapshot summary), written,
      s.usedAfter (.succeeded success stamps)⟩ where
  contexts_used row hrow := by
    rw [hsaved.contexts] at hrow
    rcases List.mem_cons.mp hrow with rfl | hrow
    · simp [contextRow, hbuilds.contextId, ContextEvent.ids, SuccessStamps.ids]
    · exact List.mem_append_left _ (h.contexts_used row hrow)
  summaries_used row hrow := by
    rw [hsaved.summaries, List.mem_append] at hrow
    rcases hrow with hrow | hrow
    · obtain ⟨record, hrecord, rfl⟩ := List.mem_map.mp hrow
      have hid := (hbuilds.summary_ids (by simpa using hrecord : summary = some record)).1
      simp [summaryRow, hid, ContextEvent.ids, SuccessStamps.ids]
    · exact List.mem_append_left _ (h.summaries_used row hrow)
  payloads row hrow hrun := by
    rw [hsaved.summaries, List.mem_append] at hrow
    rcases hrow with hrow | hrow
    · obtain ⟨record, -, rfl⟩ := List.mem_map.mp hrow
      rfl
    · exact h.payloads row hrow hrun
  rows row hrow hrun := by
    rw [hsaved.contexts] at hrow
    rcases List.mem_cons.mp hrow with rfl | hrow
    · exact contextRow_kept hbuilds hsaved h hw hfresh
    · exact (h.rows row hrow hrun).mono (fun id hid => List.mem_append_left _ hid)
        (fun id hid => summarized_known hbuilds hsaved hfresh (.inl hid))
        fun id hid => (summarized_saved hbuilds hsaved id).mpr (.inr hid)
  working w' hw' := by
    rw [← Option.some.inj hw']
    exact next_kept hbuilds hsaved h hw hfresh

end Saved

/-- One event keeps the invariant. -/
theorem Sound.step (h : Sound runId s) {e : ContextEvent} (hfresh : e.Fresh s) :
    Sound runId (s.step manager runId e) := by
  cases e with
  | started stamp => exact h.started hfresh
  | invalidated reason => exact h.invalidated reason
  | succeeded success stamps =>
    cases hw : s.working with
    | none => simpa only [ContextState.step, hw] using h
    | some w =>
      by_cases hafford : Affordable manager.budget (itemsAfter w success stamps)
      · obtain ⟨snapshot, summary, active, removed, t, hbuilds, hsaved, -, hstep⟩ :=
          @bookkeep_ok _ manager _ _ _ _ h hw hfresh hafford
        rw [hstep]
        exact h.saved hbuilds hsaved hw hfresh _
      · obtain ⟨e, -, hstep⟩ := @bookkeep_error runId _ _ _ _ _ hw hafford
        rw [hstep]
        constructor
        · exact fun row hrow => List.mem_append_left _ (h.contexts_used row hrow)
        · exact fun row hrow => List.mem_append_left _ (h.summaries_used row hrow)
        · exact h.payloads
        · exact fun row hrow hrun => (h.rows row hrow hrun).mono
            (fun id hid => List.mem_append_left _ hid) (fun id _ => Iff.rfl) fun id hid => hid
        · intro w' hw'
          cases hw'

/-- The invariant holds in every state that a run's context reaches. -/
theorem Reaches.sound {s₀ : ContextState} (h : Reaches manager runId s₀ s)
    (h₀ : Unstarted runId s₀) : Sound runId s := by
  induction h with
  | refl => exact h₀.sound
  | step _ hfresh ih => exact ih.step hfresh

end Steps

end DurableAgent.Context
