import DurableAgent.Context.Budgeting
import Mathlib.Data.Fintype.EquivFin

/-!
# What becomes of invalidated summaries

Invalidation marks the rows of the summaries. What `latest_context` reads of a summary are its
row's payload and the items stored with the snapshot, whatever the mark says. So the summaries
that are invalidated stay out of use exactly where the latest context lists none of them.
-/

namespace DurableAgent.Context

open Library

variable {manager : ContextManager} {runId : String} {base s : ContextState}

/-- A summary has come into use since a state: as navigation, in a snapshot, or as the source of
another summary. -/
inductive Uses (runId : String) (base s : ContextState) (id : String) : Prop where
  | navigation {w : Working} {item : ContextItem} (hw : s.working = some w) (hitem : item ∈ w.items)
      (hcategory : item.category = "summary") (href : id ∈ item.sourceRefs)
  | snapshot {row : ContextRow} (hrow : row ∈ s.tables.contexts.rows) (hrun : row.runId = runId)
      (hnew : ∀ old ∈ base.tables.contexts.rows, old.contextId ≠ row.contextId)
      (hid : id ∈ row.snapshot.summaryIds)
  | source {row : SummaryRow} (hrow : row ∈ s.tables.summaries.rows) (hrun : row.runId = runId)
      (hnew : ∀ old ∈ base.tables.summaries.rows, old.summaryId ≠ row.summaryId)
      (hid : id ∈ row.payload.sourceSummaryIds)

/-- None of the summaries of the run in one state has come into use in another, or will be
reloaded from its latest context. -/
structure Clean (runId : String) (base s : ContextState) : Prop where
  known : ∀ id, Summarized base.tables runId id → id ∈ s.used
  unused : ∀ id, Summarized base.tables runId id → ¬ Uses runId base s id
  latest : ∀ row, latestRow s.tables runId = some row → ∀ id ∈ row.snapshot.summaryIds,
    ¬ Summarized base.tables runId id

theorem latestRow_saved {t t' : ContextTables} {snapshot : ContextSnapshot}
    {items : List ContextItem} {summary : Option SummaryRecord} {row : ContextRow}
    (h : Saved t t' snapshot items summary) (hrow : latestRow t' runId = some row) :
    row = contextRow snapshot items ∨ latestRow t runId = some row := by
  unfold latestRow at hrow ⊢
  rw [h.contexts, List.filter_cons] at hrow
  split_ifs at hrow with hrun
  · rw [List.insertionSort_cons] at hrow
    cases hsorted : (t.contexts.rows.filter fun row => row.runId = runId).insertionSort
        LaterFirst with
    | nil =>
      rw [hsorted] at hrow
      exact .inl (Option.some.inj hrow).symm
    | cons first rest =>
      rw [hsorted, List.orderedInsert_cons] at hrow
      split_ifs at hrow
      · exact .inl (Option.some.inj hrow).symm
      · exact .inr hrow
  · exact .inr hrow

/-- Only summaries that the latest context lists are reloaded. -/
theorem reload_listed (h : Sound runId s) {stamp : Stamp} {item : ContextItem}
    (hitem : item ∈ (reload s.tables runId stamp).items) (hcategory : item.category = "summary")
    {id : String} (hid : id ∈ item.sourceRefs) :
    ∃ row, latestRow s.tables runId = some row ∧ id ∈ row.snapshot.summaryIds := by
  unfold reload latestContext at hitem
  cases hlatest : latestRow s.tables runId with
  | none => simp [hlatest] at hitem
  | some row =>
    obtain ⟨hrow, hrun⟩ := latestRow_mem hlatest
    simp only [hlatest, Option.map_some] at hitem
    refine ⟨row, rfl, ?_⟩
    rcases mem_withNavigation hitem with hselected | ⟨record, hrecord, -, hrefs⟩
    · exact (h.rows row hrow hrun).covers item hselected hcategory id hid
    · cases hlast : row.snapshot.summaryIds.getLast? with
      | none => simp [lastSummary, hlast] at hrecord
      | some last =>
        obtain ⟨found, hfound, rfl, -⟩ := h.lastSummary hrow hrun hlast
        rw [hrefs, ← Option.some.inj (hfound.symm.trans hrecord), List.mem_singleton] at hid
        rw [hid]
        exact List.mem_of_getLast? hlast

/-- The summary that the latest context lists last is reloaded, as navigation. -/
theorem reload_last (h : Sound runId s) (stamp : Stamp) {row : ContextRow}
    (hlatest : latestRow s.tables runId = some row) {id : String}
    (hlast : row.snapshot.summaryIds.getLast? = some id) :
    ∃ item ∈ (reload s.tables runId stamp).items, item.category = "summary" ∧
      id ∈ item.sourceRefs := by
  obtain ⟨hrow, hrun⟩ := latestRow_mem hlatest
  obtain ⟨record, hrecord, rfl, hsummarized⟩ := h.lastSummary hrow hrun hlast
  simp only [reload, latestContext, hlatest, Option.map_some, hrecord, withNavigation,
    appendSummaryNavigation]
  split_ifs with hthere
  · obtain ⟨item, hitem, href⟩ := List.any_eq_true.mp hthere
    have href := of_decide_eq_true href
    have htidy := (h.rows row hrow hrun).kept.tidy item (List.mem_filter.mp hitem).1
    exact ⟨item, hitem, (htidy.leads _ href).mpr hsummarized, href⟩
  · exact ⟨_, List.mem_append_right _ (List.mem_singleton_self _), rfl, by simp [createItem]⟩

/-! ## Steps -/

section Steps

variable {w : Working} {success : Success} {stamps : SuccessStamps}

/-- The items that a success adds are no navigation. -/
theorem navigation_carried {item : ContextItem} (hitem : item ∈ itemsAfter w success stamps)
    (hcategory : item.category = "summary") : item ∈ w.items := by
  rcases List.mem_append.mp hitem with hitem | hitem
  · exact hitem
  · simp only [recordItems, List.mem_cons, List.not_mem_nil, or_false] at hitem
    rcases hitem with rfl | rfl
    · simp [createItem] at hcategory
    · simp [createItem] at hcategory

/-- A snapshot that is built from clean items lists no summary of before. -/
theorem Clean.listed (h : Clean runId base s) (hw : s.working = some w)
    (hfresh : (ContextEvent.succeeded success stamps).Fresh s) {active removed : List ContextItem}
    {level : SummaryLevel} {generation : Nat} {snapshot : ContextSnapshot}
    {summary : Option SummaryRecord}
    (hbuilds : Builds stamps.build runId (itemsAfter w success stamps) level generation snapshot
      summary active removed) {id : String} (hid : id ∈ snapshot.summaryIds) :
    ¬ Summarized base.tables runId id := by
  intro hbase
  rcases hbuilds.listed hid with ⟨record, hrecord, rfl⟩ | ⟨item, hitem, hcategory, href⟩
  · rw [(hbuilds.summary_ids hrecord).1] at hbase
    exact (newIds hfresh).summary (h.known _ hbase)
  · exact h.unused id hbase (.navigation hw (navigation_carried hitem hcategory) hcategory href)

theorem Clean.started (h : Clean runId base s) (hsound : Sound runId s) (stamp : Stamp) :
    Clean runId base (s.step manager runId (.started stamp)) where
  known id hid := List.mem_append_left _ (h.known id hid)
  unused id hid := by
    rintro (⟨hw, hitem, hcategory, href⟩ | ⟨hrow, hrun, hnew, hlisted⟩ | ⟨hrow, hrun, hnew, hsource⟩)
    · obtain rfl := Option.some.inj hw
      obtain ⟨row, hlatest, hlisted⟩ := reload_listed hsound hitem hcategory href
      exact h.latest row hlatest id hlisted hid
    · exact h.unused id hid (.snapshot hrow hrun hnew hlisted)
    · exact h.unused id hid (.source hrow hrun hnew hsource)
  latest := h.latest

theorem Clean.invalidated (h : Clean runId base s) (reason : String) :
    Clean runId base (s.step manager runId (.invalidated reason)) where
  known := h.known
  unused id hid := by
    rintro (⟨hw, -, -, -⟩ | ⟨hrow, hrun, hnew, hlisted⟩ | ⟨hrow, hrun, hnew, hsource⟩)
    · cases hw
    · exact h.unused id hid (.snapshot hrow hrun hnew hlisted)
    · obtain ⟨old, hold, rfl⟩ := List.mem_map.mp hrow
      rw [SummaryRow.invalidated_runId] at hrun
      rw [SummaryRow.invalidated_summaryId] at hnew
      rw [SummaryRow.invalidated_sources] at hsource
      exact h.unused id hid (.source hold hrun hnew hsource)
  latest := h.latest

/-- A context that is built from clean items and saved. -/
theorem Clean.saved (h : Clean runId base s) (hw : s.working = some w)
    (hfresh : (ContextEvent.succeeded success stamps).Fresh s) {active removed : List ContextItem}
    {level : SummaryLevel} {generation : Nat} {snapshot : ContextSnapshot}
    {summary : Option SummaryRecord} {t : ContextTables} (written : List Entry)
    (hbuilds : Builds stamps.build runId (itemsAfter w success stamps) level generation snapshot
      summary active removed)
    (hsaved : Saved s.tables t snapshot (itemsAfter w success stamps) summary) :
    Clean runId base ⟨t, some (w.next success stamps snapshot summary), written,
      s.usedAfter (.succeeded success stamps)⟩ where
  known id hid := List.mem_append_left _ (h.known id hid)
  unused id hid := by
    rintro (⟨hw', hitem, hcategory, href⟩ | ⟨hrow, hrun, hnew, hlisted⟩ |
      ⟨hrow, hrun, hnew, hsource⟩)
    · obtain rfl := Option.some.inj hw'
      rcases mem_withNavigation hitem with hselected | ⟨record, hrecord, -, hrefs⟩
      · have hcarried := navigation_carried (List.mem_filter.mp hselected).1 hcategory
        exact h.unused id hid (.navigation hw hcarried hcategory href)
      · rw [hrefs, List.mem_singleton, (hbuilds.summary_ids hrecord).1] at href
        exact (newIds hfresh).summary (href ▸ h.known id hid)
    · rw [hsaved.contexts] at hrow
      rcases List.mem_cons.mp hrow with rfl | hrow
      · exact h.listed hw hfresh hbuilds hlisted hid
      · exact h.unused id hid (.snapshot hrow hrun hnew hlisted)
    · rw [hsaved.summaries, List.mem_append] at hrow
      rcases hrow with hrow | hrow
      · obtain ⟨record, hrecord, rfl⟩ := List.mem_map.mp hrow
        obtain ⟨maximumTokens, hcompresses⟩ := hbuilds.compresses record (by simpa using hrecord)
        have hsource : id ∈ summaryReferences removed := hcompresses.sources ▸ hsource
        obtain ⟨item, hitem, hcategory, href⟩ := mem_summaryReferences.mp hsource
        have hcarried := navigation_carried (hbuilds.removed_subset item hitem) hcategory
        exact h.unused id hid (.navigation hw hcarried hcategory href)
      · exact h.unused id hid (.source hrow hrun hnew hsource)
  latest row hlatest id hlisted := by
    rcases latestRow_saved hsaved hlatest with rfl | hold
    · exact h.listed hw hfresh hbuilds hlisted
    · exact h.latest row hold id hlisted

theorem Clean.step (h : Clean runId base s) (hsound : Sound runId s) {e : ContextEvent}
    (hfresh : e.Fresh s) : Clean runId base (s.step manager runId e) := by
  cases e with
  | started stamp => exact h.started hsound stamp
  | invalidated reason => exact h.invalidated reason
  | succeeded success stamps =>
    cases hw : s.working with
    | none => simpa only [ContextState.step, hw] using h
    | some w =>
      by_cases hafford : Affordable manager.budget (itemsAfter w success stamps)
      · obtain ⟨snapshot, summary, active, removed, t, hbuilds, hsaved, -, hstep⟩ :=
          @bookkeep_ok _ manager _ _ _ _ hsound hw hfresh hafford
        rw [hstep]
        exact h.saved hw hfresh _ hbuilds hsaved
      · obtain ⟨e, -, hstep⟩ := @bookkeep_error runId _ _ _ _ _ hw hafford
        rw [hstep]
        constructor
        · exact fun id hid => List.mem_append_left _ (h.known id hid)
        · rintro id hid (⟨hw', -, -, -⟩ | ⟨hrow, hrun, hnew, hlisted⟩ |
            ⟨hrow, hrun, hnew, hsource⟩)
          · cases hw'
          · exact h.unused id hid (.snapshot hrow hrun hnew hlisted)
          · exact h.unused id hid (.source hrow hrun hnew hsource)
        · exact h.latest

end Steps

/-- The invariant and the cleanness hold over a whole run. -/
theorem Reaches.clean (h : Reaches manager runId base s) (hsound : Sound runId base)
    (hclean : Clean runId base base) : Sound runId s ∧ Clean runId base s := by
  induction h with
  | refl => exact ⟨hsound, hclean⟩
  | step _ hfresh ih => exact ⟨ih.1.step hfresh, ih.2.step ih.1 hfresh⟩

/-- Where a call of `advance` starts in the same state, nothing is in use that its latest context
does not list. -/
theorem clean_self (h : Sound runId base) (hidle : base.working = none)
    (hunlisted : ∀ row, latestRow base.tables runId = some row → row.snapshot.summaryIds = []) :
    Clean runId base base where
  known id hid := h.used_of_summarized hid
  unused id hid := by
    rintro (⟨hw, -, -, -⟩ | ⟨hrow, -, hnew, -⟩ | ⟨hrow, -, hnew, -⟩)
    · simp [hidle] at hw
    · exact hnew _ hrow rfl
    · exact hnew _ hrow rfl
  latest row hrow id hid := by simp [hunlisted row hrow] at hid

/-- An identifier that is not in use. -/
theorem exists_unused (used : List String) : ∃ id, id ∉ used := by
  obtain ⟨id, hid⟩ := Infinite.exists_notMem_finset used.toFinset
  exact ⟨id, by simpa using hid⟩

/-- Whatever a run's context has come to, the summaries that are invalidated stay out of use in
all that follows if and only if the latest context at that time lists no summary. -/
theorem invalidated_unused_iff {s₀ : ContextState} (h₀ : Unstarted runId s₀)
    (hs : Reaches manager runId s₀ s) (reason : String) :
    (∀ s', Reaches manager runId (s.step manager runId (.invalidated reason)) s' →
        ∀ id, Summarized s.tables runId id →
          ¬ Uses runId (s.step manager runId (.invalidated reason)) s' id) ↔
      ∀ row, latestRow s.tables runId = some row → row.snapshot.summaryIds = [] := by
  have hsound := @Sound.invalidated _ manager _ (hs.sound h₀) reason
  have hsame : ∀ id, Summarized s.tables runId id ↔
      Summarized (s.step manager runId (.invalidated reason)).tables runId id :=
    fun id => summarized_invalidate.symm
  constructor
  · intro hunused row hlatest
    by_contra hne
    obtain ⟨id, hlast⟩ := List.getLast?_isSome.mpr hne |> Option.isSome_iff_exists.mp
    obtain ⟨new, hnew⟩ := exists_unused (s.step manager runId (.invalidated reason)).used
    have hstarted := @Reaches.step manager runId
      (s.step manager runId (.invalidated reason)) _ (.started ⟨new, 0⟩) .refl
      ⟨List.nodup_singleton new, by simpa [ContextEvent.ids] using hnew⟩
    obtain ⟨item, hitem, hcategory, href⟩ := reload_last hsound ⟨new, 0⟩ hlatest hlast
    obtain ⟨hrow, hrun⟩ := latestRow_mem hlatest
    obtain ⟨-, -, -, hsummarized⟩ := (hs.sound h₀).lastSummary hrow hrun hlast
    exact hunused _ hstarted id hsummarized (.navigation rfl hitem hcategory href)
  · intro hunlisted s' hreaches id hid
    have hclean := clean_self hsound rfl hunlisted
    exact (hreaches.clean hsound hclean).2.unused id ((hsame id).mp hid)

/-- A run whose context lists no summary when its sources drift. -/
theorem invalidated_unused_iff_roomy :
    (∀ row, latestRow ((begun roomyManager).step roomyManager "run"
        (.succeeded firstSuccess firstStamps)).tables "run" = some row →
      row.snapshot.summaryIds = []) ∧
    ∀ s', Reaches roomyManager "run"
        (((begun roomyManager).step roomyManager "run" (.succeeded firstSuccess firstStamps)).step
          roomyManager "run" (.invalidated "drift")) s' →
      ∀ id, Summarized ((begun roomyManager).step roomyManager "run"
          (.succeeded firstSuccess firstStamps)).tables "run" id →
        ¬ Uses "run" (((begun roomyManager).step roomyManager "run"
          (.succeeded firstSuccess firstStamps)).step roomyManager "run" (.invalidated "drift"))
          s' id := by
  have hlatest : (latestRow ((begun roomyManager).step roomyManager "run"
      (.succeeded firstSuccess firstStamps)).tables "run").map
        (fun row => row.snapshot.summaryIds) = some [] := by decide +kernel
  have hunlisted : ∀ row, latestRow ((begun roomyManager).step roomyManager "run"
      (.succeeded firstSuccess firstStamps)).tables "run" = some row →
        row.snapshot.summaryIds = [] := by
    intro row hrow
    rw [hrow] at hlatest
    exact Option.some.inj hlatest
  refine ⟨hunlisted, ?_⟩
  exact (invalidated_unused_iff (noContext_unstarted "run") (firstSuccess_reaches _)
    "drift").mpr hunlisted

/-! ## A summary that is invalidated and reloaded -/

/-- A capacity that a task's note has no room in. -/
def pressedManager : ContextManager := ⟨budgetOf 1752 (21 / 100) (by decide) (by norm_num), id⟩

/-- The first success has been summarized, and the sources have drifted. -/
def drifted : ContextState :=
  ((begun pressedManager).step pressedManager "run" (.succeeded firstSuccess firstStamps)).step
    pressedManager "run" (.invalidated "drift")

/-- `advance` has started again. -/
def resumed : ContextState := drifted.step pressedManager "run" (.started ⟨"item-4", 2⟩)

theorem resumed_evaluated :
    drifted.tables.summaries.rows.map (fun row =>
        (row.summaryId, row.runId, row.valid, row.payload.content)) =
        [("summary-1", "run", false,
          "Compressed navigation summary; verify conclusions against source/evidence IDs:\n" ++
            "- [item-2] task completed")] ∧
      (resumed.working.map fun w =>
        w.items.map fun item => (item.category, item.sourceRefs, item.content)) =
        some [("task_state", ["a"], "Task a succeeded on attempt 1."),
          ("summary", ["summary-1"],
            "Compressed navigation summary; verify conclusions against source/evidence IDs:\n" ++
              "- [item-2] task completed")] ∧
      "item-4" ∉ drifted.used := by
  decide +kernel

/-- The run's only summary is invalidated, and the next `advance` works with its content. -/
theorem invalidated_summary_reloaded :
    Reaches pressedManager "run" drifted resumed ∧
      ∃ row ∈ drifted.tables.summaries.rows, row.runId = "run" ∧ row.valid = false ∧
        Uses "run" drifted resumed row.summaryId ∧
        ∃ w, resumed.working = some w ∧ ∃ item ∈ w.items, item.content = row.payload.content := by
  obtain ⟨hrows, hworking, hunused⟩ := resumed_evaluated
  have hreaches : Reaches pressedManager "run" drifted resumed :=
    .step .refl ⟨List.nodup_singleton _, by simpa [ContextEvent.ids] using hunused⟩
  obtain ⟨row, hrow, hfields⟩ := List.mem_map.mp (hrows ▸ List.mem_singleton_self _)
  obtain ⟨w, hw, hitems⟩ := Option.map_eq_some_iff.mp hworking
  obtain ⟨item, hitem, hshown⟩ :=
    List.mem_map.mp (hitems ▸ List.mem_cons_of_mem _ (List.mem_singleton_self _))
  simp only [Prod.mk.injEq] at hfields hshown
  obtain ⟨hid, hrun, hvalid, hcontent⟩ := hfields
  obtain ⟨hcategory, hrefs, hshown⟩ := hshown
  refine ⟨hreaches, row, hrow, hrun, hvalid, ?_, w, hw, item, hitem, hshown.trans hcontent.symm⟩
  exact .navigation hw hitem hcategory (by rw [hrefs, hid]; exact List.mem_singleton_self _)

end DurableAgent.Context
