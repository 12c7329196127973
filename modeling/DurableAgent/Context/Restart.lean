import DurableAgent.Context.Invalidation

/-!
# Stopping between two tasks

A call of `advance` that stops after a success and is followed by another one is compared with
the call that goes on. A navigation item that was carried but not yet stored is made again under
a new stamp; beside that the two go on alike if the context that was saved is read back and the
summary that it lists last is at the level of the one that was carried.
-/

namespace DurableAgent.Context

open Library

/-- The event with another stamp for the navigation that it may make. -/
def ContextEvent.renavigated (stamp : Stamp) : ContextEvent → ContextEvent
  | .started _ => .started stamp
  | .succeeded success stamps => .succeeded success { stamps with navigation := stamp }
  | .invalidated reason => .invalidated reason

/-- The same tables, the same items in hand, and the same level and generation to come. -/
structure Agrees (s s' : ContextState) : Prop where
  tables : s.tables = s'.tables
  items : s.working.map Working.items = s'.working.map Working.items
  level : (s.working.map fun w => nextSummaryLevel w.summary) =
    s'.working.map fun w => nextSummaryLevel w.summary
  written : s.written = s'.written

variable {manager : ContextManager} {runId : String}

theorem Agrees.refl (s : ContextState) : Agrees s s := ⟨rfl, rfl, rfl, rfl⟩

/-- What follows a success depends on the items in hand, and on the level and generation. -/
theorem bookkeep_congr {t : ContextTables} {w w' : Working} {success : Success}
    {stamps : SuccessStamps} (hitems : w.items = w'.items)
    (hlevel : nextSummaryLevel w.summary = nextSummaryLevel w'.summary) :
    (∃ e, bookkeep manager runId t w success stamps = .error e ∧
        bookkeep manager runId t w' success stamps = .error e) ∨
      ∃ t' next next' written,
        bookkeep manager runId t w success stamps = .ok (t', next, written) ∧
        bookkeep manager runId t w' success stamps = .ok (t', next', written) ∧
        next.items = next'.items ∧
        nextSummaryLevel next.summary = nextSummaryLevel next'.summary := by
  simp only [bookkeep, buildAfter, itemsAfter, hitems, hlevel, bind, Except.bind]
  cases manager.build stamps.build runId (some success.taskId)
      (w'.items ++ recordItems stamps success) (nextSummaryLevel w'.summary).1
      (nextSummaryLevel w'.summary).2 with
  | error e => exact .inl ⟨e, rfl, rfl⟩
  | ok built =>
    obtain ⟨snapshot, summary⟩ := built
    cases hsave : saveContext t snapshot (w'.items ++ recordItems stamps success) summary with
    | error e => exact .inl ⟨e, by simp only [hsave], by simp only [hsave]⟩
    | ok t' =>
      refine .inr ⟨t', w.next success stamps snapshot summary, w'.next success stamps snapshot summary,
        entries success snapshot, by simp only [hsave], by simp only [hsave], ?_, ?_⟩
      · simp only [Working.next, itemsAfter, hitems]
      · cases summary with
        | none => exact hlevel
        | some record => rfl

theorem Agrees.step {s s' : ContextState} (h : Agrees s s') (e : ContextEvent) :
    Agrees (s.step manager runId e) (s'.step manager runId e) := by
  cases e with
  | started stamp =>
    simp only [ContextState.step, h.tables]
    exact ⟨rfl, rfl, rfl, h.written⟩
  | invalidated reason =>
    simp only [ContextState.step, h.tables]
    exact ⟨rfl, rfl, rfl, h.written⟩
  | succeeded success stamps =>
    have hitems := h.items
    have hlevel := h.level
    cases hw : s.working with
    | none =>
      rw [hw, Option.map_none, eq_comm, Option.map_eq_none_iff] at hitems
      simpa only [ContextState.step, hw, hitems] using h
    | some w =>
      rw [hw, Option.map_some, eq_comm, Option.map_eq_some_iff] at hitems
      obtain ⟨w', hw', hitems⟩ := hitems
      rw [hw, hw', Option.map_some, Option.map_some, Option.some.injEq] at hlevel
      rcases @bookkeep_congr manager runId s.tables _ _ success stamps hitems.symm hlevel with
        ⟨e, hleft, hright⟩ | ⟨t, next, next', written, hleft, hright, hnext, hlevels⟩
      · rw [h.tables] at hright
        simp only [ContextState.step, hw, hw', hleft, hright]
        exact ⟨h.tables, rfl, rfl, by rw [h.written]⟩
      · rw [h.tables] at hright
        simp only [ContextState.step, hw, hw', hleft, hright]
        exact ⟨rfl, congrArg some hnext, congrArg some hlevels, by rw [h.written]⟩

theorem Agrees.run {s s' : ContextState} (h : Agrees s s') (events : List ContextEvent) :
    Agrees (s.run manager runId events) (s'.run manager runId events) := by
  induction events generalizing s s' with
  | nil => exact h
  | cons e rest ih => exact ih (h.step e)

/-! ## The context that is read back -/

section Stop

variable {s : ContextState} {w : Working} {success : Success} {stamps : SuccessStamps}
  {snapshot : ContextSnapshot} {summary : Option SummaryRecord} {t : ContextTables}

/-- The navigation stamp reaches nothing but what is carried on. -/
theorem step_renavigated (hw : s.working = some w) {written : List Entry} {used : List String}
    (hbuild : buildAfter manager runId w success stamps = .ok (snapshot, summary))
    (hstep : s.step manager runId (.succeeded success stamps) =
      ⟨t, some (w.next success stamps snapshot summary), written, used⟩) (stamp : Stamp) :
    ∃ used', s.step manager runId ((ContextEvent.succeeded success stamps).renavigated stamp) =
      ⟨t, some (w.next success { stamps with navigation := stamp } snapshot summary), written,
        used'⟩ := by
  have hsame : buildAfter manager runId w success { stamps with navigation := stamp } =
      .ok (snapshot, summary) := hbuild
  cases hsave : saveContext s.tables snapshot (itemsAfter w success stamps) summary with
  | error e =>
    simp [ContextState.step, hw, bookkeep, hbuild, hsave, bind, Except.bind] at hstep
  | ok t' =>
    have hsave' : saveContext s.tables snapshot
        (itemsAfter w success { stamps with navigation := stamp }) summary = .ok t' := hsave
    simp only [ContextState.step, hw, bookkeep, hbuild, hsave, bind, Except.bind,
      ContextState.mk.injEq] at hstep
    simp only [ContextEvent.renavigated, ContextState.step, hw, bookkeep, hsame, hsave', bind,
      Except.bind]
    exact ⟨_, by rw [← hstep.1, ← hstep.2.2.1]⟩

/-- A snapshot that was saved with a summary lists it last. -/
theorem lastSummary_saved {items active removed : List ContextItem} {level : SummaryLevel}
    {generation : Nat} {t' : ContextTables} (hsaved : Saved t t' snapshot items summary)
    (hbuilds : Builds stamps.build runId items level generation snapshot summary active removed)
    {record : SummaryRecord} (hrecord : summary = some record) :
    lastSummary t' snapshot = some record := by
  have hlast : snapshot.summaryIds.getLast? = some record.summaryId := by
    simp [hbuilds.summaryIds, hrecord]
  have hfind : t'.summaries.find record.summaryId = some (summaryRow record) := by
    apply Table.find_eq_some.mpr
    simp [hsaved.summaries, hrecord, summaryRow]
  simp [lastSummary, hlast, hfind, summaryRow]

/-- Reading back the context that was saved gives the items that were carried, with the navigation
made again. -/
theorem reload_items {s₁ : ContextState} (hsound : Sound runId s₁)
    {active removed : List ContextItem} {level : SummaryLevel} {generation : Nat}
    (hbuilds : Builds stamps.build runId (itemsAfter w success stamps) level generation snapshot
      summary active removed)
    (hsaved : Saved t s₁.tables snapshot (itemsAfter w success stamps) summary)
    (hlatest : latestRow s₁.tables runId = some (contextRow snapshot (itemsAfter w success stamps)))
    (stamp : Stamp) :
    (reload s₁.tables runId stamp).items =
      (w.next success { stamps with navigation := stamp } snapshot summary).items := by
  obtain ⟨hrow, hrun⟩ := latestRow_mem hlatest
  simp only [reload, latestContext, hlatest, Option.map_some, Working.next]
  change withNavigation stamp (selectedItems snapshot (itemsAfter w success stamps))
      (lastSummary s₁.tables snapshot) =
    withNavigation stamp (selectedItems snapshot (itemsAfter w success stamps)) summary
  cases hsummary : summary with
  | some record => rw [lastSummary_saved hsaved hbuilds hsummary]
  | none =>
    cases hlast : snapshot.summaryIds.getLast? with
    | none => simp [lastSummary, hlast]
    | some id =>
      -- the summary listed last is one that a selected item leads to
      obtain ⟨record, hrecord, rfl, -⟩ := hsound.lastSummary hrow hrun hlast
      have hlisted := List.mem_of_getLast? hlast
      rw [hbuilds.summaryIds, hsummary, Option.toList_none, List.map_nil, List.append_nil] at hlisted
      obtain ⟨item, hactive, -, href⟩ := mem_summaryReferences.mp hlisted
      have hselected : item ∈ selectedItems snapshot (itemsAfter w success stamps) := by
        simp only [selectedItems, List.mem_filter, decide_eq_true_iff, hbuilds.itemIds]
        exact ⟨hbuilds.active_subset item hactive, List.mem_map_of_mem hactive⟩
      have hthere : ((selectedItems snapshot (itemsAfter w success stamps)).any fun item =>
          record.summaryId ∈ item.sourceRefs) = true :=
        List.any_eq_true.mpr ⟨item, hselected, decide_eq_true href⟩
      have hfound : lastSummary s₁.tables snapshot = some record := hrecord
      simp [hfound, withNavigation, appendSummaryNavigation, hthere]

/-- The item for the state of the task is carried on, and no context of before has it. -/
theorem stateItem_carried {active removed : List ContextItem} {level : SummaryLevel}
    {generation : Nat}
    (hbuilds : Builds stamps.build runId (itemsAfter w success stamps) level generation snapshot
      summary active removed) (navigation : Stamp) :
    ∃ item ∈ (w.next success { stamps with navigation := navigation } snapshot summary).items,
      item.itemId = stamps.state.id ∧ item.category ≠ "summary" := by
  obtain ⟨item, hitem, hid, hcategory⟩ : ∃ item ∈ itemsAfter w success stamps,
      item.itemId = stamps.state.id ∧ item.category = "task_state" := by
    refine ⟨_, List.mem_append_right _ List.mem_cons_self, rfl, rfl⟩
  have hactive := hbuilds.keeps item hitem (.inr (by simp [hcategory, preservedCategories]))
  refine ⟨item, withNavigation_of_mem ?_, hid, by simp [hcategory]⟩
  simp only [selectedItems, List.mem_filter, decide_eq_true_iff, hbuilds.itemIds]
  exact ⟨hitem, List.mem_map_of_mem hactive⟩

/-- The context that is read back has the item of the last success only if it is the one that the
success saved. -/
theorem latestRow_of_items {s₁ : ContextState} (hsound : Sound runId s)
    (hnew : stamps.state.id ∉ s.used)
    (hsaved : Saved s.tables s₁.tables snapshot (itemsAfter w success stamps) summary)
    {stamp : Stamp} {item : ContextItem} (hitem : item ∈ (reload s₁.tables runId stamp).items)
    (hid : item.itemId = stamps.state.id) (hcategory : item.category ≠ "summary") :
    latestRow s₁.tables runId = some (contextRow snapshot (itemsAfter w success stamps)) := by
  unfold reload latestContext at hitem
  cases hlatest : latestRow s₁.tables runId with
  | none => simp [hlatest] at hitem
  | some row =>
    obtain ⟨hrow, hrun⟩ := latestRow_mem hlatest
    rw [hsaved.contexts] at hrow
    rcases List.mem_cons.mp hrow with rfl | hold
    · rfl
    · simp only [hlatest, Option.map_some] at hitem
      rcases mem_withNavigation hitem with hselected | ⟨record, -, hnavigation, -⟩
      · have htidy := (hsound.rows row hold hrun).kept.tidy item (List.mem_filter.mp hselected).1
        exact absurd (hid ▸ htidy.inUse) hnew
      · exact absurd hnavigation hcategory

end Stop

/-- What lets a call of `advance` that stops after an event be taken up by another one. After a
success the context that is read back has to be the one it saved, and the summary which that
lists last has to be at the level of the one carried. -/
def Resumable (runId : String) (e : ContextEvent) (s : ContextState) : Prop :=
  ∀ success stamps, e = .succeeded success stamps →
    (latestRow s.tables runId).map ContextRow.contextId = some stamps.build.context.id ∧
      ∀ w, s.working = some w → nextSummaryLevel w.summary =
        nextSummaryLevel ((latestRow s.tables runId).bind fun row =>
          lastSummary s.tables row.snapshot)

section Stop

variable {s : ContextState} {w : Working} {success : Success} {stamps : SuccessStamps}
  {snapshot : ContextSnapshot} {summary : Option SummaryRecord} {t : ContextTables}
  {active removed : List ContextItem} {level : SummaryLevel} {generation : Nat}

/-- The saved context is the only one with its identifier. -/
theorem latestRow_of_id
    (hbuilds : Builds stamps.build runId (itemsAfter w success stamps) level generation snapshot
      summary active removed)
    (hsaved : Saved s.tables t snapshot (itemsAfter w success stamps) summary)
    (h : (latestRow t runId).map ContextRow.contextId = some stamps.build.context.id) :
    latestRow t runId = some (contextRow snapshot (itemsAfter w success stamps)) := by
  obtain ⟨row, hlatest, hid⟩ := Option.map_eq_some_iff.mp h
  rw [hlatest]
  congr 1
  apply t.contexts.row_unique (latestRow_mem hlatest).1
  · rw [hsaved.contexts]
    exact List.mem_cons_self
  · rw [hid, ← hbuilds.contextId]
    rfl

/-- A stop after a success that was saved. -/
theorem saved_agrees_iff (hsound : Sound runId s) (hw : s.working = some w)
    (hfresh : (ContextEvent.succeeded success stamps).Fresh s)
    (hbuilds : Builds stamps.build runId (itemsAfter w success stamps) level generation snapshot
      summary active removed)
    (hsaved : Saved s.tables t snapshot (itemsAfter w success stamps) summary)
    (written : List Entry) (used used' : List String) (stamp : Stamp) :
    Agrees
        ((⟨t, some (w.next success stamps snapshot summary), written,
          s.usedAfter (.succeeded success stamps)⟩ : ContextState).step manager runId
            (.started stamp))
        ⟨t, some (w.next success { stamps with navigation := stamp } snapshot summary), written,
          used'⟩ ↔
      Resumable runId (.succeeded success stamps)
        ⟨t, some (w.next success stamps snapshot summary), written, used⟩ := by
  have hsound₁ := hsound.saved hbuilds hsaved hw hfresh written
  have hreload : (reload t runId stamp).summary =
      (latestRow t runId).bind fun row => lastSummary t row.snapshot := by
    unfold reload latestContext
    cases latestRow t runId <;> rfl
  constructor
  · rintro h _ _ ⟨⟩
    have hitems : (reload t runId stamp).items =
        (w.next success { stamps with navigation := stamp } snapshot summary).items :=
      Option.some.inj h.items
    have hlevel : nextSummaryLevel (reload t runId stamp).summary =
        nextSummaryLevel (w.next success stamps snapshot summary).summary := Option.some.inj h.level
    obtain ⟨item, hitem, hid, hcategory⟩ := stateItem_carried hbuilds stamp
    rw [← hitems] at hitem
    have hlatest := @latestRow_of_items _ _ _ _ _ _ _ ⟨t, none, written, used⟩ hsound (newIds hfresh).state
      hsaved _ _ hitem hid hcategory
    constructor
    · simp only [hlatest, Option.map_some, contextRow, hbuilds.contextId]
    · rintro _ ⟨⟩
      rw [← hreload, hlevel]
  · intro h
    obtain ⟨hid, hlevel⟩ := h success stamps rfl
    have hlatest := latestRow_of_id hbuilds hsaved hid
    have hitems := reload_items hsound₁ hbuilds hsaved hlatest stamp
    have hcarried := hlevel _ rfl
    rw [← hreload] at hcarried
    exact ⟨rfl, congrArg some hitems, congrArg some hcarried.symm, rfl⟩

/-- Stopping after an event and going on with another call of `advance` is the same, now and
whatever follows, as going on with the stamp of the new navigation, if and only if the context
that is read back is the one that was saved and keeps the level. -/
theorem restart_agrees_iff {s₀ : ContextState} (h₀ : Unstarted runId s₀)
    (hs : Reaches manager runId s₀ s) {e : ContextEvent} (hfresh : e.Fresh s)
    (hgoing : (s.step manager runId e).working ≠ none) (stamp : Stamp) :
    (∀ later, Agrees
        (((s.step manager runId e).step manager runId (.started stamp)).run manager runId later)
        ((s.step manager runId (e.renavigated stamp)).run manager runId later)) ↔
      Resumable runId e (s.step manager runId e) := by
  have hsound := hs.sound h₀
  rw [show (∀ later, Agrees
      (((s.step manager runId e).step manager runId (.started stamp)).run manager runId later)
      ((s.step manager runId (e.renavigated stamp)).run manager runId later)) ↔
    Agrees ((s.step manager runId e).step manager runId (.started stamp))
      (s.step manager runId (e.renavigated stamp)) from
        ⟨fun h => h [], fun h later => h.run later⟩]
  cases e with
  | started first =>
    constructor
    · rintro - _ _ ⟨⟩
    · exact fun _ => ⟨rfl, rfl, rfl, rfl⟩
  | invalidated reason => exact absurd rfl hgoing
  | succeeded success stamps =>
    cases hw : s.working with
    | none => exact absurd (by simp only [ContextState.step, hw]) hgoing
    | some w =>
      by_cases hafford : Affordable manager.budget (itemsAfter w success stamps)
      · obtain ⟨snapshot, summary, active, removed, t, hbuilds, hsaved, hbuild, hstep⟩ :=
          @bookkeep_ok _ manager _ _ _ _ hsound hw hfresh hafford
        obtain ⟨used', hstep'⟩ := step_renavigated hw hbuild hstep stamp
        rw [hstep, hstep']
        exact saved_agrees_iff hsound hw hfresh hbuilds hsaved _ _ _ stamp
      · obtain ⟨e, -, hstep⟩ := @bookkeep_error runId manager _ _ _ _ hw hafford
        exact absurd (by rw [hstep]) hgoing

end Stop

/-- A run whose first success was saved without pressure. -/
theorem restart_agrees_iff_roomy :
    Resumable "run" (.succeeded firstSuccess firstStamps)
        ((begun roomyManager).step roomyManager "run" (.succeeded firstSuccess firstStamps)) ∧
      ∀ later, Agrees
        ((((begun roomyManager).step roomyManager "run" (.succeeded firstSuccess firstStamps)).step
          roomyManager "run" (.started ⟨"item-4", 2⟩)).run roomyManager "run" later)
        (((begun roomyManager).step roomyManager "run" ((ContextEvent.succeeded firstSuccess
          firstStamps).renavigated ⟨"item-4", 2⟩)).run roomyManager "run" later) := by
  have hlatest : (latestRow ((begun roomyManager).step roomyManager "run"
      (.succeeded firstSuccess firstStamps)).tables "run").map ContextRow.contextId =
        some "context-1" := by decide +kernel
  have hlevel : (((begun roomyManager).step roomyManager "run"
      (.succeeded firstSuccess firstStamps)).working.map fun w => nextSummaryLevel w.summary) =
        some (nextSummaryLevel ((latestRow ((begun roomyManager).step roomyManager "run"
          (.succeeded firstSuccess firstStamps)).tables "run").bind fun row =>
            lastSummary ((begun roomyManager).step roomyManager "run"
              (.succeeded firstSuccess firstStamps)).tables row.snapshot)) := by decide +kernel
  have hgoing : ((begun roomyManager).step roomyManager "run"
      (.succeeded firstSuccess firstStamps)).working ≠ none := by
    intro hnone
    rw [hnone] at hlevel
    cases hlevel
  have hresumable : Resumable "run" (.succeeded firstSuccess firstStamps)
      ((begun roomyManager).step roomyManager "run" (.succeeded firstSuccess firstStamps)) := by
    rintro _ _ ⟨⟩
    refine ⟨hlatest, fun w hw => ?_⟩
    rw [hw] at hlevel
    exact Option.some.inj hlevel
  refine ⟨hresumable, ?_⟩
  exact (restart_agrees_iff (noContext_unstarted "run") (begun_reaches _) (firstSuccess_fresh _)
    hgoing ⟨"item-4", 2⟩).mpr hresumable

/-! ## An older summary that is read back -/

/-- A capacity that a note of blanks has no room in, though its summary is short. -/
def narrowManager : ContextManager := ⟨budgetOf 1672 (3 / 5) (by decide) (by norm_num), id⟩

def blankNote : String := String.ofList (List.replicate 260 ' ')

/-- A success and the stamps drawn for it. -/
def successAt (taskId contextNote : String) (time : Timestamp)
    (state history summary context navigation : String) : ContextEvent :=
  .succeeded ⟨taskId, 1, contextNote, [], false⟩
    ⟨⟨state, time⟩, ⟨history, time⟩, ⟨⟨summary, time⟩, ⟨context, time⟩⟩, ⟨navigation, time⟩⟩

/-- Two notes are summarized, and the third task leaves room for everything. -/
def threeSuccesses : List ContextEvent :=
  [.started ⟨"item-0", 0⟩,
    successAt "a" blankNote 1 "item-1" "item-2" "summary-1" "context-1" "item-9",
    successAt "b" blankNote 2 "item-3" "item-4" "summary-2" "context-2" "item-5",
    successAt "c" "done" 3 "item-6" "item-7" "summary-3" "context-3" "item-8"]

/-- The state between the third and the fourth task. -/
def betweenTasks : ContextState := noContext.run narrowManager "run" threeSuccesses

/-- The level and generation that the next task's summary is built with. -/
def toCome (s : ContextState) : Option (SummaryLevel × Nat) :=
  s.working.map fun w => nextSummaryLevel w.summary

theorem compact_blankNote : compact blankNote = "" := by
  unfold compact blankNote
  rw [String.toList_ofList]
  decide +kernel

/-- `compact`, which does not read the note of blanks again. -/
def compactAtOnce (content : String) : String :=
  if content.utf8ByteSize = 260 ∧ content = blankNote then "" else compact content

theorem compact_eq_atOnce : compact = compactAtOnce := by
  ext1 content
  unfold compactAtOnce
  split
  · next h => rw [h.2, compact_blankNote]
  · rfl

/-- `truncated`, which counts the characters of long texts only. -/
def truncatedAtOnce (content : String) (maximumCharacters : Nat) : String :=
  if content.utf8ByteSize ≤ maximumCharacters then content
  else truncated content maximumCharacters

theorem truncated_eq_atOnce : truncated = truncatedAtOnce := by
  ext1 content
  ext1 maximumCharacters
  unfold truncatedAtOnce
  split
  · next hshort =>
    have hlength := length_le_utf8ByteSize content
    unfold truncated
    rw [if_neg (by omega)]
  · rfl

/-- The call that goes on builds a summary of the run next, and one that starts between the tasks
goes back to a summary of the task group. -/
theorem restart_repeats_generation :
    Reaches narrowManager "run" noContext betweenTasks ∧
      toCome betweenTasks = some (.RUN, 3) ∧
      toCome (betweenTasks.step narrowManager "run" (.started ⟨"item-d", 4⟩)) =
        some (.TASK_GROUP, 2) := by
  refine ⟨Reaches.refl.run (by decide), ?_⟩
  unfold betweenTasks ContextState.run ContextState.step bookkeep buildAfter
    ContextManager.build ContextManager.compress summaryContent
  rw [compact_eq_atOnce, truncated_eq_atOnce]
  decide +kernel

end DurableAgent.Context
