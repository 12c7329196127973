import DurableAgent.Context.Manager
import DurableAgent.Library.Table

/-!
# The tables of contexts and summaries

`save_context`, `latest_context` and `invalidate_summaries_for_run`. The JSON columns hold the
records themselves. Rows of other runs stand beside those of the run.
-/

namespace DurableAgent.Context

open Library

structure ContextRow where
  contextId : String
  runId : String
  taskId : Option String
  snapshot : ContextSnapshot
  items : List ContextItem
  createdAt : Timestamp

structure SummaryRow where
  summaryId : String
  runId : String
  payload : SummaryRecord
  valid : Bool

structure ContextTables where
  contexts : Table ContextRow.contextId
  summaries : Table SummaryRow.summaryId

def contextRow (snapshot : ContextSnapshot) (items : List ContextItem) : ContextRow where
  contextId := snapshot.contextId
  runId := snapshot.runId
  taskId := snapshot.taskId
  snapshot := snapshot
  items := items
  createdAt := snapshot.createdAt

def summaryRow (summary : SummaryRecord) : SummaryRow where
  summaryId := summary.summaryId
  runId := summary.runId
  payload := summary
  valid := summary.valid

/-- `SqlStore.save_context`: the rows are inserted in one transaction -/
def saveContext (t : ContextTables) (snapshot : ContextSnapshot) (items : List ContextItem)
    (summary : Option SummaryRecord) : Except Exn ContextTables :=
  match t.contexts.insert (contextRow snapshot items),
    t.summaries.insertAll (summary.toList.map summaryRow) with
  | some contexts, some summaries => .ok ⟨contexts, summaries⟩
  | _, _ => .error (.other "IntegrityError")

/-- The rows of a save stand before those that were there. -/
structure Saved (t t' : ContextTables) (snapshot : ContextSnapshot) (items : List ContextItem)
    (summary : Option SummaryRecord) : Prop where
  contexts : t'.contexts.rows = contextRow snapshot items :: t.contexts.rows
  summaries : t'.summaries.rows = summary.toList.map summaryRow ++ t.summaries.rows

/-- Rows under new identifiers are saved. -/
theorem saveContext_ok {t : ContextTables} {snapshot : ContextSnapshot} {items : List ContextItem}
    {summary : Option SummaryRecord}
    (hcontext : ∀ row ∈ t.contexts.rows, row.contextId ≠ snapshot.contextId)
    (hsummary : ∀ record, summary = some record →
      ∀ row ∈ t.summaries.rows, row.summaryId ≠ record.summaryId) :
    ∃ t', saveContext t snapshot items summary = .ok t' ∧ Saved t t' snapshot items summary := by
  have hfree : t.contexts.find snapshot.contextId = none := by
    apply List.find?_eq_none.mpr
    simpa using hcontext
  obtain ⟨contexts, hcontexts, hrows, -⟩ :=
    @Table.insert_of_find_none _ _ _ _ _ (contextRow snapshot items) hfree
  cases summary with
  | none =>
    refine ⟨⟨contexts, t.summaries⟩, ?_, hrows, rfl⟩
    simp [saveContext, hcontexts, Table.insertAll]
  | some record =>
    have hfree' : t.summaries.find record.summaryId = none := by
      apply List.find?_eq_none.mpr
      intro row hrow
      simpa using hsummary record rfl row hrow
    obtain ⟨summaries, hsummaries, hrows', -⟩ :=
      @Table.insert_of_find_none _ _ _ _ _ (summaryRow record) hfree'
    refine ⟨⟨contexts, summaries⟩, ?_, hrows, hrows'⟩
    simp [saveContext, hcontexts, Table.insertAll, hsummaries]

/-- The order of `latest_context`. -/
def LaterFirst (a b : ContextRow) : Prop :=
  b.createdAt < a.createdAt ∨ b.createdAt = a.createdAt ∧ b.contextId ≤ a.contextId

instance (a b : ContextRow) : Decidable (LaterFirst a b) :=
  inferInstanceAs (Decidable (_ ∨ _))

def latestRow (t : ContextTables) (runId : String) : Option ContextRow :=
  ((t.contexts.rows.filter fun row => row.runId = runId).insertionSort LaterFirst).head?

theorem latestRow_mem {t : ContextTables} {runId : String} {row : ContextRow}
    (h : latestRow t runId = some row) : row ∈ t.contexts.rows ∧ row.runId = runId := by
  have hmem := (List.mem_insertionSort LaterFirst).mp (List.mem_of_head? h)
  simpa using hmem

/-- The summary that a snapshot names last. -/
def lastSummary (t : ContextTables) (snapshot : ContextSnapshot) : Option SummaryRecord :=
  (snapshot.summaryIds.getLast?.bind t.summaries.find).map SummaryRow.payload

/-- `SqlStore.latest_context` -/
def latestContext (t : ContextTables) (runId : String) :
    Option (ContextSnapshot × List ContextItem × Option SummaryRecord) :=
  (latestRow t runId).map fun row => (row.snapshot, row.items, lastSummary t row.snapshot)

def SummaryRow.invalidated (row : SummaryRow) (runId reason : String) : SummaryRow :=
  if row.runId = runId ∧ row.valid = true then
    { row with payload := row.payload.invalidated reason, valid := false }
  else row

@[simp] theorem SummaryRow.invalidated_summaryId (row : SummaryRow) (runId reason : String) :
    (row.invalidated runId reason).summaryId = row.summaryId := by
  unfold SummaryRow.invalidated
  split_ifs <;> rfl

@[simp] theorem SummaryRow.invalidated_runId (row : SummaryRow) (runId reason : String) :
    (row.invalidated runId reason).runId = row.runId := by
  unfold SummaryRow.invalidated
  split_ifs <;> rfl

@[simp] theorem SummaryRow.invalidated_sources (row : SummaryRow) (runId reason : String) :
    (row.invalidated runId reason).payload.sourceSummaryIds = row.payload.sourceSummaryIds := by
  unfold SummaryRow.invalidated
  split_ifs <;> rfl

/-- `SqlStore.invalidate_summaries_for_run` -/
def invalidateSummariesForRun (t : ContextTables) (runId reason : String) :
    ContextTables where
  contexts := t.contexts
  summaries := t.summaries.modify (fun row => row.invalidated runId reason) fun row =>
    row.invalidated_summaryId runId reason

/-- The identifier is that of a summary of the run. -/
def Summarized (t : ContextTables) (runId id : String) : Prop :=
  ∃ row ∈ t.summaries.rows, row.runId = runId ∧ row.summaryId = id

theorem summarized_invalidate {t : ContextTables} {runId reason id : String} :
    Summarized (invalidateSummariesForRun t runId reason) runId id ↔ Summarized t runId id := by
  simp only [Summarized, invalidateSummariesForRun, Table.modify, List.mem_map]
  constructor
  · rintro ⟨-, ⟨row, hrow, rfl⟩, hrun, hid⟩
    exact ⟨row, hrow, by simpa using hrun, by simpa using hid⟩
  · rintro ⟨row, hrow, hrun, hid⟩
    exact ⟨_, ⟨row, hrow, rfl⟩, by simpa using hrun, by simpa using hid⟩

/-- A save adds its own summary to those of the run. -/
theorem summarized_save {t t' : ContextTables} {runId id : String} {snapshot : ContextSnapshot}
    {items : List ContextItem} {summary : Option SummaryRecord}
    (h : Saved t t' snapshot items summary)
    (hrun : ∀ record, summary = some record → record.runId = runId) :
    Summarized t' runId id ↔
      (∃ record, summary = some record ∧ record.summaryId = id) ∨ Summarized t runId id := by
  unfold Summarized
  rw [h.summaries]
  cases summary with
  | none => simp
  | some record => simp [summaryRow, hrun record rfl]

end DurableAgent.Context
