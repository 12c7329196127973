import DurableAgent.Context.Store

/-!
# The context of a run from call to call

What `advance` does with the context: it reloads the latest one when it starts, and after every
success that it has committed it builds, saves and carries on the next. Beside the tables and the
variables of `advance` a state holds what was written for the successes, and the identifiers
that are in use.
-/

namespace DurableAgent.Context

open Library

/-- The variables of `advance` that hold the context. -/
structure Working where
  items : List ContextItem := []
  summary : Option SummaryRecord := none

/-- `_append_summary_navigation` -/
def appendSummaryNavigation (stamp : Stamp) (items : List ContextItem) (summary : SummaryRecord) :
    List ContextItem :=
  if items.any fun item => summary.summaryId ∈ item.sourceRefs then items
  else items ++ [createItem stamp "summary" summary.content 1000 [summary.summaryId]
    summary.evidenceIds (3 ≤ summary.generation) le_rfl]

/-- The items with the navigation to a summary, if there is one. -/
def withNavigation (stamp : Stamp) (items : List ContextItem) :
    Option SummaryRecord → List ContextItem
  | some summary => appendSummaryNavigation stamp items summary
  | none => items

theorem mem_withNavigation {stamp : Stamp} {items : List ContextItem}
    {summary : Option SummaryRecord} {item : ContextItem}
    (h : item ∈ withNavigation stamp items summary) :
    item ∈ items ∨ ∃ record, summary = some record ∧ item.category = "summary" ∧
      item.sourceRefs = [record.summaryId] := by
  cases summary with
  | none => exact .inl h
  | some record =>
    simp only [withNavigation, appendSummaryNavigation] at h
    split_ifs at h
    · exact .inl h
    · rcases List.mem_append.mp h with h | h
      · exact .inl h
      · rw [List.mem_singleton.mp h]
        exact .inr ⟨record, rfl, rfl, rfl⟩

theorem withNavigation_of_mem {stamp : Stamp} {items : List ContextItem}
    {summary : Option SummaryRecord} {item : ContextItem} (h : item ∈ items) :
    item ∈ withNavigation stamp items summary := by
  cases summary with
  | none => exact h
  | some record =>
    simp only [withNavigation, appendSummaryNavigation]
    split_ifs
    · exact h
    · exact List.mem_append_left _ h

/-- `_next_summary_level` -/
def nextSummaryLevel : Option SummaryRecord → SummaryLevel × Nat
  | none => (.TASK, 1)
  | some summary =>
    if 3 ≤ summary.generation then (.TASK, 1)
    else if summary.generation = 1 then (.TASK_GROUP, 2)
    else (.RUN, 3)

/-- The items that a snapshot selected. -/
def selectedItems (snapshot : ContextSnapshot) (items : List ContextItem) : List ContextItem :=
  items.filter fun item => item.itemId ∈ snapshot.itemIds

/-- The context that `advance` starts with. -/
def reload (t : ContextTables) (runId : String) (stamp : Stamp) : Working :=
  match latestContext t runId with
  | none => {}
  | some (snapshot, items, summary) =>
    { items := withNavigation stamp (selectedItems snapshot items) summary, summary := summary }

/-- What is read of a task that succeeded, and of its outcome. -/
structure Success where
  taskId : String
  attemptCount : Nat
  contextNote : String
  evidenceIds : List String
  checkpointDue : Bool

/-- The stamps that are drawn after a success. -/
structure SuccessStamps where
  state : Stamp
  history : Stamp
  build : BuildStamps
  navigation : Stamp

/-- The two items that a success adds. -/
def recordItems (stamps : SuccessStamps) (success : Success) : List ContextItem :=
  [createItem stamps.state "task_state"
      s!"Task {success.taskId} succeeded on attempt {success.attemptCount}." 10
      [success.taskId] success.evidenceIds false (by decide),
    createItem stamps.history "history" success.contextNote 100
      [success.taskId] success.evidenceIds false (by decide)]

section Success

variable (manager : ContextManager) (runId : String) (w : Working) (success : Success)
  (stamps : SuccessStamps)

/-- The items that `build` is called with. -/
def itemsAfter : List ContextItem := w.items ++ recordItems stamps success

/-- The call of `build` after a success. -/
def buildAfter : Except Exn (ContextSnapshot × Option SummaryRecord) :=
  manager.build stamps.build runId (some success.taskId) (itemsAfter w success stamps)
    (nextSummaryLevel w.summary).1 (nextSummaryLevel w.summary).2

/-- The context that is carried on to the next task. -/
def Working.next (snapshot : ContextSnapshot) (summary : Option SummaryRecord) : Working where
  items := withNavigation stamps.navigation
    (selectedItems snapshot (itemsAfter w success stamps)) summary
  summary := summary <|> w.summary

end Success

/-- What `advance` has written for its successes. -/
inductive Entry where
  | committed (taskId : String)
  | context (contextId : String) (summaryIds : List String)
  | checkpoint (contextId : String) (summaryIds : List String)
  | succeeded (taskId : String)
  deriving DecidableEq

/-- The entries of a success whose context was saved. -/
def entries (success : Success) (snapshot : ContextSnapshot) : List Entry :=
  .context snapshot.contextId snapshot.summaryIds ::
    (if success.checkpointDue then [.checkpoint snapshot.contextId snapshot.summaryIds] else []) ++
      [.succeeded success.taskId]

/-- The state of a run's context; no call of `advance` is under way where nothing is carried. -/
structure ContextState where
  tables : ContextTables
  working : Option Working := none
  written : List Entry := []
  used : List String := []

inductive ContextEvent where
  /-- `advance` starts; the call before it may have stopped at its bound or have been lost. -/
  | started (stamp : Stamp)
  /-- A success is committed, and its context built and saved. -/
  | succeeded (success : Success) (stamps : SuccessStamps)
  /-- `resume` finds that the sources have drifted. -/
  | invalidated (reason : String)

def SuccessStamps.ids (stamps : SuccessStamps) : List String :=
  [stamps.state.id, stamps.history.id, stamps.build.summary.id, stamps.build.context.id,
    stamps.navigation.id]

/-- The identifiers that an event brings up: the task's own, and those that are drawn. -/
def ContextEvent.ids : ContextEvent → List String
  | .started stamp => [stamp.id]
  | .succeeded success stamps => success.taskId :: stamps.ids
  | .invalidated _ => []

section Machine

variable (manager : ContextManager) (runId : String)

/-- What follows the commit of a success. -/
def bookkeep (t : ContextTables) (w : Working) (success : Success) (stamps : SuccessStamps) :
    Except Exn (ContextTables × Working × List Entry) := do
  let (snapshot, summary) ← buildAfter manager runId w success stamps
  let t ← saveContext t snapshot (itemsAfter w success stamps) summary
  .ok (t, w.next success stamps snapshot summary, entries success snapshot)

/-- The state after an event. An exception ends the call of `advance`. -/
def ContextState.step (s : ContextState) (e : ContextEvent) : ContextState :=
  match e, s.working with
  | .started stamp, _ =>
    { s with working := some (reload s.tables runId stamp), used := s.used ++ e.ids }
  | .succeeded _ _, none => s
  | .succeeded success stamps, some w =>
    match bookkeep manager runId s.tables w success stamps with
    | .error _ =>
      { s with working := none, written := s.written ++ [.committed success.taskId]
               used := s.used ++ e.ids }
    | .ok (t, w, written) =>
      { tables := t, working := some w
        written := s.written ++ .committed success.taskId :: written
        used := s.used ++ e.ids }
  | .invalidated reason, _ =>
    { s with tables := invalidateSummariesForRun s.tables runId reason, working := none }

def ContextState.run (s : ContextState) (events : List ContextEvent) : ContextState :=
  events.foldl (fun s e => s.step manager runId e) s

/-- The identifiers of an event are new and distinct. -/
def ContextEvent.Fresh (e : ContextEvent) (s : ContextState) : Prop :=
  e.ids.Nodup ∧ ∀ id ∈ e.ids, id ∉ s.used

/-- A state before the first context of the run, beside the contexts of other runs. -/
structure Unstarted (s : ContextState) : Prop where
  no_context : ∀ row ∈ s.tables.contexts.rows, row.runId ≠ runId
  no_summary : ∀ row ∈ s.tables.summaries.rows, row.runId ≠ runId
  contexts_used : ∀ row ∈ s.tables.contexts.rows, row.contextId ∈ s.used
  summaries_used : ∀ row ∈ s.tables.summaries.rows, row.summaryId ∈ s.used
  idle : s.working = none
  unwritten : s.written = []

/-- The states that a run's context reaches. -/
inductive Reaches (s₀ : ContextState) : ContextState → Prop where
  | refl : Reaches s₀ s₀
  | step {s : ContextState} {e : ContextEvent} (h : Reaches s₀ s) (hfresh : e.Fresh s) :
      Reaches s₀ (s.step manager runId e)

variable {manager : ContextManager} {runId : String}

theorem ContextState.used_step (s : ContextState) (e : ContextEvent) :
    (s.step manager runId e).used.Sublist (s.used ++ e.ids) := by
  cases e with
  | started stamp => exact List.Sublist.refl _
  | invalidated reason => exact List.sublist_append_left _ _
  | succeeded success stamps =>
    cases hw : s.working with
    | none =>
      simp only [ContextState.step, hw]
      exact List.sublist_append_left _ _
    | some w =>
      simp only [ContextState.step, hw]
      split
      · exact List.Sublist.refl _
      · exact List.Sublist.refl _

/-- A sequence of events whose identifiers are all new and distinct. -/
theorem Reaches.run {s₀ s : ContextState} {events : List ContextEvent}
    (h : Reaches manager runId s₀ s)
    (hids : (s.used ++ events.flatMap ContextEvent.ids).Nodup) :
    Reaches manager runId s₀ (s.run manager runId events) := by
  induction events generalizing s with
  | nil => exact h
  | cons e rest ih =>
    rw [List.flatMap_cons, ← List.append_assoc] at hids
    obtain ⟨-, hnew, hapart⟩ := List.nodup_append.mp (hids.sublist (List.sublist_append_left _ _))
    apply ih (.step h ⟨hnew, fun id hid hused => hapart id hused id hid rfl⟩)
    exact hids.sublist ((s.used_step e).append_right _)

end Machine

end DurableAgent.Context
