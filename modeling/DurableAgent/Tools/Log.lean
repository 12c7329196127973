import DurableAgent.Tools.Executor
import DurableAgent.Library.RelyGuarantee

/-!
# What the log of the journal tells

The journal and its log agree: the rows are the recorded intents, in order. A caller that knows
of a recorded intent keeps it so, whatever call it issues next.
-/

namespace DurableAgent.Tools

open Library
open Library.Prog hiding call

variable (E : ToolExecutor)

/-! ## What the log tells -/

/-- The checks before the journal would admit the recorded call. -/
def Admitted (i : Identity) : Prop :=
  i.argumentsHash = E.argumentsHash i.arguments ∧ ∃ definition,
    E.registry.get i.toolName = .ok definition ∧ E.authorize definition i.toolName i.arguments = .ok ()

/-- The registered tool of this name may be retried. -/
def RetrySafe (toolName : String) : Prop :=
  ∃ definition, E.registry.get toolName = .ok definition ∧ definition.retrySafe = true

/-- What an entry is preceded by. -/
def EntryOk : Entry → List Entry → Prop
  | .intent call, _ => Admitted E (.of call)
  | .retry found result, earlier => .of found ∈ recorded earlier ∧ RetrySafe E found.toolName ∧
      found.status = .FAILED ∧ result = none
  | .ran toolName arguments call, earlier => .of call ∈ recorded earlier ∧
      call.toolName = toolName ∧ call.argumentsHash = E.argumentsHash arguments

def LogOk : List Entry → Prop
  | [] => True
  | entry :: earlier => EntryOk E entry earlier ∧ LogOk earlier

/-- The invariant of the journal and its log. -/
structure Consistent (w : World) : Prop where
  ids : (w.journal.identities.map Identity.toolCallId).Nodup
  keys : (w.journal.identities.map Identity.idempotencyKey).Nodup
  results : (w.journal.results.map ToolResult.toolCallId).Nodup
  intents : w.journal.identities = recorded w.log
  log : LogOk E w.log

/-- The log grows, and stored results stay. -/
def discipline : Discipline World where
  inv := Consistent E
  evolves w w' := w.log <:+ w'.log ∧ ∀ r ∈ w.journal.results, r ∈ w'.journal.results
  refl _ := ⟨List.suffix_refl _, fun _ hr => hr⟩
  trans h h' := ⟨h.1.trans h'.1, fun r hr => h'.2 r (h.2 r hr)⟩

variable {E} {w w' : World} {log earlier : List Entry} {i : Identity} {key : String}

theorem LogOk.entry {later : List Entry} {entry : Entry} (h : LogOk E log)
    (hsplit : log = later ++ entry :: earlier) : EntryOk E entry earlier := by
  induction later generalizing log with
  | nil =>
    subst hsplit
    exact h.1
  | cons e later ih =>
    subst hsplit
    exact ih h.2 rfl

theorem recorded_mono (h : earlier <:+ log) (hi : i ∈ recorded earlier) : i ∈ recorded log :=
  (h.filterMap Entry.recorded).subset hi

theorem mem_recorded : i ∈ recorded log ↔ ∃ call, .intent call ∈ log ∧ Identity.of call = i := by
  rw [recorded, List.mem_filterMap]
  constructor
  · rintro ⟨entry, hentry, hi⟩
    cases entry with
    | intent call => exact ⟨call, hentry, Option.some.inj hi⟩
    | retry found result => cases hi
    | ran toolName arguments call => cases hi
  · rintro ⟨call, hcall, rfl⟩
    exact ⟨_, hcall, rfl⟩

theorem LogOk.admitted (h : LogOk E log) (hi : i ∈ recorded log) : Admitted E i := by
  obtain ⟨call, hcall, rfl⟩ := mem_recorded.mp hi
  obtain ⟨later, earlier, hsplit⟩ := List.append_of_mem hcall
  exact h.entry hsplit

/-- Recorded calls with one identifier are one call. -/
theorem Consistent.id_inj (h : Consistent E w) {j : Identity} (hi : i ∈ recorded w.log)
    (hj : j ∈ recorded w.log) (hid : i.toolCallId = j.toolCallId) : i = j := by
  rw [← h.intents] at hi hj
  exact List.inj_on_of_nodup_map h.ids hi hj hid

theorem Consistent.key_inj (h : Consistent E w) {j : Identity} (hi : i ∈ recorded w.log)
    (hj : j ∈ recorded w.log) (hkey : i.idempotencyKey = j.idempotencyKey) : i = j := by
  rw [← h.intents] at hi hj
  exact List.inj_on_of_nodup_map h.keys hi hj hkey

theorem Consistent.mem_recorded (h : Consistent E w) {call : ToolCall}
    (hcall : call ∈ w.journal.calls) : .of call ∈ recorded w.log := by
  rw [← h.intents]
  exact List.mem_map_of_mem hcall

/-! ## One call -/

/-- What a caller has to know for a call to keep the invariant. -/
def Pre (E : ToolExecutor) : (β : Type) → JournalOp β → World → Prop
  | _, .recordIntent call, _ => Admitted E (.of call)
  | _, .prepareRetry callId, w =>
    ∃ i ∈ recorded w.log, i.toolCallId = callId ∧ RetrySafe E i.toolName
  | _, .runTool toolName arguments call, w => .of call ∈ recorded w.log ∧
      call.toolName = toolName ∧ call.argumentsHash = E.argumentsHash arguments
  | _, _, _ => True

/-- Rows that change within their identities keep the invariant. -/
theorem Consistent.congr (h : Consistent E w) {journal : Journal}
    (hids : journal.identities = w.journal.identities)
    (hresults : journal.results = w.journal.results) : Consistent E { w with journal := journal } :=
  ⟨hids ▸ h.ids, hids ▸ h.keys, hresults ▸ h.results, hids.trans h.intents, h.log⟩

theorem recordIntent_keeps (h : Consistent E w) {call : ToolCall} {journal : Journal}
    (hcall : Admitted E (.of call)) (hok : w.journal.recordIntent call = .ok journal) :
    Consistent E ⟨journal, .intent call :: w.log⟩ := by
  obtain ⟨hfresh, rfl⟩ := Journal.recordIntent_eq_ok hok
  refine ⟨?_, ?_, h.results, congrArg (Identity.of call :: ·) h.intents, hcall, h.log⟩
  · refine List.nodup_cons.mpr ⟨fun hmem => ?_, h.ids⟩
    obtain ⟨i, hi, hid⟩ := List.mem_map.mp hmem
    obtain ⟨row, hrow, rfl⟩ := List.mem_map.mp hi
    exact (hfresh row hrow).1 hid
  · refine List.nodup_cons.mpr ⟨fun hmem => ?_, h.keys⟩
    obtain ⟨i, hi, hkey⟩ := List.mem_map.mp hmem
    obtain ⟨row, hrow, rfl⟩ := List.mem_map.mp hi
    exact (hfresh row hrow).2 hkey

theorem prepareRetry_keeps (h : Consistent E w) {callId : String} {found : ToolCall}
    {journal : Journal} (hpre : Pre E _ (.prepareRetry callId) w)
    (hok : w.journal.prepareRetry callId = .ok (found, journal)) :
    Consistent E ⟨journal, .retry found (w.journal.resultOf callId) :: w.log⟩ := by
  obtain ⟨hresult, hfound, hid, hstatus, rfl⟩ := Journal.prepareRetry_eq_ok hok
  obtain ⟨i, hi, hcallId, hretry⟩ := hpre
  have hmem := h.mem_recorded hfound
  have hsame : Identity.of found = i := h.id_inj hmem hi (hid.trans hcallId.symm)
  have hentry : EntryOk E (.retry found (w.journal.resultOf callId)) w.log :=
    ⟨hmem, by rw [← hsame] at hretry; exact hretry, hstatus, hresult⟩
  have hids := @Journal.identities_modify w.journal callId Journal.reopened fun _ => rfl
  have hcongr := h.congr hids rfl
  exact ⟨hcongr.ids, hcongr.keys, hcongr.results, hcongr.intents, hentry, h.log⟩

theorem recordResult_keeps (h : Consistent E w) {result : ToolResult} {now : Timestamp}
    {journal : Journal} (hok : w.journal.recordResult result now = .ok journal) :
    Consistent E { w with journal := journal } := by
  obtain ⟨hfresh, hresults, hids⟩ := Journal.recordResult_eq_ok hok
  refine ⟨hids ▸ h.ids, hids ▸ h.keys, ?_, hids.trans h.intents, h.log⟩
  change (journal.results.map ToolResult.toolCallId).Nodup
  rw [hresults]
  refine List.nodup_cons.mpr ⟨fun hmem => ?_, h.results⟩
  obtain ⟨row, hrow, hid⟩ := List.mem_map.mp hmem
  exact hfresh row hrow hid

/-- Every call issued with what it needs keeps the discipline. -/
theorem handle_keeps {β : Type} {op : JournalOp β} {x : Except Exn β} (h : Consistent E w)
    (hpre : Pre E β op w) (hop : handle.exec β op w x w') :
    (discipline E).evolves w w' ∧ Consistent E w' := by
  obtain ⟨t, hop⟩ := hop
  have hsame : (discipline E).evolves w w := (discipline E).refl w
  cases op with
  | now | newId | getByIdempotencyKey | uncertainCalls | reconcileTool =>
    obtain ⟨-, rfl⟩ := Prod.mk.inj hop
    exact ⟨hsame, h⟩
  | recordIntent call =>
    simp only [handle] at hop
    split at hop
    · next journal hok =>
      obtain ⟨-, rfl⟩ := Prod.mk.inj hop
      have hresults : journal.results = w.journal.results := by
        rw [(Journal.recordIntent_eq_ok hok).2]
      exact ⟨⟨List.suffix_cons _ _, fun r hr => hresults ▸ hr⟩, recordIntent_keeps h hpre hok⟩
    · obtain ⟨-, rfl⟩ := Prod.mk.inj hop
      exact ⟨hsame, h⟩
  | updateStatus callId status =>
    simp only [handle] at hop
    split at hop
    · next journal hok =>
      obtain ⟨-, rfl⟩ := Prod.mk.inj hop
      obtain rfl := Journal.updateStatus_eq_ok hok
      exact ⟨hsame, h.congr (Journal.identities_modify fun _ => rfl) rfl⟩
    · obtain ⟨-, rfl⟩ := Prod.mk.inj hop
      exact ⟨hsame, h⟩
  | prepareRetry callId =>
    simp only [handle] at hop
    split at hop
    · next found journal hok =>
      obtain ⟨-, rfl⟩ := Prod.mk.inj hop
      have hresults : journal.results = w.journal.results := by
        rw [(Journal.prepareRetry_eq_ok hok).2.2.2.2]
        rfl
      exact ⟨⟨List.suffix_cons _ _, fun r hr => hresults ▸ hr⟩, prepareRetry_keeps h hpre hok⟩
    · obtain ⟨-, rfl⟩ := Prod.mk.inj hop
      exact ⟨hsame, h⟩
  | recordResult result =>
    simp only [handle] at hop
    split at hop
    · next journal hok =>
      obtain ⟨-, rfl⟩ := Prod.mk.inj hop
      have hresults := (Journal.recordResult_eq_ok hok).2.1
      refine ⟨⟨List.suffix_refl _, fun r hr => ?_⟩, recordResult_keeps h hok⟩
      rw [hresults]
      exact List.mem_cons_of_mem _ hr
    · obtain ⟨-, rfl⟩ := Prod.mk.inj hop
      exact ⟨hsame, h⟩
  | runTool toolName arguments call =>
    obtain ⟨-, rfl⟩ := Prod.mk.inj hop
    exact ⟨⟨List.suffix_cons _ _, fun _ hr => hr⟩, h.ids, h.keys, h.results, h.intents, hpre, h.log⟩

end DurableAgent.Tools
