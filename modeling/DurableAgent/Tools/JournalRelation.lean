import DurableAgent.Library.Lockstep
import DurableAgent.Tools.Memory
import Mathlib.Data.List.Perm.Basic

/-!
# The two journals side by side

The relation between the SQL journal and the in-memory journal, which every call keeps. Both are
given the same clock readings, identifiers and tool behaviour, and the uncertain calls of a run in
the same order.
-/

namespace DurableAgent.Tools

open Library
open Library.Prog hiding call

/-- The rows and the dictionaries hold the same; only the SQL journal writes times. -/
structure Alike (w : World) (m : MemoryWorld) : Prop where
  ids : (w.journal.calls.map ToolCall.toolCallId).Nodup
  calls : ∀ callId, (w.journal.callOf callId).map untimed =
    (m.journal.calls.get callId).map untimed
  keys : ∀ key, (w.journal.keyOf key).map ToolCall.toolCallId = m.journal.keys.get key
  results : ∀ callId result, m.journal.results.get callId = some result ↔
    result ∈ w.journal.results ∧ result.toolCallId = callId
  owned : ∀ callId, (m.journal.results.get callId).isSome → (m.journal.calls.get callId).isSome
  unsettled : ∀ callId call, m.journal.calls.get callId = some call → Unsettled call.status →
    m.journal.results.get callId = none
  executions : w.log.filterMap Entry.execution = m.executions

/-- No call and no result has the identifier. -/
def InMemoryToolJournal.Unused (id : String) (s : InMemoryToolJournal) : Prop :=
  (s.calls.get id).isNone ∧ ∀ stored ∈ s.results.values, stored.toolResultId ≠ id

/-- The call is there, and it has no result. -/
def InMemoryToolJournal.Open (callId : String) (s : InMemoryToolJournal) : Prop :=
  (s.calls.get callId).isSome ∧ s.results.get callId = none

/-- The result is for a call that is there without one, under an identifier of its own. -/
def InMemoryToolJournal.Storable (result : ToolResult) (s : InMemoryToolJournal) : Prop :=
  s.Open result.toolCallId ∧ ∀ stored ∈ s.results.values,
    stored.toolResultId ≠ result.toolResultId

/-- The SQL journal is given the order in which the in-memory journal lists. Identifiers are
fresh, and reconciled results can be stored. -/
def journals : Lockstep JournalOp Exn World MemoryWorld Supply where
  first := handle
  second := handleInMemory
  adapt
    | _, .uncertainCalls runId, t, m =>
      { t with order := (m.journal.uncertainCalls runId).map ToolCall.toolCallId }
    | _, _, t, _ => t
  proper
    | _, .newId kind, t, m => m.journal.Unused s!"{kind}-{t.freshId}"
    | _, .reconcileTool _, t, m => ∀ result, t.reconciled = .ok (some result) →
        m.journal.Storable result
    | _, _, _, _ => True
  inv := Alike

variable {w : World} {m : MemoryWorld} {callId key : String} {call row : ToolCall}

/-! ## What the relation says -/

/-- Calls that differ in their times have all else in common. -/
theorem of_untimed {β : Type} (f : ToolCall → β) (h : untimed row = untimed call)
    (hf : ∀ c, f (untimed c) = f c := by exact fun _ => rfl) : f row = f call := by
  rw [← hf row, h, hf call]

theorem untimed_id (h : untimed row = untimed call) : row.toolCallId = call.toolCallId :=
  of_untimed ToolCall.toolCallId h

namespace Alike

variable (h : Alike w m)
include h

/-- A call that one journal has, the other has too. -/
theorem row_of_call (hcall : m.journal.calls.get callId = some call) :
    ∃ row ∈ w.journal.calls, row.toolCallId = callId ∧ untimed row = untimed call := by
  have hrow := h.calls callId
  rw [hcall] at hrow
  obtain ⟨row, hrow, hsame⟩ := Option.map_eq_some_iff.mp hrow
  obtain ⟨hmem, hid⟩ := (Journal.callOf_eq_some h.ids).mp hrow
  exact ⟨row, hmem, hid, hsame⟩

theorem call_of_row (hrow : row ∈ w.journal.calls) :
    ∃ call, m.journal.calls.get row.toolCallId = some call ∧ untimed row = untimed call := by
  have hcall := h.calls row.toolCallId
  rw [(Journal.callOf_eq_some h.ids).mpr ⟨hrow, rfl⟩] at hcall
  obtain ⟨call, hcall, hsame⟩ := Option.map_eq_some_iff.mp hcall.symm
  exact ⟨call, hcall, hsame.symm⟩

theorem id_of_call (hcall : m.journal.calls.get callId = some call) : call.toolCallId = callId := by
  obtain ⟨row, -, hid, hsame⟩ := h.row_of_call hcall
  exact (untimed_id hsame).symm.trans hid

theorem has_call : (w.journal.calls.any fun row => row.toolCallId = callId) =
    (m.journal.calls.get callId).isSome := by
  rw [Bool.eq_iff_iff, List.any_eq_true]
  constructor
  · rintro ⟨row, hrow, hid⟩
    obtain ⟨call, hcall, -⟩ := h.call_of_row hrow
    rw [of_decide_eq_true hid] at hcall
    rw [hcall]
    rfl
  · intro hsome
    obtain ⟨call, hcall⟩ := Option.isSome_iff_exists.mp hsome
    obtain ⟨row, hrow, hid, -⟩ := h.row_of_call hcall
    exact ⟨row, hrow, decide_eq_true hid⟩

theorem resultOf_eq : w.journal.resultOf callId = m.journal.results.get callId := by
  cases hfind : w.journal.resultOf callId with
  | none =>
    cases hget : m.journal.results.get callId with
    | none => rfl
    | some result =>
      obtain ⟨hmem, hid⟩ := (h.results callId result).mp hget
      simpa [hid] using List.find?_eq_none.mp hfind result hmem
  | some result =>
    have hid : result.toolCallId = callId := by simpa using List.find?_some hfind
    exact ((h.results callId result).mpr ⟨List.mem_of_find?_eq_some hfind, hid⟩).symm

/-! ## Rows change as calls do -/

/-- A row and the call with its id are changed alike. -/
theorem modify {f : ToolCall → ToolCall} {call' : ToolCall}
    (hcall : m.journal.calls.get callId = some call) (hf : ∀ row, Identity.of (f row) = .of row)
    (hsame : ∀ row, untimed row = untimed call → untimed (f row) = untimed call')
    (hopen : Unsettled call'.status → m.journal.results.get callId = none) :
    Alike { w with journal := w.journal.modify callId f }
      { m with journal := { m.journal with calls := m.journal.calls.set callId call' } } where
  ids := by
    rw [Journal.ids_modify hf]
    exact h.ids
  calls j := by
    rw [Journal.callOf_modify hf, Dict.get_set]
    by_cases hj : j = callId
    · subst hj
      rw [if_pos rfl, if_pos rfl]
      have hrow := h.calls j
      rw [hcall] at hrow
      obtain ⟨row, hrow, hrow'⟩ := Option.map_eq_some_iff.mp hrow
      rw [hrow]
      exact congrArg some (hsame row hrow')
    · rw [if_neg hj, if_neg hj]
      exact h.calls j
  keys key := by
    rw [Journal.keyOf_modify hf]
    exact h.keys key
  results := h.results
  owned j hj := by
    rw [Dict.get_set]
    split
    · rfl
    · exact h.owned j hj
  unsettled j c hc hstatus := by
    rw [Dict.get_set] at hc
    split at hc
    · next hj =>
      obtain rfl := Option.some.inj hc
      rw [hj]
      exact hopen hstatus
    · exact h.unsettled j c hc hstatus
  executions := h.executions

/-- A call that neither journal has is recorded in both. -/
theorem record (hid : (m.journal.calls.get call.toolCallId).isNone) (entry : Entry)
    (hentry : entry.execution = none) :
    Alike ⟨{ w.journal with calls := call :: w.journal.calls }, entry :: w.log⟩
      { m with journal := { m.journal with
          calls := m.journal.calls.set call.toolCallId call
          keys := m.journal.keys.set call.idempotencyKey call.toolCallId } } where
  ids := by
    refine List.nodup_cons.mpr ⟨fun hmem => ?_, h.ids⟩
    obtain ⟨row, hrow, hrowid⟩ := List.mem_map.mp hmem
    obtain ⟨other, hother, -⟩ := h.call_of_row hrow
    rw [hrowid] at hother
    rw [hother] at hid
    cases hid
  calls j := by
    rw [Dict.get_set]
    by_cases hj : j = call.toolCallId
    · simp [Journal.callOf, hj]
    · rw [if_neg hj, ← h.calls j]
      unfold Journal.callOf
      rw [List.find?_cons_of_neg (by simpa using Ne.symm hj)]
  keys key := by
    rw [Dict.get_set]
    by_cases hj : key = call.idempotencyKey
    · simp [Journal.keyOf, hj]
    · rw [if_neg hj, ← h.keys key]
      unfold Journal.keyOf
      rw [List.find?_cons_of_neg (by simpa using Ne.symm hj)]
  results := h.results
  owned j hj := by
    rw [Dict.get_set]
    split
    · rfl
    · exact h.owned j hj
  unsettled j c hc hstatus := by
    rw [Dict.get_set] at hc
    split at hc
    · next hj =>
      cases hresult : m.journal.results.get j with
      | none => rfl
      | some result =>
        have howned := h.owned j (by rw [hresult]; rfl)
        rw [hj, Option.isSome_iff_ne_none] at howned
        exact absurd (Option.isNone_iff_eq_none.mp hid) howned
    · exact h.unsettled j c hc hstatus
  executions := by
    rw [List.filterMap_cons_none hentry]
    exact h.executions

/-- A result of a call that is settled and had none is stored in both. -/
theorem store {result : ToolResult} (hcall : m.journal.calls.get result.toolCallId = some call)
    (hsettled : ¬ Unsettled call.status) (hnone : m.journal.results.get result.toolCallId = none) :
    Alike { w with journal := { w.journal with results := result :: w.journal.results } }
      { m with journal := { m.journal with
          results := m.journal.results.set result.toolCallId result } } where
  ids := h.ids
  calls := h.calls
  keys := h.keys
  results j r := by
    rw [Dict.get_set, List.mem_cons]
    by_cases hj : j = result.toolCallId
    · rw [if_pos hj, Option.some.injEq]
      constructor
      · rintro rfl
        exact ⟨.inl rfl, hj.symm⟩
      · rintro ⟨rfl | hmem, hid⟩
        · rfl
        · have hr := (h.results j r).mpr ⟨hmem, hid⟩
          rw [hj, hnone] at hr
          cases hr
    · rw [if_neg hj, h.results]
      constructor
      · rintro ⟨hmem, hid⟩
        exact ⟨.inr hmem, hid⟩
      · rintro ⟨rfl | hmem, hid⟩
        · exact absurd hid.symm hj
        · exact ⟨hmem, hid⟩
  owned j hj := by
    rw [Dict.get_set] at hj
    split at hj
    · next hid =>
      rw [hid, hcall]
      rfl
    · exact h.owned j hj
  unsettled j c hc hstatus := by
    rw [Dict.get_set]
    split
    · next hj =>
      rw [hj, hcall] at hc
      obtain rfl := Option.some.inj hc
      exact absurd hstatus hsettled
    · exact h.unsettled j c hc hstatus
  executions := h.executions

/-- A tool body runs in both. -/
theorem ran (toolName : String) (arguments : Json) (hsame : untimed row = untimed call) :
    Alike { w with log := .ran toolName arguments row :: w.log }
      { m with executions := ⟨toolName, arguments, call.toolCallId⟩ :: m.executions } where
  ids := h.ids
  calls := h.calls
  keys := h.keys
  results := h.results
  owned := h.owned
  unsettled := h.unsettled
  executions := by
    change (⟨toolName, arguments, row.toolCallId⟩ : Execution) :: w.log.filterMap _ = _
    rw [h.executions, untimed_id hsame]

end Alike

/-! ## One call on either side -/

/-- Calls stay. -/
def Framed (m m' : MemoryWorld) : Prop :=
  ∀ callId, (m.journal.calls.get callId).isSome → (m'.journal.calls.get callId).isSome

/-- What the two journals find under a key. -/
def FoundAlike (m : MemoryWorld) (key : String) :
    Option (ToolCall × Option ToolResult) → Option (ToolCall × Option ToolResult) → Prop
  | none, none => (m.journal.keys.get key).isNone
  | some (row, result), some (call, result') => untimed row = untimed call ∧ result = result' ∧
      m.journal.calls.get call.toolCallId = some call ∧
      m.journal.results.get call.toolCallId = result
  | _, _ => False

variable {E : World → MemoryWorld → Prop} {status : ToolCallStatus} {result : ToolResult}

theorem agrees_now (h : Alike w m) :
    journals.Agrees (fun a a' w' m' => a = a' ∧ w = w' ∧ m = m') E (perform .now) (perform .now)
      w m :=
  Lockstep.agrees_perform fun t _ => ⟨h, t.now, rfl, rfl, rfl, rfl⟩

theorem agrees_newId (h : Alike w m) (kind : String) :
    journals.Agrees (fun a a' w' m' => a = a' ∧ m.journal.Unused a ∧ w = w' ∧ m = m') E
      (perform (.newId kind)) (perform (.newId kind)) w m :=
  Lockstep.agrees_perform fun t ht => ⟨h, s!"{kind}-{t.freshId}", rfl, rfl, ht, rfl, rfl⟩

theorem agrees_getByIdempotencyKey (h : Alike w m) (key : String) :
    journals.Agrees (fun a a' w' m' => FoundAlike m key a a' ∧ w = w' ∧ m = m') E
      (perform (.getByIdempotencyKey key)) (perform (.getByIdempotencyKey key)) w m := by
  refine Lockstep.agrees_perform fun t _ => ⟨h, ?_⟩
  have hkey := h.keys key
  cases hfind : w.journal.keyOf key with
  | none =>
    rw [hfind] at hkey
    have hsql : w.journal.getByIdempotencyKey key = none := by
      unfold Journal.getByIdempotencyKey
      rw [show w.journal.calls.find? _ = none from hfind]
      rfl
    have hmemory : m.journal.getByIdempotencyKey key = .ok none := by
      unfold InMemoryToolJournal.getByIdempotencyKey
      rw [← hkey]
      rfl
    change journals.Agrees _ E (.done (.ok (w.journal.getByIdempotencyKey key)))
      (.done (m.journal.getByIdempotencyKey key)) w m
    rw [hsql, hmemory]
    refine ⟨none, rfl, ?_, rfl, rfl⟩
    change (m.journal.keys.get key).isNone
    rw [← hkey]
    rfl
  | some row =>
    rw [hfind] at hkey
    obtain ⟨call, hcall, hsame⟩ := h.call_of_row (List.mem_of_find?_eq_some hfind)
    have hsql : w.journal.getByIdempotencyKey key =
        some (row, m.journal.results.get row.toolCallId) := by
      unfold Journal.getByIdempotencyKey
      rw [show w.journal.calls.find? _ = some row from hfind, ← h.resultOf_eq]
      rfl
    have hmemory : m.journal.getByIdempotencyKey key =
        .ok (some (call, m.journal.results.get row.toolCallId)) := by
      unfold InMemoryToolJournal.getByIdempotencyKey
      rw [← hkey, Option.map_some]
      dsimp only
      rw [hcall]
    change journals.Agrees _ E (.done (.ok (w.journal.getByIdempotencyKey key)))
      (.done (m.journal.getByIdempotencyKey key)) w m
    rw [hsql, hmemory]
    refine ⟨_, rfl, ⟨hsame, rfl, ?_, ?_⟩, rfl, rfl⟩
    · rw [← untimed_id hsame]
      exact hcall
    · rw [← untimed_id hsame]

theorem agrees_recordIntent (h : Alike w m) (hid : m.journal.Unused call.toolCallId)
    (hkey : (m.journal.keys.get call.idempotencyKey).isNone) :
    journals.Agrees (fun _ _ _ m' => m'.journal.Open call.toolCallId) E
      (perform (.recordIntent call)) (perform (.recordIntent call)) w m := by
  have hsql : w.journal.recordIntent call =
      .ok { w.journal with calls := call :: w.journal.calls } := by
    refine if_neg fun hany => ?_
    obtain ⟨row, hrow, hclash⟩ := List.any_eq_true.mp hany
    rcases of_decide_eq_true hclash with hrowid | hrowkey
    · obtain ⟨other, hother, -⟩ := h.call_of_row hrow
      rw [hrowid] at hother
      have hnone := hid.1
      rw [hother] at hnone
      cases hnone
    · have hfind := h.keys call.idempotencyKey
      rw [Option.isNone_iff_eq_none.mp hkey, Option.map_eq_none_iff] at hfind
      simpa [hrowkey] using List.find?_eq_none.mp hfind row hrow
  have hmemory : m.journal.recordIntent call = .ok { m.journal with
      calls := m.journal.calls.set call.toolCallId call
      keys := m.journal.keys.set call.idempotencyKey call.toolCallId } := by
    apply if_neg
    rw [Option.isNone_iff_eq_none.mp hkey]
    simp
  refine Lockstep.agrees_perform fun t _ => ?_
  simp only [journals, handle, handleInMemory, hsql, hmemory]
  refine ⟨h.record hid.1 _ rfl, (), rfl, ?_, ?_⟩
  · simp [Dict.get_set]
  · change m.journal.results.get call.toolCallId = none
    cases hresult : m.journal.results.get call.toolCallId with
    | none => rfl
    | some result =>
      have howned := h.owned call.toolCallId (by rw [hresult]; rfl)
      rw [Option.isNone_iff_eq_none.mp hid.1] at howned
      cases howned

theorem agrees_updateStatus (h : Alike w m) (hcall : (m.journal.calls.get callId).isSome)
    (hopen : Unsettled status → m.journal.results.get callId = none) :
    journals.Agrees (fun _ _ _ m' => Framed m m' ∧ m'.journal.results = m.journal.results) E
      (perform (.updateStatus callId status)) (perform (.updateStatus callId status)) w m := by
  obtain ⟨call, hget⟩ := Option.isSome_iff_exists.mp hcall
  have hmemory : m.journal.updateStatus callId status = .ok { m.journal with
      calls := m.journal.calls.set callId { call with status := status } } := by
    unfold InMemoryToolJournal.updateStatus
    rw [hget]
  refine Lockstep.agrees_perform fun t _ => ?_
  have hsql : w.journal.updateStatus callId status t.now =
      .ok (w.journal.modify callId (Journal.withStatus status t.now)) := by
    apply if_pos
    rw [h.has_call]
    exact hcall
  simp only [journals, handle, handleInMemory, hsql, hmemory]
  refine ⟨h.modify hget (fun _ => rfl) (fun row hrow => ?_) hopen, (), rfl, ?_, rfl⟩
  · exact congrArg (fun c : ToolCall => { c with status := status }) hrow
  · intro j hj
    rw [Dict.get_set]
    split
    · rfl
    · exact hj

theorem agrees_prepareRetry (h : Alike w m) (hget : m.journal.calls.get callId = some call)
    (hfailed : call.status = .FAILED) (hnone : m.journal.results.get callId = none) :
    journals.Agrees (fun _ _ _ m' => m'.journal.Open callId) E
      (perform (.prepareRetry callId)) (perform (.prepareRetry callId)) w m := by
  have hmemory : m.journal.prepareRetry callId = .ok { m.journal with
      calls := m.journal.calls.set callId (Journal.reopened call) } := by
    unfold InMemoryToolJournal.prepareRetry
    rw [hget]
    simp [hfailed, hnone]
  obtain ⟨row, hrow, hid, hsame⟩ := h.row_of_call hget
  have hrowfailed : row.status = .FAILED := (of_untimed ToolCall.status hsame).trans hfailed
  obtain ⟨found, hfound⟩ : ∃ found, w.journal.calls.find?
      (fun row => row.toolCallId = callId ∧ row.status = .FAILED) = some found := by
    cases hfind : w.journal.calls.find?
        fun row => row.toolCallId = callId ∧ row.status = .FAILED with
    | none => simpa [hid, hrowfailed] using List.find?_eq_none.mp hfind row hrow
    | some found => exact ⟨found, rfl⟩
  have hsql : w.journal.prepareRetry callId =
      .ok (found, w.journal.modify callId Journal.reopened) := by
    unfold Journal.prepareRetry
    rw [h.resultOf_eq, hnone, hfound]
    rfl
  refine Lockstep.agrees_perform fun t _ => ?_
  simp only [journals, handle, handleInMemory, hsql, hmemory]
  have hreopened : ∀ row, untimed row = untimed call →
      untimed (Journal.reopened row) = untimed (Journal.reopened call) := by
    intro row hrow
    unfold untimed at hrow
    unfold Journal.reopened untimed
    injection hrow
    simp [*]
  have hmodified := h.modify (f := Journal.reopened) hget (fun _ => rfl) hreopened fun _ => hnone
  refine ⟨{ hmodified with executions := h.executions }, (), rfl, ?_, hnone⟩
  rw [Dict.get_set, if_pos rfl]
  rfl

theorem agrees_recordResult (h : Alike w m) (hstorable : m.journal.Storable result) :
    journals.Agrees (fun _ _ _ m' => Framed m m') E
      (perform (.recordResult result)) (perform (.recordResult result)) w m := by
  obtain ⟨⟨hcall, hnone⟩, hfresh⟩ := hstorable
  obtain ⟨call, hget⟩ := Option.isSome_iff_exists.mp hcall
  have hmemory : m.journal.recordResult result = (.ok (), { m.journal with
      calls := m.journal.calls.set result.toolCallId
        { call with status := if result.success then .SUCCEEDED else .FAILED }
      results := m.journal.results.set result.toolCallId result }) := by
    unfold InMemoryToolJournal.recordResult InMemoryToolJournal.updateStatus
    simp only [hget]
  refine Lockstep.agrees_perform fun t _ => ?_
  have hsql : w.journal.recordResult result t.now =
      .ok ({ w.journal with results := result :: w.journal.results }.modify result.toolCallId
        fun row => { row with
          status := if result.success then .SUCCEEDED else .FAILED, finishedAt := some t.now }) := by
    refine if_neg ?_
    rintro (hany | hmissing)
    · obtain ⟨stored, hstored, hclash⟩ := List.any_eq_true.mp hany
      have hget := (h.results stored.toolCallId stored).mpr ⟨hstored, rfl⟩
      rcases of_decide_eq_true hclash with hid | hid
      · exact hfresh stored (Dict.get_mem_values hget) hid
      · rw [hid, hnone] at hget
        cases hget
    · rw [h.has_call] at hmissing
      exact hmissing hcall
  simp only [journals, handle, handleInMemory, hsql, hmemory]
  have hsettled : ¬ Unsettled (if result.success then ToolCallStatus.SUCCEEDED else .FAILED) := by
    split <;> decide
  have hsame : ∀ row, untimed row = untimed call →
      untimed { row with
        status := if result.success then .SUCCEEDED else .FAILED, finishedAt := some t.now } =
        untimed { call with status := if result.success then .SUCCEEDED else .FAILED } :=
    fun row hrow => congrArg (fun c : ToolCall => { c with
      status := if result.success then .SUCCEEDED else .FAILED }) hrow
  have hidentity (row : ToolCall) : Identity.of { row with
      status := if result.success then .SUCCEEDED else .FAILED, finishedAt := some t.now } =
      .of row := rfl
  have hmodified := h.modify hget hidentity hsame fun _ => hnone
  have hset : (m.journal.calls.set result.toolCallId
      { call with status := if result.success then .SUCCEEDED else .FAILED }).get
        result.toolCallId =
      some { call with status := if result.success then .SUCCEEDED else .FAILED } := by
    rw [Dict.get_set, if_pos rfl]
  refine ⟨hmodified.store hset hsettled hnone, (), rfl, ?_⟩
  intro j hj
  rw [Dict.get_set]
  split
  · rfl
  · exact hj

theorem agrees_runTool (h : Alike w m) (toolName : String) (arguments : Json)
    (hsame : untimed row = untimed call) (hE : ∀ w' m', m'.journal = m.journal → E w' m') :
    journals.Agrees (fun a a' _ m' => a = a' ∧ m'.journal = m.journal) E
      (perform (.runTool toolName arguments row)) (perform (.runTool toolName arguments call))
      w m := by
  refine Lockstep.agrees_perform fun t _ => ⟨h.ran toolName arguments hsame, ?_⟩
  exact Lockstep.agrees_done (fun a _ => ⟨rfl, rfl⟩) fun e _ => hE _ _ rfl

theorem agrees_reconcileTool (h : Alike w m) (hE : ∀ w m, E w m) :
    journals.Agrees (fun a a' w' m' => a = a' ∧ w = w' ∧ m = m' ∧ ∀ result, a = some result →
        m.journal.Storable result) E
      (perform (.reconcileTool row)) (perform (.reconcileTool call)) w m := by
  refine Lockstep.agrees_perform fun t ht => ⟨h, ?_⟩
  refine Lockstep.agrees_done (fun a ha => ⟨rfl, rfl, rfl, ?_⟩) fun e _ => hE _ _
  rintro result rfl
  exact ht result ha

/-! ## The uncertain calls of a run -/

theorem mem_uncertainCalls {runId : String} (h : Alike w m) :
    call ∈ m.journal.uncertainCalls runId ↔ m.journal.calls.get call.toolCallId = some call ∧
      call.runId = runId ∧ Unsettled call.status := by
  unfold InMemoryToolJournal.uncertainCalls Dict.values
  rw [List.mem_filter, List.mem_map, decide_eq_true_iff]
  constructor
  · rintro ⟨⟨⟨callId, c⟩, hentry, rfl⟩, hcond⟩
    have hget := Dict.get_eq_some.mpr hentry
    rw [h.id_of_call hget]
    exact ⟨hget, hcond⟩
  · rintro ⟨hget, hcond⟩
    exact ⟨⟨_, Dict.get_eq_some.mp hget, rfl⟩, hcond⟩

/-- The calls come under the ids that are their keys. -/
theorem Alike.keyed (h : Alike w m) :
    m.journal.calls.values.map ToolCall.toolCallId = m.journal.calls.keys := by
  unfold Dict.values Dict.keys
  rw [List.map_map]
  apply List.map_congr_left
  rintro ⟨callId, c⟩ hentry
  exact h.id_of_call (Dict.get_eq_some.mpr hentry)

theorem uncertainCalls_nodup {runId : String} (h : Alike w m) :
    ((m.journal.uncertainCalls runId).map ToolCall.toolCallId).Nodup := by
  apply List.Nodup.sublist (List.filter_sublist.map _)
  rw [h.keyed]
  exact m.journal.calls.nodup_keys

theorem Alike.uncertain (h : Alike w m) {runId : String} {order : List String}
    (horder : order = (m.journal.uncertainCalls runId).map ToolCall.toolCallId) :
    List.Forall₂ (fun row call => untimed row = untimed call)
      (w.journal.uncertainCalls runId order) (m.journal.uncertainCalls runId) := by
  set rows := w.journal.calls.filter fun row => row.runId = runId ∧
    (row.status = .INTENT_RECORDED ∨ row.status = .RUNNING ∨ row.status = .UNCERTAIN) with hrows
  have hsame {row call : ToolCall} (huntimed : untimed row = untimed call) :
      row.runId = call.runId ∧ row.status = call.status :=
    ⟨of_untimed ToolCall.runId huntimed, of_untimed ToolCall.status huntimed⟩
  have hnodup : (rows.map ToolCall.toolCallId).Nodup :=
    h.ids.sublist (List.filter_sublist.map _)
  have hfind {call : ToolCall} (hcall : call ∈ m.journal.uncertainCalls runId) :
      ∃ row, rows.find? (fun row => row.toolCallId = call.toolCallId) = some row ∧
        untimed row = untimed call := by
    obtain ⟨hget, hrun, hstatus⟩ := (mem_uncertainCalls h).mp hcall
    obtain ⟨row, hrow, hid, huntimed⟩ := h.row_of_call hget
    refine ⟨row, ?_, huntimed⟩
    have hmem : row ∈ rows := by
      rw [hrows, List.mem_filter, decide_eq_true_iff, (hsame huntimed).1, (hsame huntimed).2]
      exact ⟨hrow, hrun, hstatus⟩
    exact (@Journal.callOf_eq_some ⟨rows, []⟩ _ _ hnodup).mpr ⟨hmem, hid⟩
  have hperm : order.Perm (rows.map ToolCall.toolCallId) := by
    rw [horder]
    refine (List.perm_ext_iff_of_nodup (uncertainCalls_nodup h) hnodup).mpr fun callId => ?_
    rw [List.mem_map, List.mem_map]
    constructor
    · rintro ⟨call, hcall, rfl⟩
      obtain ⟨row, hrow, huntimed⟩ := hfind hcall
      exact ⟨row, List.mem_of_find?_eq_some hrow, untimed_id huntimed⟩
    · rintro ⟨row, hrow, rfl⟩
      rw [hrows, List.mem_filter, decide_eq_true_iff] at hrow
      obtain ⟨call, hget, huntimed⟩ := h.call_of_row hrow.1
      rw [(hsame huntimed).1, (hsame huntimed).2] at hrow
      have hid := untimed_id huntimed
      rw [hid] at hget
      exact ⟨call, (mem_uncertainCalls h).mpr ⟨hget, hrow.2⟩, hid.symm⟩
  have hlisted : w.journal.uncertainCalls runId order =
      order.filterMap fun callId => rows.find? fun row => row.toolCallId = callId :=
    if_pos (List.isPerm_iff.mpr hperm)
  rw [hlisted, horder, List.filterMap_map]
  clear hperm hlisted horder
  generalize m.journal.uncertainCalls runId = calls at hfind
  induction calls with
  | nil => exact .nil
  | cons call calls ih =>
    obtain ⟨row, hrow, huntimed⟩ := hfind List.mem_cons_self
    rw [List.filterMap_cons_some (by exact hrow)]
    exact .cons huntimed (ih fun hcall => hfind (List.mem_cons_of_mem _ hcall))

theorem agrees_uncertainCalls (h : Alike w m) (runId : String) :
    journals.Agrees (fun rows calls w' m' => w = w' ∧ m = m' ∧
        List.Forall₂ (fun row call => untimed row = untimed call) rows calls ∧
        ∀ call ∈ calls, (m.journal.calls.get call.toolCallId).isSome) E
      (perform (.uncertainCalls runId)) (perform (.uncertainCalls runId)) w m := by
  refine Lockstep.agrees_perform fun t _ => ⟨h, _, rfl, rfl, rfl, h.uncertain rfl,
    fun call hcall => ?_⟩
  exact Option.isSome_iff_exists.mpr ⟨call, ((mem_uncertainCalls h).mp hcall).1⟩

end DurableAgent.Tools
