import DurableAgent.Tools.Safety
import DurableAgent.Library.Licence

/-!
# At most one run per grant

Any number of `execute` and `reconcile_uncertain` calls, interleaved call by call; journal calls
may fail, and a caller may stop for good at any point. Every run of a tool body follows the
intent of its key, and there are never more runs for a key than its intent and its reopenings
account for. A stored result stays, and answers every later call for its key.
-/

namespace DurableAgent.Tools

open Library
open Library.Prog hiding call

variable {E : ToolExecutor} {w w' : World} {log : List Entry} {i : Identity} {key : String}

/-! ## Every run is licensed -/

section Counting

variable (p : ToolCall → Bool)

def Entry.isIntent : Entry → Bool
  | .intent call => p call
  | _ => false

def Entry.isRetry : Entry → Bool
  | .retry found _ => p found
  | _ => false

def Entry.isRun : Entry → Bool
  | .ran _ _ call => p call
  | _ => false

def intents (log : List Entry) : Nat := log.countP (Entry.isIntent p)

def retries (log : List Entry) : Nat := log.countP (Entry.isRetry p)

def runs (log : List Entry) : Nat := log.countP (Entry.isRun p)

theorem countP_cons_toNat {α : Type} (q : α → Bool) (a : α) (l : List α) :
    (a :: l).countP q = l.countP q + (q a).toNat := by
  cases hq : q a with
  | false => simp [hq]
  | true => simp [hq]

theorem intents_cons (entry : Entry) (log : List Entry) :
    intents p (entry :: log) = intents p log + (entry.isIntent p).toNat :=
  countP_cons_toNat _ _ _

theorem retries_cons (entry : Entry) (log : List Entry) :
    retries p (entry :: log) = retries p log + (entry.isRetry p).toNat :=
  countP_cons_toNat _ _ _

theorem runs_cons (entry : Entry) (log : List Entry) :
    runs p (entry :: log) = runs p log + (entry.isRun p).toNat :=
  countP_cons_toNat _ _ _

end Counting

/-- Recorded intents and reopened calls license a run of the call. -/
def licensing (callId : String) : Licensing JournalOp Exn where
  grants
    | _, .recordIntent call, .ok _ => call.toolCallId = callId
    | _, .prepareRetry id, .ok _ => id = callId
    | _, _, _ => false
  uses
    | _, .runTool _ _ call, _ => call.toolCallId = callId
    | _, _, _ => false

variable {callId : String}

def HasId (callId : String) (call : ToolCall) : Bool := call.toolCallId = callId

def HasKey (key : String) (call : ToolCall) : Bool := call.idempotencyKey = key

theorem handle_counts {β : Type} {op : JournalOp β} {x : Except Exn β}
    (hop : handle.exec β op w x w') :
    intents (HasId callId) w.log + retries (HasId callId) w.log +
        ((licensing callId).grants β op x).toNat ≤
      intents (HasId callId) w'.log + retries (HasId callId) w'.log ∧
    runs (HasId callId) w'.log ≤
      runs (HasId callId) w.log + ((licensing callId).uses β op x).toNat := by
  obtain ⟨t, hop⟩ := hop
  cases op with
  | now | newId | getByIdempotencyKey | uncertainCalls | reconcileTool =>
    obtain ⟨-, rfl⟩ := Prod.mk.inj hop
    exact ⟨le_rfl, le_rfl⟩
  | recordIntent call =>
    simp only [handle] at hop
    split at hop
    · obtain ⟨rfl, rfl⟩ := Prod.mk.inj hop
      rw [intents_cons, retries_cons, runs_cons]
      change _ + _ + (HasId callId call).toNat ≤ _ + (HasId callId call).toNat + (_ + 0) ∧
        _ + 0 ≤ _ + 0
      omega
    · obtain ⟨rfl, rfl⟩ := Prod.mk.inj hop
      exact ⟨le_rfl, le_rfl⟩
  | updateStatus callId status =>
    simp only [handle] at hop
    split at hop
    · obtain ⟨-, rfl⟩ := Prod.mk.inj hop
      exact ⟨le_rfl, le_rfl⟩
    · obtain ⟨-, rfl⟩ := Prod.mk.inj hop
      exact ⟨le_rfl, le_rfl⟩
  | prepareRetry id =>
    simp only [handle] at hop
    split at hop
    · next found journal hok =>
      obtain ⟨rfl, rfl⟩ := Prod.mk.inj hop
      obtain rfl : found.toolCallId = id := (Journal.prepareRetry_eq_ok hok).2.2.1
      rw [intents_cons, retries_cons, runs_cons]
      change _ + _ + (HasId callId found).toNat ≤ _ + 0 + (_ + (HasId callId found).toNat) ∧
        _ + 0 ≤ _ + 0
      omega
    · obtain ⟨rfl, rfl⟩ := Prod.mk.inj hop
      exact ⟨le_rfl, le_rfl⟩
  | recordResult result =>
    simp only [handle] at hop
    split at hop
    · obtain ⟨-, rfl⟩ := Prod.mk.inj hop
      exact ⟨le_rfl, le_rfl⟩
    · obtain ⟨-, rfl⟩ := Prod.mk.inj hop
      exact ⟨le_rfl, le_rfl⟩
  | runTool toolName arguments call =>
    obtain ⟨-, rfl⟩ := Prod.mk.inj hop
    rw [intents_cons, retries_cons, runs_cons]
    exact ⟨le_rfl, le_rfl⟩

theorem Inert.neutral {β : Type} {op : JournalOp β} (h : Inert β op) :
    (licensing callId).Neutral β op := by
  cases op with
  | recordIntent | prepareRetry | runTool => exact h.elim
  | _ => exact fun _ => ⟨rfl, rfl⟩

theorem runCall_licensed {definition : ToolDefinition} {toolName : String} {arguments : Json}
    {call : ToolCall} : (licensing callId).Licensed (call.toolCallId = callId)
      (E.runCall definition toolName arguments call) := by
  unfold ToolExecutor.runCall
  refine Licensing.Licensed.bind (calls_perform.mpr (Inert.neutral trivial)) fun _ => ?_
  refine Licensing.Licensed.bind (calls_perform.mpr (Inert.neutral trivial)) fun started => ?_
  refine Licensing.Licensed.seq (Licensing.Licensed.tryCatch ?_ fun exc => ?_) fun output => ?_
  · unfold ToolExecutor.runBody
    refine Licensing.Licensed.perform (fun _ huse => huse) fun rawOutput => ?_
    exact Licensing.Licensed.of_neutral (Calls.bind (p := Prog.done _) trivial fun _ => trivial)
  · refine Licensing.Licensed.of_neutral (Calls.bind (calls_perform.mpr ?_) fun _ => trivial)
    exact Inert.neutral trivial
  · refine Licensing.Licensed.of_neutral ?_
    refine Calls.bind (calls_perform.mpr (Inert.neutral trivial)) fun toolResultId => ?_
    refine Calls.bind (calls_perform.mpr (Inert.neutral trivial)) fun finished => ?_
    refine Calls.bind (calls_perform.mpr (Inert.neutral trivial)) fun createdAt => ?_
    exact Calls.bind (calls_perform.mpr (Inert.neutral trivial)) fun _ => trivial

theorem after_recordIntent (call : ToolCall) (u : Unit) :
    (licensing callId).after false (.recordIntent call) (.ok u) =
      decide (call.toolCallId = callId) := by
  simp [Licensing.after, licensing]

theorem after_prepareRetry (id : String) (u : Unit) :
    (licensing callId).after false (.prepareRetry id) (.ok u) = decide (id = callId) := by
  simp [Licensing.after, licensing]

theorem execute_licensed (runId taskId toolName : String) (arguments : Json) :
    (licensing callId).Licensed false (E.execute runId taskId toolName arguments key) := by
  unfold ToolExecutor.execute
  refine Licensing.Licensed.bind (p := Prog.done _) trivial fun definition => ?_
  refine Licensing.Licensed.bind (p := Prog.done _) trivial fun _ => ?_
  refine Licensing.Licensed.bind (calls_perform.mpr (Inert.neutral trivial)) fun found => ?_
  cases found with
  | none =>
    change (licensing callId).Licensed false (E.runNew _ _ _ _ _ _)
    unfold ToolExecutor.runNew
    refine Licensing.Licensed.bind (calls_perform.mpr (Inert.neutral trivial)) fun _ => ?_
    refine Licensing.Licensed.bind (calls_perform.mpr (Inert.neutral trivial)) fun _ => ?_
    refine Licensing.Licensed.perform (fun _ huse => huse) fun _ => ?_
    rw [after_recordIntent]
    exact runCall_licensed
  | some entry =>
    change (licensing callId).Licensed false (E.runExisting _ _ _ entry.1 entry.2)
    unfold ToolExecutor.runExisting
    split
    · trivial
    · cases entry.2 with
      | some result => trivial
      | none =>
        dsimp only
        split
        · refine Licensing.Licensed.perform (fun _ huse => huse) fun _ => ?_
          rw [after_prepareRetry]
          exact runCall_licensed
        · trivial

theorem program_licensed (request : ToolRequest) :
    (licensing callId).Licensed false (request.program E) := by
  cases request with
  | execute runId taskId toolName arguments key =>
    exact Licensing.Licensed.seq (execute_licensed runId taskId toolName arguments)
      fun _ => trivial
  | reconcileUncertain runId =>
    refine Licensing.Licensed.of_neutral ?_
    exact Calls.bind ((reconcileUncertain_calls runId).mono fun _ _ => Inert.neutral)
      fun _ => trivial

/-! ## Interleavings -/

variable {ι : Type}

/-- Any requests at once, before their first step, over an empty journal. -/
def requestPool (E : ToolExecutor) (requests : ι → ToolRequest) : Pool JournalOp Exn World ι :=
  ⟨fun thread => (requests thread).program E, ⟨⟨[], []⟩, []⟩⟩

theorem requestPool_safe (requests : ι → ToolRequest) :
    (discipline E).PoolSafe faulty (requestPool E requests) := by
  refine ⟨⟨List.nodup_nil, List.nodup_nil, List.nodup_nil, rfl, trivial⟩, fun thread => ?_⟩
  exact (program_safe (requests thread)).mono fun _ _ _ _ _ => trivial

variable [DecidableEq ι]

/-- There are never more runs for a call than intents and reopenings of it. -/
theorem runs_le_granted {requests : ι → ToolRequest} {P : Pool JournalOp Exn World ι}
    (hrun : PoolRuns faulty (requestPool E requests) P) (callId : String) :
    runs (HasId callId) P.shared.log ≤
      intents (HasId callId) P.shared.log + retries (HasId callId) P.shared.log := by
  refine @Licensing.used_le_granted _ _ _ _ (licensing callId) _ faulty
    (fun w => intents (HasId callId) w.log + retries (HasId callId) w.log)
    (fun w => runs (HasId callId) w.log) ?_ _ _ (fun thread => program_licensed (requests thread))
    le_rfl hrun
  intro β op s x s' hop
  rcases hop with hop | ⟨e, rfl, rfl⟩
  · exact handle_counts hop
  · refine ⟨?_, Nat.le_add_right _ _⟩
    cases op <;> exact le_rfl

/-! ## What the log then shows -/

theorem LogOk.ran (h : LogOk E log) {toolName : String} {arguments : Json} {call : ToolCall}
    (hran : .ran toolName arguments call ∈ log) : .of call ∈ recorded log ∧
      call.toolName = toolName ∧ call.argumentsHash = E.argumentsHash arguments := by
  obtain ⟨later, earlier, rfl⟩ := List.append_of_mem hran
  obtain ⟨hcall, hname, hhash⟩ := h.entry rfl
  refine ⟨recorded_mono ?_ hcall, hname, hhash⟩
  exact (List.suffix_cons _ earlier).trans (List.suffix_append later _)

theorem LogOk.retry (h : LogOk E log) {found : ToolCall} {result : Option ToolResult}
    (hretry : .retry found result ∈ log) : .of found ∈ recorded log ∧
      RetrySafe E found.toolName ∧ found.status = .FAILED ∧ result = none := by
  obtain ⟨later, earlier, rfl⟩ := List.append_of_mem hretry
  obtain ⟨hfound, hrest⟩ := h.entry rfl
  refine ⟨recorded_mono ?_ hfound, hrest⟩
  exact (List.suffix_cons _ earlier).trans (List.suffix_append later _)

/-- A call has one intent. -/
theorem intents_le_one (h : Consistent E w) (callId : String) :
    intents (HasId callId) w.log ≤ 1 := by
  have hids := h.ids
  rw [h.intents] at hids
  have hcount : intents (HasId callId) w.log =
      ((recorded w.log).map Identity.toolCallId).count callId := by
    rw [intents, recorded, List.count, List.countP_map, List.countP_filterMap]
    apply List.countP_congr
    intro entry _
    cases entry with
    | intent call => simp [Entry.isIntent, HasId, Entry.recorded, Identity.of]
    | retry found result => simp [Entry.isIntent, Entry.recorded]
    | ran toolName arguments call => simp [Entry.isIntent, Entry.recorded]
  rw [hcount]
  exact List.nodup_iff_count_le_one.mp hids callId

/-- The runs for a key are at most one more than its reopenings. -/
theorem runs_le (h : Consistent E w)
    (hgranted : ∀ callId, runs (HasId callId) w.log ≤
      intents (HasId callId) w.log + retries (HasId callId) w.log) :
    runs (HasKey key) w.log ≤ 1 + retries (HasKey key) w.log := by
  by_cases hnone : ∀ entry ∈ w.log, ∀ toolName arguments call,
      entry = .ran toolName arguments call → call.idempotencyKey ≠ key
  · have hzero : runs (HasKey key) w.log = 0 := by
      rw [runs, List.countP_eq_zero]
      intro entry hentry
      cases entry with
      | ran toolName arguments call => simpa [Entry.isRun, HasKey] using hnone _ hentry _ _ call rfl
      | intent call => simp [Entry.isRun]
      | retry found result => simp [Entry.isRun]
    omega
  · push Not at hnone
    obtain ⟨_, hran, toolName, arguments, call, rfl, hkey⟩ := hnone
    have hcall := (h.log.ran hran).1
    have hsame {other : ToolCall} (hother : .of other ∈ recorded w.log) :
        other.idempotencyKey = key ↔ other.toolCallId = call.toolCallId := by
      constructor
      · intro hk
        exact congrArg Identity.toolCallId (h.key_inj hother hcall (hk.trans hkey.symm))
      · intro hid
        exact (congrArg Identity.idempotencyKey (h.id_inj hother hcall hid)).trans hkey
    have hruns : runs (HasKey key) w.log = runs (HasId call.toolCallId) w.log := by
      apply List.countP_congr
      intro entry hentry
      cases entry with
      | ran toolName arguments other => simp [Entry.isRun, HasKey, HasId, hsame (h.log.ran hentry).1]
      | intent call => simp [Entry.isRun]
      | retry found result => simp [Entry.isRun]
    have hretries : retries (HasKey key) w.log = retries (HasId call.toolCallId) w.log := by
      apply List.countP_congr
      intro entry hentry
      cases entry with
      | retry found result => simp [Entry.isRetry, HasKey, HasId, hsame (h.log.retry hentry).1]
      | intent call => simp [Entry.isRetry]
      | ran toolName arguments call => simp [Entry.isRetry]
    have hbound := hgranted call.toolCallId
    have hone := intents_le_one h call.toolCallId
    omega

/-- The guarantees for the runs of one key. -/
structure AtMostOnce (E : ToolExecutor) (key : String) (log : List Entry) : Prop where
  /-- A run follows an intent with its tool name and the digest of its arguments. -/
  intent_first : ∀ later toolName arguments call earlier,
    log = later ++ .ran toolName arguments call :: earlier → call.idempotencyKey = key →
    ∃ intent, .intent intent ∈ earlier ∧ intent.idempotencyKey = key ∧
      intent.toolName = toolName ∧ intent.argumentsHash = E.argumentsHash arguments
  /-- A tool that is not retry-safe, or non-idempotent, runs at most once. -/
  ran_once : ∀ toolName definition arguments call, .ran toolName arguments call ∈ log →
    call.idempotencyKey = key → E.registry.get toolName = .ok definition →
    definition.retrySafe = false ∨ definition.sideEffectClass = .NON_IDEMPOTENT →
    runs (HasKey key) log ≤ 1
  runs_le : runs (HasKey key) log ≤ 1 + retries (HasKey key) log
  /-- A call is reopened only if it is found failed and without a result. -/
  retried : ∀ found result, .retry found result ∈ log → found.idempotencyKey = key →
    found.status = .FAILED ∧ result = none

theorem atMostOnce_of_consistent (h : Consistent E w)
    (hgranted : ∀ callId, runs (HasId callId) w.log ≤
      intents (HasId callId) w.log + retries (HasId callId) w.log) :
    AtMostOnce E key w.log where
  intent_first later toolName arguments call earlier hsplit hkey := by
    obtain ⟨hcall, hname, hhash⟩ := h.log.entry hsplit
    obtain ⟨intent, hintent, hsame⟩ := mem_recorded.mp hcall
    refine ⟨intent, hintent, ?_, ?_, ?_⟩
    · exact (congrArg Identity.idempotencyKey hsame).trans hkey
    · exact (congrArg Identity.toolName hsame).trans hname
    · exact (congrArg Identity.argumentsHash hsame).trans hhash
  ran_once toolName definition arguments call hran hkey hget hunsafe := by
    obtain ⟨hcall, hname, -⟩ := h.log.ran hran
    have hunsafe : definition.retrySafe = false := by
      rcases hunsafe with hunsafe | hclass
      · exact hunsafe
      · by_contra hsafe
        exact definition.non_idempotent_not_retry_safe ⟨hclass, by simpa using hsafe⟩
    have hnone : retries (HasKey key) w.log = 0 := by
      rw [retries, List.countP_eq_zero]
      intro entry hentry
      cases entry with
      | intent call => simp [Entry.isRetry]
      | ran toolName arguments call => simp [Entry.isRetry]
      | retry found result =>
        obtain ⟨hfound, ⟨definition', hget', hsafe⟩, -⟩ := h.log.retry hentry
        simp only [Entry.isRetry, HasKey, decide_eq_true_eq]
        intro hkey'
        have hsame := h.key_inj hfound hcall (hkey'.trans hkey.symm)
        have hname' : found.toolName = toolName :=
          (congrArg Identity.toolName hsame).trans hname
        rw [hname', hget] at hget'
        rw [← Except.ok.inj hget', hunsafe] at hsafe
        cases hsafe
    have hbound : runs (HasKey key) w.log ≤ 1 + retries (HasKey key) w.log := runs_le h hgranted
    omega
  runs_le := runs_le h hgranted
  retried found result hretry _ := (h.log.retry hretry).2.2

/-! ## Stored results -/

/-- The key is in the journal, with this call and this result. -/
def Stored (w : World) (key : String) (call : ToolCall) (result : ToolResult) : Prop :=
  w.journal.getByIdempotencyKey key = some (call, some result)

/-- A program that raises at once, or with the answer to its next call, which changes nothing. -/
def Refused {α : Type} (p : Prog JournalOp Exn α) (w : World) : Prop :=
  (∃ e, p = .done (.error e)) ∨ ∃ e, EndsAt handle.exec p w (.error e)

/-- A recorded key is found. -/
theorem Consistent.find_key (h : Consistent E w) (hi : i ∈ recorded w.log) : ∃ row,
    w.journal.calls.find? (fun row => row.idempotencyKey = i.idempotencyKey) = some row ∧
      Identity.of row = i := by
  have hmem := hi
  rw [← h.intents] at hmem
  obtain ⟨row, hrow, rfl⟩ := List.mem_map.mp hmem
  obtain ⟨row', hfind⟩ : ∃ row', w.journal.calls.find?
      (fun r => r.idempotencyKey = (Identity.of row).idempotencyKey) = some row' := by
    rw [← Option.isSome_iff_exists, List.find?_isSome]
    exact ⟨row, hrow, decide_eq_true rfl⟩
  have hkey : row'.idempotencyKey = (Identity.of row).idempotencyKey := by
    simpa using List.find?_some hfind
  exact ⟨row', hfind, h.key_inj (h.mem_recorded (List.mem_of_find?_eq_some hfind)) hi hkey⟩

/-- A stored result is found. -/
theorem Consistent.find_result (h : Consistent E w) {result : ToolResult}
    (hmem : result ∈ w.journal.results) :
    w.journal.resultOf result.toolCallId = some result := by
  obtain ⟨result', hfind⟩ : ∃ result', w.journal.resultOf result.toolCallId = some result' := by
    rw [← Option.isSome_iff_exists, Journal.resultOf, List.find?_isSome]
    exact ⟨result, hmem, decide_eq_true rfl⟩
  have hid : result'.toolCallId = result.toolCallId := by simpa using List.find?_some hfind
  rw [hfind, List.inj_on_of_nodup_map h.results (List.mem_of_find?_eq_some hfind) hmem hid]

/-- A stored result stays stored under its key, for the same call. -/
theorem Stored.kept {call : ToolCall} {result : ToolResult} (hstored : Stored w key call result)
    (h : Consistent E w) (hev : (discipline E).evolves w w') (h' : Consistent E w') :
    ∃ call', Stored w' key call' result ∧ Identity.of call' = .of call := by
  obtain ⟨hcall, rfl, hresult⟩ := Journal.getByIdempotencyKey_eq_some hstored
  obtain ⟨call', hfind, hsame⟩ := h'.find_key (recorded_mono hev.1 (h.mem_recorded hcall))
  have hid : result.toolCallId = call'.toolCallId := by
    have hresultId : result.toolCallId = call.toolCallId := by
      simpa using List.find?_some hresult
    exact hresultId.trans (congrArg Identity.toolCallId hsame).symm
  have hkept := h'.find_result (hev.2 result (List.mem_of_find?_eq_some hresult))
  rw [hid] at hkept
  refine ⟨call', ?_, hsame⟩
  change (w'.journal.calls.find? _).map _ = _
  rw [show w'.journal.calls.find? (fun row => row.idempotencyKey = call.idempotencyKey) =
    some call' from hfind, Option.map_some, hkept]

/-- An execution that passes the checks begins with the look-up of its key. -/
theorem execute_eq {runId taskId toolName : String} {arguments : Json}
    {definition : ToolDefinition} (hget : E.registry.get toolName = .ok definition)
    (hauthorize : E.authorize definition toolName arguments = .ok ()) :
    E.execute runId taskId toolName arguments key = perform (.getByIdempotencyKey key) >>=
      E.runFound definition runId taskId toolName arguments key := by
  unfold ToolExecutor.execute
  rw [hget]
  change (Prog.done (E.authorize definition toolName arguments) >>= _) = _
  rw [hauthorize]
  rfl

/-- The same input is answered with the stored result. -/
theorem execute_answered {call : ToolCall} {result : ToolResult} {runId taskId : String}
    (hstored : Stored w key call result) (hcall : Admitted E (.of call)) :
    EndsAt handle.exec (E.execute runId taskId call.toolName call.arguments key) w
      (.ok result) := by
  obtain ⟨hhash, definition, hget, hauthorize⟩ := hcall
  refine ⟨_, _, _, execute_eq hget hauthorize, ?_⟩
  rintro x w' ⟨t, hop⟩
  obtain ⟨rfl, rfl⟩ := Prod.mk.inj hop
  refine ⟨rfl, ?_⟩
  rw [show w.journal.getByIdempotencyKey key = some (call, some result) from hstored]
  change E.runExisting definition call.toolName call.arguments call (some result) = _
  have hsame : ¬ (call.toolName ≠ call.toolName ∨
      call.argumentsHash ≠ E.argumentsHash call.arguments) :=
    not_or.mpr ⟨not_not.mpr rfl, not_not.mpr hhash⟩
  unfold ToolExecutor.runExisting
  rw [if_neg hsame]
  rfl

/-- Other input is refused. -/
theorem execute_refused {call : ToolCall} {result : ToolResult} {runId taskId toolName : String}
    {arguments : Json} (hstored : Stored w key call result)
    (hother : toolName ≠ call.toolName ∨ E.argumentsHash arguments ≠ call.argumentsHash) :
    Refused (E.execute runId taskId toolName arguments key) w := by
  cases hget : E.registry.get toolName with
  | error e =>
    refine .inl ⟨e, ?_⟩
    unfold ToolExecutor.execute
    rw [hget]
    rfl
  | ok definition =>
    cases hauthorize : E.authorize definition toolName arguments with
    | error e =>
      refine .inl ⟨e, ?_⟩
      unfold ToolExecutor.execute
      rw [hget]
      change (Prog.done (E.authorize definition toolName arguments) >>= _) = _
      rw [hauthorize]
      rfl
    | ok u =>
      refine .inr ⟨.of .securityPolicy "tool idempotency key was reused for different input",
        _, _, _, execute_eq hget hauthorize, ?_⟩
      rintro x w' ⟨t, hop⟩
      obtain ⟨rfl, rfl⟩ := Prod.mk.inj hop
      refine ⟨rfl, ?_⟩
      rw [show w.journal.getByIdempotencyKey key = some (call, some result) from hstored]
      change E.runExisting definition toolName arguments call (some result) = _
      unfold ToolExecutor.runExisting
      rw [if_pos (hother.imp Ne.symm Ne.symm)]
      rfl

/-- In every interleaving the runs of a key are accounted for; and once a result is stored for
it, that result stays, answers every later execution of the same input, and every execution of
other input is refused: where the digest of the arguments differs, and so, if digests do not
collide, where their canonical texts do. -/
theorem tool_atMostOnce (E : ToolExecutor) (requests : ι → ToolRequest)
    {P : Pool JournalOp Exn World ι} (hrun : PoolRuns faulty (requestPool E requests) P)
    (key : String) : AtMostOnce E key P.shared.log ∧
    ∀ call result, Stored P.shared key call result →
      ∀ P', PoolRuns faulty P P' → ∃ call', Stored P'.shared key call' result ∧
        ∀ runId taskId toolName arguments,
          (toolName = call.toolName → arguments = call.arguments →
            EndsAt handle.exec (E.execute runId taskId toolName arguments key) P'.shared
              (.ok result)) ∧
          (toolName ≠ call.toolName ∨ E.argumentsHash arguments ≠ E.argumentsHash call.arguments →
            Refused (E.execute runId taskId toolName arguments key) P'.shared) ∧
          (Function.Injective E.sha256Digest →
            canonicalJson arguments ≠ canonicalJson call.arguments →
            Refused (E.execute runId taskId toolName arguments key) P'.shared) := by
  have hsafe := ((requestPool_safe requests).runs hrun).2
  refine ⟨atMostOnce_of_consistent hsafe.1 (runs_le_granted hrun),
    fun call result hstored P' hrun' => ?_⟩
  obtain ⟨hev, hsafe'⟩ := hsafe.runs hrun'
  obtain ⟨call', hstored', hsame⟩ := hstored.kept hsafe.1 hev hsafe'.1
  have hname : call'.toolName = call.toolName := congrArg Identity.toolName hsame
  have harguments : call'.arguments = call.arguments := congrArg Identity.arguments hsame
  have hcall := (Journal.getByIdempotencyKey_eq_some hstored').1
  have hadmitted := hsafe'.1.log.admitted (hsafe'.1.mem_recorded hcall)
  have hhash : call'.argumentsHash = E.argumentsHash call'.arguments := hadmitted.1
  have hrefused {runId taskId toolName : String} {arguments : Json} (hother : toolName ≠
      call.toolName ∨ E.argumentsHash arguments ≠ E.argumentsHash call.arguments) :
      Refused (E.execute runId taskId toolName arguments key) P'.shared := by
    rw [← hname, ← harguments, ← hhash] at hother
    exact execute_refused hstored' hother
  refine ⟨call', hstored', fun runId taskId toolName arguments => ⟨?_, hrefused, fun hsha hne => ?_⟩⟩
  · rintro rfl rfl
    rw [← hname, ← harguments]
    exact execute_answered hstored' hadmitted
  · exact hrefused (.inr fun hhashes => hne (hsha hhashes))

theorem echo_retry_safe : ¬ (SideEffectClass.NONE = .NON_IDEMPOTENT ∧ true = true) := by
  decide

def echoDefinition : ToolDefinition :=
  { name := "echo", inputSchema := .obj [], outputSchema := .obj [], requiredPermissions := []
    sideEffectClass := .NONE, retrySafe := true, non_idempotent_not_retry_safe := echo_retry_safe }

/-- One tool without conditions, and the digest of a text taken as the text. -/
def echoExecutor : ToolExecutor :=
  { registry := { tools := [echoDefinition] }, policy := {}, checkSchema := fun _ => none
    validate := fun _ _ => none, redact := id, sha256Digest := id }

/-- The tool answers with no output. -/
def echoSupply : Supply :=
  { now := 0, freshId := "1", order := [], outcome := .ok [], reconciled := .ok none }

def echoPool : Pool JournalOp Exn World Unit :=
  requestPool echoExecutor fun _ => .execute "run" "task" "echo" (.obj []) "key"

/-- A run to its end: one run of the tool, and a stored result. -/
theorem tool_atMostOnce_echo : ∃ P call result, PoolRuns faulty echoPool P ∧
    runs (HasKey "key") P.shared.log = 1 ∧ Stored P.shared "key" call result ∧
    AtMostOnce echoExecutor "key" P.shared.log ∧
    EndsAt handle.exec (echoExecutor.execute "run" "other" call.toolName call.arguments "key")
      P.shared (.ok result) := by
  have hrun : PoolRuns faulty echoPool
      (echoPool.play handle (List.replicate 11 ((), echoSupply))) :=
    (Pool.play_runs handle _ _).mono fun _ _ _ _ _ => .inl
  have hran : runs (HasKey "key")
      (echoPool.play handle (List.replicate 11 ((), echoSupply))).shared.log = 1 := by
    decide
  obtain ⟨call, result, hstored⟩ : ∃ call result, Stored
      (echoPool.play handle (List.replicate 11 ((), echoSupply))).shared "key" call result :=
    ⟨_, _, rfl⟩
  obtain ⟨honce, hresult⟩ := tool_atMostOnce echoExecutor _ hrun "key"
  obtain ⟨-, -, hanswer⟩ := hresult call result hstored _ .refl
  exact ⟨_, call, result, hrun, hran, hstored, honce, (hanswer "run" "other" _ _).1 rfl rfl⟩

end DurableAgent.Tools
