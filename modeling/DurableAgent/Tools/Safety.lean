import DurableAgent.Tools.Log

/-!
# The executor keeps the log in order

Each call that `execute` and `reconcile_uncertain` issue is one that the executor then knows
enough for, however far the others have come meanwhile.
-/

namespace DurableAgent.Tools

open Library
open Library.Prog hiding call

/-- The calls of the world, each of which may also fail without effect. -/
abbrev faulty : Exec JournalOp Exn World := handle.exec.withFaults

variable {E : ToolExecutor} {w w' : World} {log : List Entry} {i : Identity} {key : String}

theorem faulty_keeps {β : Type} {op : JournalOp β} {x : Except Exn β} (h : Consistent E w)
    (hpre : Pre E β op w) (hop : faulty β op w x w') :
    (discipline E).evolves w w' ∧ Consistent E w' := by
  rcases hop with hop | ⟨e, -, rfl⟩
  · exact handle_keeps h hpre hop
  · exact ⟨(discipline E).refl w', h⟩

/-- A recorded identity stays recorded. -/
theorem stable_recorded (i : Identity) : (discipline E).Stable fun w => i ∈ recorded w.log :=
  fun _ _ hev _ hi => recorded_mono hev.1 hi

/-- The calls that need no more than that a given identity is recorded. -/
def Allowed (E : ToolExecutor) (i : Identity) (β : Type) (op : JournalOp β) : Prop :=
  ∀ w, i ∈ recorded w.log → Pre E β op w

theorem safe_of_allowed {α : Type} {p : Prog JournalOp Exn α} (hp : p.Calls (Allowed E i))
    (hi : i ∈ recorded w.log) :
    (discipline E).Safe faulty p (onOk fun _ _ => True) w :=
  Discipline.Safe.of_calls (stable_recorded i) hp hi
    fun _ _ _ _ _ hallowed hinv hi hop => faulty_keeps hinv (hallowed _ hi) hop

theorem runBody_calls {definition : ToolDefinition} {toolName : String} {arguments : Json}
    {call : ToolCall} (hname : call.toolName = toolName)
    (hhash : call.argumentsHash = E.argumentsHash arguments) :
    (E.runBody definition toolName arguments call).Calls (Allowed E (.of call)) := by
  unfold ToolExecutor.runBody
  refine Calls.bind (calls_perform.mpr fun w hi => ⟨hi, hname, hhash⟩) fun rawOutput => ?_
  exact Calls.bind (p := Prog.done _) trivial fun _ => trivial

theorem runCall_calls {definition : ToolDefinition} {toolName : String} {arguments : Json}
    {call : ToolCall} (hname : call.toolName = toolName)
    (hhash : call.argumentsHash = E.argumentsHash arguments) :
    (E.runCall definition toolName arguments call).Calls (Allowed E (.of call)) := by
  unfold ToolExecutor.runCall
  refine Calls.bind (calls_perform.mpr fun _ _ => trivial) fun _ => ?_
  refine Calls.bind (calls_perform.mpr fun _ _ => trivial) fun started => ?_
  refine Calls.bind (Calls.tryCatch (runBody_calls hname hhash) fun exc => ?_) fun output => ?_
  · exact Calls.bind (calls_perform.mpr fun _ _ => trivial) fun _ => trivial
  · refine Calls.bind (calls_perform.mpr fun _ _ => trivial) fun toolResultId => ?_
    refine Calls.bind (calls_perform.mpr fun _ _ => trivial) fun finished => ?_
    refine Calls.bind (calls_perform.mpr fun _ _ => trivial) fun createdAt => ?_
    exact Calls.bind (calls_perform.mpr fun _ _ => trivial) fun _ => trivial

theorem safe_perform {α : Type} {op : JournalOp α} {K : World → Prop} {Q : α → World → Prop}
    (hK : (discipline E).Stable K) (hs : K w) (hQ : ∀ a, (discipline E).Stable (Q a))
    (hpre : ∀ w, K w → Pre E α op w)
    (hpost : ∀ w a w', Consistent E w → handle.exec α op w (.ok a) w' → Q a w') :
    (discipline E).Safe faulty (perform op) (onOk Q) w := by
  refine Discipline.Safe.performWithFaults hK hs hQ fun s x s' hinv hKs hop => ?_
  obtain ⟨hev, hinv'⟩ := handle_keeps hinv (hpre s hKs) hop
  refine ⟨hev, hinv', ?_⟩
  cases x with
  | ok a => exact hpost s a s' hinv hop
  | error e => trivial

/-- A call that needs nothing, of whose answer nothing is kept. -/
theorem safe_ask {α : Type} {op : JournalOp α} (hpre : ∀ w, Pre E α op w) :
    (discipline E).Safe faulty (perform op) (onOk fun _ _ => True) w :=
  safe_perform (Discipline.stable_const True) trivial (fun _ => Discipline.stable_const True)
    (fun w _ => hpre w) fun _ _ _ _ _ => trivial

theorem recordIntent_recorded {call : ToolCall} {x : Except Exn Unit}
    (hop : handle.exec _ (.recordIntent call) w x w') (hx : x = .ok ()) :
    .of call ∈ recorded w'.log := by
  obtain ⟨t, hop⟩ := hop
  simp only [handle] at hop
  split at hop
  · obtain ⟨-, rfl⟩ := Prod.mk.inj hop
    exact List.mem_cons_self
  · obtain ⟨rfl, -⟩ := Prod.mk.inj hop
    cases hx

theorem runNew_safe {definition : ToolDefinition} {runId taskId toolName : String}
    {arguments : Json} (hget : E.registry.get toolName = .ok definition)
    (hauthorize : E.authorize definition toolName arguments = .ok ()) :
    (discipline E).Safe faulty (E.runNew definition runId taskId toolName arguments key)
      (onOk fun _ _ => True) w := by
  unfold ToolExecutor.runNew
  refine Discipline.Safe.bind (safe_ask fun _ => trivial) fun toolCallId w₁ _ _ _ => ?_
  refine Discipline.Safe.bind (safe_ask fun _ => trivial) fun createdAt w₂ _ _ _ => ?_
  refine Discipline.Safe.bind ?_ fun _ w₃ _ _ hi => safe_of_allowed (runCall_calls rfl rfl) hi
  exact safe_perform (Discipline.stable_const True) trivial (fun _ => stable_recorded _)
    (fun _ _ => ⟨rfl, definition, hget, hauthorize⟩)
    fun _ _ _ _ hop => recordIntent_recorded hop rfl

theorem runExisting_safe {definition : ToolDefinition} {toolName : String} {arguments : Json}
    {call : ToolCall} {result : Option ToolResult}
    (hget : E.registry.get toolName = .ok definition) (hcall : .of call ∈ recorded w.log) :
    (discipline E).Safe faulty (E.runExisting definition toolName arguments call result)
      (onOk fun _ _ => True) w := by
  refine safe_of_allowed ?_ hcall
  unfold ToolExecutor.runExisting
  split
  · trivial
  · next hsame =>
    have hname : call.toolName = toolName := by
      by_contra hne
      exact hsame (.inl hne)
    have hhash : call.argumentsHash = E.argumentsHash arguments := by
      by_contra hne
      exact hsame (.inr hne)
    cases result with
    | some result => trivial
    | none =>
      dsimp only
      split
      · next hretry =>
        refine Calls.bind (calls_perform.mpr fun w hi => ?_) fun _ => runCall_calls hname hhash
        exact ⟨_, hi, rfl, definition, by rw [← hget, ← hname]; rfl, hretry.2⟩
      · trivial

theorem execute_safe (runId taskId toolName : String) (arguments : Json) :
    (discipline E).Safe faulty (E.execute runId taskId toolName arguments key)
      (onOk fun _ _ => True) w := by
  unfold ToolExecutor.execute
  cases hget : E.registry.get toolName with
  | error e => exact fun _ _ _ => trivial
  | ok definition =>
    change (discipline E).Safe faulty (Prog.done (E.authorize definition toolName arguments) >>= _)
      _ w
    cases hauthorize : E.authorize definition toolName arguments with
    | error e => exact fun _ _ _ => trivial
    | ok u =>
      let Found (found : Option (ToolCall × Option ToolResult)) (w : World) : Prop :=
        ∀ call result, found = some (call, result) → Identity.of call ∈ recorded w.log
      refine @Discipline.Safe.bind _ _ _ _ _ _ _ (perform (JournalOp.getByIdempotencyKey key)) _
        Found _ _ ?_ fun found w₁ _ _ hfound => ?_
      · refine safe_perform (Discipline.stable_const True) trivial (fun found => ?_)
          (fun _ _ => trivial) fun w₁ found w₂ hinv hop call result hfound => ?_
        · exact fun _ _ hev _ h call result hfound => recorded_mono hev.1 (h call result hfound)
        · obtain ⟨t, hop⟩ := hop
          obtain ⟨hx, rfl⟩ := Prod.mk.inj hop
          rw [hfound] at hx
          exact hinv.mem_recorded (Journal.getByIdempotencyKey_eq_some (Except.ok.inj hx)).1
      · cases found with
        | none => exact runNew_safe hget hauthorize
        | some entry => exact runExisting_safe hget (hfound entry.1 entry.2 rfl)

/-- The calls that record no intent, reopen nothing and run no tool. -/
def Inert : (β : Type) → JournalOp β → Prop
  | _, .recordIntent _ => False
  | _, .prepareRetry _ => False
  | _, .runTool _ _ _ => False
  | _, _ => True

theorem Inert.pre {β : Type} {op : JournalOp β} (h : Inert β op) (w : World) : Pre E β op w := by
  cases op with
  | recordIntent | prepareRetry | runTool => exact h.elim
  | _ => trivial

/-- Reconciliation only moves statuses and stores results. -/
theorem reconcileUncertain_calls (runId : String) : (E.reconcileUncertain runId).Calls Inert := by
  unfold ToolExecutor.reconcileUncertain
  refine Calls.bind (calls_perform.mpr trivial) fun calls => ?_
  refine Calls.bind (Calls.mapM' (fun call => ?_) calls) fun reconciled => trivial
  unfold ToolExecutor.reconcileCall
  refine Calls.bind (p := Prog.done _) trivial fun definition => ?_
  refine Calls.bind (calls_perform.mpr trivial) fun result => ?_
  cases result with
  | some result => exact Calls.bind (calls_perform.mpr trivial) fun _ => trivial
  | none =>
    dsimp only
    split
    · exact Calls.bind (calls_perform.mpr trivial) fun _ => trivial
    · split
      · exact Calls.bind (calls_perform.mpr trivial) fun _ => trivial
      · exact Calls.bind (calls_perform.mpr trivial) fun _ => trivial

theorem reconcileUncertain_safe (runId : String) :
    (discipline E).Safe faulty (E.reconcileUncertain runId) (onOk fun _ _ => True) w :=
  Discipline.Safe.of_calls (Discipline.stable_const True) (reconcileUncertain_calls runId) trivial
    fun _ _ s _ _ hinert hinv _ hop => faulty_keeps hinv (hinert.pre s) hop

theorem program_safe (request : ToolRequest) :
    (discipline E).Safe faulty (request.program E) (onOk fun _ _ => True) w := by
  cases request with
  | execute runId taskId toolName arguments key =>
    exact Discipline.Safe.bind (execute_safe runId taskId toolName arguments)
      fun _ _ _ _ _ => Discipline.Safe.pure (Discipline.stable_const True) trivial
  | reconcileUncertain runId =>
    exact Discipline.Safe.bind (reconcileUncertain_safe runId)
      fun _ _ _ _ _ => Discipline.Safe.pure (Discipline.stable_const True) trivial

end DurableAgent.Tools
