import DurableAgent.Tools.AtMostOnce
import DurableAgent.Tools.Registered

/-!
# What is stored of calls and results

Intents are recorded as the registry has their tools. Results come into the journal on two ways:
the executor makes one of what a tool body returns, and the reconciliation of a tool makes one
itself. What holds of all results on either way holds of every result in the journal.
-/

namespace DurableAgent.Tools

open Library
open Library.Prog hiding call

variable {X : ToolExecutor} {R : ToolResult → Prop}

/-- The result is one that the executor makes of the output of a tool body. -/
structure Produced (X : ToolExecutor) (result : ToolResult) : Prop where
  output : ∃ raw, result.output = .obj (X.boundOutput (X.redact (.obj raw))).1
  hash : result.outputHash = X.sha256Digest (canonicalJson result.output)
  id : ∃ freshId : String, result.toolResultId = s!"toolresult-{freshId}"

/-- The call is to a tool of the registry, with the class of its effect. -/
def FromRegistry (X : ToolExecutor) (call : ToolCall) : Prop :=
  ∃ definition, X.registry.get call.toolName = .ok definition ∧
    call.sideEffectClass = definition.sideEffectClass

/-- Every call that is given to the journal is from the registry, and every result is of the
kind. -/
def Records (X : ToolExecutor) (R : ToolResult → Prop) : (β : Type) → JournalOp β → Prop
  | _, .recordIntent call => FromRegistry X call
  | _, .recordResult result => R result
  | _, _ => True

/-- Every reconciled result is of the kind, and generated identifiers name what they are for. -/
def Reconciles (R : ToolResult → Prop) : (β : Type) → JournalOp β → Except Exn β → Prop
  | _, .newId kind, .ok id => ∃ freshId : String, id = s!"{kind}-{freshId}"
  | _, .reconcileTool _, .ok (some result) => R result
  | _, _, _ => True

/-! ## What the executor gives to the journal -/

theorem issues_ask {β : Type} {op : JournalOp β} (hop : Records X R β op) :
    (perform op : Prog JournalOp Exn β).Issues (Reconciles R) (Records X R) fun _ => True :=
  issues_perform hop fun _ _ => trivial

theorem runBody_issues {definition : ToolDefinition} {toolName : String} {arguments : Json}
    {call : ToolCall} : (X.runBody definition toolName arguments call).Issues (Reconciles R)
      (Records X R) fun output => ∃ raw, output = X.boundOutput (X.redact (.obj raw)) := by
  unfold ToolExecutor.runBody
  refine Issues.bind (issues_ask trivial) fun raw _ => ?_
  refine Issues.bind (E := fun _ => True) (issues_ofExcept fun _ _ => trivial) fun _ _ => ?_
  exact ⟨raw, rfl⟩

theorem runCall_issues (hproduced : ∀ result, Produced X result → R result)
    {definition : ToolDefinition} {toolName : String} {arguments : Json} {call : ToolCall} :
    (X.runCall definition toolName arguments call).Issues (Reconciles R) (Records X R)
      fun _ => True := by
  unfold ToolExecutor.runCall
  refine Issues.bind (issues_ask trivial) fun _ _ => ?_
  refine Issues.bind (issues_ask trivial) fun started _ => ?_
  refine Issues.bind (Issues.tryCatch runBody_issues fun exc => ?_) ?_
  · exact Issues.bind (issues_ask trivial) fun _ _ => trivial
  · rintro ⟨output, truncated⟩ ⟨raw, hraw⟩
    refine Issues.bind (issues_perform (E := fun id => ∃ freshId : String, id = s!"toolresult-{freshId}")
      trivial fun _ hid => hid) ?_
    rintro toolResultId ⟨freshId, hid⟩
    refine Issues.bind (issues_ask trivial) fun finished _ => ?_
    refine Issues.bind (issues_ask trivial) fun createdAt _ => ?_
    refine Issues.bind (issues_ask (hproduced _ ⟨⟨raw, ?_⟩, rfl, freshId, hid⟩)) fun _ _ => trivial
    rw [← hraw]

theorem runFound_issues (hproduced : ∀ result, Produced X result → R result)
    {definition : ToolDefinition} {runId taskId toolName key : String} {arguments : Json}
    (hget : X.registry.get toolName = .ok definition)
    (found : Option (ToolCall × Option ToolResult)) :
    (X.runFound definition runId taskId toolName arguments key found).Issues (Reconciles R)
      (Records X R) fun _ => True := by
  cases found with
  | none =>
    change (X.runNew definition runId taskId toolName arguments key).Issues _ _ _
    unfold ToolExecutor.runNew
    refine Issues.bind (issues_ask trivial) fun toolCallId _ => ?_
    refine Issues.bind (issues_ask trivial) fun createdAt _ => ?_
    refine Issues.bind (issues_ask ⟨definition, hget, rfl⟩) fun _ _ => ?_
    exact runCall_issues hproduced
  | some entry =>
    change (X.runExisting definition toolName arguments entry.1 entry.2).Issues _ _ _
    unfold ToolExecutor.runExisting
    split
    · trivial
    · cases entry.2 with
      | some result => trivial
      | none =>
        dsimp only
        split
        · exact Issues.bind (issues_ask trivial) fun _ _ => runCall_issues hproduced
        · trivial

theorem reconcileCall_issues (call : ToolCall) :
    (X.reconcileCall call).Issues (Reconciles R) (Records X R) fun _ => True := by
  unfold ToolExecutor.reconcileCall
  refine Issues.bind (E := fun _ => True) (issues_ofExcept fun _ _ => trivial) fun definition _ => ?_
  refine Issues.bind (issues_perform (E := fun reconciled => ∀ result, reconciled = some result →
    R result) trivial ?_) fun reconciled hreconciled => ?_
  · rintro reconciled hanswer result rfl
    exact hanswer
  · cases reconciled with
    | some result =>
      exact Issues.bind (issues_ask (hreconciled result rfl)) fun _ _ => trivial
    | none =>
      dsimp only
      split
      · exact Issues.bind (issues_ask trivial) fun _ _ => trivial
      · split
        · exact Issues.bind (issues_ask trivial) fun _ _ => trivial
        · exact Issues.bind (issues_ask trivial) fun _ _ => trivial

theorem program_issues (hproduced : ∀ result, Produced X result → R result)
    (request : ToolRequest) :
    (request.program X).Issues (Reconciles R) (Records X R) fun _ => True := by
  cases request with
  | execute runId taskId toolName arguments key =>
    refine Issues.bind (E := fun _ => True) ?_ fun _ _ => trivial
    unfold ToolExecutor.execute
    refine Issues.bind (E := fun definition => X.registry.get toolName = .ok definition)
      (issues_ofExcept fun _ hget => hget) fun definition hget => ?_
    refine Issues.bind (E := fun _ => True) (issues_ofExcept fun _ _ => trivial) fun _ _ => ?_
    exact Issues.bind (issues_ask trivial) fun found _ => runFound_issues hproduced hget found
  | reconcileUncertain runId =>
    refine Issues.bind (E := fun _ => True) ?_ fun _ _ => trivial
    unfold ToolExecutor.reconcileUncertain
    refine Issues.bind (issues_ask trivial) fun calls _ => ?_
    refine Issues.bind (Issues.mapM' fun call _ => reconcileCall_issues call) fun _ _ => trivial

/-! ## What the journal holds -/

/-- All calls are from the registry, and all results are of the kind. -/
structure Holds (X : ToolExecutor) (R : ToolResult → Prop) (s : Journal) : Prop where
  calls : ∀ call ∈ s.calls, FromRegistry X call
  results : ∀ result ∈ s.results, R result

theorem Holds.modify {s : Journal} {callId : String} {f : ToolCall → ToolCall}
    (h : Holds X R s) (hf : ∀ row, (f row).toolName = row.toolName ∧
      (f row).sideEffectClass = row.sideEffectClass) : Holds X R (s.modify callId f) where
  calls := by
    intro call hcall
    obtain ⟨row, hrow, rfl⟩ := List.mem_map.mp hcall
    split
    · obtain ⟨definition, hget, hclass⟩ := h.calls row hrow
      refine ⟨definition, ?_, ?_⟩
      · rw [(hf row).1]
        exact hget
      · rw [(hf row).2]
        exact hclass
    · exact h.calls row hrow
  results := h.results

theorem Holds.handled {β : Type} {op : JournalOp β} {x : Except Exn β} {w w' : World}
    (h : Holds X R w.journal) (hop : handle.exec β op w x w') (hrecords : Records X R β op) :
    Holds X R w'.journal := by
  obtain ⟨t, hop⟩ := hop
  cases op with
  | now | newId | getByIdempotencyKey | uncertainCalls | reconcileTool | runTool =>
    obtain ⟨-, rfl⟩ := Prod.mk.inj hop
    exact h
  | recordIntent call =>
    simp only [handle] at hop
    split at hop
    · next journal hok =>
      obtain ⟨-, rfl⟩ := Prod.mk.inj hop
      obtain ⟨-, rfl⟩ := Journal.recordIntent_eq_ok hok
      refine ⟨fun row hrow => ?_, h.results⟩
      rcases List.mem_cons.mp hrow with rfl | hrow
      · exact hrecords
      · exact h.calls row hrow
    · obtain ⟨-, rfl⟩ := Prod.mk.inj hop
      exact h
  | updateStatus callId status =>
    simp only [handle] at hop
    split at hop
    · next journal hok =>
      obtain ⟨-, rfl⟩ := Prod.mk.inj hop
      obtain rfl := Journal.updateStatus_eq_ok hok
      exact h.modify fun _ => ⟨rfl, rfl⟩
    · obtain ⟨-, rfl⟩ := Prod.mk.inj hop
      exact h
  | prepareRetry callId =>
    simp only [handle] at hop
    split at hop
    · next found journal hok =>
      obtain ⟨-, rfl⟩ := Prod.mk.inj hop
      obtain ⟨-, -, -, -, rfl⟩ := Journal.prepareRetry_eq_ok hok
      exact h.modify fun _ => ⟨rfl, rfl⟩
    · obtain ⟨-, rfl⟩ := Prod.mk.inj hop
      exact h
  | recordResult result =>
    simp only [handle] at hop
    split at hop
    · next journal hok =>
      obtain ⟨-, rfl⟩ := Prod.mk.inj hop
      unfold Journal.recordResult at hok
      split at hok
      · cases hok
      · obtain rfl := Except.ok.inj hok
        have hstored : Holds X R { w.journal with results := result :: w.journal.results } := by
          refine ⟨h.calls, fun stored hstored => ?_⟩
          rcases List.mem_cons.mp hstored with rfl | hstored
          · exact hrecords
          · exact h.results stored hstored
        exact hstored.modify fun _ => ⟨rfl, rfl⟩
    · obtain ⟨-, rfl⟩ := Prod.mk.inj hop
      exact h

variable {ι : Type} [DecidableEq ι]

/-- In every interleaving of executions and reconciliations the journal holds calls from the
registry and results of one kind, if the executor and the tools make results of this kind. -/
theorem stored_holds {exec : Exec JournalOp Exn World}
    (hexec : ∀ β op w x w', exec β op w x w' → Reconciles R β op x ∧
      (handle.exec β op w x w' ∨ w' = w))
    (hproduced : ∀ result, Produced X result → R result) {requests : ι → ToolRequest}
    {P : Pool JournalOp Exn World ι} (hrun : PoolRuns exec (requestPool X requests) P) :
    Holds X R P.shared.journal := by
  refine (@PoolRuns.issuing _ _ _ _ _ _ _ _ (fun w => Holds X R w.journal) _ _ hrun
    (fun i => program_issues hproduced (requests i)) ⟨?_, ?_⟩ ?_).1
  · intro call hcall
    cases hcall
  · intro result hresult
    cases hresult
  · intro β op w x w' hrecords h hop
    obtain ⟨hanswer, hop | rfl⟩ := hexec β op w x w' hop
    · exact ⟨hanswer, h.handled hop hrecords⟩
    · exact ⟨hanswer, h⟩

end DurableAgent.Tools
