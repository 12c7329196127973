import DurableAgent.Tools.AtMostOnce
import DurableAgent.Tools.JournalRelation

/-!
# The executor over either journal

Requests to the executor, one after the other and each perhaps interrupted, come to the same over
the SQL journal and over the in-memory journal.
-/

namespace DurableAgent.Tools

open Library
open Library.Prog hiding call

variable {w : World} {m : MemoryWorld} {callId key : String} {call row : ToolCall}

/-- The same answer on either side. -/
def Same {α : Type} (a a' : α) (_ : World) (_ : MemoryWorld) : Prop := a = a'

/-- States of which nothing more is said. -/
def Anyhow (_ : World) (_ : MemoryWorld) : Prop := True

section executor

variable (X : ToolExecutor) {definition : ToolDefinition} {toolName : String} {arguments : Json}

theorem agrees_runBody (h : Alike w m) (hsame : untimed row = untimed call)
    (hopen : m.journal.Open callId) :
    journals.Agrees (fun a a' _ m' => a = a' ∧ m'.journal.Open callId)
      (fun _ m' => m'.journal.Open callId) (X.runBody definition toolName arguments row)
      (X.runBody definition toolName arguments call) w m := by
  have hkept (w' : World) (m' : MemoryWorld) (hm : m'.journal = m.journal) :
      m'.journal.Open callId := by
    rw [hm]
    exact hopen
  refine (agrees_runTool h toolName arguments hsame hkept).bind h ?_
  rintro raw _ w' m' h' ⟨rfl, hm⟩
  have hchecked : journals.Agrees (fun a a' w'' m'' => a = a' ∧ m''.journal.Open callId)
      (fun _ m'' => m''.journal.Open callId)
      (Prog.done (X.validateSchema definition.outputSchema (.obj raw) "output"))
      (Prog.done (X.validateSchema definition.outputSchema (.obj raw) "output")) w' m' :=
    Lockstep.agrees_done (fun _ _ => ⟨rfl, hkept w' m' hm⟩) fun _ _ => hkept w' m' hm
  refine hchecked.bind h' ?_
  rintro _ _ w'' m'' _ ⟨rfl, hopen'⟩
  exact Lockstep.agrees_pure ⟨rfl, hopen'⟩

theorem agrees_runCall (h : Alike w m) (hsame : untimed row = untimed call)
    (hopen : m.journal.Open call.toolCallId) :
    journals.Agrees Same Anyhow (X.runCall definition toolName arguments row)
      (X.runCall definition toolName arguments call) w m := by
  unfold ToolExecutor.runCall
  rw [untimed_id hsame]
  refine (agrees_updateStatus h hopen.1 fun _ => hopen.2).bind h ?_
  rintro _ _ w₁ m₁ h₁ ⟨hframed, hresults⟩
  have hopen₁ : m₁.journal.Open call.toolCallId := by
    refine ⟨hframed _ hopen.1, ?_⟩
    rw [hresults]
    exact hopen.2
  refine (agrees_now h₁).bind h₁ ?_
  rintro started _ _ _ - ⟨rfl, rfl, rfl⟩
  have hbody : journals.Agrees (fun a a' _ m' => a = a' ∧ m'.journal.Open call.toolCallId) Anyhow
      ((X.runBody definition toolName arguments row).tryCatch fun exc => do
        perform (.updateStatus call.toolCallId .FAILED)
        raise (ToolExecutor.toolFailure toolName exc))
      ((X.runBody definition toolName arguments call).tryCatch fun exc => do
        perform (.updateStatus call.toolCallId .FAILED)
        raise (ToolExecutor.toolFailure toolName exc)) w₁ m₁ := by
    refine (agrees_runBody X h₁ hsame hopen₁).tryCatch h₁ fun e w' m' h' hopen' => ?_
    refine (agrees_updateStatus h' hopen'.1 fun _ => hopen'.2).bind h' fun _ _ _ _ _ _ => ?_
    exact Lockstep.agrees_raise trivial
  refine hbody.bind h₁ ?_
  rintro ⟨output, truncated⟩ _ w₂ m₂ h₂ ⟨rfl, hopen₂⟩
  refine (agrees_newId h₂ "toolresult").bind h₂ ?_
  rintro toolResultId _ _ _ - ⟨rfl, hfresh, rfl, rfl⟩
  refine (agrees_now h₂).bind h₂ ?_
  rintro finished _ _ _ - ⟨rfl, rfl, rfl⟩
  refine (agrees_now h₂).bind h₂ ?_
  rintro createdAt _ _ _ - ⟨rfl, rfl, rfl⟩
  refine (agrees_recordResult h₂ ⟨hopen₂, hfresh.2⟩).bind h₂ fun _ _ _ _ _ _ => ?_
  exact Lockstep.agrees_pure rfl

theorem agrees_runNew (h : Alike w m) (hkey : (m.journal.keys.get key).isNone)
    (runId taskId : String) :
    journals.Agrees Same Anyhow (X.runNew definition runId taskId toolName arguments key)
      (X.runNew definition runId taskId toolName arguments key) w m := by
  unfold ToolExecutor.runNew
  refine (agrees_newId h "toolcall").bind h ?_
  rintro toolCallId _ _ _ - ⟨rfl, hfresh, rfl, rfl⟩
  refine (agrees_now h).bind h ?_
  rintro createdAt _ _ _ - ⟨rfl, rfl, rfl⟩
  refine (agrees_recordIntent h hfresh hkey).bind h ?_
  intro _ _ w' m' h' hopen
  exact agrees_runCall X h' rfl hopen

theorem agrees_runExisting (h : Alike w m) {found : Option ToolResult}
    (hsame : untimed row = untimed call)
    (hget : m.journal.calls.get call.toolCallId = some call)
    (hresult : m.journal.results.get call.toolCallId = found) :
    journals.Agrees Same Anyhow (X.runExisting definition toolName arguments row found)
      (X.runExisting definition toolName arguments call found) w m := by
  unfold ToolExecutor.runExisting
  rw [of_untimed ToolCall.toolName hsame, of_untimed ToolCall.argumentsHash hsame,
    of_untimed ToolCall.status hsame, untimed_id hsame]
  split
  · exact Lockstep.agrees_raise trivial
  · cases found with
    | some result => exact Lockstep.agrees_pure rfl
    | none =>
      by_cases hretry : call.status = .FAILED ∧ definition.retrySafe
      · simp only [if_pos hretry]
        refine (agrees_prepareRetry h hget hretry.1 hresult).bind h ?_
        intro _ _ w' m' h' hopen
        exact agrees_runCall X h' hsame hopen
      · simp only [if_neg hretry]
        exact Lockstep.agrees_raise trivial

theorem agrees_execute (h : Alike w m) (runId taskId toolName : String) (arguments : Json)
    (key : String) : journals.Agrees Same Anyhow (X.execute runId taskId toolName arguments key)
      (X.execute runId taskId toolName arguments key) w m := by
  have hchecked {α : Type} (r : Except Exn α) : journals.Agrees
      (fun a a' w' m' => a = a' ∧ w = w' ∧ m = m') Anyhow (Prog.done r) (Prog.done r) w m :=
    Lockstep.agrees_done (fun _ _ => ⟨rfl, rfl, rfl⟩) fun _ _ => trivial
  refine (hchecked (X.registry.get toolName)).bind h ?_
  rintro definition _ _ _ - ⟨rfl, rfl, rfl⟩
  refine (hchecked (X.authorize definition toolName arguments)).bind h ?_
  rintro _ _ _ _ - ⟨rfl, rfl, rfl⟩
  refine (agrees_getByIdempotencyKey h key).bind h ?_
  rintro found found' _ _ - ⟨hfound, rfl, rfl⟩
  cases found with
  | none =>
    cases found' with
    | none => exact agrees_runNew X h hfound runId taskId
    | some entry => cases hfound
  | some entry =>
    cases found' with
    | none => cases hfound
    | some entry' =>
      obtain ⟨row, result⟩ := entry
      obtain ⟨call, result'⟩ := entry'
      obtain ⟨hsame, rfl, hget, hresult⟩ := hfound
      exact agrees_runExisting X h hsame hget hresult

theorem agrees_reconcileCall (h : Alike w m) (hsame : untimed row = untimed call)
    (hcall : (m.journal.calls.get call.toolCallId).isSome) :
    journals.Agrees (fun a a' _ m' => a = a' ∧ Framed m m') Anyhow
      (X.reconcileCall row) (X.reconcileCall call) w m := by
  unfold ToolExecutor.reconcileCall
  rw [of_untimed ToolCall.toolName hsame, of_untimed ToolCall.sideEffectClass hsame,
    untimed_id hsame]
  have hregistered : journals.Agrees (fun a a' w' m' => a = a' ∧ w = w' ∧ m = m') Anyhow
      (Prog.done (X.registry.get call.toolName)) (Prog.done (X.registry.get call.toolName)) w m :=
    Lockstep.agrees_done (fun _ _ => ⟨rfl, rfl, rfl⟩) fun _ _ => trivial
  refine hregistered.bind h ?_
  rintro definition _ _ _ - ⟨rfl, rfl, rfl⟩
  refine (agrees_reconcileTool h fun _ _ => trivial).bind h ?_
  rintro reconciled _ _ _ - ⟨rfl, rfl, rfl, hstorable⟩
  have hreview {message : String} : journals.Agrees
      (fun (a a' : Option ToolResult) _ m' => a = a' ∧ Framed m m') Anyhow
      (do
        perform (.updateStatus call.toolCallId .NEEDS_REVIEW)
        raise (.of .manualReviewRequired message))
      (do
        perform (.updateStatus call.toolCallId .NEEDS_REVIEW)
        raise (.of .manualReviewRequired message)) w m := by
    refine (agrees_updateStatus h hcall fun hstatus => ?_).bind h fun _ _ _ _ _ _ => ?_
    · exact absurd hstatus (by decide)
    · exact Lockstep.agrees_raise trivial
  cases reconciled with
  | some result =>
    refine (agrees_recordResult h (hstorable result rfl)).bind h fun _ _ _ _ _ hframed => ?_
    exact Lockstep.agrees_pure ⟨rfl, hframed⟩
  | none =>
    dsimp only
    split
    · exact hreview
    · split
      · exact hreview
      · refine (agrees_updateStatus h hcall fun hstatus => ?_).bind h ?_
        · exact absurd hstatus (by decide)
        · rintro _ _ _ _ _ ⟨hframed, -⟩
          exact Lockstep.agrees_pure ⟨rfl, hframed⟩

/-- Calls stay, so those that were listed are still there when their turn comes. -/
theorem agrees_reconcileCalls {rows calls : List ToolCall}
    (hsame : List.Forall₂ (fun row call => untimed row = untimed call) rows calls) (h : Alike w m)
    (hcalls : ∀ call ∈ calls, (m.journal.calls.get call.toolCallId).isSome) :
    journals.Agrees Same Anyhow (rows.mapM' X.reconcileCall) (calls.mapM' X.reconcileCall)
      w m := by
  induction hsame generalizing w m with
  | nil => exact Lockstep.agrees_pure rfl
  | @cons row call rows calls hcall _ ih =>
    refine (agrees_reconcileCall X h hcall (hcalls call List.mem_cons_self)).bind h ?_
    rintro reconciled _ w' m' h' ⟨rfl, hframed⟩
    have hrest := ih h' fun other hother => hframed _ (hcalls other (List.mem_cons_of_mem _ hother))
    refine hrest.bind h' ?_
    rintro rest _ _ _ - rfl
    exact Lockstep.agrees_pure rfl

theorem agrees_reconcileUncertain (h : Alike w m) (runId : String) :
    journals.Agrees Same Anyhow (X.reconcileUncertain runId) (X.reconcileUncertain runId) w m := by
  refine (agrees_uncertainCalls h runId).bind h ?_
  rintro rows calls _ _ - ⟨rfl, rfl, hsame, hcalls⟩
  refine (agrees_reconcileCalls X hsame h hcalls).bind h ?_
  rintro reconciled _ _ _ - rfl
  exact Lockstep.agrees_pure rfl

end executor

/-! ## Requests one after the other -/

/-- What a request returns. -/
def ToolRequest.answer (X : ToolExecutor) : ToolRequest → Prog JournalOp Exn (List ToolResult)
  | .execute runId taskId toolName arguments idempotencyKey => do
    let result ← X.execute runId taskId toolName arguments idempotencyKey
    pure [result]
  | .reconcileUncertain runId => X.reconcileUncertain runId

/-- Requests with what their calls are supplied with; a request whose supplies end early was
interrupted there. -/
def requestRuns (X : ToolExecutor) (requests : List (ToolRequest × List Supply)) :
    List (Prog JournalOp Exn (List ToolResult) × List Supply) :=
  requests.map fun request => (request.1.answer X, request.2)

def emptyWorld : World := ⟨⟨[], []⟩, []⟩

def emptyMemory : MemoryWorld := ⟨.empty, []⟩

/-- The requests over the in-memory journal: what each has ended in, and the state they leave. -/
def inMemory (X : ToolExecutor) (requests : List (ToolRequest × List Supply)) :
    List (Option (Except Exn (List ToolResult))) × MemoryWorld :=
  handleInMemory.sequence (requestRuns X requests) emptyMemory

/-- The same requests over the SQL journal, which lists uncertain calls in the same order. -/
def overSql (X : ToolExecutor) (requests : List (ToolRequest × List Supply)) :
    List (Option (Except Exn (List ToolResult))) × World :=
  handle.sequence (journals.adaptedAll (requestRuns X requests) emptyMemory) emptyWorld

/-- Identifiers are fresh, and reconciled results can be stored. -/
def Orderly (X : ToolExecutor) (requests : List (ToolRequest × List Supply)) : Prop :=
  journals.SuppliedAll (requestRuns X requests) emptyMemory

theorem alike_empty : Alike emptyWorld emptyMemory where
  ids := List.nodup_nil
  calls _ := rfl
  keys _ := rfl
  results callId result := by simp [emptyMemory, emptyWorld, InMemoryToolJournal.empty]
  owned callId h := by simp [emptyMemory, InMemoryToolJournal.empty] at h
  unsettled _ _ _ _ := rfl
  executions := rfl

theorem agrees_answer (X : ToolExecutor) (request : ToolRequest) (h : Alike w m) :
    journals.Agrees (fun a a' _ _ => a = a') Anyhow (request.answer X) (request.answer X) w m := by
  cases request with
  | execute runId taskId toolName arguments key =>
    refine (agrees_execute X h runId taskId toolName arguments key).bind h ?_
    rintro result _ _ _ - rfl
    exact Lockstep.agrees_pure rfl
  | reconcileUncertain runId => exact agrees_reconcileUncertain X h runId

/-- Over either journal the requests return and raise the same, run the same tool bodies, and
leave every call with the same status and attempt number. -/
theorem journals_refine (X : ToolExecutor) (requests : List (ToolRequest × List Supply))
    (horderly : Orderly X requests) :
    (overSql X requests).1 = (inMemory X requests).1 ∧
      (overSql X requests).2.log.filterMap Entry.execution =
        (inMemory X requests).2.executions ∧
      ∀ callId, ((overSql X requests).2.journal.callOf callId).map
          (fun call => (call.status, call.attempt)) =
        ((inMemory X requests).2.journal.calls.get callId).map
          fun call => (call.status, call.attempt) := by
  have hruns : ∀ run ∈ requestRuns X requests, ∀ w m, journals.inv w m →
      journals.Agrees (fun a a' _ _ => a = a') Anyhow run.1 run.1 w m := by
    intro run hrun w m h
    obtain ⟨request, -, rfl⟩ := List.mem_map.mp hrun
    exact agrees_answer X request.1 h
  obtain ⟨halike, houtcomes⟩ := Lockstep.sequence hruns alike_empty horderly
  refine ⟨houtcomes, halike.executions, fun callId => ?_⟩
  have hcall := congrArg (Option.map fun call : ToolCall => (call.status, call.attempt))
    (halike.calls callId)
  rw [Option.map_map, Option.map_map] at hcall
  exact hcall

/-- A call of the echo tool that is interrupted once its intent is recorded. -/
def interruptedEcho (key freshId : String) : ToolRequest × List Supply :=
  (.execute "run" "task" "echo" (.obj []) key,
    List.replicate 4 { echoSupply with freshId := freshId })

/-- A result of the call, as a tool may reconcile it. -/
def reconciledAs (toolResultId toolCallId : String) : ToolResult :=
  { toolResultId, toolCallId, success := true, output := .obj [], outputHash := "{}"
    duration := 0, createdAt := 0, duration_nonneg := no_duration }

/-- Two interrupted calls, and then a reconciliation that gives both results under the same
identifier or under two. -/
def reconciledTwice (resultId₁ resultId₂ : String) : List (ToolRequest × List Supply) :=
  [interruptedEcho "first" "1", interruptedEcho "second" "2",
    (.reconcileUncertain "run",
      [echoSupply,
        { echoSupply with reconciled := .ok (some (reconciledAs resultId₁ "toolcall-1")) },
        echoSupply,
        { echoSupply with reconciled := .ok (some (reconciledAs resultId₂ "toolcall-2")) },
        echoSupply])]

theorem journals_refine_twice : Orderly echoExecutor (reconciledTwice "r1" "r2") ∧
    ((inMemory echoExecutor (reconciledTwice "r1" "r2")).2.journal.calls.get "toolcall-2").map
      ToolCall.status = some .SUCCEEDED ∧
    (overSql echoExecutor (reconciledTwice "r1" "r2")).1 =
      (inMemory echoExecutor (reconciledTwice "r1" "r2")).1 := by
  have horderly : Orderly echoExecutor (reconciledTwice "r1" "r2") := by
    refine ⟨⟨trivial, ⟨rfl, by decide⟩, trivial, trivial, trivial⟩,
      ⟨trivial, ⟨rfl, by decide⟩, trivial, trivial, trivial⟩,
      ⟨trivial, ?_, trivial, ?_, trivial, trivial⟩, trivial⟩
    · rintro _ ⟨⟩
      exact ⟨⟨rfl, rfl⟩, by decide⟩
    · rintro _ ⟨⟩
      exact ⟨⟨rfl, rfl⟩, by decide⟩
  exact ⟨horderly, by decide, (journals_refine echoExecutor _ horderly).1⟩

/-- A tool that gives all results it reconciles one identifier: the SQL journal refuses the second
of them, and the in-memory journal takes it. -/
theorem journals_refine_clash :
    (overSql echoExecutor (reconciledTwice "r" "r")).1 =
      [none, none, some (.error (.of .idempotencyConflict "tool call already has a result"))] ∧
    (inMemory echoExecutor (reconciledTwice "r" "r")).1 =
      [none, none, some (.ok [reconciledAs "r" "toolcall-1", reconciledAs "r" "toolcall-2"])] ∧
    ((overSql echoExecutor (reconciledTwice "r" "r")).2.journal.callOf "toolcall-2").map
      ToolCall.status = some .INTENT_RECORDED ∧
    ((inMemory echoExecutor (reconciledTwice "r" "r")).2.journal.calls.get "toolcall-2").map
      ToolCall.status = some .SUCCEEDED := by
  refine ⟨rfl, rfl, by decide, by decide⟩

end DurableAgent.Tools
