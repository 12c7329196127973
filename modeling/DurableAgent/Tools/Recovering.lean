import DurableAgent.Library.Total
import DurableAgent.Tools.Checking
import DurableAgent.Tools.Consistency
import DurableAgent.Tools.Memory

/-!
# Reconciliation that may block

A reconciliation that raises ends the whole recovery. So a recovery passes exactly if every
uncertain call can be looked at, and none has a result already.
-/

namespace DurableAgent.Tools

open Library Library.Prog

/-! ## The journal under one reconciliation -/

namespace Journal

variable {s s' : Journal} {callId j : String} {result : ToolResult} {now : Timestamp}

theorem resultOf_cons (s : Journal) (result : ToolResult) (j : String) :
    resultOf j { s with results := result :: s.results } =
      if j = result.toolCallId then some result else s.resultOf j := by
  unfold resultOf
  by_cases hj : j = result.toolCallId
  · simp [hj]
  · rw [List.find?_cons_of_neg (by simpa using Ne.symm hj), if_neg hj]

theorem resultOf_eq_none : s.resultOf callId = none ↔
    ∀ row ∈ s.results, row.toolCallId ≠ callId := by
  unfold resultOf
  rw [List.find?_eq_none]
  simp

/-- A call that a result has come for. -/
def closedWith (result : ToolResult) (now : Timestamp) (row : ToolCall) : ToolCall :=
  { row with
    status := if result.success then .SUCCEEDED else .FAILED, finishedAt := some now }

/-- A result of a stored call that has none, under an identifier of its own, is stored. -/
theorem recordResult_of_storable {row : ToolCall} (hrow : s.callOf result.toolCallId = some row)
    (hnone : s.resultOf result.toolCallId = none)
    (hfresh : ∀ stored ∈ s.results, stored.toolResultId ≠ result.toolResultId) :
    s.recordResult result now =
      .ok ({ s with results := result :: s.results }.modify result.toolCallId
        (closedWith result now)) := by
  refine if_neg ?_
  rintro (hany | hmissing)
  · obtain ⟨stored, hstored, hclash⟩ := List.any_eq_true.mp hany
    rcases of_decide_eq_true hclash with hid | hid
    · exact hfresh stored hstored hid
    · exact resultOf_eq_none.mp hnone stored hstored hid
  · apply hmissing
    refine List.any_eq_true.mpr ⟨row, List.mem_of_find?_eq_some hrow, ?_⟩
    simpa using List.find?_some hrow

/-- A second result of a call is refused. -/
theorem recordResult_of_some (hsome : s.resultOf result.toolCallId ≠ none) :
    s.recordResult result now =
      .error (.of .idempotencyConflict "tool call already has a result") := by
  refine if_pos (.inl ?_)
  cases hfind : s.resultOf result.toolCallId with
  | none => exact absurd hfind hsome
  | some stored =>
    refine List.any_eq_true.mpr ⟨stored, List.mem_of_find?_eq_some hfind, ?_⟩
    have hid : stored.toolCallId = result.toolCallId := by simpa using List.find?_some hfind
    simp [hid]

theorem updateStatus_of_row {row : ToolCall} (hrow : s.callOf callId = some row)
    (status : ToolCallStatus) :
    s.updateStatus callId status now = .ok (s.modify callId (withStatus status now)) := by
  apply if_pos
  refine List.any_eq_true.mpr ⟨row, List.mem_of_find?_eq_some hrow, ?_⟩
  simpa using List.find?_some hrow

/-- The call is an uncertain one of the run. -/
def Uncertain (runId : String) (call : ToolCall) : Prop :=
  call.runId = runId ∧ Unsettled call.status

instance (runId : String) (call : ToolCall) : Decidable (Uncertain runId call) :=
  inferInstanceAs (Decidable (_ ∧ _))

/-- In whatever order, the uncertain calls of the run are listed once each. -/
theorem uncertainCalls_perm {runId : String} (hids : (s.calls.map ToolCall.toolCallId).Nodup)
    (order : List String) :
    ((s.uncertainCalls runId order).map ToolCall.toolCallId).Nodup ∧
      ∀ call, call ∈ s.uncertainCalls runId order ↔ call ∈ s.calls ∧ Uncertain runId call := by
  set rows := s.calls.filter fun row => row.runId = runId ∧
    (row.status = .INTENT_RECORDED ∨ row.status = .RUNNING ∨ row.status = .UNCERTAIN) with hrows
  have hmem (call : ToolCall) : call ∈ rows ↔ call ∈ s.calls ∧ Uncertain runId call := by
    rw [hrows, List.mem_filter, decide_eq_true_iff]
    rfl
  have hnodup : (rows.map ToolCall.toolCallId).Nodup := hids.sublist (List.filter_sublist.map _)
  have hfind {callId : String} {row : ToolCall} :
      (rows.find? fun row => row.toolCallId = callId) = some row ↔
        row ∈ rows ∧ row.toolCallId = callId :=
    @callOf_eq_some ⟨rows, []⟩ callId row hnodup
  have hcalls : s.uncertainCalls runId order =
      if order.isPerm (rows.map ToolCall.toolCallId) then
        order.filterMap fun callId => rows.find? fun row => row.toolCallId = callId
      else rows := rfl
  rw [hcalls]
  split
  · next hperm =>
    rw [List.isPerm_iff] at hperm
    have hlisted : (order.filterMap fun callId => rows.find? fun row => row.toolCallId = callId).map
        ToolCall.toolCallId = order := by
      have hfound : ∀ callId ∈ order, ∃ row, (rows.find? fun row => row.toolCallId = callId) =
          some row := by
        intro callId hcallId
        obtain ⟨row, hrow, hid⟩ := List.mem_map.mp (hperm.subset hcallId)
        exact ⟨row, hfind.mpr ⟨hrow, hid⟩⟩
      clear hperm hcalls
      induction order with
      | nil => rfl
      | cons callId order ih =>
        obtain ⟨row, hrow⟩ := hfound callId List.mem_cons_self
        rw [List.filterMap_cons_some (by exact hrow), List.map_cons, (hfind.mp hrow).2,
          ih fun other hother => hfound other (List.mem_cons_of_mem _ hother)]
    refine ⟨?_, fun call => ?_⟩
    · rw [hlisted]
      exact hperm.nodup_iff.mpr hnodup
    · rw [← hmem, List.mem_filterMap]
      constructor
      · rintro ⟨callId, -, hcall⟩
        exact (hfind.mp hcall).1
      · intro hcall
        refine ⟨call.toolCallId, hperm.symm.subset (List.mem_map_of_mem hcall), ?_⟩
        exact hfind.mpr ⟨hcall, rfl⟩
  · exact ⟨hnodup, hmem⟩

end Journal

/-! ## One call -/

namespace Toolkit

variable (T : Toolkit) (ws : Workspace)

/-- The calls over files and indexes that stay, with identifiers that name no stored result. -/
def freshly : Exec JournalOp Exn World := fun β op w x w' =>
  ∃ t : Supply, (∀ result ∈ w.journal.results,
    result.toolResultId ≠ s!"toolresult-{t.freshId}") ∧ T.handleAt ws β op t w = (x, w')

/-- The call has succeeded with a result, or it has failed without one and may be retried. -/
def Resolved (s : Journal) (callId : String) : Prop :=
  ∃ row, s.callOf callId = some row ∧
    (row.status = .SUCCEEDED ∧ (s.resultOf callId).isSome ∨
      row.status = .FAILED ∧ s.resultOf callId = none)

/-- The call is to a registered tool that may be retried. -/
structure Retryable (call : ToolCall) (definition : ToolDefinition) : Prop where
  registered : T.executor.registry.get call.toolName = .ok definition
  retrySafe : definition.retrySafe = true
  class_eq : call.sideEffectClass = definition.sideEffectClass

theorem Retryable.not_review {T : Toolkit} {call : ToolCall} {definition : ToolDefinition}
    (h : T.Retryable call definition) : call.sideEffectClass ≠ .NON_IDEMPOTENT := by
  intro hclass
  rw [h.class_eq] at hclass
  exact definition.non_idempotent_not_retry_safe ⟨hclass, h.retrySafe⟩

variable {T ws} {w w' : World} {call : ToolCall} {definition : ToolDefinition} {s s' : Journal}

/-- There are identifiers enough. -/
theorem exists_fresh (results : List ToolResult) : ∃ freshId : String,
    ∀ result ∈ results, result.toolResultId ≠ s!"toolresult-{freshId}" := by
  have hbound : ∃ n, ∀ result ∈ results, result.toolResultId.length < n := by
    induction results with
    | nil => exact ⟨0, by simp⟩
    | cons result rest ih =>
      obtain ⟨n, hn⟩ := ih
      refine ⟨max n (result.toolResultId.length + 1), fun other hother => ?_⟩
      rcases List.mem_cons.mp hother with rfl | hother
      · omega
      · have := hn other hother
        omega
  obtain ⟨n, hn⟩ := hbound
  refine ⟨String.ofList (List.replicate n 'x'), fun result hresult hid => ?_⟩
  change result.toolResultId = "toolresult-" ++ String.ofList (List.replicate n 'x') at hid
  have hlength := hn result hresult
  rw [hid] at hlength
  simp only [String.length_append, String.length_ofList, List.length_replicate] at hlength
  omega

theorem freshly_answers {β : Type} (op : JournalOp β) (w : World) :
    ∃ x w', T.freshly ws β op w x w' := by
  obtain ⟨freshId, hfresh⟩ := exists_fresh w.journal.results
  exact ⟨_, _, { now := 0, freshId, order := [], outcome := .ok [], reconciled := .ok none },
    hfresh, rfl⟩

/-- What the reconciliation of one call comes to: it passes if the call can be looked at and has
no result, and only then it leaves the call resolved. Other calls stay as they are. -/
structure Comes (T : Toolkit) (ws : Workspace) (call : ToolCall) (s : Journal) (passed : Prop)
    (s' : Journal) : Prop where
  others : ∀ j, j ≠ call.toolCallId → s'.callOf j = s.callOf j ∧ s'.resultOf j = s.resultOf j
  ids : s'.calls.map ToolCall.toolCallId = s.calls.map ToolCall.toolCallId
  named : ∀ result ∈ s'.results, NamedApart result
  passes : T.CanCheck ws call ∧ s.resultOf call.toolCallId = none → passed
  checked : passed → T.CanCheck ws call ∧
    (Resolved s' call.toolCallId ↔ s.resultOf call.toolCallId = none)

theorem comes_unknown (hrow : s.callOf call.toolCallId = some call)
    (hnamed : ∀ result ∈ s.results, NamedApart result) (hcheck : T.CanCheck ws call)
    (now : Timestamp) :
    Comes T ws call s True (s.modify call.toolCallId (Journal.withStatus .FAILED now)) where
  others j hj := by
    rw [Journal.callOf_modify (f := Journal.withStatus .FAILED now) fun _ => rfl, if_neg hj]
    exact ⟨rfl, rfl⟩
  ids := Journal.ids_modify fun _ => rfl
  named := hnamed
  passes _ := trivial
  checked _ := by
    refine ⟨hcheck, ?_⟩
    unfold Resolved
    rw [Journal.callOf_modify (f := Journal.withStatus .FAILED now) fun _ => rfl, if_pos rfl, hrow]
    constructor
    · rintro ⟨row, hsome, ⟨hstatus, -⟩ | ⟨-, hnone⟩⟩
      · rw [← Option.some.inj hsome] at hstatus
        cases hstatus
      · exact hnone
    · intro hnone
      exact ⟨_, rfl, .inr ⟨rfl, hnone⟩⟩

theorem comes_known {result : ToolResult} (hrow : s.callOf call.toolCallId = some call)
    (hnamed : ∀ result ∈ s.results, NamedApart result) (hcheck : T.CanCheck ws call)
    (hnone : s.resultOf call.toolCallId = none) (hcall : result.toolCallId = call.toolCallId)
    (hsuccess : result.success = true) (hname : NamedApart result) (now : Timestamp) :
    Comes T ws call s True
      ({ s with results := result :: s.results }.modify result.toolCallId
        (Journal.closedWith result now)) where
  others j hj := by
    rw [hcall, Journal.callOf_modify (f := Journal.closedWith result now) fun _ => rfl, if_neg hj]
    refine ⟨rfl, ?_⟩
    change Journal.resultOf j { s with results := result :: s.results } = _
    rw [Journal.resultOf_cons, hcall, if_neg hj]
  ids := Journal.ids_modify fun _ => rfl
  named := by
    intro stored hstored
    rcases List.mem_cons.mp hstored with rfl | hstored
    · exact hname
    · exact hnamed stored hstored
  passes _ := trivial
  checked _ := by
    refine ⟨hcheck, ⟨fun _ => hnone, fun _ => ?_⟩⟩
    unfold Resolved
    rw [hcall, Journal.callOf_modify (f := Journal.closedWith result now) fun _ => rfl, if_pos rfl]
    change ∃ row, (s.callOf call.toolCallId).map _ = some row ∧ _
    rw [hrow]
    refine ⟨_, rfl, .inl ⟨?_, ?_⟩⟩
    · simp [Journal.closedWith, hsuccess]
    · change (Journal.resultOf call.toolCallId { s with results := result :: s.results }).isSome
      rw [Journal.resultOf_cons, hcall, if_pos rfl]
      rfl

theorem comes_nowhere (hnamed : ∀ result ∈ s.results, NamedApart result)
    (hnot : ¬ (T.CanCheck ws call ∧ s.resultOf call.toolCallId = none)) :
    Comes T ws call s False s where
  others _ _ := ⟨rfl, rfl⟩
  ids := rfl
  named := hnamed
  passes h := hnot h
  checked := False.elim

/-- No stored result is named after a call that has none. -/
theorem reconciled_unused {callId : String} (hnamed : ∀ result ∈ s.results, NamedApart result)
    (hnone : s.resultOf callId = none) :
    ∀ stored ∈ s.results, stored.toolResultId ≠ s!"reconciled-{callId}" := by
  intro stored hstored hid
  rcases hnamed stored hstored with ⟨freshId, hname⟩ | hname
  · exact toolresult_ne_reconciled freshId callId (hname.symm.trans hid)
  · have hsame : "reconciled-" ++ stored.toolCallId = "reconciled-" ++ callId :=
      hname.symm.trans hid
    rw [String.append_right_inj] at hsame
    exact Journal.resultOf_eq_none.mp hnone stored hstored hsame

/-- The program has not raised. -/
def Passed {α : Type} (r : Except Exn α) : Prop := ∃ a, r = .ok a

theorem reconcileCall_fulfils (hretry : T.Retryable call definition)
    (hrow : w.journal.callOf call.toolCallId = some call)
    (hnamed : ∀ result ∈ w.journal.results, NamedApart result) :
    (T.executor.reconcileCall call).Fulfils (T.freshly ws)
      (fun r w' => Comes T ws call w.journal (Passed r) w'.journal) w := by
  have htrue {r : Except Exn (Option ToolResult)} {s' : Journal} (a : Option ToolResult)
      (hr : r = .ok a) (h : Comes T ws call w.journal True s') :
      Comes T ws call w.journal (Passed r) s' :=
    ⟨h.others, h.ids, h.named, fun _ => ⟨a, hr⟩, fun _ => h.checked trivial⟩
  have hfalse {e : Exn} (h : Comes T ws call w.journal False w.journal) :
      Comes T ws call w.journal (Passed (.error e : Except Exn (Option ToolResult))) w.journal :=
    ⟨h.others, h.ids, h.named, fun hcan => (h.passes hcan).elim, fun ⟨_, ha⟩ => by cases ha⟩
  unfold ToolExecutor.reconcileCall
  rw [hretry.registered]
  change (perform (JournalOp.reconcileTool call) >>= _ : Prog JournalOp Exn _).Fulfils _ _ _
  refine Fulfils.bind (Q := fun x w' => w = w' ∧ ∃ t : Supply, (∀ result ∈ w.journal.results,
      result.toolResultId ≠ s!"toolresult-{t.freshId}") ∧
    x = T.reconcile ws t.now t.freshId call) (fulfils_perform (freshly_answers _ w) ?_) ?_ ?_
  · rintro x w' ⟨t, hfresh, hop⟩
    obtain ⟨rfl, rfl⟩ := Prod.mk.inj hop
    exact ⟨rfl, t, hfresh, rfl⟩
  · rintro reconciled _ ⟨rfl, t, hfresh, hreconciled⟩
    have hcheck : T.CanCheck ws call := reconcile_answers.mp ⟨reconciled, hreconciled.symm⟩
    cases reconciled with
    | none =>
      simp only [if_neg hretry.not_review, hretry.retrySafe]
      refine Fulfils.bind (Q := fun x w'' => x = .ok () ∧
        Comes T ws call w.journal True w''.journal) (fulfils_perform (freshly_answers _ _) ?_) ?_ ?_
      · rintro x w'' ⟨t', -, hop⟩
        have hok := @Journal.updateStatus_of_row _ _ t'.now call hrow .FAILED
        simp only [handleAt, Toolkit.handle, Tools.handle, supply, hok] at hop
        obtain ⟨rfl, rfl⟩ := Prod.mk.inj hop
        exact ⟨rfl, comes_unknown hrow hnamed hcheck t'.now⟩
      · rintro _ w'' ⟨-, hcomes⟩
        exact htrue none rfl hcomes
      · rintro e _ ⟨⟨⟩, -⟩
    | some result =>
      obtain ⟨hcall, hsuccess, hid⟩ := reconcile_eq_some hreconciled.symm
      have hname := NamedApart.of_reconciled hreconciled.symm
      by_cases hnone : w.journal.resultOf call.toolCallId = none
      · have hunused : ∀ stored ∈ w.journal.results,
            stored.toolResultId ≠ result.toolResultId := by
          rcases hid with hid | hid
          · rw [hid]
            exact hfresh
          · rw [hid]
            exact reconciled_unused hnamed hnone
        refine Fulfils.bind (Q := fun x w'' => x = .ok () ∧
          Comes T ws call w.journal True w''.journal)
          (fulfils_perform (freshly_answers _ _) ?_) ?_ ?_
        · rintro x w'' ⟨t', -, hop⟩
          have hok := @Journal.recordResult_of_storable _ result t'.now call (hcall ▸ hrow)
            (hcall ▸ hnone) hunused
          simp only [handleAt, Toolkit.handle, Tools.handle, supply, hok] at hop
          obtain ⟨rfl, rfl⟩ := Prod.mk.inj hop
          exact ⟨rfl, comes_known hrow hnamed hcheck hnone hcall hsuccess hname t'.now⟩
        · rintro _ w'' ⟨-, hcomes⟩
          exact htrue (some result) rfl hcomes
        · rintro e _ ⟨⟨⟩, -⟩
      · refine Fulfils.bind (Q := fun x w'' => (∃ e, x = .error e) ∧ w = w'')
          (fulfils_perform (freshly_answers _ _) ?_) ?_ ?_
        · rintro x w'' ⟨t', -, hop⟩
          have hrefused := @Journal.recordResult_of_some w.journal result t'.now (hcall ▸ hnone)
          simp only [handleAt, Toolkit.handle, Tools.handle, supply, hrefused] at hop
          obtain ⟨rfl, rfl⟩ := Prod.mk.inj hop
          exact ⟨⟨_, rfl⟩, rfl⟩
        · rintro _ _ ⟨⟨e, he⟩, -⟩
          cases he
        · rintro e _ ⟨-, rfl⟩
          exact hfalse (comes_nowhere hnamed fun h => hnone h.2)
  · rintro e _ ⟨rfl, t, -, hreconciled⟩
    refine hfalse (comes_nowhere hnamed ?_)
    rintro ⟨hcheck, -⟩
    obtain ⟨reconciled, hok⟩ := reconcile_answers.mpr hcheck
    rw [← hreconciled] at hok
    cases hok

/-! ## All uncertain calls -/

/-- The calls have distinct ids, so what one comes to is not touched by the others. -/
theorem reconcileCalls_fulfils {calls : List ToolCall}
    (hretry : ∀ call ∈ calls, ∃ definition, T.Retryable call definition)
    (hids : (calls.map ToolCall.toolCallId).Nodup)
    (hrows : ∀ call ∈ calls, w.journal.callOf call.toolCallId = some call)
    (hnamed : ∀ result ∈ w.journal.results, NamedApart result) :
    (calls.mapM' T.executor.reconcileCall).Fulfils (T.freshly ws)
      (fun r w' =>
        (∀ j, j ∉ calls.map ToolCall.toolCallId → w'.journal.callOf j = w.journal.callOf j ∧
          w'.journal.resultOf j = w.journal.resultOf j) ∧
        w'.journal.calls.map ToolCall.toolCallId = w.journal.calls.map ToolCall.toolCallId ∧
        ((∀ call ∈ calls, T.CanCheck ws call ∧
          w.journal.resultOf call.toolCallId = none) → Passed r) ∧
        (Passed r → ∀ call ∈ calls, T.CanCheck ws call ∧
          (Resolved w'.journal call.toolCallId ↔
            w.journal.resultOf call.toolCallId = none))) w := by
  induction calls generalizing w with
  | nil => exact ⟨fun _ _ => ⟨rfl, rfl⟩, rfl, fun _ => ⟨[], rfl⟩, fun _ _ h => by cases h⟩
  | cons call calls ih =>
    obtain ⟨hnotin, hids'⟩ := List.nodup_cons.mp hids
    obtain ⟨definition, hdefinition⟩ := hretry call List.mem_cons_self
    have hne {other : ToolCall} (hother : other ∈ calls) : other.toolCallId ≠ call.toolCallId := by
      intro hid
      rw [← hid] at hnotin
      exact hnotin (List.mem_map_of_mem hother)
    refine Fulfils.bind (reconcileCall_fulfils hdefinition (hrows call List.mem_cons_self) hnamed)
      ?_ ?_
    · intro reconciled w₁ hcomes
      have hrows₁ : ∀ other ∈ calls, w₁.journal.callOf other.toolCallId = some other := by
        intro other hother
        rw [(hcomes.others _ (hne hother)).1]
        exact hrows other (List.mem_cons_of_mem _ hother)
      refine Fulfils.bind (ih (fun other hother => hretry other (List.mem_cons_of_mem _ hother))
        hids' hrows₁ hcomes.named) ?_ ?_
      · rintro rest w' ⟨hothers, hids₁, -, hrest⟩
        refine ⟨fun j hj => ?_, hids₁.trans hcomes.ids, fun _ => ⟨_, rfl⟩,
          fun _ other hother => ?_⟩
        · rw [List.map_cons, List.mem_cons, not_or] at hj
          obtain ⟨hcall, hresult⟩ := hothers j hj.2
          rw [hcall, hresult]
          exact hcomes.others j hj.1
        · rcases List.mem_cons.mp hother with rfl | hother
          · obtain ⟨hcheck, hresolved⟩ := hcomes.checked ⟨_, rfl⟩
            obtain ⟨hcall, hresult⟩ := hothers _ hnotin
            refine ⟨hcheck, ?_⟩
            rw [← hresolved]
            unfold Resolved
            rw [hcall, hresult]
          · rw [← (hcomes.others _ (hne hother)).2]
            exact hrest ⟨_, rfl⟩ other hother
      · rintro e w' ⟨hothers, hids₁, hpasses, -⟩
        refine ⟨fun j hj => ?_, hids₁.trans hcomes.ids, fun hall => ?_, fun ⟨_, h⟩ => by cases h⟩
        · rw [List.map_cons, List.mem_cons, not_or] at hj
          obtain ⟨hcall, hresult⟩ := hothers j hj.2
          rw [hcall, hresult]
          exact hcomes.others j hj.1
        · obtain ⟨_, h⟩ := hpasses fun other hother => by
            rw [(hcomes.others _ (hne hother)).2]
            exact hall other (List.mem_cons_of_mem _ hother)
          cases h
    · intro e w' hcomes
      refine ⟨fun j hj => ?_, hcomes.ids, fun hall => ?_, fun ⟨_, h⟩ => by cases h⟩
      · rw [List.map_cons, List.mem_cons, not_or] at hj
        exact hcomes.others j hj.1
      · obtain ⟨_, h⟩ := hcomes.passes (hall call List.mem_cons_self)
        cases h

variable (T ws)

/-- The reconciliation of the run returns, however its calls are listed and identifiers are
chosen; the run then has no uncertain call, and those it had are resolved. -/
def Recovers (w : World) (runId : String) : Prop :=
  (∃ r w', Runs (T.freshly ws) (T.executor.reconcileUncertain runId) w r w') ∧
    ∀ r w', Runs (T.freshly ws) (T.executor.reconcileUncertain runId) w r w' → Passed r ∧
      (∀ call ∈ w'.journal.calls, ¬ Journal.Uncertain runId call) ∧
      ∀ call ∈ w.journal.calls, Journal.Uncertain runId call →
        Resolved w'.journal call.toolCallId

variable {T ws}

theorem reconcileUncertain_fulfils {runId : String}
    (hids : (w.journal.calls.map ToolCall.toolCallId).Nodup)
    (hretry : ∀ call ∈ w.journal.calls, Journal.Uncertain runId call →
      ∃ definition, T.Retryable call definition)
    (hnamed : ∀ result ∈ w.journal.results, NamedApart result) :
    (T.executor.reconcileUncertain runId).Fulfils (T.freshly ws)
      (fun r w' =>
        (∀ j, (∀ call ∈ w.journal.calls, Journal.Uncertain runId call → call.toolCallId ≠ j) →
          w'.journal.callOf j = w.journal.callOf j) ∧
        w'.journal.calls.map ToolCall.toolCallId = w.journal.calls.map ToolCall.toolCallId ∧
        ((∀ call ∈ w.journal.calls, Journal.Uncertain runId call →
          w.journal.resultOf call.toolCallId = none ∧ T.CanCheck ws call) → Passed r) ∧
        (Passed r → ∀ call ∈ w.journal.calls, Journal.Uncertain runId call →
          T.CanCheck ws call ∧ (Resolved w'.journal call.toolCallId ↔
            w.journal.resultOf call.toolCallId = none))) w := by
  unfold ToolExecutor.reconcileUncertain
  refine Fulfils.bind (Q := fun x w' => w = w' ∧ ∃ order,
    x = .ok (w.journal.uncertainCalls runId order)) (fulfils_perform (freshly_answers _ _) ?_) ?_ ?_
  · rintro x w' ⟨t, -, hop⟩
    obtain ⟨rfl, rfl⟩ := Prod.mk.inj hop
    exact ⟨rfl, t.order, rfl⟩
  · rintro calls _ ⟨rfl, order, hcalls⟩
    obtain rfl := Except.ok.inj hcalls
    obtain ⟨hnodup, hmem⟩ := @Journal.uncertainCalls_perm w.journal runId hids order
    have hrows : ∀ call ∈ w.journal.uncertainCalls runId order,
        w.journal.callOf call.toolCallId = some call := fun call hcall =>
      (Journal.callOf_eq_some hids).mpr ⟨((hmem call).mp hcall).1, rfl⟩
    refine Fulfils.bind (reconcileCalls_fulfils (fun call hcall => ?_) hnodup hrows hnamed) ?_ ?_
    · exact hretry call ((hmem call).mp hcall).1 ((hmem call).mp hcall).2
    · rintro reconciled w' ⟨hothers, hids', -, hchecked⟩
      refine ⟨fun j hj => (hothers j ?_).1, hids', fun _ => ⟨_, rfl⟩,
        fun _ call hcall huncertain => ?_⟩
      · intro hin
        obtain ⟨call, hcall, hid⟩ := List.mem_map.mp hin
        exact hj call ((hmem call).mp hcall).1 ((hmem call).mp hcall).2 hid
      · exact hchecked ⟨_, rfl⟩ call ((hmem call).mpr ⟨hcall, huncertain⟩)
    · rintro e w' ⟨hothers, hids', hpasses, -⟩
      refine ⟨fun j hj => (hothers j ?_).1, hids', fun hall => ?_, fun ⟨_, h⟩ => by cases h⟩
      · intro hin
        obtain ⟨call, hcall, hid⟩ := List.mem_map.mp hin
        exact hj call ((hmem call).mp hcall).1 ((hmem call).mp hcall).2 hid
      · obtain ⟨_, h⟩ := hpasses fun call hcall =>
          (hall call ((hmem call).mp hcall).1 ((hmem call).mp hcall).2).symm
        cases h
  · rintro e _ ⟨-, order, hcalls⟩
    cases hcalls

/-- Where the journal is in order, the run recovers exactly if each of its uncertain calls is
without a result and can be looked at. -/
theorem recovers_iff {runId : String} (hids : (w.journal.calls.map ToolCall.toolCallId).Nodup)
    (hretry : ∀ call ∈ w.journal.calls, Journal.Uncertain runId call →
      ∃ definition, T.Retryable call definition)
    (hnamed : ∀ result ∈ w.journal.results, NamedApart result) :
    T.Recovers ws w runId ↔ ∀ call ∈ w.journal.calls, Journal.Uncertain runId call →
      w.journal.resultOf call.toolCallId = none ∧ T.CanCheck ws call := by
  have hfulfils := @reconcileUncertain_fulfils T ws w runId hids hretry hnamed
  constructor
  · rintro ⟨⟨r, w', hrun⟩, hall⟩ call hcall huncertain
    obtain ⟨hpassed, -, hresolved⟩ := hall r w' hrun
    obtain ⟨-, -, -, hchecked⟩ := hfulfils.runs hrun
    obtain ⟨hcheck, hiff⟩ := hchecked hpassed call hcall huncertain
    exact ⟨hiff.mp (hresolved call hcall huncertain), hcheck⟩
  · intro hall
    refine ⟨hfulfils.exists_run, fun r w' hrun => ?_⟩
    obtain ⟨hothers, hids', hpasses, hchecked⟩ := hfulfils.runs hrun
    have hpassed := hpasses hall
    have hresolved : ∀ call ∈ w.journal.calls, Journal.Uncertain runId call →
        Resolved w'.journal call.toolCallId := fun call hcall huncertain =>
      (hchecked hpassed call hcall huncertain).2.mpr (hall call hcall huncertain).1
    refine ⟨hpassed, fun call hcall huncertain => ?_, hresolved⟩
    rw [← hids'] at hids
    have hfound := (Journal.callOf_eq_some hids).mpr ⟨hcall, rfl⟩
    by_cases hwas : ∃ before ∈ w.journal.calls, Journal.Uncertain runId before ∧
        before.toolCallId = call.toolCallId
    · obtain ⟨before, hbefore, huncertain', hid⟩ := hwas
      obtain ⟨row, hrow, hstatus⟩ := hresolved before hbefore huncertain'
      rw [hid, hfound] at hrow
      obtain rfl := Option.some.inj hrow
      have hunsettled : Unsettled call.status := huncertain.2
      rcases hstatus with ⟨hstatus, -⟩ | ⟨hstatus, -⟩
      · rw [hstatus] at hunsettled
        exact absurd hunsettled (by decide)
      · rw [hstatus] at hunsettled
        exact absurd hunsettled (by decide)
    · rw [hothers call.toolCallId fun before hbefore huncertain' hid =>
        hwas ⟨before, hbefore, huncertain', hid⟩] at hfound
      exact hwas ⟨call, List.mem_of_find?_eq_some hfound, huncertain, rfl⟩

/-- The registry finds the tools by their names. -/
theorem registry_get {name : String} {tool : Tool} (h : Tool.named name = some tool) :
    T.executor.registry.get name = .ok tool.definition := by
  have hfind : T.executor.registry.tools.find? (fun definition => definition.name = name) =
      some tool.definition := by
    change (Tool.all.map Tool.definition).find? _ = _
    rw [List.find?_map]
    change (Tool.named name).map Tool.definition = _
    rw [h]
    rfl
  unfold ToolRegistry.get
  rw [hfind]

variable {ι : Type} [DecidableEq ι]

/-- Whatever has happened to the files and to the executor before, the reconciliation of a run
whose uncertain calls are all to tools that may be retried passes exactly if none of these calls
has a result and each can be looked at. -/
theorem reconciliation_passes (T : Toolkit) (requests : ι → ToolRequest)
    (P : Pool JournalOp Exn World ι)
    (hrun : PoolRuns T.handle.exec.withFaults (requestPool T.executor requests) P)
    (runId : String) (ws : Workspace)
    (hsafe : ∀ call ∈ P.shared.journal.calls, Journal.Uncertain runId call →
      ∃ tool, Tool.named call.toolName = some tool ∧ tool.definition.retrySafe = true) :
    T.Recovers ws P.shared runId ↔
      ∀ call ∈ P.shared.journal.calls, Journal.Uncertain runId call →
        P.shared.journal.resultOf call.toolCallId = none ∧ T.CanCheck ws call := by
  have hfaulty : PoolRuns faulty (requestPool T.executor requests) P := by
    refine hrun.mono fun β op w x w' hop => hop.imp_left fun hop => ?_
    obtain ⟨t, hop⟩ := hop
    exact handle_exec hop
  have hholds : Holds T.executor NamedApart P.shared.journal := by
    refine stored_holds (fun β op w x w' hop => ?_) (fun _ => NamedApart.of_produced) hrun
    rcases hop with ⟨t, hop⟩ | ⟨e, rfl, rfl⟩
    · have hany : OfReconciled (fun _ => True) β op := by cases op <;> trivial
      exact ⟨handle_answers hop hany fun _ _ _ => .of_reconciled, .inl (handle_exec hop)⟩
    · exact ⟨reconciles_error op e, .inr rfl⟩
  refine recovers_iff (requestPool_consistent hfaulty).nodup_calls (fun call hcall huncertain => ?_)
    hholds.results
  obtain ⟨tool, htool, hretrySafe⟩ := hsafe call hcall huncertain
  obtain ⟨definition, hget, hclass⟩ := hholds.calls call hcall
  rw [registry_get htool] at hget
  obtain rfl := Except.ok.inj hget
  exact ⟨tool.definition, registry_get htool, hretrySafe, hclass⟩

end Toolkit

/-- The index of the interrupted call is stored, so the recovery passes. -/
theorem reconciliation_passes_index : ∃ P,
    PoolRuns openToolkit.handle.exec.withFaults
      (interruptedPool "repository.index" (.obj [("snapshot_id", .str "s1")])) P ∧
    (∃ call ∈ P.shared.journal.calls, Journal.Uncertain "run" call) ∧
    openToolkit.Recovers (rootWith []) P.shared "run" := by
  have hrun : PoolRuns openToolkit.handle.exec.withFaults
      (interruptedPool "repository.index" (.obj [("snapshot_id", .str "s1")]))
      ((interruptedPool "repository.index" (.obj [("snapshot_id", .str "s1")])).play
        (openToolkit.handleAt (rootWith [])) (List.replicate 7 (false, toolSupply))) := by
    refine (Pool.play_runs _ _ _).mono fun β op w x w' hop => .inl ?_
    obtain ⟨t, hop⟩ := hop
    exact ⟨_, hop⟩
  obtain ⟨call, hcalls⟩ : ∃ call, ((interruptedPool "repository.index"
      (.obj [("snapshot_id", .str "s1")])).play (openToolkit.handleAt (rootWith []))
        (List.replicate 7 (false, toolSupply))).shared.journal.calls = [call] := ⟨_, rfl⟩
  have hcall := List.cons.inj hcalls
  refine ⟨_, hrun, by decide, ?_⟩
  refine (Toolkit.reconciliation_passes openToolkit _ _ hrun "run" _ ?_).mpr ?_
  · rw [hcalls]
    intro call' hmem _
    rw [List.mem_singleton.mp hmem, ← hcall.1]
    exact ⟨.repositoryIndex, rfl, rfl⟩
  · rw [hcalls]
    intro call' hmem _
    rw [List.mem_singleton.mp hmem, ← hcall.1]
    refine ⟨rfl, ?_⟩
    change openToolkit.CanCheckIndex (rootWith []) _
    intro snapshotId index _ hindex
    change (if snapshotId = "s1" then some _ else none) = _ at hindex
    split at hindex
    · obtain rfl := Option.some.inj hindex
      rfl
    · cases hindex

/-- A file that an interrupted patch is for has been removed, so the recovery raises, and the call
stays uncertain. -/
theorem reconciliation_blocked : ∃ P w',
    PoolRuns openToolkit.handle.exec
      (interruptedPool "repository.patch" (.obj
        [("path", .str "a.txt"), ("old", .str "x"), ("new", .str "y"),
          ("expected_hash", .str "x"), ("expected_result_hash", .str "y")])) P ∧
    (∃ call ∈ P.shared.journal.calls, Journal.Uncertain "run" call ∧
      Tool.named call.toolName = some .patchApplication) ∧
    Tool.patchApplication.definition.retrySafe = true ∧
    Runs (openToolkit.handleAt (rootWith [])).exec
      (openToolkit.executor.reconcileUncertain "run") P.shared
      (.error (.of .securityPolicy "path cannot be safely resolved: a.txt")) w' ∧
    ∃ call ∈ w'.journal.calls, Journal.Uncertain "run" call := by
  refine ⟨_, _, (Pool.play_runs (openToolkit.handleAt (rootWith [("a.txt", [120])]))
    (List.replicate 7 (false, toolSupply)) _).mono fun β op w x w' hop => ?_, ?_, rfl,
    Handler.play_runs [toolSupply, toolSupply] rfl, ?_⟩
  · obtain ⟨t, hop⟩ := hop
    exact ⟨_, hop⟩
  · decide
  · decide

end DurableAgent.Tools
