import DurableAgent.Tools.AtMostOnce

/-!
# Statuses and results

A status write overwrites whatever it finds, and a result is refused only where one is stored
already. A reconciliation works on the calls that it listed at its start. So statuses agree with
the stored results as long as no write of a status comes after the call was closed, and exactly
as long.
-/

namespace DurableAgent.Tools

open Library
open Library.Prog hiding call

variable {E : ToolExecutor} {w w' : World} {s : Journal} {callId : String}

/-- A successful result is stored for the call. -/
def Succeeded (s : Journal) (call : ToolCall) : Prop :=
  ∃ result ∈ s.results, result.toolCallId = call.toolCallId ∧ result.success = true

instance (s : Journal) (call : ToolCall) : Decidable (Succeeded s call) :=
  inferInstanceAs (Decidable (∃ _ ∈ _, _))

/-- The calls marked SUCCEEDED are those for which a successful result is stored. -/
def Truthful (s : Journal) : Prop :=
  ∀ call ∈ s.calls, call.status = .SUCCEEDED ↔ Succeeded s call

instance (s : Journal) : Decidable (Truthful s) := inferInstanceAs (Decidable (∀ _ ∈ _, _))

/-- The statuses that no call should leave -/
def Closed (status : ToolCallStatus) : Prop := status = .SUCCEEDED ∨ status = .NEEDS_REVIEW

instance (status : ToolCallStatus) : Decidable (Closed status) :=
  inferInstanceAs (Decidable (_ ∨ _))

/-- Every closed call is there still, in the same status. -/
def KeepsClosed (s s' : Journal) : Prop :=
  ∀ call ∈ s.calls, Closed call.status →
    ∃ call' ∈ s'.calls, call'.toolCallId = call.toolCallId ∧ call'.status = call.status

instance (s s' : Journal) : Decidable (KeepsClosed s s') :=
  inferInstanceAs (Decidable (∀ _ ∈ _, _))

theorem KeepsClosed.refl (s : Journal) : KeepsClosed s s :=
  fun call hcall _ => ⟨call, hcall, rfl, rfl⟩

/-- No write of a status comes after its call was closed, and no result that is not refused
comes after a call was left to a review. -/
def Timely : (β : Type) → JournalOp β → World → Prop
  | _, .updateStatus callId status, w => ∀ call ∈ w.journal.calls, call.toolCallId = callId →
      Closed call.status → status = call.status
  | _, .recordResult result, w =>
      (∀ row ∈ w.journal.results, row.toolResultId ≠ result.toolResultId ∧
        row.toolCallId ≠ result.toolCallId) →
      ∀ call ∈ w.journal.calls, call.toolCallId = result.toolCallId → call.status ≠ .NEEDS_REVIEW
  | _, _, _ => True

/-- The calls whose effects are timely, each of which may also fail without effect. -/
abbrev timely : Exec JournalOp Exn World := (handle.exec.guard Timely).withFaults

/-! ## Rows that change -/

theorem mem_modify {f : ToolCall → ToolCall} {call : ToolCall} :
    call ∈ (s.modify callId f).calls ↔
      ∃ row ∈ s.calls, (if row.toolCallId = callId then f row else row) = call := by
  simp [Journal.modify]

theorem mem_modify_of_ne {f : ToolCall → ToolCall} {call : ToolCall} (hcall : call ∈ s.calls)
    (hne : call.toolCallId ≠ callId) : call ∈ (s.modify callId f).calls :=
  mem_modify.mpr ⟨call, hcall, if_neg hne⟩

theorem mem_modify_self {f : ToolCall → ToolCall} {call : ToolCall} (hcall : call ∈ s.calls)
    (hid : call.toolCallId = callId) : f call ∈ (s.modify callId f).calls :=
  mem_modify.mpr ⟨call, hcall, if_pos hid⟩

/-- Calls are stored under distinct identifiers. -/
theorem Consistent.nodup_calls (h : Consistent E w) :
    (w.journal.calls.map ToolCall.toolCallId).Nodup := by
  have hids := h.ids
  rw [Journal.identities, List.map_map] at hids
  exact hids

/-- Every result is that of a stored call. -/
def Referring (s : Journal) : Prop :=
  ∀ result ∈ s.results, ∃ call ∈ s.calls, call.toolCallId = result.toolCallId

theorem Referring.modify (h : Referring s) {f : ToolCall → ToolCall}
    (hf : ∀ row, (f row).toolCallId = row.toolCallId) : Referring (s.modify callId f) := by
  intro result hresult
  obtain ⟨call, hcall, hid⟩ := h result hresult
  by_cases hsame : call.toolCallId = callId
  · exact ⟨f call, mem_modify_self hcall hsame, (hf call).trans hid⟩
  · exact ⟨call, mem_modify_of_ne hcall hsame, hid⟩

/-- A status that is not SUCCEEDED, of a call without a successful result. -/
theorem Truthful.modify (h : Truthful s) {f : ToolCall → ToolCall}
    (hf : ∀ row, (f row).toolCallId = row.toolCallId)
    (hstatus : ∀ row ∈ s.calls, row.toolCallId = callId →
      row.status ≠ .SUCCEEDED ∧ (f row).status ≠ .SUCCEEDED) :
    Truthful (s.modify callId f) := by
  intro call hcall
  obtain ⟨row, hrow, rfl⟩ := mem_modify.mp hcall
  by_cases hid : row.toolCallId = callId
  · rw [if_pos hid]
    obtain ⟨hbefore, hafter⟩ := hstatus row hrow hid
    have hnone : ¬ Succeeded s row := fun hdone => hbefore ((h row hrow).mpr hdone)
    constructor
    · intro hdone
      exact absurd hdone hafter
    · rintro ⟨result, hresult, hof, hsuccess⟩
      exact absurd ⟨result, hresult, hof.trans (hf row), hsuccess⟩ hnone
  · rw [if_neg hid]
    exact h row hrow

theorem keepsClosed_modify {f : ToolCall → ToolCall}
    (hf : ∀ row, (f row).toolCallId = row.toolCallId)
    (hstatus : ∀ row ∈ s.calls, row.toolCallId = callId → Closed row.status →
      (f row).status = row.status) : KeepsClosed s (s.modify callId f) := by
  intro call hcall hclosed
  by_cases hid : call.toolCallId = callId
  · exact ⟨f call, mem_modify_self hcall hid, hf call, hstatus call hcall hid hclosed⟩
  · exact ⟨call, mem_modify_of_ne hcall hid, rfl, rfl⟩

/-! ## What the executor writes -/

/-- An intent is recorded open, and SUCCEEDED is not written without a result. -/
def Marks : (β : Type) → JournalOp β → Prop
  | _, .recordIntent call => call.status = .INTENT_RECORDED
  | _, .updateStatus _ status => status ≠ .SUCCEEDED
  | _, _ => True

theorem runCall_marks {definition : ToolDefinition} {toolName : String} {arguments : Json}
    {call : ToolCall} : (E.runCall definition toolName arguments call).Calls Marks := by
  unfold ToolExecutor.runCall
  refine Calls.bind (calls_perform.mpr (by simp [Marks])) fun _ => ?_
  refine Calls.bind (calls_perform.mpr trivial) fun started => ?_
  refine Calls.bind (Calls.tryCatch ?_ fun exc => ?_) fun output => ?_
  · unfold ToolExecutor.runBody
    refine Calls.bind (calls_perform.mpr trivial) fun rawOutput => ?_
    exact Calls.bind (p := Prog.done _) trivial fun _ => trivial
  · exact Calls.bind (calls_perform.mpr (by simp [Marks])) fun _ => trivial
  · refine Calls.bind (calls_perform.mpr trivial) fun toolResultId => ?_
    refine Calls.bind (calls_perform.mpr trivial) fun finished => ?_
    refine Calls.bind (calls_perform.mpr trivial) fun createdAt => ?_
    exact Calls.bind (calls_perform.mpr trivial) fun _ => trivial

theorem runFound_marks {definition : ToolDefinition} {runId taskId toolName key : String}
    {arguments : Json} (found : Option (ToolCall × Option ToolResult)) :
    (E.runFound definition runId taskId toolName arguments key found).Calls Marks := by
  cases found with
  | none =>
    change (E.runNew definition runId taskId toolName arguments key).Calls Marks
    unfold ToolExecutor.runNew
    refine Calls.bind (calls_perform.mpr trivial) fun toolCallId => ?_
    refine Calls.bind (calls_perform.mpr trivial) fun createdAt => ?_
    exact Calls.bind (calls_perform.mpr rfl) fun _ => runCall_marks
  | some entry =>
    change (E.runExisting definition toolName arguments entry.1 entry.2).Calls Marks
    unfold ToolExecutor.runExisting
    split
    · trivial
    · cases entry.2 with
      | some result => trivial
      | none =>
        dsimp only
        split
        · exact Calls.bind (calls_perform.mpr trivial) fun _ => runCall_marks
        · trivial

theorem reconcileCall_marks (call : ToolCall) : (E.reconcileCall call).Calls Marks := by
  unfold ToolExecutor.reconcileCall
  refine Calls.bind (p := Prog.done _) trivial fun definition => ?_
  refine Calls.bind (calls_perform.mpr trivial) fun result => ?_
  cases result with
  | some result => exact Calls.bind (calls_perform.mpr trivial) fun _ => trivial
  | none =>
    dsimp only
    split
    · exact Calls.bind (calls_perform.mpr (by simp [Marks])) fun _ => trivial
    · split
      · exact Calls.bind (calls_perform.mpr (by simp [Marks])) fun _ => trivial
      · exact Calls.bind (calls_perform.mpr (by simp [Marks])) fun _ => trivial

theorem program_marks (request : ToolRequest) : (request.program E).Calls Marks := by
  cases request with
  | execute runId taskId toolName arguments key =>
    refine Calls.bind ?_ fun _ => trivial
    unfold ToolExecutor.execute
    refine Calls.bind (p := Prog.done _) trivial fun definition => ?_
    refine Calls.bind (p := Prog.done _) trivial fun _ => ?_
    exact Calls.bind (calls_perform.mpr trivial) runFound_marks
  | reconcileUncertain runId =>
    refine Calls.bind ?_ fun _ => trivial
    unfold ToolExecutor.reconcileUncertain
    refine Calls.bind (calls_perform.mpr trivial) fun calls => ?_
    exact Calls.bind (Calls.mapM' reconcileCall_marks calls) fun _ => trivial

/-! ## One step -/

theorem recordIntent_truthful {call : ToolCall} {s' : Journal} (h : Truthful s)
    (href : Referring s) (hstatus : call.status = .INTENT_RECORDED)
    (hok : s.recordIntent call = .ok s') : Truthful s' ∧ Referring s' ∧ KeepsClosed s s' := by
  obtain ⟨hfresh, rfl⟩ := Journal.recordIntent_eq_ok hok
  refine ⟨fun row hrow => ?_, fun result hresult => ?_, fun row hrow _ => ?_⟩
  · rcases List.mem_cons.mp hrow with rfl | hrow
    · constructor
      · intro hdone
        rw [hstatus] at hdone
        cases hdone
      · rintro ⟨result, hresult, hof, -⟩
        obtain ⟨other, hother, hid⟩ := href result hresult
        exact absurd (hid.trans hof) (hfresh other hother).1
    · exact h row hrow
  · obtain ⟨other, hother, hid⟩ := href result hresult
    exact ⟨other, List.mem_cons_of_mem call hother, hid⟩
  · exact ⟨row, List.mem_cons_of_mem call hrow, rfl, rfl⟩

theorem updateStatus_truthful {status : ToolCallStatus} {now : Timestamp} (h : Truthful s)
    (href : Referring s) (hmarks : status ≠ .SUCCEEDED)
    (htimely : ∀ call ∈ s.calls, call.toolCallId = callId → Closed call.status →
      status = call.status) :
    Truthful (s.modify callId (Journal.withStatus status now)) ∧
      Referring (s.modify callId (Journal.withStatus status now)) ∧
      KeepsClosed s (s.modify callId (Journal.withStatus status now)) := by
  refine ⟨h.modify (fun _ => rfl) fun row hrow hid => ⟨fun hdone => ?_, hmarks⟩,
    href.modify fun _ => rfl, keepsClosed_modify (fun _ => rfl) htimely⟩
  exact hmarks ((htimely row hrow hid (.inl hdone)).trans hdone)

theorem prepareRetry_truthful {found : ToolCall} {s' : Journal} (h : Truthful s)
    (href : Referring s) (hids : (s.calls.map ToolCall.toolCallId).Nodup)
    (hok : s.prepareRetry callId = .ok (found, s')) :
    Truthful s' ∧ Referring s' ∧ KeepsClosed s s' := by
  obtain ⟨-, hfound, hid, hstatus, rfl⟩ := Journal.prepareRetry_eq_ok hok
  have hrow : ∀ row ∈ s.calls, row.toolCallId = callId → row.status = .FAILED := by
    intro row hrow hsame
    rw [List.inj_on_of_nodup_map hids hrow hfound (hsame.trans hid.symm)]
    exact hstatus
  refine ⟨h.modify (fun _ => rfl) fun row hmem hsame => ?_, href.modify fun _ => rfl,
    keepsClosed_modify (fun _ => rfl) fun row hmem hsame hclosed => ?_⟩
  · simp [hrow row hmem hsame, Journal.reopened]
  · rcases hclosed with hclosed | hclosed
    · simp [hrow row hmem hsame] at hclosed
    · simp [hrow row hmem hsame] at hclosed

/-- A result that is not refused is the first one of its call. -/
theorem recordResult_accepted {result : ToolResult} {now : Timestamp} {s' : Journal}
    (hok : s.recordResult result now = .ok s') :
    (∀ row ∈ s.results, row.toolResultId ≠ result.toolResultId ∧
      row.toolCallId ≠ result.toolCallId) ∧
    (∃ call ∈ s.calls, call.toolCallId = result.toolCallId) ∧
    s' = { s with results := result :: s.results }.modify result.toolCallId fun row =>
      { row with
        status := if result.success then .SUCCEEDED else .FAILED, finishedAt := some now } := by
  unfold Journal.recordResult at hok
  split at hok
  · cases hok
  · next hfresh =>
    rw [not_or, not_not] at hfresh
    refine ⟨fun row hrow => ⟨fun hid => ?_, fun hid => ?_⟩, ?_, (Except.ok.inj hok).symm⟩
    · exact hfresh.1 (List.any_eq_true.mpr ⟨row, hrow, by simp [hid]⟩)
    · exact hfresh.1 (List.any_eq_true.mpr ⟨row, hrow, by simp [hid]⟩)
    · simpa using hfresh.2

theorem recordResult_truthful {result : ToolResult} {now : Timestamp} {s' : Journal}
    (h : Truthful s) (href : Referring s)
    (htimely : (∀ row ∈ s.results, row.toolResultId ≠ result.toolResultId ∧
        row.toolCallId ≠ result.toolCallId) →
      ∀ call ∈ s.calls, call.toolCallId = result.toolCallId → call.status ≠ .NEEDS_REVIEW)
    (hok : s.recordResult result now = .ok s') :
    Truthful s' ∧ Referring s' ∧ KeepsClosed s s' := by
  obtain ⟨hfresh, hstored, rfl⟩ := recordResult_accepted hok
  refine ⟨fun call hcall => ?_, Referring.modify ?_ fun _ => rfl, fun call hcall hclosed => ?_⟩
  · obtain ⟨row, hrow, rfl⟩ := mem_modify.mp hcall
    by_cases hid : row.toolCallId = result.toolCallId
    · rw [if_pos hid]
      cases hsuccess : result.success with
      | true =>
        exact ⟨fun _ => ⟨result, List.mem_cons_self, hid.symm, hsuccess⟩, fun _ => by simp⟩
      | false =>
        constructor
        · intro hdone
          simp at hdone
        · rintro ⟨other, hother, hof, hdone⟩
          rcases List.mem_cons.mp hother with rfl | hother
          · simp [hsuccess] at hdone
          · exact absurd (hof.trans hid) (hfresh other hother).2
    · rw [if_neg hid, h row hrow]
      constructor
      · rintro ⟨other, hother, hof, hdone⟩
        exact ⟨other, List.mem_cons_of_mem result hother, hof, hdone⟩
      · rintro ⟨other, hother, hof, hdone⟩
        rcases List.mem_cons.mp hother with rfl | hother
        · exact absurd hof.symm hid
        · exact ⟨other, hother, hof, hdone⟩
  · intro other hother
    rcases List.mem_cons.mp hother with rfl | hother
    · exact hstored
    · exact href other hother
  · by_cases hid : call.toolCallId = result.toolCallId
    · -- a call that has succeeded has a result, so that another one is refused
      rcases hclosed with hdone | hreview
      · obtain ⟨other, hother, hof, -⟩ := (h call hcall).mp hdone
        exact absurd (hof.trans hid) (hfresh other hother).2
      · exact absurd hreview (htimely hfresh call hcall hid)
    · exact ⟨call, mem_modify_of_ne hcall hid, rfl, rfl⟩

/-- A timely call keeps statuses and results in agreement, and closed calls closed. -/
theorem timely_step {β : Type} {op : JournalOp β} {x : Except Exn β} (hconsistent : Consistent E w)
    (h : Truthful w.journal) (href : Referring w.journal) (hmarks : Marks β op)
    (htimely : Timely β op w) (hop : handle.exec β op w x w') :
    Truthful w'.journal ∧ Referring w'.journal ∧ KeepsClosed w.journal w'.journal := by
  obtain ⟨t, hop⟩ := hop
  have hsame : Truthful w.journal ∧ Referring w.journal ∧ KeepsClosed w.journal w.journal :=
    ⟨h, href, .refl _⟩
  cases op with
  | now | newId | getByIdempotencyKey | uncertainCalls | reconcileTool | runTool =>
    obtain ⟨-, rfl⟩ := Prod.mk.inj hop
    exact hsame
  | recordIntent call =>
    simp only [handle] at hop
    split at hop
    · next journal hok =>
      obtain ⟨-, rfl⟩ := Prod.mk.inj hop
      exact recordIntent_truthful h href hmarks hok
    · obtain ⟨-, rfl⟩ := Prod.mk.inj hop
      exact hsame
  | updateStatus callId status =>
    simp only [handle] at hop
    split at hop
    · next journal hok =>
      obtain ⟨-, rfl⟩ := Prod.mk.inj hop
      obtain rfl := Journal.updateStatus_eq_ok hok
      exact updateStatus_truthful h href hmarks htimely
    · obtain ⟨-, rfl⟩ := Prod.mk.inj hop
      exact hsame
  | prepareRetry callId =>
    simp only [handle] at hop
    split at hop
    · next found journal hok =>
      obtain ⟨-, rfl⟩ := Prod.mk.inj hop
      exact prepareRetry_truthful h href hconsistent.nodup_calls hok
    · obtain ⟨-, rfl⟩ := Prod.mk.inj hop
      exact hsame
  | recordResult result =>
    simp only [handle] at hop
    split at hop
    · next journal hok =>
      obtain ⟨-, rfl⟩ := Prod.mk.inj hop
      exact recordResult_truthful h href htimely hok
    · obtain ⟨-, rfl⟩ := Prod.mk.inj hop
      exact hsame

/-- A call that keeps closed calls closed was timely. -/
theorem timely_of_keepsClosed {β : Type} {op : JournalOp β} {x : Except Exn β}
    (hconsistent : Consistent E w) (hop : handle.exec β op w x w')
    (hkeeps : KeepsClosed w.journal w'.journal) : Timely β op w := by
  obtain ⟨t, hop⟩ := hop
  have hids := hconsistent.nodup_calls
  cases op with
  | updateStatus callId status =>
    intro call hcall hid hclosed
    obtain ⟨journal, hok⟩ : ∃ journal, w.journal.updateStatus callId status t.now = .ok journal := by
      unfold Journal.updateStatus
      rw [if_pos (List.any_eq_true.mpr ⟨call, hcall, by simp [hid]⟩)]
      exact ⟨_, rfl⟩
    simp only [handle, hok] at hop
    obtain ⟨-, rfl⟩ := Prod.mk.inj hop
    obtain rfl := Journal.updateStatus_eq_ok hok
    obtain ⟨call', hcall', hid', hstatus⟩ := hkeeps call hcall hclosed
    obtain ⟨row, hrow, rfl⟩ := mem_modify.mp hcall'
    by_cases hrowId : row.toolCallId = callId
    · rw [if_pos hrowId] at hstatus
      exact hstatus
    · rw [if_neg hrowId] at hid'
      exact absurd (hid'.trans hid) hrowId
  | recordResult result =>
    intro hfresh call hcall hid hreview
    obtain ⟨journal, hok⟩ : ∃ journal, w.journal.recordResult result t.now = .ok journal := by
      unfold Journal.recordResult
      rw [if_neg]
      · exact ⟨_, rfl⟩
      · rw [not_or, not_not]
        refine ⟨fun hany => ?_, List.any_eq_true.mpr ⟨call, hcall, by simp [hid]⟩⟩
        obtain ⟨row, hrow, hsame⟩ := List.any_eq_true.mp hany
        rcases of_decide_eq_true hsame with hsame | hsame
        · exact (hfresh row hrow).1 hsame
        · exact (hfresh row hrow).2 hsame
    simp only [handle, hok] at hop
    obtain ⟨-, rfl⟩ := Prod.mk.inj hop
    obtain ⟨-, -, rfl⟩ := recordResult_accepted hok
    obtain ⟨call', hcall', hid', hstatus⟩ := hkeeps call hcall (.inr hreview)
    obtain ⟨row, hrow, rfl⟩ := mem_modify.mp hcall'
    by_cases hrowId : row.toolCallId = result.toolCallId
    · rw [if_pos hrowId, hreview] at hstatus
      cases hsuccess : result.success with
      | true => simp [hsuccess] at hstatus
      | false => simp [hsuccess] at hstatus
    · rw [if_neg hrowId] at hid'
      exact absurd (hid'.trans hid) hrowId
  | _ => trivial

/-! ## Every run -/

variable {ι : Type} [DecidableEq ι] {P P' : Pool JournalOp Exn World ι}

/-- One step that leaves statuses and results in agreement and closed calls closed. -/
def FaithfulStep (P P' : Pool JournalOp Exn World ι) : Prop :=
  (∃ i, PoolStep faulty P i P') ∧ Truthful P'.shared.journal ∧
    KeepsClosed P.shared.journal P'.shared.journal

theorem timely_faulty {β : Type} {op : JournalOp β} {x : Except Exn β}
    (h : timely β op w x w') : faulty β op w x w' :=
  h.imp_left And.right

/-- A faithful step is a timely one. -/
theorem FaithfulStep.timely (h : FaithfulStep P P') (hconsistent : Consistent E P.shared) :
    ∃ i, PoolStep timely P i P' := by
  obtain ⟨⟨i, hstep⟩, -, hkeeps⟩ := h
  obtain ⟨hi, hop⟩ := hstep
  rcases hop with hop | hfault
  · exact ⟨i, .call hi (.inl ⟨timely_of_keepsClosed hconsistent hop hkeeps, hop⟩)⟩
  · exact ⟨i, .call hi (.inr hfault)⟩

/-- The journal in an interleaving whose steps are timely, with what its callers still write. -/
structure Agreeing (P : Pool JournalOp Exn World ι) : Prop where
  truthful : Truthful P.shared.journal
  referring : Referring P.shared.journal
  marks : ∀ i, (P.threads i).Calls Marks

theorem Agreeing.step (h : Agreeing P) (hconsistent : Consistent E P.shared) {i : ι}
    (hstep : PoolStep timely P i P') : Agreeing P' ∧ FaithfulStep P P' := by
  cases hstep with
  | @call β P i op k x w' hi hop =>
    have hcalls := h.marks i
    rw [hi] at hcalls
    have hmarks (j : ι) : (Function.update P.threads i (k x) j).Calls Marks := by
      by_cases hj : j = i
      · rw [hj, Function.update_self]
        exact hcalls.2 x
      · rw [Function.update_of_ne hj]
        exact h.marks j
    have hfaulty : PoolStep faulty P i ⟨Function.update P.threads i (k x), w'⟩ :=
      .call hi (timely_faulty hop)
    rcases hop with ⟨htimely, hop⟩ | ⟨e, -, rfl⟩
    · obtain ⟨htruthful, hreferring, hkeeps⟩ :=
        timely_step hconsistent h.truthful h.referring hcalls.1 htimely hop
      exact ⟨⟨htruthful, hreferring, hmarks⟩, ⟨i, hfaulty⟩, htruthful, hkeeps⟩
    · exact ⟨⟨h.truthful, h.referring, hmarks⟩, ⟨i, hfaulty⟩, h.truthful, .refl _⟩

omit [DecidableEq ι] in
theorem requestPool_agreeing (requests : ι → ToolRequest) :
    Agreeing (requestPool E requests) where
  truthful call hcall := by cases hcall
  referring result hresult := by cases hresult
  marks i := program_marks (requests i)

theorem requestPool_consistent {requests : ι → ToolRequest}
    (hrun : PoolRuns faulty (requestPool E requests) P) : Consistent E P.shared :=
  ((requestPool_safe requests).runs hrun).2.1

/-- An interleaving of executions and reconciliations leaves statuses and results in agreement
in all of its states, and no call leaves SUCCEEDED or NEEDS_REVIEW in it, exactly if all of its
steps are timely. -/
theorem tool_statuses (E : ToolExecutor) (requests : ι → ToolRequest)
    (P : Pool JournalOp Exn World ι) :
    Relation.ReflTransGen FaithfulStep (requestPool E requests) P ↔
      PoolRuns timely (requestPool E requests) P := by
  constructor
  · intro hrun
    suffices h : PoolRuns faulty (requestPool E requests) P ∧
        PoolRuns timely (requestPool E requests) P from h.2
    induction hrun with
    | refl => exact ⟨.refl, .refl⟩
    | tail _ hlast ih =>
      obtain ⟨hfaulty, htimely⟩ := ih
      exact ⟨hfaulty.tail hlast.1, htimely.tail (hlast.timely (requestPool_consistent hfaulty))⟩
  · intro hrun
    suffices h : PoolRuns faulty (requestPool E requests) P ∧ Agreeing P ∧
        Relation.ReflTransGen FaithfulStep (requestPool E requests) P from h.2.2
    induction hrun with
    | refl => exact ⟨.refl, requestPool_agreeing requests, .refl⟩
    | tail _ hlast ih =>
      obtain ⟨hfaulty, hagreeing, hfaithful⟩ := ih
      obtain ⟨i, hlast⟩ := hlast
      obtain ⟨hagreeing', hstep⟩ := hagreeing.step (requestPool_consistent hfaulty) hlast
      exact ⟨hfaulty.tail hstep.1, hagreeing', hfaithful.tail hstep⟩

/-- An execution, and a reconciliation of its run. -/
def overtakenPool : Pool JournalOp Exn World Bool :=
  requestPool echoExecutor fun reconciles =>
    if reconciles then .reconcileUncertain "run" else .execute "run" "task" "echo" (.obj []) "key"

/-- The reconciliation lists the call while its tool is at work, and the result is stored. -/
def overtakenSchedule : List (Bool × Supply) :=
  List.replicate 10 (false, echoSupply) ++ List.replicate 2 (true, echoSupply) ++
    [(false, echoSupply)]

/-- A reconciliation lists a call whose tool is still at work. The tool's result is stored, and
then the reconciliation marks the call failed. -/
theorem tool_statuses_overtaken : ∃ P P' : Pool JournalOp Exn World Bool,
    PoolRuns faulty overtakenPool P ∧ PoolRuns faulty P P' ∧ Truthful P.shared.journal ∧
      ¬ Truthful P'.shared.journal ∧ ¬ KeepsClosed P.shared.journal P'.shared.journal := by
  have hrun (schedule : List (Bool × Supply)) (P : Pool JournalOp Exn World Bool) :
      PoolRuns faulty P (P.play handle schedule) :=
    (Pool.play_runs handle schedule P).mono fun _ _ _ _ _ => .inl
  refine ⟨overtakenPool.play handle overtakenSchedule,
    (overtakenPool.play handle overtakenSchedule).play handle [(true, echoSupply)],
    hrun _ _, hrun _ _, ?_, ?_, ?_⟩
  · decide
  · decide
  · decide

end DurableAgent.Tools
