import DurableAgent.Tools.UniformResults

/-!
# What the tools can look at

The tools that look at a file raise where it cannot be reached or read, and the index tool raises
where the index is of another root. Everywhere else a reconciliation answers.
-/

namespace DurableAgent.Tools

open Security

namespace Toolkit

variable (T : Toolkit)

/-- The target of a write can be looked for, and where it is there it can be read. -/
def CanCheckWrite (ws : Workspace) (call : ToolCall) : Prop :=
  ∃ target path, argument call "path" = .ok target ∧
    Confined ws.files T.repositoryRoot (pyStr T.isPrintable target) false path ∧
    (ws.files.isThere path = .ok false ∨
      ws.files.isThere path = .ok true ∧ (∃ content, argument call "content" = .ok content) ∧
        ∃ found, ws.files.read path = .ok (some found))

/-- The target of a patch is there and can be read. -/
def CanCheckPatch (ws : Workspace) (call : ToolCall) : Prop :=
  ∃ target path raw, argument call "path" = .ok target ∧
    Confined ws.files T.repositoryRoot (pyStr T.isPrintable target) true path ∧
    ws.files.read path = .ok (some raw) ∧
    ∃ expected, argument call "expected_result_hash" = .ok expected

/-- A stored index of the snapshot is one of the tool's root. -/
def CanCheckIndex (ws : Workspace) (call : ToolCall) : Prop :=
  ∀ snapshotId index, argument call "snapshot_id" = .ok (.str snapshotId) →
    ws.indexes snapshotId = some index →
    ws.files.resolveAny (.ofString index.snapshot.root) = .ok T.indexRoot

/-- The tool can look at what its call has left. -/
def CanCheck (ws : Workspace) (call : ToolCall) : Prop :=
  match Tool.named call.toolName with
  | some .controlledFileWriter => T.CanCheckWrite ws call
  | some .patchApplication => T.CanCheckPatch ws call
  | some .repositoryIndex => T.CanCheckIndex ws call
  | _ => True

variable {T} {ws : Workspace} {now : Timestamp} {freshId : String} {call : ToolCall}

/-! ## When a reconciliation answers -/

theorem exists_bind_ok {ε α β : Type} {r : Except ε α} {f : α → Except ε β} :
    (∃ b, (r >>= f) = .ok b) ↔ ∃ a, r = .ok a ∧ ∃ b, f a = .ok b := by
  simp only [bind_eq_ok]
  constructor
  · rintro ⟨b, a, ha, hb⟩
    exact ⟨a, ha, b, hb⟩
  · rintro ⟨a, ha, b, hb⟩
    exact ⟨b, a, ha, hb⟩

/-- What is below the root has a result. -/
theorem exists_fileResult {candidate : String} {mustExist : Bool} {path : PurePath}
    (h : Confined ws.files T.repositoryRoot candidate mustExist path) (content : List UInt8) :
    ∃ output, T.fileResult ws path content = .ok output := by
  obtain ⟨root, hroot, -, relative, hrelative, -⟩ := h
  unfold fileResult
  rw [ws.files.resolveAny_of_resolve _ _ hroot]
  refine exists_bind_ok.mpr ⟨root, rfl, ?_⟩
  rw [hrelative]
  exact ⟨_, rfl⟩

theorem reconcileWrite_answers :
    (∃ reconciled, T.reconcileWrite ws now call = .ok reconciled) ↔ T.CanCheckWrite ws call := by
  unfold reconcileWrite CanCheckWrite
  rw [exists_bind_ok]
  refine exists_congr fun target => ?_
  rw [exists_bind_ok]
  simp only [resolveWithinRoot_eq_ok, exists_bind_ok, mapError_eq_ok]
  constructor
  · rintro ⟨htarget, path, hpath, isThere, hthere, hrest⟩
    refine ⟨path, htarget, hpath, ?_⟩
    cases isThere with
    | false => exact .inl hthere
    | true =>
      obtain ⟨content, hcontent, hrest⟩ := exists_bind_ok.mp hrest
      obtain ⟨found, hfound, -⟩ := exists_bind_ok.mp hrest
      exact .inr ⟨hthere, ⟨content, hcontent⟩, found, openReadonlyNoFollow_eq_ok.mp hfound⟩
  · rintro ⟨path, htarget, hpath, hthere | ⟨hthere, ⟨content, hcontent⟩, found, hfound⟩⟩
    · exact ⟨htarget, path, hpath, false, hthere, none, rfl⟩
    · refine ⟨htarget, path, hpath, true, hthere, ?_⟩
      refine exists_bind_ok.mpr ⟨content, hcontent, exists_bind_ok.mpr
        ⟨found, openReadonlyNoFollow_eq_ok.mpr hfound, ?_⟩⟩
      split
      · obtain ⟨output, houtput⟩ := exists_fileResult hpath found
        exact exists_bind_ok.mpr ⟨output, houtput, _, rfl⟩
      · exact ⟨none, rfl⟩

theorem reconcilePatch_answers :
    (∃ reconciled, T.reconcilePatch ws now call = .ok reconciled) ↔ T.CanCheckPatch ws call := by
  unfold reconcilePatch CanCheckPatch
  rw [exists_bind_ok]
  refine exists_congr fun target => ?_
  rw [exists_bind_ok]
  simp only [resolveWithinRoot_eq_ok, exists_bind_ok, openReadonlyNoFollow_eq_ok]
  constructor
  · rintro ⟨htarget, path, hpath, raw, hraw, expected, hexpected, -⟩
    exact ⟨path, raw, htarget, hpath, hraw, expected, hexpected⟩
  · rintro ⟨path, raw, htarget, hpath, hraw, expected, hexpected⟩
    refine ⟨htarget, path, hpath, raw, hraw, expected, hexpected, ?_⟩
    split
    · split
      · obtain ⟨output, houtput⟩ := exists_fileResult hpath raw
        exact exists_bind_ok.mpr ⟨output, houtput, _, rfl⟩
      · exact ⟨none, rfl⟩
    · exact ⟨none, rfl⟩

theorem reconcileIndex_answers :
    (∃ reconciled, T.reconcileIndex ws now freshId call = .ok reconciled) ↔
      T.CanCheckIndex ws call := by
  unfold reconcileIndex CanCheckIndex
  cases hargument : argument call "snapshot_id" with
  | error e => simp
  | ok value =>
    cases value with
    | str snapshotId =>
      dsimp only
      cases hindex : ws.indexes snapshotId with
      | none =>
        refine ⟨fun _ => ?_, fun _ => ⟨none, rfl⟩⟩
        rintro _ index ⟨⟩ hother
        rw [hindex] at hother
        cases hother
      | some index =>
        simp only [exists_bind_ok, mapError_eq_ok]
        constructor
        · rintro ⟨root, hroot, hrest⟩ _ _ ⟨⟩ hother
          rw [hindex] at hother
          obtain rfl := Option.some.inj hother
          by_cases hsame : root = T.indexRoot
          · rw [← hsame]
            exact hroot
          · simp [hsame] at hrest
        · intro h
          refine ⟨T.indexRoot, h snapshotId index rfl hindex, ?_⟩
          simp only [ne_eq, not_true_eq_false, if_false]
          exact ⟨_, rfl⟩
    | _ => simp

/-- A tool answers exactly where it can look at what its call has left. -/
theorem reconcile_answers :
    (∃ reconciled, T.reconcile ws now freshId call = .ok reconciled) ↔ T.CanCheck ws call := by
  unfold reconcile CanCheck
  cases Tool.named call.toolName with
  | none => simp
  | some tool =>
    cases tool with
    | controlledFileWriter => exact reconcileWrite_answers
    | patchApplication => exact reconcilePatch_answers
    | repositoryIndex => exact reconcileIndex_answers
    | _ => exact ⟨fun _ => trivial, fun _ => ⟨none, rfl⟩⟩

/-- The result is named as the executor names its results, or after its call. -/
def NamedApart (result : ToolResult) : Prop :=
  (∃ freshId : String, result.toolResultId = s!"toolresult-{freshId}") ∨
    result.toolResultId = s!"reconciled-{result.toolCallId}"

/-- What a tool reconciles is a success of the call that it was asked about. -/
theorem reconcile_eq_some {result : ToolResult}
    (h : T.reconcile ws now freshId call = .ok (some result)) :
    result.toolCallId = call.toolCallId ∧ result.success = true ∧
      (result.toolResultId = s!"toolresult-{freshId}" ∨
        result.toolResultId = s!"reconciled-{call.toolCallId}") := by
  unfold reconcile at h
  split at h
  · next tool _ =>
    cases tool with
    | controlledFileWriter =>
      obtain ⟨-, output, rfl⟩ := reconcileWrite_eq_some h
      exact ⟨rfl, rfl, .inr rfl⟩
    | patchApplication =>
      obtain ⟨-, output, rfl⟩ := reconcilePatch_eq_some h
      exact ⟨rfl, rfl, .inr rfl⟩
    | repositoryIndex =>
      obtain ⟨_, _, -, -, -, hid, hcall, hsuccess, -, -⟩ := reconcileIndex_eq_some h
      exact ⟨hcall, hsuccess, .inl hid⟩
    | _ => cases h
  · cases h

theorem NamedApart.of_produced {X : ToolExecutor} {result : ToolResult} (h : Produced X result) :
    NamedApart result := .inl h.id

theorem NamedApart.of_reconciled {result : ToolResult}
    (h : T.reconcile ws now freshId call = .ok (some result)) : NamedApart result := by
  obtain ⟨hcall, -, hid | hid⟩ := reconcile_eq_some h
  · exact .inl ⟨freshId, hid⟩
  · rw [← hcall] at hid
    exact .inr hid

/-- A name of one kind is none of the other. -/
theorem toolresult_ne_reconciled (freshId callId : String) :
    s!"toolresult-{freshId}" ≠ s!"reconciled-{callId}" := by
  intro h
  change "toolresult-" ++ freshId = "reconciled-" ++ callId at h
  have hchars := congrArg (List.head? ∘ String.toList) h
  simp [String.toList_append] at hchars

end Toolkit

end DurableAgent.Tools
