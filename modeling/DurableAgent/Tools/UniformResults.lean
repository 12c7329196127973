import DurableAgent.Tools.Results

/-!
# The form of stored results

The executor redacts and bounds what it stores, and hashes its canonical text. The tools that
write a file hash another text when they reconcile, and no reconciliation redacts or bounds. So
stored results have one form as long as no call of these tools is found done, and as long as a
reconciled index needs neither redaction nor bounding.
-/

namespace DurableAgent.Tools

open Library Security

namespace Toolkit

variable (T : Toolkit)

/-- What is stored is the bounded redaction of an output, with the digest of its canonical
text. -/
structure Uniform (result : ToolResult) : Prop where
  output : ∃ raw, result.output = .obj (T.executor.boundOutput (T.redact (.obj raw))).1
  hash : result.outputHash = T.sha256Digest (canonicalJson result.output)

/-- The target of a write is there, with the content that the call writes. -/
def Written (ws : Workspace) (call : ToolCall) : Prop :=
  ∃ target content path, argument call "path" = .ok target ∧
    argument call "content" = .ok content ∧
    Confined ws.files T.repositoryRoot (pyStr T.isPrintable target) false path ∧
    ws.files.isThere path = .ok true ∧
    ws.files.read path = .ok (some (utf8 (pyStr T.isPrintable content)))

/-- The target of a patch has the digest that the call leads to. -/
def Patched (ws : Workspace) (call : ToolCall) : Prop :=
  ∃ target path raw, argument call "path" = .ok target ∧
    Confined ws.files T.repositoryRoot (pyStr T.isPrintable target) true path ∧
    ws.files.read path = .ok (some raw) ∧
    argument call "expected_result_hash" = .ok (.str (T.sha256 raw))

/-- The index that a call was to build is stored for this root, in words that need neither
redaction nor bounding. -/
def PlainIndex (ws : Workspace) (call : ToolCall) : Prop :=
  ∀ snapshotId index, argument call "snapshot_id" = .ok (.str snapshotId) →
    ws.indexes snapshotId = some index →
    ws.files.resolveAny (.ofString index.snapshot.root) = .ok T.indexRoot →
    ∃ raw, indexOutput index = (T.executor.boundOutput (T.redact (.obj raw))).1

/-- No file is found as a write or a patch leaves it, and an index that is found is plain. -/
def Plain (ws : Workspace) (call : ToolCall) : Prop :=
  match Tool.named call.toolName with
  | some .controlledFileWriter => ¬ T.Written ws call
  | some .patchApplication => ¬ T.Patched ws call
  | some .repositoryIndex => T.PlainIndex ws call
  | _ => True

/-! ## The reconciliation of one call -/

variable {T} {ws : Workspace} {now : Timestamp} {freshId : String} {call : ToolCall}
  {result : ToolResult}

theorem reconcileWrite_eq_some (h : T.reconcileWrite ws now call = .ok (some result)) :
    T.Written ws call ∧ ∃ output, result = T.reconciledFile now call output := by
  unfold reconcileWrite at h
  obtain ⟨target, htarget, h⟩ := of_bind_ok h
  obtain ⟨path, hpath, h⟩ := of_bind_ok h
  obtain ⟨isThere, hthere, h⟩ := of_bind_ok h
  rw [mapError_eq_ok] at hthere
  rw [resolveWithinRoot_eq_ok] at hpath
  cases isThere with
  | false => cases h
  | true =>
    obtain ⟨content, hcontent, h⟩ := of_bind_ok h
    obtain ⟨found, hfound, h⟩ := of_bind_ok h
    rw [openReadonlyNoFollow_eq_ok] at hfound
    split at h
    · next hsame =>
      obtain ⟨output, -, h⟩ := of_bind_ok h
      rw [hsame] at hfound
      refine ⟨⟨target, content, path, htarget, hcontent, hpath, hthere, hfound⟩, output, ?_⟩
      exact (Option.some.inj (Except.ok.inj h)).symm
    · cases h

theorem reconcilePatch_eq_some (h : T.reconcilePatch ws now call = .ok (some result)) :
    T.Patched ws call ∧ ∃ output, result = T.reconciledFile now call output := by
  unfold reconcilePatch at h
  obtain ⟨target, htarget, h⟩ := of_bind_ok h
  obtain ⟨path, hpath, h⟩ := of_bind_ok h
  obtain ⟨raw, hraw, h⟩ := of_bind_ok h
  obtain ⟨expected, hexpected, h⟩ := of_bind_ok h
  rw [resolveWithinRoot_eq_ok] at hpath
  rw [openReadonlyNoFollow_eq_ok] at hraw
  split at h
  · next hash =>
    split at h
    · next hsame =>
      obtain ⟨output, -, h⟩ := of_bind_ok h
      rw [← hsame] at hexpected
      refine ⟨⟨target, path, raw, htarget, hpath, hraw, hexpected⟩,
        output ++ [("replacements", .int 0)], ?_⟩
      exact (Option.some.inj (Except.ok.inj h)).symm
    · cases h
  · cases h

theorem reconcileIndex_eq_some (h : T.reconcileIndex ws now freshId call = .ok (some result)) :
    ∃ snapshotId index, argument call "snapshot_id" = .ok (.str snapshotId) ∧
      ws.indexes snapshotId = some index ∧
      ws.files.resolveAny (.ofString index.snapshot.root) = .ok T.indexRoot ∧
      result.toolResultId = s!"toolresult-{freshId}" ∧ result.toolCallId = call.toolCallId ∧
      result.success = true ∧ result.output = .obj (indexOutput index) ∧
      result.outputHash = T.sha256Digest (canonicalJson (.obj (indexOutput index))) := by
  unfold reconcileIndex at h
  split at h
  · next snapshotId hsnapshot =>
    split at h
    · cases h
    · next index hindex =>
      obtain ⟨root, hroot, h⟩ := of_bind_ok h
      rw [mapError_eq_ok] at hroot
      split at h
      · cases h
      · next hsame =>
        rw [not_not] at hsame
        rw [hsame] at hroot
        obtain rfl := Option.some.inj (Except.ok.inj h)
        exact ⟨snapshotId, index, hsnapshot, hindex, hroot, rfl, rfl, rfl, rfl, rfl⟩
  · cases h

/-- A reconciliation that stores a result of another form has found a file as its call leaves
it, or an index that is not plain. -/
theorem reconcile_uniform (hplain : T.Plain ws call)
    (h : T.reconcile ws now freshId call = .ok (some result)) : T.Uniform result := by
  unfold reconcile at h
  unfold Plain at hplain
  split at h
  · next tool htool =>
    rw [htool] at hplain
    cases tool with
    | controlledFileWriter => exact absurd (reconcileWrite_eq_some h).1 hplain
    | patchApplication => exact absurd (reconcilePatch_eq_some h).1 hplain
    | repositoryIndex =>
      obtain ⟨snapshotId, index, hsnapshot, hindex, hroot, -, -, -, houtput, hhash⟩ :=
        reconcileIndex_eq_some h
      obtain ⟨raw, hraw⟩ := hplain snapshotId index hsnapshot hindex hroot
      refine ⟨⟨raw, ?_⟩, ?_⟩
      · rw [houtput, hraw]
      · rw [hhash, houtput]
    | _ => cases h
  · cases h

/-! ## Every run -/

variable (T)

/-- What a call is supplied with where the tools reconcile by what they find. -/
def supply : (β : Type) → JournalOp β → Workspace × Supply → Supply
  | _, .reconcileTool call, (ws, t) =>
    { t with reconciled := T.reconcile ws t.now t.freshId call }
  | _, _, (_, t) => t

/-- The effect of each call with the registered tools; files and indexes may be others each
time. -/
def handle : Handler JournalOp Exn (Workspace × Supply) World := fun β op t w =>
  Tools.handle β op (T.supply β op t) w

/-- The same over files and indexes that stay. -/
def handleAt (ws : Workspace) : Handler JournalOp Exn Supply World := fun β op t w =>
  T.handle β op (ws, t) w

/-- Whatever is to be reconciled meets the condition. -/
def OfReconciled (cond : ToolCall → Prop) : (β : Type) → JournalOp β → Prop
  | _, .reconcileTool call => cond call
  | _, _ => True

/-- The calls whose reconciliations are plain. -/
def plain : Exec JournalOp Exn World := fun β op w x w' =>
  ∃ t, OfReconciled (T.Plain t.1) β op ∧ T.handle β op t w = (x, w')

variable {T}

theorem handle_answers {R : ToolResult → Prop} {cond : ToolCall → Prop} {β : Type}
    {op : JournalOp β} {t : Workspace × Supply} {w w' : World} {x : Except Exn β}
    (hop : T.handle β op t w = (x, w')) (hcond : OfReconciled cond β op)
    (hR : ∀ call result, cond call →
      T.reconcile t.1 t.2.now t.2.freshId call = .ok (some result) → R result) :
    Reconciles R β op x := by
  obtain ⟨rfl, -⟩ := Prod.mk.inj hop
  cases op with
  | newId kind => exact ⟨t.2.freshId, rfl⟩
  | reconcileTool call =>
    obtain ⟨ws, t⟩ := t
    change Reconciles R _ (.reconcileTool call) (T.reconcile ws t.now t.freshId call)
    cases hreconciled : T.reconcile ws t.now t.freshId call with
    | error e => trivial
    | ok reconciled =>
      cases reconciled with
      | none => trivial
      | some result => exact hR call result hcond hreconciled
  | _ => trivial

theorem handle_exec {β : Type} {op : JournalOp β} {t : Workspace × Supply} {w w' : World}
    {x : Except Exn β} (hop : T.handle β op t w = (x, w')) : Tools.handle.exec β op w x w' :=
  ⟨T.supply β op t, hop⟩

theorem reconciles_error {R : ToolResult → Prop} {β : Type} (op : JournalOp β) (e : Exn) :
    Reconciles R β op (.error e) := by
  cases op <;> trivial

variable {ι : Type} [DecidableEq ι]

/-- In every interleaving of executions and reconciliations, with stops and faults anywhere, in
which the reconciliations are plain, every stored result has the one form. -/
theorem stored_uniform (T : Toolkit) (requests : ι → ToolRequest)
    (P : Pool JournalOp Exn World ι)
    (hrun : PoolRuns T.plain.withFaults (requestPool T.executor requests) P) :
    ∀ result ∈ P.shared.journal.results, T.Uniform result := by
  refine (stored_holds (fun β op w x w' hop => ?_) (fun result h => ⟨h.output, h.hash⟩) hrun).results
  rcases hop with ⟨t, hplain, hop⟩ | ⟨e, rfl, rfl⟩
  · exact ⟨handle_answers hop hplain fun _ _ => reconcile_uniform, .inl (handle_exec hop)⟩
  · exact ⟨reconciles_error op e, .inr rfl⟩

theorem plain_at {ws : Workspace} (hws : ∀ call, T.Plain ws call)
    {P P' : Pool JournalOp Exn World ι} (h : PoolRuns (T.handleAt ws).exec P P') :
    PoolRuns T.plain.withFaults P P' := by
  refine h.mono fun β op w x w' hop => .inl ?_
  obtain ⟨t, hop⟩ := hop
  refine ⟨(ws, t), ?_, hop⟩
  cases op with
  | reconcileTool call => exact hws call
  | _ => trivial

end Toolkit

/-! ## Two reconciliations -/

/-- Tools without conditions under one directory, and the digest of bytes taken as their text. -/
def openToolkit : Toolkit :=
  { policy :=
      { allowedPermissions := ["repository.read", "repository.write", "repository.patch"]
        maximumOutputBytes_bound := ToolPolicy.default_bound }
    checkSchema := fun _ => none, validate := fun _ _ => none, redact := id
    sha256 := fun bytes => String.ofList (bytes.map fun byte => Char.ofNat byte.toNat)
    isPrintable := fun _ => true
    repositoryRoot := ⟨"/", ["repo"]⟩, indexRoot := ⟨"/", ["repo"]⟩ }

/-- Files in the root, and one stored index. -/
def rootWith (files : List (String × List UInt8)) : Workspace :=
  { files := directory ⟨"/", ["repo"]⟩ files
    indexes := fun snapshotId =>
      if snapshotId = "s1" then some ⟨⟨"s1", "/repo", "m1", 0, 0, []⟩, []⟩ else none }

def toolSupply : Supply :=
  { now := 0, freshId := "1", order := [], outcome := .ok [], reconciled := .ok none }

/-- A call that is interrupted once the body of its tool has run, and the reconciliation of its
run. -/
def interruptedPool (toolName : String) (arguments : Json) : Pool JournalOp Exn World Bool :=
  requestPool openToolkit.executor fun reconciles =>
    if reconciles then .reconcileUncertain "run"
    else .execute "run" "task" toolName arguments "key"

def interrupted : List (Bool × Supply) :=
  List.replicate 7 (false, toolSupply) ++ List.replicate 3 (true, toolSupply)

theorem plain_rootWith (call : ToolCall) : openToolkit.Plain (rootWith []) call := by
  have hread (path : PurePath) (content : List UInt8) :
      (rootWith []).files.read path ≠ .ok (some content) := by
    intro h
    change (if path = ⟨"/", ["repo"]⟩ then .ok none else .error _ : Except OSFailure _) = _ at h
    split at h <;> cases h
  unfold Toolkit.Plain
  split
  · rintro ⟨target, content, path, -, -, -, -, h⟩
    exact hread path _ h
  · rintro ⟨target, path, raw, -, -, h, -⟩
    exact hread path _ h
  · intro snapshotId index _ hindex _
    change (if snapshotId = "s1" then some _ else none) = _ at hindex
    split at hindex
    · obtain rfl := Option.some.inj hindex
      exact ⟨Toolkit.indexOutput ⟨⟨"s1", "/repo", "m1", 0, 0, []⟩, []⟩, by rfl⟩
    · cases hindex
  · trivial

/-- An index that was stored before the crash is reconciled into a result of the one form. -/
theorem stored_uniform_index : ∃ P result,
    PoolRuns openToolkit.plain.withFaults
      (interruptedPool "repository.index" (.obj [("snapshot_id", .str "s1")])) P ∧
    P.shared.journal.results = [result] ∧ openToolkit.Uniform result := by
  have hrun := Toolkit.plain_at plain_rootWith
    (Pool.play_runs (openToolkit.handleAt (rootWith [])) interrupted
      (interruptedPool "repository.index" (.obj [("snapshot_id", .str "s1")])))
  obtain ⟨result, hresult⟩ : ∃ result, ((interruptedPool "repository.index"
      (.obj [("snapshot_id", .str "s1")])).play (openToolkit.handleAt (rootWith []))
        interrupted).shared.journal.results = [result] := ⟨_, rfl⟩
  refine ⟨_, result, hrun, hresult, ?_⟩
  refine Toolkit.stored_uniform openToolkit _ _ hrun result ?_
  rw [hresult]
  exact List.mem_singleton_self result

/-- A write that took place before the crash is reconciled into a result whose digest is not that
of its output. -/
theorem stored_uniform_write : ∃ P,
    PoolRuns openToolkit.handle.exec
      (interruptedPool "repository.write" (.obj
        [("path", .str "a.txt"), ("content", .str "x"), ("expected_hash", .null)])) P ∧
    ∃ result ∈ P.shared.journal.results, result.success = true ∧
      result.outputHash ≠ openToolkit.sha256Digest (canonicalJson result.output) := by
  refine ⟨_, (Pool.play_runs (openToolkit.handleAt (rootWith [("a.txt", [120])])) interrupted
    _).mono fun β op w x w' hop => ?_, ?_⟩
  · obtain ⟨t, hop⟩ := hop
    exact ⟨_, hop⟩
  · decide

end DurableAgent.Tools
