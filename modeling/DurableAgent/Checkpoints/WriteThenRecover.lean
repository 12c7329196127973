import DurableAgent.Checkpoints.History

/-!
# Writing, then recovering

A write that returns has put a child of the recovered tip on top and pruned the rows below it.
Recovery accepts the child as long as the rows that survive the pruning still lead from that tip
to an anchor.
-/

namespace DurableAgent.Checkpoints

open Library Library.Prog

variable {Text : Type} {codec : Codec Text} {sha256Digest : String → String}
  {s s' : CheckpointStore Text} {runId : String} {rows : List (CheckpointRow Text)}
  {e : CheckpointEnvelope} {manager : CheckpointManager}

/-- The rows that survive the pruning of a write still anchor the envelope it extends: the first
of them that fits the digest of the recovered tip below the new sequence leads to an anchor. -/
def TipKept (codec : Codec Text) (sha256Digest : String → String) (manager : CheckpointManager)
    (rows : List (CheckpointRow Text)) (runId : String) : Prop :=
  rowsOf rows runId = [] ∨
    ∃ tip c older, newestOf codec sha256Digest rows runId = some tip ∧
      (lineage sha256Digest).FirstFit (tip.chainHash sha256Digest) (tipSequence rows runId + 1)
        ((parsedRows codec rows runId).take (manager.retentionCount - 1)) c older ∧
      (lineage sha256Digest).Anchored c older

theorem Returns.recoverLatest_iff : Returns (handle codec sha256Digest).exec
    (recoverLatest codec sha256Digest runId) s (.ok e) ↔
      newestOf codec sha256Digest s.rows runId = some e := by
  rw [← recovered_eq_ok]
  constructor
  · intro h
    obtain ⟨s', hrun⟩ := recoverLatest_returns.1
    exact h.2 _ s' hrun
  · intro h
    rw [← h]
    exact recoverLatest_returns

/-- A write that returns has stored its envelope and pruned. -/
theorem write_ok {run : RunRecord} {plan : PlanSpec} {tasks : List TaskRecord} {known : Known}
    (h : Runs (faulty codec sha256Digest)
      (manager.write codec sha256Digest run plan tasks known) s (.ok e) s') :
    Extends codec sha256Digest s.rows run.runId e ∧
      s'.rows = pruneCheckpoints (stored codec e :: s.rows) run.runId manager.retentionCount := by
  rcases write_wp.runs h with ⟨⟨err, herr⟩, -⟩ | ⟨e', he, ⟨⟨err, herr⟩, -⟩ | ⟨hok, hrows⟩⟩
  · cases herr
  · cases herr
  · obtain rfl := Except.ok.inj hok
    exact ⟨he, hrows⟩

/-- The parsed rows after a write: its envelope above those that survive. -/
theorem parsedRows_write (he : Extends codec sha256Digest rows runId e) (ho : Ordered rows) :
    parsedRows codec (pruneCheckpoints (stored codec e :: rows) runId manager.retentionCount)
      runId = some e :: (parsedRows codec rows runId).take (manager.retentionCount - 1) := by
  have hretain := manager.retention_at_least_two
  obtain ⟨n, hn⟩ : ∃ n, manager.retentionCount = n + 1 := ⟨manager.retentionCount - 1, by omega⟩
  rw [parsedRows, rowsOf_prune (he.ordered ho) (by omega), he.rowsOf_eq ho, hn, List.take_succ_cons,
    List.map_cons, List.map_take, Nat.add_sub_cancel]
  exact congrArg (· :: _) (codec.validate_dump e)

/-- The new envelope is anchored in its window exactly when the tip it extends is kept. -/
theorem anchored_iff_tipKept (he : Extends codec sha256Digest rows runId e) :
    (lineage sha256Digest).Anchored e
      ((parsedRows codec rows runId).take (manager.retentionCount - 1)) ↔
      TipKept codec sha256Digest manager rows runId := by
  have hretain := manager.retention_at_least_two
  have hempty : (parsedRows codec rows runId).take (manager.retentionCount - 1) = [] ↔
      rowsOf rows runId = [] := by
    rw [List.take_eq_nil_iff, parsedRows, List.map_eq_nil_iff]
    exact or_iff_right (by omega)
  rw [Lineage.anchored_iff he.valid, hempty, TipKept]
  change _ ∨ (e.parentHash = none ∧ _) ∨ (∃ h o rest, e.parentHash = some h ∧
    (lineage sha256Digest).FirstFit h e.sequence _ o rest ∧ _) ↔ _
  rw [he.parent, he.sequence]
  constructor
  · rintro (hrows | ⟨hnone, -⟩ | ⟨h, c, older, hparent, hfit, hc⟩)
    · exact .inl hrows
    · rw [Option.map_eq_none_iff] at hnone
      exact .inl (he.recovered.resolve_right fun hne => hne hnone)
    · obtain ⟨tip, htip, rfl⟩ := Option.map_eq_some_iff.mp hparent
      exact .inr ⟨tip, c, older, htip, hfit, hc⟩
  · rintro (hrows | ⟨tip, c, older, htip, hfit, hc⟩)
    · exact .inl hrows
    · exact .inr (.inr ⟨_, c, older, by rw [htip]; rfl, hfit, hc⟩)

/-- After a write that returns, recovery answers with its envelope if the tip is kept; and only
then, unless a stored text already read as that very envelope before it was written. -/
theorem write_then_recover (hs : Reachable codec sha256Digest s) {run : RunRecord}
    {plan : PlanSpec} {tasks : List TaskRecord} {known : Known}
    (hwrite : Runs (faulty codec sha256Digest)
      (manager.write codec sha256Digest run plan tasks known) s (.ok e) s') :
    (TipKept codec sha256Digest manager s.rows run.runId →
      Returns (handle codec sha256Digest).exec (recoverLatest codec sha256Digest run.runId) s'
        (.ok e)) ∧
    ((∀ row ∈ rowsOf s.rows run.runId, codec.modelValidateJson row.envelopeJson ≠ some e) →
      Returns (handle codec sha256Digest).exec (recoverLatest codec sha256Digest run.runId) s'
        (.ok e) → TipKept codec sha256Digest manager s.rows run.runId) := by
  obtain ⟨he, hrows⟩ := write_ok hwrite
  rw [Returns.recoverLatest_iff, newestOf, hrows, parsedRows_write he hs.ordered,
    ← anchored_iff_tipKept he]
  refine ⟨Lineage.newest_of_anchored, fun hfresh hnewest => ?_⟩
  by_contra hc
  rw [Lineage.newest_of_not_anchored fun c h ha => hc (by rwa [← Option.some.inj h] at ha)]
    at hnewest
  obtain ⟨row, hrow, htext⟩ := List.mem_map.mp (List.mem_of_mem_take (Lineage.newest_mem hnewest))
  exact hfresh row hrow htext

/-- Without replaced texts the tip is always kept. -/
theorem Written.tipKept (hs : Written codec sha256Digest s) (runId : String) :
    TipKept codec sha256Digest manager s.rows runId := by
  obtain ⟨chain, hchain, hl⟩ := hs.intact runId
  cases chain with
  | nil => exact .inl hchain
  | cons tip older =>
    have hretain := manager.retention_at_least_two
    obtain ⟨n, hn⟩ : ∃ n, manager.retentionCount - 1 = n + 1 :=
      ⟨manager.retentionCount - 2, by omega⟩
    have hfit : (lineage sha256Digest).Fits (tip.chainHash sha256Digest)
        (tipSequence s.rows runId + 1) (some tip) := by
      refine Lineage.fits_some.mpr ⟨hl.head_valid, ?_, rfl⟩
      rw [tipSequence, hchain]
      exact Nat.lt_succ_self _
    refine .inr ⟨tip, tip, (older.take n).map some, newestOf_of_linked hchain hl, ?_, ?_⟩
    · rw [parsedRows_of_stored hchain, hn, List.map_cons, List.take_succ_cons, ← List.map_take]
      exact Lineage.firstFit_head hfit
    · exact Lineage.Linked.anchored (hl.take (n + 1))

/-! ## A history that loses its tip

Texts are taken as the envelopes they read as, or as other texts, and digests as the texts they
are taken of. -/

inductive StoredText where
  | document (e : CheckpointEnvelope)
  | other (text : String)

def documentCodec : Codec StoredText where
  modelDumpJson := .document
  modelValidateJson
    | .document e => some e
    | .other _ => none
  validate_dump _ := rfl

def sampleRun (runId : String) : RunRecord :=
  { runId, ownerId := "owner", objective := "objective", state := .RUNNING
    configurationFingerprint := "fingerprint", createdAt := 0, updatedAt := 0 }

def sampleTask : TaskSpec :=
  { taskId := "task", title := "Task", description := "one small task"
    unique_dependencies := List.nodup_nil, reject_self_dependency := List.not_mem_nil
    maximumAttempts_bounds := TaskSpec.three_attempts }

def samplePlan (runId : String) : PlanSpec :=
  { planId := "plan", runId, version := 1, tasks := [sampleTask]
    version_pos := PlanSpec.first_version }

def sampleRecord (runId : String) : TaskRecord := { runId, planId := "plan", spec := sampleTask }

def sampleManager : CheckpointManager := { retentionCount := 3 }

/-- A write by the sample manager. -/
def sampleWrite (runId : String) : Prog (CheckpointOp StoredText) Exn CheckpointEnvelope :=
  sampleManager.write documentCodec id (sampleRun runId) (samplePlan runId) [sampleRecord runId] {}

/-- The identifier that a write makes of a fresh one. -/
def sampleId (n : String) : String := s!"checkpoint-{n}"

theorem sampleId_ne {m n : String} (h : m ≠ n) : sampleId m ≠ sampleId n := by
  simpa [sampleId, toString] using h

/-- The next sample write returns where recovery does, and keeps the three newest rows. -/
theorem sampleWrite_runs {s : CheckpointStore StoredText} {runId : String}
    (ho : Ordered s.rows) (n : String)
    (hrecovered : rowsOf s.rows runId = [] ∨ newestOf documentCodec id s.rows runId ≠ none)
    (hfresh : ∀ row ∈ s.rows, row.checkpointId ≠ sampleId n) : ∃ e s',
    Runs (handle documentCodec id).exec (sampleWrite runId) s (.ok e) s' ∧
      Extends documentCodec id s.rows runId e ∧
      rowsOf s'.rows runId = (stored documentCodec e :: rowsOf s.rows runId).take 3 ∧
      (∀ other, other ≠ runId → rowsOf s'.rows other = rowsOf s.rows other) ∧
      ∀ row ∈ s'.rows, row.checkpointId = sampleId n ∨ row ∈ s.rows := by
  have hruns := @write_runs StoredText documentCodec id s sampleManager (sampleRun runId)
    (samplePlan runId) [sampleRecord runId] {} { (default : Supply) with freshId := n } hrecovered
    hfresh
  obtain ⟨e, s', hid, hrun⟩ := hruns
  obtain ⟨he, hrows⟩ := write_ok hrun.withFaults
  have he' : Extends documentCodec id s.rows runId e := he
  have hrows' : s'.rows = pruneCheckpoints (stored documentCodec e :: s.rows) runId 3 := hrows
  refine ⟨e, s', hrun, he', ?_, fun other hother => ?_, fun row hrow => ?_⟩
  · rw [hrows', rowsOf_prune (he'.ordered ho) (by decide), he'.rowsOf_eq ho]
  · rw [hrows', rowsOf_prune_of_ne (he'.ordered ho) hother, rowsOf_stored_of_ne he' ho hother]
  · rw [hrows'] at hrow
    rcases List.mem_cons.mp (mem_of_mem_prune hrow) with rfl | hrow
    · exact .inl hid
    · exact .inr hrow

theorem sampleWrite_returns {s : CheckpointStore StoredText} {runId : String}
    (ho : Ordered s.rows) (n : String)
    (hrecovered : rowsOf s.rows runId = [] ∨ newestOf documentCodec id s.rows runId ≠ none)
    (hfresh : ∀ row ∈ s.rows, row.checkpointId ≠ sampleId n) : ∃ e s',
    Runs (faulty documentCodec id) (sampleWrite runId) s (.ok e) s' ∧
      Extends documentCodec id s.rows runId e ∧
      rowsOf s'.rows runId = (stored documentCodec e :: rowsOf s.rows runId).take 3 ∧
      (∀ other, other ≠ runId → rowsOf s'.rows other = rowsOf s.rows other) ∧
      ∀ row ∈ s'.rows, row.checkpointId = sampleId n ∨ row ∈ s.rows := by
  obtain ⟨e, s', hrun, hstored⟩ := sampleWrite_runs ho n hrecovered hfresh
  exact ⟨e, s', hrun.withFaults, hstored⟩

/-- What two writes into an empty table leave. -/
theorem sampleWrite_twice : ∃ s₁ s₂ e₁ e₂,
    Runs (faulty documentCodec id) (sampleWrite "run") ⟨[], []⟩ (.ok e₁) s₁ ∧
      Runs (faulty documentCodec id) (sampleWrite "run") s₁ (.ok e₂) s₂ ∧
      (lineage id).valid e₁ = true ∧ e₁.sequence = 1 ∧ e₂.sequence = 2 ∧
      rowsOf s₂.rows "run" = [stored documentCodec e₂, stored documentCodec e₁] ∧
      ∀ row ∈ s₂.rows, row.checkpointId = sampleId "2" ∨ row.checkpointId = sampleId "1" := by
  obtain ⟨e₁, s₁, hrun₁, he₁, hrows₁, -, hids₁⟩ :=
    @sampleWrite_returns ⟨[], []⟩ "run" ordered_nil "1" (.inl rfl) (by simp)
  have hids₁ : ∀ row ∈ s₁.rows, row.checkpointId = sampleId "1" := by
    intro row hrow
    exact (hids₁ row hrow).resolve_right fun h => by cases h
  have hseq₁ : e₁.sequence = 1 := he₁.sequence
  have hwritten₁ : Written documentCodec id s₁ := .single (.write hrun₁)
  have hnewest₁ : newestOf documentCodec id s₁.rows "run" ≠ none := by
    have hlinked : (lineage id).Linked [e₁] := he₁.valid
    rw [newestOf_of_linked hrows₁ hlinked]
    exact Option.some_ne_none e₁
  obtain ⟨e₂, s₂, hrun₂, he₂, hrows₂, -, hids₂⟩ :=
    sampleWrite_returns hwritten₁.reachable.ordered "2" (.inr hnewest₁) fun row hrow => by
      rw [hids₁ row hrow]
      exact sampleId_ne (by decide)
  refine ⟨s₁, s₂, e₁, e₂, hrun₁, hrun₂, he₁.valid, hseq₁, ?_, ?_, fun row hrow => ?_⟩
  · rw [he₂.sequence, tipSequence, hrows₁]
    exact congrArg (· + 1) hseq₁
  · rw [hrows₂, hrows₁]
    rfl
  · exact (hids₂ row hrow).imp_right (hids₁ row)

/-- After two writes the second is what recovery answers. -/
theorem write_then_recover_second : ∃ s₁ s₂ e₁ e₂, rowsOf s₂.rows "run" =
    [stored documentCodec e₂, stored documentCodec e₁] ∧
    Runs (faulty documentCodec id) (sampleWrite "run") s₁ (.ok e₂) s₂ ∧
    Returns (handle documentCodec id).exec (recoverLatest documentCodec id "run") s₂ (.ok e₂) := by
  obtain ⟨s₁, s₂, e₁, e₂, hrun₁, hrun₂, -, -, -, hrows, -⟩ := sampleWrite_twice
  have hwritten : Written documentCodec id s₁ := .single (.write hrun₁)
  exact ⟨s₁, s₂, e₁, e₂, hrows, hrun₂,
    (write_then_recover hwritten.reachable hrun₂).1 (hwritten.tipKept "run")⟩

/-- The row with the second sequence damaged, and nothing else. -/
def damageSecond (row : CheckpointRow StoredText) : StoredText :=
  if row.sequence = 2 then .other "" else row.envelopeJson

/-- Two writes, and then damage to the second row: recovery answers with the first. -/
theorem sampleWrite_damaged : ∃ s e₁ checkpointId, Reachable documentCodec id s ∧
    (lineage id).valid e₁ = true ∧ e₁.sequence = 1 ∧
    rowsOf s.rows "run" = [⟨checkpointId, "run", 2, .other ""⟩, stored documentCodec e₁] ∧
    newestOf documentCodec id s.rows "run" = some e₁ ∧
    ∀ row ∈ s.rows, row.checkpointId = sampleId "2" ∨ row.checkpointId = sampleId "1" := by
  obtain ⟨s₁, s₂, e₁, e₂, hrun₁, hrun₂, hvalid, hseq₁, hseq₂, hrows, hids⟩ := sampleWrite_twice
  have hwritten : Written documentCodec id s₂ := .tail (.single (.write hrun₁)) (.write hrun₂)
  let s : CheckpointStore StoredText := { s₂ with rows := overwrite s₂.rows damageSecond }
  have hrunId : e₂.runId = "run" := by
    have hmem : stored documentCodec e₂ ∈ rowsOf s₂.rows "run" := by
      rw [hrows]
      exact List.mem_cons_self
    exact (mem_rowsOf.mp hmem).2
  have hdamaged : rowsOf s.rows "run" =
      [⟨e₂.checkpointId, "run", 2, .other ""⟩, stored documentCodec e₁] := by
    rw [rowsOf_overwrite hwritten.reachable.ordered, hrows]
    simp [overwrite, damageSecond, stored, hseq₁, hseq₂, hrunId]
  refine ⟨s, e₁, e₂.checkpointId, .tail hwritten.reachable (.overwrite damageSecond s₂), hvalid,
    hseq₁, hdamaged, ?_, fun row hrow => ?_⟩
  · have hparsed : parsedRows documentCodec s.rows "run" = [none, some e₁] := by
      rw [parsedRows, hdamaged]
      rfl
    rw [newestOf, hparsed, Lineage.newest_of_not_anchored (fun c h => by cases h)]
    exact Lineage.newest_of_anchored (.oldest hvalid)
  · obtain ⟨row', hrow', rfl⟩ := List.mem_map.mp hrow
    exact hids row' hrow'

/-- The third write extends the first and prunes nothing. -/
theorem sampleWrite_third : ∃ s e₁ e₃ checkpointId, Reachable documentCodec id s ∧
    (lineage id).Linked [e₃, e₁] ∧
    rowsOf s.rows "run" =
      [stored documentCodec e₃, ⟨checkpointId, "run", 2, .other ""⟩, stored documentCodec e₁] ∧
    newestOf documentCodec id s.rows "run" = some e₃ ∧
    ∀ row ∈ s.rows, row.checkpointId ≠ sampleId "4" := by
  obtain ⟨s, e₁, checkpointId, hs, hvalid, hseq₁, hdamaged, hnewest, hids⟩ := sampleWrite_damaged
  obtain ⟨e₃, s', hrun, he₃, hrows, -, hids'⟩ := sampleWrite_returns hs.ordered "3"
    (.inr (by rw [hnewest]; exact Option.some_ne_none e₁)) fun row hrow => by
      rcases hids row hrow with h | h
      · rw [h]
        exact sampleId_ne (by decide)
      · rw [h]
        exact sampleId_ne (by decide)
  have hparent : e₃.parentHash = some (e₁.chainHash id) := by
    rw [he₃.parent, hnewest]
    rfl
  have hseq : e₁.sequence < e₃.sequence := by
    rw [he₃.sequence, tipSequence, hdamaged, hseq₁]
    simp
  have hlinked : (lineage id).Linked [e₃, e₁] := ⟨he₃.valid, hparent, hseq, hvalid⟩
  rw [hdamaged] at hrows
  refine ⟨s', e₁, e₃, checkpointId, .tail hs (.call (.write hrun)), hlinked, hrows, ?_,
    fun row hrow => ?_⟩
  · have hparsed : parsedRows documentCodec s'.rows "run" = [some e₃, none, some e₁] := by
      rw [parsedRows, hrows]
      rfl
    rw [newestOf, hparsed]
    refine Lineage.newest_of_anchored (.link he₃.valid hparent ?_ (.oldest hvalid))
    rw [Lineage.firstFit_skip Lineage.not_fits_none]
    exact Lineage.firstFit_head hlinked.fits
  · rcases hids' row hrow with h | hrow
    · rw [h]
      exact sampleId_ne (by decide)
    · rcases hids row hrow with h | h
      · rw [h]
        exact sampleId_ne (by decide)
      · rw [h]
        exact sampleId_ne (by decide)

/-- The fourth write prunes the parent of the third, which it extends. -/
theorem write_then_recover_fails : ∃ s s' e, Reachable documentCodec id s ∧
    Runs (faulty documentCodec id) (sampleWrite "run") s (.ok e) s' ∧
    ¬ Returns (handle documentCodec id).exec (recoverLatest documentCodec id "run") s' (.ok e) := by
  obtain ⟨s, e₁, e₃, checkpointId, hs, hlinked₃, hrows, hnewest, hids⟩ := sampleWrite_third
  obtain ⟨e₄, s', hrun, he₄, hrows', -, -⟩ := sampleWrite_returns hs.ordered "4"
    (.inr (by rw [hnewest]; exact Option.some_ne_none e₃)) hids
  have hparsed : parsedRows documentCodec s'.rows "run" = [some e₄, some e₃, none] := by
    rw [parsedRows, hrows', hrows]
    rfl
  have hparent : e₄.parentHash = some (e₃.chainHash id) := by
    rw [he₄.parent, hnewest]
    rfl
  have hseq : e₃.sequence < e₄.sequence := by
    rw [he₄.sequence, tipSequence, hrows]
    exact Nat.lt_succ_self _
  have hlinked₄ : (lineage id).Linked (e₄ :: ([e₃] ++ [e₁])) :=
    ⟨he₄.valid, hparent, hseq, hlinked₃⟩
  have hunreadable (h : String) (n : Nat) : ¬ (lineage id).Fits h n none := Lineage.not_fits_none
  have h₄ : ¬ (lineage id).Anchored e₄ [some e₃, none] := hlinked₄.not_anchored hunreadable
  have h₃ : ¬ (lineage id).Anchored e₃ [none] := by
    have hlinked : (lineage id).Linked (e₃ :: ([] ++ [e₁])) := hlinked₃
    exact hlinked.not_anchored hunreadable
  refine ⟨s, s', e₄, hs, hrun, ?_⟩
  rw [Returns.recoverLatest_iff, newestOf, hparsed]
  intro hnewest
  rw [Lineage.newest_of_not_anchored fun c h => by rwa [← Option.some.inj h],
    Lineage.newest_of_not_anchored fun c h => by rwa [← Option.some.inj h],
    Lineage.newest_of_not_anchored fun c h => by cases h] at hnewest
  cases hnewest

end DurableAgent.Checkpoints
