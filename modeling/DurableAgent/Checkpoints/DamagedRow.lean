import DurableAgent.Checkpoints.WriteThenRecover

/-!
# One damaged row

A run written without interference, one of whose retained rows is then damaged. Recovery answers
with another row as long as the damaged one is not the oldest.
-/

namespace DurableAgent.Checkpoints

open Library Library.Prog

variable {Text : Type} {codec : Codec Text} {sha256Digest : String → String}
  {s : CheckpointStore Text} {runId : String} {rows : List (CheckpointRow Text)}
  {row : CheckpointRow Text} {text : Text}

/-- The row of a run with this sequence, with another text. -/
def damage (rows : List (CheckpointRow Text)) (runId : String) (sequence : Nat) (text : Text) :
    List (CheckpointRow Text) :=
  overwrite rows fun row =>
    if row.runId = runId ∧ row.sequence = sequence then text else row.envelopeJson

theorem parsedRows_damage (ho : Ordered rows) (sequence : Nat) :
    parsedRows codec (damage rows runId sequence text) runId =
      (rowsOf rows runId).map fun row =>
        codec.modelValidateJson (if row.sequence = sequence then text else row.envelopeJson) := by
  rw [parsedRows, damage, rowsOf_overwrite ho, overwrite, List.map_map]
  apply List.map_congr_left
  intro row hrow
  simp [(mem_rowsOf.mp hrow).2]

/-- The rows of an unbroken chain before and after one of them is damaged. -/
theorem rowsOf_damage (ho : Ordered rows) (hi : Intact codec sha256Digest rows runId)
    (hrow : row ∈ rowsOf rows runId) (text : Text) : ∃ newer d older,
    (lineage sha256Digest).Linked (newer ++ d :: older) ∧ row.sequence = d.sequence ∧
      rowsOf rows runId = (newer ++ d :: older).map (stored codec) ∧
      (∀ e ∈ newer, d.sequence < e.sequence) ∧ (∀ e ∈ older, e.sequence < d.sequence) ∧
      parsedRows codec (damage rows runId row.sequence text) runId =
        newer.map some ++ codec.modelValidateJson text :: older.map some := by
  obtain ⟨chain, hchain, hl⟩ := hi
  have hpairwise := rowsOf_pairwise ho runId
  rw [parsedRows_damage ho]
  rw [hchain] at hrow hpairwise ⊢
  obtain ⟨d, hd, rfl⟩ := List.mem_map.mp hrow
  obtain ⟨newer, older, rfl⟩ := List.append_of_mem hd
  rw [List.pairwise_map, List.pairwise_append, List.pairwise_cons] at hpairwise
  have hnewer : ∀ e ∈ newer, d.sequence < e.sequence :=
    fun e he => hpairwise.2.2 e he d List.mem_cons_self
  have holder : ∀ e ∈ older, e.sequence < d.sequence := fun e he => hpairwise.2.1.1 e he
  have hkept (e : CheckpointEnvelope) (he : e.sequence ≠ d.sequence) :
      codec.modelValidateJson (if e.sequence = d.sequence then text else codec.modelDumpJson e) =
        some e := by
    rw [if_neg he]
    exact codec.validate_dump e
  refine ⟨newer, d, older, hl, rfl, rfl, hnewer, holder, ?_⟩
  rw [List.map_map, List.map_append, List.map_cons]
  congr 1
  · apply List.map_congr_left
    intro e he
    exact hkept e (hnewer e he).ne'
  · congr 1
    · simp [stored]
    · apply List.map_congr_left
      intro e he
      exact hkept e (holder e he).ne

/-- A text that does not verify reads as no valid envelope. -/
theorem invalid_of_fromUntrustedJson (htext : codec.fromUntrustedJson sha256Digest text = none) :
    ∀ e, codec.modelValidateJson text = some e → (lineage sha256Digest).valid e = false := by
  intro e he
  rw [Codec.fromUntrustedJson, he, Option.filter_some] at htext
  simpa [lineage] using htext

/-- Recovery from a damaged row answers with another row, or the damaged row is the oldest. -/
theorem newestOf_damage (ho : Ordered rows) (hi : Intact codec sha256Digest rows runId)
    (hrow : row ∈ rowsOf rows runId) (htext : codec.fromUntrustedJson sha256Digest text = none) :
    (newestOf codec sha256Digest (damage rows runId row.sequence text) runId = none ↔
      ¬ ∃ older ∈ rowsOf rows runId, older.sequence < row.sequence) ∧
    ∀ e, newestOf codec sha256Digest (damage rows runId row.sequence text) runId = some e →
      stored codec e ∈ rowsOf rows runId ∧ e.sequence ≠ row.sequence := by
  obtain ⟨newer, d, older, hl, hd, hrows, hnewer, holder, hparsed⟩ := rowsOf_damage ho hi hrow text
  have hinvalid := invalid_of_fromUntrustedJson htext
  rw [newestOf, hparsed, hrows, hd]
  refine ⟨?_, fun e he => ?_⟩
  · rw [Lineage.newest_damaged_eq_none_iff hl hinvalid]
    constructor
    · rintro rfl ⟨other, hother, hlt⟩
      obtain ⟨e, he, rfl⟩ := List.mem_map.mp hother
      rcases List.mem_append.mp he with he | he
      · exact absurd hlt (not_lt_of_gt (hnewer e he))
      · rw [List.mem_singleton.mp he] at hlt
        exact absurd hlt (lt_irrefl _)
    · intro hnone
      cases older with
      | nil => rfl
      | cons o rest =>
        have ho : stored codec o ∈ (newer ++ d :: o :: rest).map (stored codec) :=
          List.mem_map_of_mem (by simp)
        exact absurd ⟨_, ho, holder o List.mem_cons_self⟩ hnone
  · have hmem := Lineage.newest_damaged_mem hinvalid he
    rcases List.mem_append.mp hmem with hmem | hmem
    · exact ⟨List.mem_map_of_mem (by simp [hmem]), (hnewer e hmem).ne'⟩
    · exact ⟨List.mem_map_of_mem (by simp [hmem]), (holder e hmem).ne⟩

/-- After one retained row has been damaged, recovery answers with the envelope of another
retained row exactly when the damaged row is not the oldest one. -/
theorem recoverLatest_damaged (hs : Written codec sha256Digest s)
    (hrow : row ∈ rowsOf s.rows runId) (htext : codec.fromUntrustedJson sha256Digest text = none) :
    (∃ other ∈ rowsOf s.rows runId, ∃ e, other.sequence ≠ row.sequence ∧
      codec.modelValidateJson other.envelopeJson = some e ∧
      Returns (handle codec sha256Digest).exec (recoverLatest codec sha256Digest runId)
        { s with rows := damage s.rows runId row.sequence text } (.ok e)) ↔
      ∃ older ∈ rowsOf s.rows runId, older.sequence < row.sequence := by
  obtain ⟨hnone, hsome⟩ := newestOf_damage hs.reachable.ordered (hs.intact runId) hrow htext
  simp only [Returns.recoverLatest_iff]
  constructor
  · rintro ⟨other, -, e, -, -, he⟩
    by_contra holdest
    rw [hnone.mpr holdest] at he
    cases he
  · intro holder
    cases hnewest : newestOf codec sha256Digest (damage s.rows runId row.sequence text) runId with
    | none => exact absurd holder (hnone.mp hnewest)
    | some e =>
      obtain ⟨hmem, hne⟩ := hsome e hnewest
      exact ⟨_, hmem, e, hne, codec.validate_dump e, rfl⟩

/-- Damage to the newest of two rows: recovery answers. -/
theorem recoverLatest_damaged_newest : ∃ s : CheckpointStore StoredText, ∃ row e,
    row ∈ rowsOf s.rows "run" ∧ Returns (handle documentCodec id).exec (recoverLatest documentCodec id "run")
      { s with rows := damage s.rows "run" row.sequence (.other "") } (.ok e) := by
  obtain ⟨s₁, s₂, e₁, e₂, hrun₁, hrun₂, -, hseq₁, hseq₂, hrows, -⟩ := sampleWrite_twice
  have hs : Written documentCodec id s₂ := .tail (.single (.write hrun₁)) (.write hrun₂)
  have hrow : stored documentCodec e₂ ∈ rowsOf s₂.rows "run" := by
    rw [hrows]
    exact List.mem_cons_self
  have hlt : (stored documentCodec e₁).sequence < (stored documentCodec e₂).sequence := by
    change e₁.sequence < e₂.sequence
    omega
  have htext : documentCodec.fromUntrustedJson id (.other "") = none := rfl
  obtain ⟨-, -, e, -, -, he⟩ :=
    (recoverLatest_damaged hs hrow htext).mpr ⟨stored documentCodec e₁, by simp [hrows], hlt⟩
  exact ⟨s₂, _, e, hrow, he⟩

/-- Damage to the oldest of two rows: the newest is intact, and recovery raises. -/
theorem recoverLatest_damaged_oldest : ∃ s : CheckpointStore StoredText, ∃ row other,
    Written documentCodec id s ∧ rowsOf s.rows "run" = [other, row] ∧ ∀ e, ¬ Returns (handle documentCodec id).exec
      (recoverLatest documentCodec id "run")
      { s with rows := damage s.rows "run" row.sequence (.other "") } (.ok e) := by
  obtain ⟨s₁, s₂, e₁, e₂, hrun₁, hrun₂, -, hseq₁, hseq₂, hrows, -⟩ := sampleWrite_twice
  have hs : Written documentCodec id s₂ := .tail (.single (.write hrun₁)) (.write hrun₂)
  have hrow : stored documentCodec e₁ ∈ rowsOf s₂.rows "run" := by
    rw [hrows]
    simp
  refine ⟨s₂, stored documentCodec e₁, stored documentCodec e₂, hs, hrows, fun e he => ?_⟩
  have htext : documentCodec.fromUntrustedJson id (.other "") = none := rfl
  have hnone := (newestOf_damage hs.reachable.ordered (hs.intact "run") hrow htext).1
  rw [Returns.recoverLatest_iff, hnone.mpr] at he
  · cases he
  · rw [hrows]
    simp [stored, hseq₁, hseq₂]

end DurableAgent.Checkpoints
