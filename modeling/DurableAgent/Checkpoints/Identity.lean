import DurableAgent.Checkpoints.WriteThenRecover

/-!
# Whose envelope recovery answers with

Recovery reads texts, not columns: no check compares an envelope with the run or the sequence of
its row. What it answers with is chain-valid at its row, and no newer row holds a chain-valid
text.
-/

namespace DurableAgent.Checkpoints

open Library Library.Prog

variable {Text : Type} {codec : Codec Text} {sha256Digest : String → String}
  {s : CheckpointStore Text} {runId : String} {rows : List (CheckpointRow Text)}
  {row : CheckpointRow Text} {e : CheckpointEnvelope}

/-- The rows of a run below a sequence. -/
def rowsBelow (rows : List (CheckpointRow Text)) (runId : String) (sequence : Nat) :
    List (CheckpointRow Text) :=
  (rowsOf rows runId).filter fun row => row.sequence < sequence

/-- The text of a retained row reads as an envelope that is anchored in the rows below. -/
structure ChainValid (codec : Codec Text) (sha256Digest : String → String)
    (rows : List (CheckpointRow Text)) (runId : String) (row : CheckpointRow Text)
    (e : CheckpointEnvelope) : Prop where
  retained : row ∈ rowsOf rows runId
  text : codec.modelValidateJson row.envelopeJson = some e
  anchored : (lineage sha256Digest).Anchored e
    ((rowsBelow rows runId row.sequence).map fun row => codec.modelValidateJson row.envelopeJson)

/-- The envelope is the row's own: neither its run nor its sequence is another one's. -/
structure Own (row : CheckpointRow Text) (e : CheckpointEnvelope) : Prop where
  run : e.runId = row.runId
  sequence : e.sequence = row.sequence

theorem rowsBelow_eq (ho : Ordered rows) {newer older : List (CheckpointRow Text)}
    (hsplit : rowsOf rows runId = newer ++ row :: older) :
    rowsBelow rows runId row.sequence = older := by
  have hpairwise := rowsOf_pairwise ho runId
  rw [hsplit, List.pairwise_append, List.pairwise_cons] at hpairwise
  rw [rowsBelow, hsplit, List.filter_append, List.filter_cons_of_neg (by simp)]
  have hnewer : (newer.filter fun r => r.sequence < row.sequence) = [] := by
    rw [List.filter_eq_nil_iff]
    intro r hr
    simpa using (hpairwise.2.2 r hr row List.mem_cons_self).le
  have holder : (older.filter fun r => r.sequence < row.sequence) = older := by
    rw [List.filter_eq_self]
    intro r hr
    simpa using hpairwise.2.1.1 r hr
  rw [hnewer, holder, List.nil_append]

/-- Of two rows the newer one comes first. -/
theorem length_lt_of_sequence_lt (ho : Ordered rows) {row' : CheckpointRow Text}
    {newer older newer' older' : List (CheckpointRow Text)}
    (hsplit : rowsOf rows runId = newer ++ row :: older)
    (hsplit' : rowsOf rows runId = newer' ++ row' :: older')
    (hlt : row.sequence < row'.sequence) : newer'.length < newer.length := by
  have hpairwise := rowsOf_pairwise ho runId
  by_contra hlen
  rw [hsplit', List.pairwise_append] at hpairwise
  have hmem : row ∈ newer' ∨ row = row' := by
    have hget : (rowsOf rows runId)[newer.length]? = some row := by
      rw [hsplit]
      simp
    rw [hsplit'] at hget
    rcases Nat.lt_or_eq_of_le (not_lt.mp hlen) with h | h
    · rw [List.getElem?_append_left h] at hget
      exact .inl (List.mem_of_getElem? hget)
    · rw [h, List.getElem?_append_right le_rfl] at hget
      simp at hget
      exact .inr hget.symm
  rcases hmem with hmem | rfl
  · exact lt_asymm hlt (hpairwise.2.2 row hmem row' List.mem_cons_self)
  · exact lt_irrefl _ hlt

/-- What recovery answers is chain-valid at a row above which no chain-valid text is stored. -/
theorem newestOf_eq_some (ho : Ordered rows)
    (h : newestOf codec sha256Digest rows runId = some e) :
    ∃ row, ChainValid codec sha256Digest rows runId row e ∧
      ∀ row' e', ChainValid codec sha256Digest rows runId row' e' →
        row'.sequence ≤ row.sequence := by
  obtain ⟨newer, older, hwindow, hanchored, habove⟩ := Lineage.newest_eq_some h
  obtain ⟨newerRows, rest, hsplit, rfl, hrest⟩ := List.map_eq_append_iff.mp hwindow
  obtain ⟨row, olderRows, rfl, htext, rfl⟩ := List.map_eq_cons_iff.mp hrest
  have hrow : row ∈ rowsOf rows runId := by
    rw [hsplit]
    simp
  refine ⟨row, ⟨hrow, htext, by rwa [rowsBelow_eq ho hsplit]⟩, fun row' e' hvalid => ?_⟩
  by_contra hlt
  obtain ⟨newer', older', hsplit'⟩ := List.append_of_mem hvalid.retained
  have hanchored' := hvalid.anchored
  rw [rowsBelow_eq ho hsplit'] at hanchored'
  refine habove (newer'.map fun r => codec.modelValidateJson r.envelopeJson) e' _ ?_ ?_ hanchored'
  · rw [parsedRows, hsplit', List.map_append, List.map_cons, hvalid.text]
  · rw [List.length_map, List.length_map]
    exact length_lt_of_sequence_lt ho hsplit hsplit' (not_le.mp hlt)

/-- Recovery answers with an envelope that is chain-valid at the row it was read from, above
which no row holds a chain-valid text. Where it is the row's own it carries the run asked for and
the sequence of the row, and no row holds its own chain-valid envelope of a higher sequence. -/
theorem recoverLatest_identity (hs : Reachable codec sha256Digest s)
    (h : Returns (handle codec sha256Digest).exec (recoverLatest codec sha256Digest runId) s
      (.ok e)) : ∃ row, ChainValid codec sha256Digest s.rows runId row e ∧
    (∀ row' e', ChainValid codec sha256Digest s.rows runId row' e' →
      row'.sequence ≤ row.sequence) ∧
    (Own row e → e.runId = runId ∧ e.sequence = row.sequence ∧
      ∀ row' e', ChainValid codec sha256Digest s.rows runId row' e' → Own row' e' →
        e'.sequence ≤ e.sequence) := by
  obtain ⟨row, hvalid, hnewest⟩ := newestOf_eq_some hs.ordered (Returns.recoverLatest_iff.mp h)
  refine ⟨row, hvalid, hnewest, fun hown => ⟨?_, hown.sequence, fun row' e' hvalid' hown' => ?_⟩⟩
  · rw [hown.run]
    exact (mem_rowsOf.mp hvalid.retained).2
  · rw [hown.sequence, hown'.sequence]
    exact hnewest row' e' hvalid'

/-- After one write recovery answers with its envelope, from the only row. -/
theorem recoverLatest_identity_first : ∃ s : CheckpointStore StoredText, ∃ e row,
    rowsOf s.rows "run" = [stored documentCodec e] ∧
    ChainValid documentCodec id s.rows "run" row e ∧ (Own row e → e.runId = "run") := by
  obtain ⟨e, s, hrun, he, hrows, -⟩ :=
    @sampleWrite_returns ⟨[], []⟩ "run" ordered_nil "1" (.inl rfl) (by simp)
  have hs : Written documentCodec id s := .single (.write hrun)
  have hlinked : (lineage id).Linked [e] := he.valid
  obtain ⟨row, hvalid, -, hown⟩ := recoverLatest_identity hs.reachable
    (Returns.recoverLatest_iff.mpr (newestOf_of_linked hrows hlinked))
  exact ⟨s, e, row, hrows, hvalid, fun h => (hown h).1⟩

/-- A text copied from the row of another run is answered with. -/
theorem recoverLatest_copied : ∃ s e, Reachable documentCodec id s ∧
    Returns (handle documentCodec id).exec (recoverLatest documentCodec id "run") s (.ok e) ∧
    e.runId = "other" := by
  obtain ⟨e₁, s₁, hrun₁, he₁, hrows₁, hothers₁, hids₁⟩ :=
    @sampleWrite_returns ⟨[], []⟩ "run" ordered_nil "1" (.inl rfl) (by simp)
  have hs₁ : Reachable documentCodec id s₁ := .single (.call (.write hrun₁))
  obtain ⟨e₂, s₂, hrun₂, he₂, hrows₂, hothers₂, -⟩ :=
    @sampleWrite_returns s₁ "other" hs₁.ordered "2" (.inl (hothers₁ "other" (by decide)))
      fun row hrow => by
        rw [(hids₁ row hrow).resolve_right fun h => by cases h]
        exact sampleId_ne (by decide)
  have hs₂ : Reachable documentCodec id s₂ := .tail hs₁ (.call (.write hrun₂))
  -- the stored text of the other run in place of the run's own
  let s : CheckpointStore StoredText := { s₂ with rows := overwrite s₂.rows fun _ => .document e₂ }
  have hparsed : parsedRows documentCodec s.rows "run" = [some e₂] := by
    rw [parsedRows, rowsOf_overwrite hs₂.ordered, hothers₂ "run" (by decide), hrows₁]
    rfl
  refine ⟨s, e₂, .tail hs₂ (.overwrite _ s₂), ?_, he₂.run⟩
  rw [Returns.recoverLatest_iff, newestOf, hparsed]
  exact Lineage.newest_of_anchored (.oldest he₂.valid)

end DurableAgent.Checkpoints
