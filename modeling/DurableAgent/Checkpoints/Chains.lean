import DurableAgent.Checkpoints.History

/-!
# Unbroken chains

The envelopes that were appended for a run, of which the table keeps the newest.
-/

namespace DurableAgent.Checkpoints

open Library

variable {Text : Type} {codec : Codec Text} {sha256Digest : String → String} {runId : String}
  {retain : Nat} {rows : List (CheckpointRow Text)} {e : CheckpointEnvelope}

/-- The envelopes of a run, newest first: each carries the number of those before it plus one,
and the digest of the one before it. -/
def Unbroken (sha256Digest : String → String) (runId : String) : List CheckpointEnvelope → Prop
  | [] => True
  | e :: older => e.runId = runId ∧ e.Verified sha256Digest ∧ e.sequence = older.length + 1 ∧
      e.parentHash = older.head?.map (CheckpointEnvelope.chainHash sha256Digest) ∧
      Unbroken sha256Digest runId older

variable {chain : List CheckpointEnvelope}

theorem Unbroken.sequences (h : Unbroken sha256Digest runId chain) :
    chain.map CheckpointEnvelope.sequence = (List.range' 1 chain.length).reverse := by
  induction chain with
  | nil => rfl
  | cons e older ih =>
    obtain ⟨-, -, hsequence, -, hchain⟩ := h
    rw [List.map_cons, ih hchain, hsequence, List.length_cons, List.range'_concat,
      List.reverse_append, List.reverse_singleton]
    simp [Nat.add_comm]

theorem Unbroken.le_length (h : Unbroken sha256Digest runId chain) (he : e ∈ chain) :
    e.sequence ≤ chain.length := by
  have hmem : e.sequence ∈ chain.map CheckpointEnvelope.sequence := List.mem_map_of_mem he
  rw [h.sequences, List.mem_reverse, List.mem_range'_1] at hmem
  omega

/-- The newest envelope is the one that carries the length. -/
theorem Unbroken.head (h : Unbroken sha256Digest runId chain) (he : e ∈ chain)
    (hsequence : e.sequence = chain.length) : chain.head? = some e := by
  cases chain with
  | nil => cases he
  | cons newest older =>
    rcases List.mem_cons.mp he with rfl | he
    · rfl
    · have hle := Unbroken.le_length h.2.2.2.2 he
      rw [hsequence, List.length_cons] at hle
      omega

theorem Unbroken.linked (h : Unbroken sha256Digest runId chain) :
    (lineage sha256Digest).Linked chain := by
  induction chain with
  | nil => trivial
  | cons e older ih =>
    obtain ⟨-, hverified, hsequence, hparent, holder⟩ := h
    have hvalid : (lineage sha256Digest).valid e = true := decide_eq_true hverified
    cases older with
    | nil => exact hvalid
    | cons parent rest =>
      refine ⟨hvalid, hparent, ?_, ih holder⟩
      change parent.sequence < e.sequence
      rw [hsequence, holder.2.2.1, List.length_cons]
      omega

/-- The newest of the chain are stored. -/
structure Keeps (codec : Codec Text) (sha256Digest : String → String) (runId : String)
    (rows : List (CheckpointRow Text)) (chain : List CheckpointEnvelope) (kept : Nat) : Prop where
  ordered : Ordered rows
  unbroken : Unbroken sha256Digest runId chain
  rows_eq : rowsOf rows runId = (chain.take kept).map (stored codec)
  kept_le : kept ≤ chain.length
  kept_pos : chain ≠ [] → 0 < kept

variable {kept : Nat}

theorem Keeps.tipSequence_eq (h : Keeps codec sha256Digest runId rows chain kept) :
    tipSequence rows runId = chain.length := by
  unfold tipSequence
  rw [h.rows_eq]
  cases chain with
  | nil => simp
  | cons e older =>
    obtain ⟨n, rfl⟩ := Nat.exists_eq_succ_of_ne_zero (h.kept_pos (List.cons_ne_nil e older)).ne'
    rw [List.take_succ_cons, List.map_cons, List.head?_cons, Option.map_some, Option.getD_some]
    exact h.unbroken.2.2.1

theorem Keeps.newestOf_eq (h : Keeps codec sha256Digest runId rows chain kept) :
    newestOf codec sha256Digest rows runId = chain.head? := by
  cases chain with
  | nil =>
    have hrows : rowsOf rows runId = [] := by simpa using h.rows_eq
    rw [newestOf, parsedRows, hrows]
    rfl
  | cons e older =>
    obtain ⟨n, rfl⟩ := Nat.exists_eq_succ_of_ne_zero (h.kept_pos (List.cons_ne_nil e older)).ne'
    have hlinked := h.unbroken.linked.take (n + 1)
    have hrows := h.rows_eq
    rw [List.take_succ_cons] at hlinked hrows
    exact newestOf_of_linked hrows hlinked

/-- An envelope that names the newest one as its parent continues the chain. -/
theorem Keeps.append (h : Keeps codec sha256Digest runId rows chain kept) (hrun : e.runId = runId)
    (hverified : e.Verified sha256Digest) (hsequence : e.sequence = chain.length + 1)
    (hparent : e.parentHash = chain.head?.map (CheckpointEnvelope.chainHash sha256Digest)) :
    Keeps codec sha256Digest runId (stored codec e :: rows) (e :: chain) (kept + 1) := by
  have htip : tipSequence rows (stored codec e).runId < (stored codec e).sequence := by
    change tipSequence rows e.runId < e.sequence
    rw [hrun, hsequence, h.tipSequence_eq]
    exact Nat.lt_succ_self _
  refine ⟨h.ordered.cons htip, ⟨hrun, hverified, hsequence, hparent, h.unbroken⟩, ?_, ?_, ?_⟩
  · have hcons := rowsOf_cons h.ordered htip
    change rowsOf (stored codec e :: rows) e.runId = _ :: rowsOf rows e.runId at hcons
    rw [hrun] at hcons
    rw [hcons, h.rows_eq, List.take_succ_cons, List.map_cons]
  · rw [List.length_cons]
    have hle := h.kept_le
    omega
  · intro _
    exact Nat.succ_pos kept

theorem Keeps.prune (h : Keeps codec sha256Digest runId rows chain kept) (hretain : 2 ≤ retain) :
    Keeps codec sha256Digest runId (pruneCheckpoints rows runId retain) chain
      (min kept retain) := by
  refine ⟨h.ordered.prune runId retain, h.unbroken, ?_, ?_, fun hne => ?_⟩
  · rw [rowsOf_prune h.ordered (by omega), h.rows_eq, ← List.map_take, List.take_take, Nat.min_comm]
  · have hle := h.kept_le
    omega
  · have hpos := h.kept_pos hne
    omega

end DurableAgent.Checkpoints
