import DurableAgent.Domain.Checkpoint
import DurableAgent.Library.Program

/-!
# The checkpoint table

The store operations that a checkpoint manager calls, each one transaction. The rows of a run
are read newest first; what the other tables hold is supplied from outside at each read.
-/

namespace DurableAgent.Checkpoints

open Library

/-- A row of `checkpoints`, without the columns that only the listing of damaged rows reads. -/
structure CheckpointRow (Text : Type) where
  checkpointId : String
  runId : String
  sequence : Nat
  envelopeJson : Text

structure Event where
  runId : String
  eventType : String
  payload : Json
  taskId : Option String

structure CheckpointStore (Text : Type) where
  rows : List (CheckpointRow Text)
  events : List Event

/-- What the tables of contexts, tool calls, artifacts, evidence, errors and snapshots hold. -/
structure References where
  contexts : List String
  summaries : List String
  toolCalls : List ToolCall
  artifacts : List String
  evidence : List String
  latestError : Option ErrorCheckpoint
  manifestHash : String
  deriving Inhabited

/-- What a call takes from outside the table. -/
structure Supply where
  now : Timestamp
  freshId : String
  references : References
  deriving Inhabited

inductive CheckpointOp (Text : Type) : Type → Type where
  | now : CheckpointOp Text Timestamp
  | newId (kind : String) : CheckpointOp Text String
  | getRepositoryIndex (snapshotId : String) : CheckpointOp Text String
  | listContextReferences (runId : String) : CheckpointOp Text (List String × List String)
  | listToolCalls (runId : String) : CheckpointOp Text (List ToolCall)
  | listArtifactIds (runId : String) : CheckpointOp Text (List String)
  | getEvidence (runId : String) : CheckpointOp Text (List String)
  | latestError (runId : String) : CheckpointOp Text (Option ErrorCheckpoint)
  | listCheckpointJson (runId : String) : CheckpointOp Text (List Text)
  | checkpointTipSequence (runId : String) : CheckpointOp Text Nat
  | appendCheckpoint (envelope : CheckpointEnvelope) (expectedSequence : Nat) :
      CheckpointOp Text Unit
  | publish (event : Event) : CheckpointOp Text Unit
  | pruneCheckpoints (runId : String) (retain : Nat) : CheckpointOp Text Nat

section Table

variable {Text : Type} (codec : Codec Text) (sha256Digest : String → String)

abbrev conflict (message : String) : Exn := .of .concurrencyConflict message

/-- The rows of a run by descending sequence. -/
def rowsOf (rows : List (CheckpointRow Text)) (runId : String) : List (CheckpointRow Text) :=
  (rows.filter fun row => row.runId = runId).insertionSort fun a b => b.sequence ≤ a.sequence

def tipSequence (rows : List (CheckpointRow Text)) (runId : String) : Nat :=
  ((rowsOf rows runId).head?.map CheckpointRow.sequence).getD 0

/-- Some stored text of the run is an intact envelope with the digest. -/
def parentFound (rows : List (CheckpointRow Text)) (runId : String) (parentHash : Option String) :
    Bool :=
  (rowsOf rows runId).any fun row =>
    match codec.fromUntrustedJson sha256Digest row.envelopeJson with
    | none => false
    | some candidate => parentHash = some (candidate.chainHash sha256Digest)

/-- `SqlStore.append_checkpoint` -/
def appendCheckpoint (envelope : CheckpointEnvelope) (expectedSequence : Nat)
    (rows : List (CheckpointRow Text)) : Except Exn (List (CheckpointRow Text)) := do
  envelope.verify sha256Digest
  let actual := tipSequence rows envelope.runId
  if actual ≠ expectedSequence ∨ envelope.sequence ≠ expectedSequence + 1 then
    .error (conflict
      s!"checkpoint sequence conflict: expected {expectedSequence}, actual {actual}")
  else if rowsOf rows envelope.runId ≠ [] ∧
      parentFound codec sha256Digest rows envelope.runId envelope.parentHash = false then
    .error (conflict "checkpoint parent hash does not match a valid retained checkpoint")
  else if rowsOf rows envelope.runId = [] ∧ envelope.parentHash ≠ none then
    .error (conflict "first checkpoint cannot have a parent hash")
  else if rows.any fun row => row.checkpointId = envelope.checkpointId then
    .error (conflict "concurrent checkpoint write")
  else
    .ok (⟨envelope.checkpointId, envelope.runId, envelope.sequence,
      codec.modelDumpJson envelope⟩ :: rows)

/-- The rows that `SqlStore.prune_checkpoints` leaves. -/
def pruneCheckpoints (rows : List (CheckpointRow Text)) (runId : String) (retain : Nat) :
    List (CheckpointRow Text) :=
  match ((rowsOf rows runId)[retain - 1]?).map CheckpointRow.sequence with
  | none => rows
  | some cutoff => rows.filter fun row => ¬ (row.runId = runId ∧ row.sequence < cutoff)

/-- The effect of each call. -/
def handle : Handler (CheckpointOp Text) Exn Supply (CheckpointStore Text)
  | _, .now, t, s => (.ok t.now, s)
  | _, .newId kind, t, s => (.ok s!"{kind}-{t.freshId}", s)
  | _, .getRepositoryIndex _, t, s => (.ok t.references.manifestHash, s)
  | _, .listContextReferences _, t, s => (.ok (t.references.contexts, t.references.summaries), s)
  | _, .listToolCalls _, t, s => (.ok t.references.toolCalls, s)
  | _, .listArtifactIds _, t, s => (.ok t.references.artifacts, s)
  | _, .getEvidence _, t, s => (.ok t.references.evidence, s)
  | _, .latestError _, t, s => (.ok t.references.latestError, s)
  | _, .listCheckpointJson runId, _, s =>
    (.ok ((rowsOf s.rows runId).map CheckpointRow.envelopeJson), s)
  | _, .checkpointTipSequence runId, _, s => (.ok (tipSequence s.rows runId), s)
  | _, .appendCheckpoint envelope expectedSequence, _, s =>
    match appendCheckpoint codec sha256Digest envelope expectedSequence s.rows with
    | .ok rows => (.ok (), { s with rows := rows })
    | .error e => (.error e, s)
  | _, .publish event, _, s => (.ok (), { s with events := s.events ++ [event] })
  | _, .pruneCheckpoints runId retain, _, s =>
    if retain < 2 then (.error (.other "retain must be at least two"), s)
    else
      (.ok (s.rows.length - (pruneCheckpoints s.rows runId retain).length),
        { s with rows := pruneCheckpoints s.rows runId retain })

end Table

/-! ## Rows in order -/

section Ordered

variable {Text : Type} {rows : List (CheckpointRow Text)} {runId : String}

/-- The rows of each run are stored newest first, under distinct sequences. -/
def Ordered (rows : List (CheckpointRow Text)) : Prop :=
  ∀ runId, (rows.filter fun row => row.runId = runId).Pairwise fun a b => b.sequence < a.sequence

theorem ordered_nil : Ordered ([] : List (CheckpointRow Text)) := fun _ => List.Pairwise.nil

theorem rowsOf_eq (h : Ordered rows) (runId : String) :
    rowsOf rows runId = rows.filter fun row => row.runId = runId := by
  unfold rowsOf
  apply List.Pairwise.insertionSort_eq
  exact (h runId).imp fun hab => le_of_lt hab

theorem rowsOf_pairwise (h : Ordered rows) (runId : String) :
    (rowsOf rows runId).Pairwise fun a b => b.sequence < a.sequence := by
  rw [rowsOf_eq h]
  exact h runId

theorem mem_rowsOf {row : CheckpointRow Text} :
    row ∈ rowsOf rows runId ↔ row ∈ rows ∧ row.runId = runId := by
  unfold rowsOf
  rw [List.mem_insertionSort, List.mem_filter, decide_eq_true_iff]

/-- A new tip is put before the rows of its run. -/
theorem Ordered.cons {row : CheckpointRow Text} (h : Ordered rows)
    (hrow : tipSequence rows row.runId < row.sequence) : Ordered (row :: rows) := by
  intro run
  by_cases hrun : row.runId = run
  · subst hrun
    rw [List.filter_cons_of_pos (by simp)]
    refine List.pairwise_cons.mpr ⟨fun r hr => ?_, h row.runId⟩
    rw [tipSequence, rowsOf_eq h] at hrow
    have hsorted := h row.runId
    cases hl : rows.filter fun r => r.runId = row.runId with
    | nil => rw [hl] at hr; cases hr
    | cons tip older =>
      rw [hl] at hr hrow hsorted
      rcases List.mem_cons.mp hr with rfl | hr
      · exact hrow
      · exact lt_trans ((List.pairwise_cons.mp hsorted).1 r hr) hrow
  · rw [List.filter_cons_of_neg (by simpa using hrun)]
    exact h run

theorem rowsOf_cons {row : CheckpointRow Text} (h : Ordered rows)
    (hrow : tipSequence rows row.runId < row.sequence) :
    rowsOf (row :: rows) row.runId = row :: rowsOf rows row.runId := by
  rw [rowsOf_eq (h.cons hrow), rowsOf_eq h, List.filter_cons_of_pos (by simp)]

theorem Ordered.filter (h : Ordered rows) (p : CheckpointRow Text → Bool) :
    Ordered (rows.filter p) :=
  fun run => (h run).sublist (List.filter_sublist.filter _)

/-- In a descending list the entries not below a given one are those up to it. -/
theorem filter_eq_take {α : Type} {f : α → Nat} {l : List α}
    (h : l.Pairwise fun a b => f b < f a) {n : Nat} (hn : n < l.length) :
    (l.filter fun a => ¬ f a < f l[n]) = l.take (n + 1) := by
  induction l generalizing n with
  | nil => simp at hn
  | cons a l ih =>
    obtain ⟨hhead, htail⟩ := List.pairwise_cons.mp h
    cases n with
    | zero =>
      have hrest : (l.filter fun b => ¬ f b < f a) = [] := by
        rw [List.filter_eq_nil_iff]
        intro b hb
        simpa using hhead b hb
      simpa using hrest
    | succ n =>
      have hn' : n < l.length := by simpa using hn
      have hkept : ¬ f a < f l[n] := not_lt_of_gt (hhead _ (List.getElem_mem hn'))
      rw [List.getElem_cons_succ, List.filter_cons_of_pos (by simpa using hkept), ih htail hn']
      rfl

theorem Ordered.prune (h : Ordered rows) (runId : String) (retain : Nat) :
    Ordered (pruneCheckpoints rows runId retain) := by
  unfold pruneCheckpoints
  split
  · exact h
  · exact h.filter _

theorem mem_of_mem_prune {retain : Nat} {row : CheckpointRow Text}
    (h : row ∈ pruneCheckpoints rows runId retain) : row ∈ rows := by
  unfold pruneCheckpoints at h
  split at h
  · exact h
  · exact (List.mem_filter.mp h).1

/-- Pruning keeps the newest rows of the run. -/
theorem rowsOf_prune (h : Ordered rows) {retain : Nat} (hretain : 1 ≤ retain) :
    rowsOf (pruneCheckpoints rows runId retain) runId = (rowsOf rows runId).take retain := by
  have hordered := h.prune runId retain
  unfold pruneCheckpoints at hordered ⊢
  by_cases hlen : retain - 1 < (rowsOf rows runId).length
  · rw [List.getElem?_eq_getElem hlen] at hordered ⊢
    simp only [Option.map_some] at hordered ⊢
    have htake := filter_eq_take (rowsOf_pairwise h runId) hlen
    rw [Nat.sub_add_cancel hretain] at htake
    rw [← htake, rowsOf_eq hordered]
    generalize (rowsOf rows runId)[retain - 1].sequence = cutoff
    rw [rowsOf_eq h, List.filter_filter, List.filter_filter]
    apply List.filter_congr
    intro row _
    by_cases hrun : row.runId = runId
    · simp [hrun]
    · simp [hrun]
  · rw [List.getElem?_eq_none (not_lt.mp hlen), Option.map_none]
    have hshort : (rowsOf rows runId).length ≤ retain := by omega
    exact (List.take_of_length_le hshort).symm

theorem rowsOf_prune_of_ne (h : Ordered rows) {retain : Nat} {run : String} (hrun : run ≠ runId) :
    rowsOf (pruneCheckpoints rows runId retain) run = rowsOf rows run := by
  rw [rowsOf_eq (h.prune runId retain), rowsOf_eq h]
  unfold pruneCheckpoints
  split
  · rfl
  · rw [List.filter_filter]
    apply List.filter_congr
    intro row _
    by_cases hrow : row.runId = run
    · simp [hrow, hrun]
    · simp [hrow]

/-- The stored texts replaced by arbitrary ones. -/
def overwrite (rows : List (CheckpointRow Text)) (text : CheckpointRow Text → Text) :
    List (CheckpointRow Text) :=
  rows.map fun row => { row with envelopeJson := text row }

theorem Ordered.overwrite (h : Ordered rows) (text : CheckpointRow Text → Text) :
    Ordered (overwrite rows text) := by
  intro run
  rw [Checkpoints.overwrite, List.filter_map, List.pairwise_map]
  exact h run

/-- Overwriting keeps the order of the rows of each run. -/
theorem rowsOf_overwrite (h : Ordered rows) (text : CheckpointRow Text → Text) :
    rowsOf (Checkpoints.overwrite rows text) runId =
      Checkpoints.overwrite (rowsOf rows runId) text := by
  rw [rowsOf_eq (h.overwrite text), rowsOf_eq h, Checkpoints.overwrite, List.filter_map]
  rfl

end Ordered

end DurableAgent.Checkpoints
