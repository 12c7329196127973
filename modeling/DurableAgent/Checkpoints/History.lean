import DurableAgent.Checkpoints.Writing

/-!
# Histories of a checkpoint table

Calls of writing and recovery follow one another, each of them possibly failing at a store
operation; between them stored texts may be replaced. The rows of each run stay in order. Without
replaced texts they are an unbroken chain.
-/

namespace DurableAgent.Checkpoints

open Library Library.Prog

variable {Text : Type} (codec : Codec Text) (sha256Digest : String → String)

/-- A call of some manager that has come to an end. -/
inductive CallStep : CheckpointStore Text → CheckpointStore Text → Prop where
  | write {manager : CheckpointManager} {run : RunRecord} {plan : PlanSpec}
      {tasks : List TaskRecord} {known : Known} {s s' : CheckpointStore Text}
      {r : Except Exn CheckpointEnvelope}
      (h : Runs (faulty codec sha256Digest)
        (manager.write codec sha256Digest run plan tasks known) s r s') : CallStep s s'
  | recover {runId : String} {s s' : CheckpointStore Text} {r : Except Exn CheckpointEnvelope}
      (h : Runs (faulty codec sha256Digest) (recoverLatest codec sha256Digest runId) s r s') :
      CallStep s s'

/-- A call, or any replacement of stored texts. -/
inductive Step : CheckpointStore Text → CheckpointStore Text → Prop where
  | call {s s' : CheckpointStore Text} (h : CallStep codec sha256Digest s s') : Step s s'
  | overwrite (text : CheckpointRow Text → Text) (s : CheckpointStore Text) :
      Step s { s with rows := overwrite s.rows text }

/-- Reached from the empty table. -/
def Reachable (s : CheckpointStore Text) : Prop :=
  Relation.ReflTransGen (Step codec sha256Digest) ⟨[], []⟩ s

/-- Reached from the empty table by calls alone. -/
def Written (s : CheckpointStore Text) : Prop :=
  Relation.ReflTransGen (CallStep codec sha256Digest) ⟨[], []⟩ s

variable {codec sha256Digest} {s s' : CheckpointStore Text} {runId : String}
  {rows : List (CheckpointRow Text)} {e : CheckpointEnvelope}

theorem Extends.valid (he : Extends codec sha256Digest rows runId e) :
    (lineage sha256Digest).valid e = true :=
  decide_eq_true he.verified

theorem Extends.tip_lt (he : Extends codec sha256Digest rows runId e) :
    tipSequence rows (stored codec e).runId < (stored codec e).sequence := by
  change tipSequence rows e.runId < e.sequence
  rw [he.run, he.sequence]
  exact Nat.lt_succ_self _

theorem Extends.ordered (he : Extends codec sha256Digest rows runId e) (h : Ordered rows) :
    Ordered (stored codec e :: rows) :=
  h.cons he.tip_lt

theorem Extends.rowsOf_eq (he : Extends codec sha256Digest rows runId e) (h : Ordered rows) :
    rowsOf (stored codec e :: rows) runId = stored codec e :: Checkpoints.rowsOf rows runId := by
  have hcons := rowsOf_cons h he.tip_lt
  change Checkpoints.rowsOf _ e.runId = _ :: Checkpoints.rowsOf rows e.runId at hcons
  rwa [he.run] at hcons

theorem rowsOf_stored_of_ne {run : String} (he : Extends codec sha256Digest rows runId e)
    (h : Ordered rows) (hrun : run ≠ runId) :
    rowsOf (stored codec e :: rows) run = rowsOf rows run := by
  have hne : ¬ (stored codec e).runId = run := fun heq => hrun (heq.symm.trans he.run)
  rw [rowsOf_eq (he.ordered h), rowsOf_eq h, List.filter_cons_of_neg (by simpa using hne)]

/-- A call leaves the rows alone, or puts a verified child of the recovered tip on top of the
rows of its run, of which it may then keep only the newest. -/
theorem CallStep.rows_cases (h : CallStep codec sha256Digest s s') : s'.rows = s.rows ∨
    ∃ runId e, Extends codec sha256Digest s.rows runId e ∧ (s'.rows = stored codec e :: s.rows ∨
      ∃ retain, 2 ≤ retain ∧
        s'.rows = pruneCheckpoints (stored codec e :: s.rows) runId retain) := by
  cases h with
  | @write manager run _ _ _ _ _ _ h =>
    rcases write_wp.runs h with ⟨-, hrows⟩ | ⟨e, he, ⟨-, hrows⟩ | ⟨-, hrows⟩⟩
    · exact .inl hrows
    · exact .inr ⟨run.runId, e, he, .inl hrows⟩
    · exact .inr ⟨run.runId, e, he, .inr ⟨_, manager.retention_at_least_two, hrows⟩⟩
  | recover h => exact .inl (recoverLatest_wp.runs h).1

theorem CallStep.ordered (h : CallStep codec sha256Digest s s') (ho : Ordered s.rows) :
    Ordered s'.rows := by
  rcases h.rows_cases with hrows | ⟨runId, e, he, hrows | ⟨retain, -, hrows⟩⟩
  · rwa [hrows]
  · rw [hrows]
    exact he.ordered ho
  · rw [hrows]
    exact (he.ordered ho).prune runId retain

theorem Step.ordered (h : Step codec sha256Digest s s') (ho : Ordered s.rows) :
    Ordered s'.rows := by
  cases h with
  | call h => exact h.ordered ho
  | overwrite text => exact ho.overwrite text

theorem Reachable.ordered (h : Reachable codec sha256Digest s) : Ordered s.rows := by
  induction h with
  | refl => exact ordered_nil
  | tail _ hstep ih => exact hstep.ordered ih

theorem Written.reachable (h : Written codec sha256Digest s) : Reachable codec sha256Digest s :=
  Relation.ReflTransGen.mono (fun _ _ hstep => .call hstep) _ _ h

/-! ## Histories without damage -/

/-- The rows of a run are those stored for an unbroken chain of envelopes. -/
def Intact (codec : Codec Text) (sha256Digest : String → String)
    (rows : List (CheckpointRow Text)) (runId : String) : Prop :=
  ∃ chain, rowsOf rows runId = chain.map (stored codec) ∧ (lineage sha256Digest).Linked chain

theorem parsedRows_of_stored {chain : List CheckpointEnvelope}
    (h : rowsOf rows runId = chain.map (stored codec)) :
    parsedRows codec rows runId = chain.map some := by
  rw [parsedRows, h, List.map_map]
  apply List.map_congr_left
  intro e _
  exact codec.validate_dump e

/-- The tip of an unbroken chain is what recovery answers. -/
theorem newestOf_of_linked {tip : CheckpointEnvelope} {older : List CheckpointEnvelope}
    (h : rowsOf rows runId = (tip :: older).map (stored codec))
    (hl : (lineage sha256Digest).Linked (tip :: older)) :
    newestOf codec sha256Digest rows runId = some tip := by
  rw [newestOf, parsedRows_of_stored h]
  exact Lineage.newest_of_anchored hl.anchored

/-- A write continues the chain of its run. -/
theorem Intact.extend (h : Intact codec sha256Digest rows runId) (ho : Ordered rows)
    (he : Extends codec sha256Digest rows runId e) :
    Intact codec sha256Digest (stored codec e :: rows) runId := by
  obtain ⟨chain, hchain, hl⟩ := h
  refine ⟨e :: chain, by rw [he.rowsOf_eq ho, hchain, List.map_cons], ?_⟩
  cases chain with
  | nil => exact he.valid
  | cons tip older =>
    refine ⟨he.valid, ?_, ?_, hl⟩
    · change e.parentHash = _
      rw [he.parent, newestOf_of_linked hchain hl]
      rfl
    · change tip.sequence < e.sequence
      rw [he.sequence, tipSequence, hchain]
      exact Nat.lt_succ_self _

theorem Intact.prune (h : Intact codec sha256Digest rows runId) (ho : Ordered rows) {retain : Nat}
    (hretain : 1 ≤ retain) :
    Intact codec sha256Digest (pruneCheckpoints rows runId retain) runId := by
  obtain ⟨chain, hchain, hl⟩ := h
  exact ⟨chain.take retain, by rw [rowsOf_prune ho hretain, hchain, List.map_take], hl.take retain⟩

theorem Intact.congr {rows' : List (CheckpointRow Text)}
    (h : Intact codec sha256Digest rows runId) (hrows : rowsOf rows' runId = rowsOf rows runId) :
    Intact codec sha256Digest rows' runId := by
  obtain ⟨chain, hchain, hl⟩ := h
  exact ⟨chain, hrows.trans hchain, hl⟩

theorem CallStep.intact (h : CallStep codec sha256Digest s s') (ho : Ordered s.rows)
    (hi : Intact codec sha256Digest s.rows runId) : Intact codec sha256Digest s'.rows runId := by
  rcases h.rows_cases with hrows | ⟨run, e, he, hrows⟩
  · rwa [hrows]
  · have hmid : Intact codec sha256Digest (stored codec e :: s.rows) runId := by
      by_cases hrun : runId = run
      · subst hrun
        exact hi.extend ho he
      · exact hi.congr (rowsOf_stored_of_ne he ho hrun)
    rcases hrows with hrows | ⟨retain, hretain, hrows⟩
    · rwa [hrows]
    · rw [hrows]
      by_cases hrun : runId = run
      · subst hrun
        exact hmid.prune (he.ordered ho) (by omega)
      · exact hmid.congr (rowsOf_prune_of_ne (he.ordered ho) hrun)

theorem Written.intact (h : Written codec sha256Digest s) (runId : String) :
    Intact codec sha256Digest s.rows runId := by
  induction h with
  | refl => exact ⟨[], rfl, trivial⟩
  | tail hpre hstep ih => exact hstep.intact (Written.reachable hpre).ordered ih

end DurableAgent.Checkpoints
