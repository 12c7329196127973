import DurableAgent.Checkpoints.Manager

/-!
# What recovery does

`recover_latest` answers with the newest anchored envelope of the parsed rows of a run and leaves
the rows alone, also where store operations may fail.
-/

namespace DurableAgent.Checkpoints

open Library Library.Prog

variable {Text : Type} (codec : Codec Text) (sha256Digest : String → String)

/-- The store operations, each of which may also fail without effect. -/
abbrev faulty : Exec (CheckpointOp Text) Exn (CheckpointStore Text) :=
  (handle codec sha256Digest).exec.withFaults

/-- The rows of a run as the schema reads them. -/
def parsedRows (rows : List (CheckpointRow Text)) (runId : String) :
    List (Option CheckpointEnvelope) :=
  (rowsOf rows runId).map fun row => codec.modelValidateJson row.envelopeJson

/-- The newest envelope of a run that passes the checks. -/
def newestOf (rows : List (CheckpointRow Text)) (runId : String) : Option CheckpointEnvelope :=
  (lineage sha256Digest).newest (parsedRows codec rows runId)

/-- The row that is stored for an envelope. -/
def stored (e : CheckpointEnvelope) : CheckpointRow Text :=
  ⟨e.checkpointId, e.runId, e.sequence, codec.modelDumpJson e⟩

/-- The calls that do not touch the rows. -/
def KeepsRows : (β : Type) → CheckpointOp Text β → Prop
  | _, .appendCheckpoint _ _ => False
  | _, .pruneCheckpoints _ _ => False
  | _, _ => True

/-- The calls that neither list nor change the rows. -/
def Idle : (β : Type) → CheckpointOp Text β → Prop
  | _, .listCheckpointJson _ => False
  | _, .appendCheckpoint _ _ => False
  | _, .pruneCheckpoints _ _ => False
  | _, _ => True

theorem Idle.keepsRows {β : Type} {op : CheckpointOp Text β} (h : Idle β op) : KeepsRows β op := by
  cases op <;> trivial

variable {codec sha256Digest} {s s' : CheckpointStore Text} {runId : String}

/-! ## Single calls -/

theorem keepsRows_step {β : Type} {op : CheckpointOp Text β} {x : Except Exn β}
    (hop : KeepsRows β op) (h : faulty codec sha256Digest β op s x s') : s'.rows = s.rows := by
  rcases h with ⟨t, h⟩ | ⟨e, -, rfl⟩
  · cases op <;> first | exact hop.elim | (rw [← (Prod.mk.inj h).2])
  · rfl

theorem publish_rows {event : Event} {x : Except Exn Unit}
    (h : faulty codec sha256Digest _ (.publish event) s x s') : s'.rows = s.rows :=
  keepsRows_step (by trivial) h

theorem listCheckpointJson_step {x : Except Exn (List Text)}
    (h : faulty codec sha256Digest _ (.listCheckpointJson runId) s x s') :
    s' = s ∧ ∀ raw, x = .ok raw → raw = (rowsOf s.rows runId).map CheckpointRow.envelopeJson := by
  rcases h with ⟨t, h⟩ | ⟨e, rfl, rfl⟩
  · obtain ⟨rfl, rfl⟩ := Prod.mk.inj h
    exact ⟨rfl, fun raw hraw => (Except.ok.inj hraw).symm⟩
  · exact ⟨rfl, fun raw hraw => by cases hraw⟩

theorem checkpointTipSequence_step {x : Except Exn Nat}
    (h : faulty codec sha256Digest _ (.checkpointTipSequence runId) s x s') :
    s' = s ∧ ∀ tip, x = .ok tip → tip = tipSequence s.rows runId := by
  rcases h with ⟨t, h⟩ | ⟨e, rfl, rfl⟩
  · obtain ⟨rfl, rfl⟩ := Prod.mk.inj h
    exact ⟨rfl, fun tip htip => (Except.ok.inj htip).symm⟩
  · exact ⟨rfl, fun tip htip => by cases htip⟩

theorem appendCheckpoint_eq_ok {e : CheckpointEnvelope} {expected : Nat}
    {rows rows' : List (CheckpointRow Text)}
    (h : appendCheckpoint codec sha256Digest e expected rows = .ok rows') :
    tipSequence rows e.runId = expected ∧ rows' = stored codec e :: rows := by
  unfold appendCheckpoint at h
  cases hv : e.verify sha256Digest with
  | error err => rw [hv] at h; cases h
  | ok u =>
    rw [hv] at h
    change (if _ then _ else _) = _ at h
    split at h
    · cases h
    · next hseq =>
      split at h
      · cases h
      · split at h
        · cases h
        · split at h
          · cases h
          · have htip : tipSequence rows e.runId = expected := by
              by_contra hne
              exact hseq (.inl hne)
            exact ⟨htip, (Except.ok.inj h).symm⟩

/-! ## Appends -/

/-- The tip is the one expected, and the envelope is a verified child of a retained one. -/
def Appendable (codec : Codec Text) (sha256Digest : String → String) (e : CheckpointEnvelope)
    (expectedSequence : Nat) (rows : List (CheckpointRow Text)) : Prop :=
  tipSequence rows e.runId = expectedSequence ∧ e.sequence = expectedSequence + 1 ∧
    e.Verified sha256Digest ∧
    (if (rowsOf rows e.runId).isEmpty then e.parentHash = none
      else parentFound codec sha256Digest rows e.runId e.parentHash = true) ∧
    ∀ row ∈ rows, row.checkpointId ≠ e.checkpointId

instance (codec : Codec Text) (sha256Digest : String → String) (e : CheckpointEnvelope)
    (expectedSequence : Nat) (rows : List (CheckpointRow Text)) :
    Decidable (Appendable codec sha256Digest e expectedSequence rows) :=
  inferInstanceAs (Decidable (_ ∧ _ ∧ _ ∧ _ ∧ _))

theorem exists_ite_eq_ok {α : Type} {p : Prop} [Decidable p] {e : Exn} {a : α} :
    (∃ b, (if p then Except.error e else .ok a) = .ok b) ↔ ¬ p := by
  by_cases h : p
  · simp [h]
  · simp [h]

theorem appendCheckpoint_accepted {e : CheckpointEnvelope} {n : Nat}
    {rows : List (CheckpointRow Text)} :
    (∃ rows', appendCheckpoint codec sha256Digest e n rows = .ok rows') ↔
      Appendable codec sha256Digest e n rows := by
  unfold appendCheckpoint Appendable
  by_cases hv : e.Verified sha256Digest
  · rw [CheckpointEnvelope.verify_eq_ok.mpr hv]
    dsimp only [Bind.bind, Except.bind]
    by_cases hseq : tipSequence rows e.runId = n ∧ e.sequence = n + 1
    · rw [if_neg (by simp [hseq])]
      by_cases hrows : rowsOf rows e.runId = []
      · by_cases hparent : e.parentHash = none
        · simp [hseq, hv, hrows, hparent, exists_ite_eq_ok]
        · simp [hrows, hparent]
      · cases hfound : parentFound codec sha256Digest rows e.runId e.parentHash with
        | false => simp [hrows]
        | true => simp [hseq, hv, hrows, exists_ite_eq_ok]
    · rw [if_pos (by simpa [or_iff_not_imp_left] using hseq)]
      constructor
      · rintro ⟨rows', h⟩
        cases h
      · rintro ⟨htip, hnext, -⟩
        exact absurd ⟨htip, hnext⟩ hseq
  · cases hverify : e.verify sha256Digest with
    | ok u => exact absurd (CheckpointEnvelope.verify_eq_ok.mp hverify) hv
    | error err =>
      simp only [hv, false_and, and_false, iff_false, not_exists]
      intro rows' h
      cases h

theorem appendCheckpoint_step {e : CheckpointEnvelope} {expected : Nat} {x : Except Exn Unit}
    (h : faulty codec sha256Digest _ (.appendCheckpoint e expected) s x s') :
    (s' = s ∧ ∃ err, x = .error err) ∨
      (x = .ok () ∧ tipSequence s.rows e.runId = expected ∧ s'.rows = stored codec e :: s.rows) := by
  rcases h with ⟨t, h⟩ | ⟨err, rfl, rfl⟩
  · simp only [handle] at h
    split at h
    · next rows hrows =>
      obtain ⟨rfl, rfl⟩ := Prod.mk.inj h
      obtain ⟨htip, rfl⟩ := appendCheckpoint_eq_ok hrows
      exact .inr ⟨rfl, htip, rfl⟩
    · obtain ⟨rfl, rfl⟩ := Prod.mk.inj h
      exact .inl ⟨rfl, _, rfl⟩
  · exact .inl ⟨rfl, err, rfl⟩

theorem pruneCheckpoints_step {retain : Nat} {x : Except Exn Nat}
    (h : faulty codec sha256Digest _ (.pruneCheckpoints runId retain) s x s') :
    (s' = s ∧ ∃ err, x = .error err) ∨
      (∃ n, x = .ok n) ∧ s'.rows = pruneCheckpoints s.rows runId retain := by
  rcases h with ⟨t, h⟩ | ⟨err, rfl, rfl⟩
  · simp only [handle] at h
    split at h
    · obtain ⟨rfl, rfl⟩ := Prod.mk.inj h
      exact .inl ⟨rfl, _, rfl⟩
    · obtain ⟨rfl, rfl⟩ := Prod.mk.inj h
      exact .inr ⟨⟨_, rfl⟩, rfl⟩
  · exact .inl ⟨rfl, err, rfl⟩

/-! ## Recovery -/

/-- The loop over the candidates ends at the newest anchored envelope. -/
theorem candidates_snd (parsed : List (Option CheckpointEnvelope)) (index : Nat)
    (suffix : List (Option CheckpointEnvelope)) (failures : List Rejection)
    (hdrop : parsed.drop index = suffix) :
    (candidates sha256Digest parsed index suffix failures).2 =
      (lineage sha256Digest).newest suffix := by
  induction suffix generalizing index failures with
  | nil => rfl
  | cons r older ih =>
    have hnext : parsed.drop (index + 1) = older := by
      rw [← List.drop_drop, hdrop, List.drop_one, List.tail_cons]
    cases r with
    | none =>
      rw [candidates, rejection, Lineage.newest_of_not_anchored (fun c hc => by cases hc)]
      exact ih (index + 1) _ hnext
    | some e =>
      rw [candidates, rejection, chainIsValid, hdrop]
      by_cases hvalid : (lineage sha256Digest).walk none (some e :: older) = true
      · rw [if_pos hvalid, Lineage.newest, if_pos hvalid]
      · rw [if_neg hvalid, Lineage.newest, if_neg hvalid]
        exact ih (index + 1) _ hnext

theorem candidates_newestOf (rows : List (CheckpointRow Text)) (runId : String) :
    (candidates sha256Digest (parsedRows codec rows runId) 0 (parsedRows codec rows runId) []).2 =
      newestOf codec sha256Digest rows runId :=
  candidates_snd _ 0 _ [] rfl

/-- The answer of `recover_latest` for the rows of a run. -/
def recovered (codec : Codec Text) (sha256Digest : String → String)
    (rows : List (CheckpointRow Text)) (runId : String) : Except Exn CheckpointEnvelope :=
  if rowsOf rows runId = [] then
    .error (.of .corruptCheckpoint s!"run {runId} has no checkpoints")
  else
    match newestOf codec sha256Digest rows runId with
    | some e => .ok e
    | none => .error (.of .corruptCheckpoint s!"run {runId} has no valid checkpoint")

theorem recovered_eq_ok {rows : List (CheckpointRow Text)} {e : CheckpointEnvelope} :
    recovered codec sha256Digest rows runId = .ok e ↔
      newestOf codec sha256Digest rows runId = some e := by
  unfold recovered
  by_cases hrows : rowsOf rows runId = []
  · have hnone : newestOf codec sha256Digest rows runId = none := by
      rw [newestOf, parsedRows, hrows]
      rfl
    rw [if_pos hrows, hnone]
    simp
  · rw [if_neg hrows]
    cases newestOf codec sha256Digest rows runId with
    | none => simp
    | some e' => simp

theorem runs_listCheckpointJson {α : Type} {f : List Text → Prog (CheckpointOp Text) Exn α}
    {r : Except Exn α} :
    Runs (handle codec sha256Digest).exec (perform (.listCheckpointJson runId) >>= f) s r s' ↔
      Runs (handle codec sha256Digest).exec
        (f ((rowsOf s.rows runId).map CheckpointRow.envelopeJson)) s r s' := by
  constructor
  · intro h
    obtain ⟨x, s₁, ⟨t, hop⟩, hrest⟩ := runs_call.mp h
    obtain ⟨rfl, rfl⟩ := Prod.mk.inj hop
    exact hrest
  · exact fun h => runs_call.mpr ⟨_, s, ⟨default, rfl⟩, h⟩

theorem runs_publish {α : Type} {event : Event} {f : Unit → Prog (CheckpointOp Text) Exn α}
    {r : Except Exn α} :
    Runs (handle codec sha256Digest).exec (perform (.publish event) >>= f) s r s' ↔
      Runs (handle codec sha256Digest).exec (f ())
        { s with events := s.events ++ [event] } r s' := by
  constructor
  · intro h
    obtain ⟨x, s₁, ⟨t, hop⟩, hrest⟩ := runs_call.mp h
    obtain ⟨rfl, rfl⟩ := Prod.mk.inj hop
    exact hrest
  · exact fun h => runs_call.mpr ⟨_, _, ⟨default, rfl⟩, h⟩

/-- Undisturbed, `recover_latest` answers from the rows of the run alone. -/
theorem recoverLatest_returns :
    Returns (handle codec sha256Digest).exec (recoverLatest codec sha256Digest runId) s
      (recovered codec sha256Digest s.rows runId) := by
  have hiff (r : Except Exn CheckpointEnvelope) :
      (∃ s', Runs (handle codec sha256Digest).exec (recoverLatest codec sha256Digest runId)
        s r s') ↔ r = recovered codec sha256Digest s.rows runId := by
    unfold recoverLatest recovered
    simp only [runs_listCheckpointJson, List.isEmpty_iff, List.map_eq_nil_iff, List.map_map]
    by_cases hrows : rowsOf s.rows runId = []
    · simp [hrows]
    · rw [if_neg hrows, if_neg hrows, ← candidates_newestOf]
      change (∃ s', Runs _ (match (candidates sha256Digest (parsedRows codec s.rows runId) 0
        (parsedRows codec s.rows runId) []).2 with | some _ => _ | none => _) s r s') ↔ _
      cases (candidates sha256Digest (parsedRows codec s.rows runId) 0
        (parsedRows codec s.rows runId) []).2 with
      | none => simp [runs_publish]
      | some e =>
        dsimp only
        split
        · simp
        · simp [runs_publish]
  obtain ⟨s', hrun⟩ := (hiff _).mpr rfl
  exact ⟨⟨s', hrun⟩, fun r s' h => (hiff r).mp ⟨s', h⟩⟩

/-- Whatever fails, an answer of `recover_latest` is the newest anchored envelope. -/
theorem recoverLatest_wp :
    (recoverLatest codec sha256Digest runId).wp (faulty codec sha256Digest)
      (fun r s' => s'.rows = s.rows ∧
        ∀ e, r = .ok e → newestOf codec sha256Digest s.rows runId = some e) s := by
  unfold recoverLatest
  refine wp.bind (fun x s₁ hop raw hraw => ?_) (fun x s₁ hop e _ => ?_)
  · obtain ⟨rfl, htexts⟩ := listCheckpointJson_step hop
    rw [htexts raw hraw]
    split
    · exact ⟨rfl, fun e he => by cases he⟩
    · rw [List.map_map]
      change wp _ (match (candidates sha256Digest (parsedRows codec s₁.rows runId) 0
        (parsedRows codec s₁.rows runId) []).2 with | some _ => _ | none => _) _ s₁
      have hnewest := @candidates_newestOf Text codec sha256Digest s₁.rows runId
      cases hc : (candidates sha256Digest (parsedRows codec s₁.rows runId) 0
        (parsedRows codec s₁.rows runId) []).2 with
      | none =>
        dsimp only
        refine wp.bind (fun x s₂ hpub _ _ => ?_) (fun x s₂ hpub e _ => ?_)
        · exact ⟨publish_rows hpub, fun e he => by cases he⟩
        · exact ⟨publish_rows hpub, fun e he => by cases he⟩
      | some e =>
        rw [hc] at hnewest
        have hok : ∀ e', (Except.ok e : Except Exn CheckpointEnvelope) = .ok e' →
            newestOf codec sha256Digest s₁.rows runId = some e' :=
          fun e' he' => by rw [← hnewest, Except.ok.inj he']
        dsimp only
        split
        · exact ⟨rfl, hok⟩
        · refine wp.bind (fun x s₂ hpub _ _ => ?_) (fun x s₂ hpub e _ => ?_)
          · exact ⟨publish_rows hpub, hok⟩
          · exact ⟨publish_rows hpub, fun e he => by cases he⟩
  · obtain ⟨rfl, -⟩ := listCheckpointJson_step hop
    exact ⟨rfl, fun e he => by cases he⟩

end DurableAgent.Checkpoints
