import DurableAgent.Checkpoints.Recovery

/-!
# What writing does

`write` puts a verified child of the recovered envelope on top of the rows of its run, and then
prunes them. It returns whenever there is something to recover, given a fresh identifier.
-/

namespace DurableAgent.Checkpoints

open Library Library.Prog

variable {Text : Type}

/-- An envelope that a write puts on the rows of its run. -/
structure Extends (codec : Codec Text) (sha256Digest : String → String)
    (rows : List (CheckpointRow Text)) (runId : String) (e : CheckpointEnvelope) : Prop where
  run : e.runId = runId
  verified : e.Verified sha256Digest
  sequence : e.sequence = tipSequence rows runId + 1
  parent : e.parentHash =
    (newestOf codec sha256Digest rows runId).map (CheckpointEnvelope.chainHash sha256Digest)
  recovered : rowsOf rows runId = [] ∨ newestOf codec sha256Digest rows runId ≠ none

variable {codec : Codec Text} {sha256Digest : String → String} {s s' : CheckpointStore Text}
  {runId : String}

variable {manager : CheckpointManager} {run : RunRecord} {plan : PlanSpec}
  {tasks : List TaskRecord} {known : Known}

theorem resolveManifestHash_calls :
    (resolveManifestHash run known).Calls (@Idle Text) := by
  unfold resolveManifestHash
  split
  · exact Calls.bind (calls_perform.mpr trivial) fun _ => trivial
  · trivial

theorem resolveError_calls : (resolveError run known).Calls (@Idle Text) := by
  unfold resolveError
  split
  · exact calls_perform.mpr trivial
  · trivial

theorem gatherReferences_calls :
    (gatherReferences run known).Calls (@Idle Text) := by
  unfold gatherReferences
  refine Calls.bind resolveManifestHash_calls fun manifestHash => ?_
  refine Calls.bind (calls_perform.mpr trivial) fun contexts => ?_
  refine Calls.bind (calls_perform.mpr trivial) fun toolCalls => ?_
  refine Calls.bind (calls_perform.mpr trivial) fun artifacts => ?_
  refine Calls.bind (calls_perform.mpr trivial) fun evidence => ?_
  exact Calls.bind resolveError_calls fun error => trivial

/-- The envelope that a call puts on the rows of its run. -/
def appended : (β : Type) → CheckpointOp Text β → Option CheckpointEnvelope
  | _, .appendCheckpoint envelope _ => some envelope
  | _, _ => none

theorem recoverLatest_appends :
    (recoverLatest codec sha256Digest runId).Calls fun β op => appended β op = none := by
  refine Calls.bind (calls_perform.mpr rfl) fun raw => ?_
  split
  · trivial
  · dsimp only
    split
    · split
      · trivial
      · exact Calls.bind (calls_perform.mpr rfl) fun _ => trivial
    · exact Calls.bind (calls_perform.mpr rfl) fun _ => trivial

/-- A write appends nothing but checkpoints of what it was given. -/
theorem write_appends :
    (manager.write codec sha256Digest run plan tasks known).Calls fun β op =>
      ∀ envelope ∈ appended β op,
        ∃ references, envelope.payload = checkpointPayload run plan tasks references := by
  have hnone {β : Type} {op : CheckpointOp Text β} (h : appended β op = none) :
      ∀ envelope ∈ appended β op,
        ∃ references, envelope.payload = checkpointPayload run plan tasks references := by
    rw [h]
    exact fun _ h => by cases h
  refine Calls.bind (gatherReferences_calls.mono fun β op hop => hnone ?_) fun references => ?_
  · cases op with
    | appendCheckpoint envelope n => exact hop.elim
    | _ => rfl
  · refine Calls.bind ?_ fun tip => ?_
    · refine Calls.bind (calls_perform.mpr (hnone rfl)) fun raw => ?_
      split
      · trivial
      · refine Calls.bind (recoverLatest_appends.mono fun β op => hnone) fun latest => ?_
        exact Calls.bind (calls_perform.mpr (hnone rfl)) fun _ => trivial
    · refine Calls.bind (calls_perform.mpr (hnone rfl)) fun checkpointId => ?_
      refine Calls.bind (calls_perform.mpr (hnone rfl)) fun createdAt => ?_
      refine Calls.bind (calls_perform.mpr fun envelope h => ?_) fun _ => ?_
      · obtain rfl := Option.some.inj h
        exact ⟨references, rfl⟩
      · refine Calls.bind (calls_perform.mpr (hnone rfl)) fun _ => ?_
        exact Calls.bind (calls_perform.mpr (hnone rfl)) fun _ => trivial

theorem gatherReferences_wp :
    (gatherReferences run known).wp (faulty codec sha256Digest) (fun _ s' => s'.rows = s.rows) s :=
  wp_of_calls gatherReferences_calls
    (fun _ _ _ _ _ hop hinv h => (keepsRows_step hop.keepsRows h).trans hinv) rfl

/-- The tip that a write builds on. -/
theorem recoverTip_wp : (recoverTip codec sha256Digest runId).wp (faulty codec sha256Digest)
    (fun r s' => s'.rows = s.rows ∧ ∀ tip parent, r = .ok (tip, parent) →
      tip = tipSequence s.rows runId ∧
        parent = (newestOf codec sha256Digest s.rows runId).map
          (CheckpointEnvelope.chainHash sha256Digest) ∧
        (rowsOf s.rows runId = [] ∨ newestOf codec sha256Digest s.rows runId ≠ none)) s := by
  unfold recoverTip
  refine wp.bind (fun x s₁ hop raw hraw => ?_) (fun x s₁ hop e _ => ?_)
  · obtain ⟨rfl, htexts⟩ := listCheckpointJson_step hop
    rw [htexts raw hraw]
    by_cases hrows : rowsOf s₁.rows runId = []
    · rw [if_pos (by rw [hrows]; rfl)]
      refine ⟨rfl, fun tip parent hr => ?_⟩
      obtain ⟨rfl, rfl⟩ := Prod.mk.inj (Except.ok.inj hr)
      rw [tipSequence, newestOf, parsedRows, hrows]
      exact ⟨rfl, rfl, .inl rfl⟩
    · rw [if_neg (by simpa using hrows)]
      refine wp.bind (wp.mono recoverLatest_wp fun r s₂ h latest hr => ?_)
        (wp.mono recoverLatest_wp fun r s₂ h e hr => ?_)
      · have hlatest := h.2 latest hr
        refine wp.bind (fun x s₃ htip tip hx => ?_) (fun x s₃ htip e hx => ?_)
        · obtain ⟨rfl, hvalue⟩ := checkpointTipSequence_step htip
          refine ⟨h.1, fun tip' parent hr' => ?_⟩
          obtain ⟨rfl, rfl⟩ := Prod.mk.inj (Except.ok.inj hr')
          rw [hvalue tip hx, h.1, hlatest]
          exact ⟨rfl, rfl, .inr (Option.some_ne_none latest)⟩
        · obtain ⟨rfl, -⟩ := checkpointTipSequence_step htip
          exact ⟨h.1, fun tip parent hr' => by cases hr'⟩
      · exact ⟨h.1, fun tip parent hr' => by cases hr'⟩
  · obtain ⟨rfl, -⟩ := listCheckpointJson_step hop
    exact ⟨rfl, fun tip parent hr => by cases hr⟩

/-- A write that is refused or fails leaves the rows alone, or has stored its envelope without
pruning; one that returns has stored it and pruned. -/
theorem write_wp : (manager.write codec sha256Digest run plan tasks known).wp
    (faulty codec sha256Digest)
    (fun r s' => ((∃ err, r = .error err) ∧ s'.rows = s.rows) ∨
      ∃ e, Extends codec sha256Digest s.rows run.runId e ∧
        (((∃ err, r = .error err) ∧ s'.rows = stored codec e :: s.rows) ∨
          (r = .ok e ∧ s'.rows = pruneCheckpoints (stored codec e :: s.rows) run.runId
            manager.retentionCount))) s := by
  unfold CheckpointManager.write
  refine wp.bind (wp.mono gatherReferences_wp fun r s₁ hrows references _ => ?_)
    (wp.mono gatherReferences_wp fun r s₁ hrows e _ => .inl ⟨⟨e, rfl⟩, hrows⟩)
  refine wp.bind (wp.mono recoverTip_wp fun r s₂ h tip hr => ?_)
    (wp.mono recoverTip_wp fun r s₂ h e _ => .inl ⟨⟨e, rfl⟩, h.1.trans hrows⟩)
  obtain ⟨expected, parent⟩ := tip
  obtain ⟨hexpected, hparent, hrecovered⟩ := h.2 expected parent hr
  have hrows₂ : s₂.rows = s.rows := h.1.trans hrows
  rw [hrows] at hexpected hparent hrecovered
  refine wp.bind (fun x s₃ hid checkpointId _ => ?_)
    (fun x s₃ hid e _ => .inl ⟨⟨e, rfl⟩, (keepsRows_step (by trivial) hid).trans hrows₂⟩)
  have hrows₃ : s₃.rows = s.rows := (keepsRows_step (by trivial) hid).trans hrows₂
  refine wp.bind (fun x s₄ hnow createdAt _ => ?_)
    (fun x s₄ hnow e _ => .inl ⟨⟨e, rfl⟩, (keepsRows_step (by trivial) hnow).trans hrows₃⟩)
  have hrows₄ : s₄.rows = s.rows := (keepsRows_step (by trivial) hnow).trans hrows₃
  dsimp only
  generalize henvelope : CheckpointEnvelope.create sha256Digest checkpointId (expected + 1) _ _
    parent createdAt = envelope
  have hextends : Extends codec sha256Digest s.rows run.runId envelope := by
    subst henvelope
    exact ⟨rfl, CheckpointEnvelope.create_verified, by rw [← hexpected]; rfl, hparent, hrecovered⟩
  refine wp.bind (fun x s₅ happ u hx => ?_) (fun x s₅ happ e hx => ?_)
  · rcases appendCheckpoint_step happ with ⟨-, err, herr⟩ | ⟨-, -, hrows₅⟩
    · rw [herr] at hx
      cases hx
    · rw [hrows₄] at hrows₅
      refine wp.bind (fun x s₆ hpub _ _ => ?_) (fun x s₆ hpub e _ =>
        .inr ⟨envelope, hextends, .inl ⟨⟨e, rfl⟩, (publish_rows hpub).trans hrows₅⟩⟩)
      have hrows₆ := (publish_rows hpub).trans hrows₅
      refine wp.bind (fun x s₇ hprune n hn => ?_) (fun x s₇ hprune e he => ?_)
      · rcases pruneCheckpoints_step hprune with ⟨-, err, herr⟩ | ⟨-, hrows₇⟩
        · rw [herr] at hn
          cases hn
        · rw [hrows₆] at hrows₇
          exact .inr ⟨envelope, hextends, .inr ⟨rfl, hrows₇⟩⟩
      · rcases pruneCheckpoints_step hprune with ⟨rfl, -⟩ | ⟨⟨n, hn⟩, -⟩
        · exact .inr ⟨envelope, hextends, .inl ⟨⟨e, rfl⟩, hrows₆⟩⟩
        · rw [hn] at he
          cases he
  · rcases appendCheckpoint_step happ with ⟨rfl, -⟩ | ⟨hok, -, -⟩
    · exact .inl ⟨⟨e, rfl⟩, hrows₄⟩
    · rw [hok] at hx
      cases hx

/-! ## Writes that succeed -/

theorem resolveManifestHash_runs (codec : Codec Text) (sha256Digest : String → String)
    (s : CheckpointStore Text) (run : RunRecord) (known : Known) : ∃ manifestHash,
    Runs (handle codec sha256Digest).exec (resolveManifestHash run known) s (.ok manifestHash) s := by
  unfold resolveManifestHash
  split
  · exact ⟨_, runs_call.mpr ⟨_, s, ⟨default, rfl⟩, .done _ s⟩⟩
  · exact ⟨_, .done _ s⟩

theorem resolveError_runs (codec : Codec Text) (sha256Digest : String → String)
    (s : CheckpointStore Text) (run : RunRecord) (known : Known) : ∃ error,
    Runs (handle codec sha256Digest).exec (resolveError run known) s (.ok error) s := by
  unfold resolveError
  split
  · exact ⟨_, runs_perform.mpr ⟨default, rfl⟩⟩
  · exact ⟨_, .done _ s⟩

theorem gatherReferences_runs (codec : Codec Text) (sha256Digest : String → String)
    (s : CheckpointStore Text) (run : RunRecord) (known : Known) : ∃ references,
    Runs (handle codec sha256Digest).exec (gatherReferences run known) s (.ok references) s := by
  obtain ⟨manifestHash, hmanifest⟩ := resolveManifestHash_runs codec sha256Digest s run known
  obtain ⟨error, herror⟩ := resolveError_runs codec sha256Digest s run known
  exact ⟨_, runs_bind_ok.mpr ⟨manifestHash, s, hmanifest,
    runs_bind_ok.mpr ⟨_, s, runs_perform.mpr ⟨default, rfl⟩,
    runs_bind_ok.mpr ⟨_, s, runs_perform.mpr ⟨default, rfl⟩,
    runs_bind_ok.mpr ⟨_, s, runs_perform.mpr ⟨default, rfl⟩,
    runs_bind_ok.mpr ⟨_, s, runs_perform.mpr ⟨default, rfl⟩,
    runs_bind_ok.mpr ⟨error, s, herror, .done _ s⟩⟩⟩⟩⟩⟩⟩

theorem recoverTip_runs (hrecovered : rowsOf s.rows runId = [] ∨
      newestOf codec sha256Digest s.rows runId ≠ none) : ∃ tip s',
    Runs (handle codec sha256Digest).exec (recoverTip codec sha256Digest runId) s (.ok tip) s' := by
  unfold recoverTip
  simp only [runs_listCheckpointJson]
  by_cases hrows : rowsOf s.rows runId = []
  · rw [hrows]
    exact ⟨_, s, .done _ s⟩
  · rw [if_neg (by simpa using hrows)]
    obtain ⟨latest, hlatest⟩ := Option.ne_none_iff_exists'.mp (hrecovered.resolve_left hrows)
    have hreturns := @recoverLatest_returns Text codec sha256Digest s runId
    rw [recovered_eq_ok.mpr hlatest] at hreturns
    obtain ⟨s₁, hrun⟩ := hreturns.1
    exact ⟨_, s₁, runs_bind_ok.mpr ⟨latest, s₁, hrun,
      runs_bind_ok.mpr ⟨_, s₁, runs_perform.mpr ⟨default, rfl⟩, .done _ s₁⟩⟩⟩

/-- The newest anchored envelope is a parent that the append accepts. -/
theorem parentFound_of_newestOf {rows : List (CheckpointRow Text)} {tip : CheckpointEnvelope}
    (htip : newestOf codec sha256Digest rows runId = some tip) :
    parentFound codec sha256Digest rows runId (some (tip.chainHash sha256Digest)) = true := by
  obtain ⟨newer, older, hwindow, hanchored, -⟩ := Lineage.newest_eq_some htip
  have hmem : some tip ∈ parsedRows codec rows runId := by
    rw [hwindow]
    simp
  obtain ⟨row, hrow, htext⟩ := List.mem_map.mp hmem
  have hverified : tip.Verified sha256Digest := of_decide_eq_true hanchored.valid
  refine List.any_eq_true.mpr ⟨row, hrow, ?_⟩
  rw [Codec.fromUntrustedJson, htext, Option.filter_some, if_pos (by simpa using hverified)]
  simp

theorem parentFound_of_stored {rows : List (CheckpointRow Text)} {e : CheckpointEnvelope}
    (he : e.Verified sha256Digest)
    (hrow : stored codec e ∈ rowsOf rows runId) :
    parentFound codec sha256Digest rows runId (some (e.chainHash sha256Digest)) = true := by
  refine List.any_eq_true.mpr ⟨stored codec e, hrow, ?_⟩
  have hread : codec.fromUntrustedJson sha256Digest (stored codec e).envelopeJson = some e := by
    rw [Codec.fromUntrustedJson, stored, codec.validate_dump, Option.filter_some,
      if_pos (by simpa using he)]
  rw [hread]
  simp

theorem appendCheckpoint_of_extends {rows : List (CheckpointRow Text)} {e : CheckpointEnvelope}
    (he : Extends codec sha256Digest rows runId e)
    (hfresh : ∀ row ∈ rows, row.checkpointId ≠ e.checkpointId) :
    appendCheckpoint codec sha256Digest e (tipSequence rows runId) rows =
      .ok (stored codec e :: rows) := by
  have hparent : ¬ (rowsOf rows e.runId ≠ [] ∧
      parentFound codec sha256Digest rows e.runId e.parentHash = false) := by
    rintro ⟨hrows, hnot⟩
    rw [he.run] at hrows hnot
    obtain ⟨tip, htip⟩ := Option.ne_none_iff_exists'.mp (he.recovered.resolve_left hrows)
    rw [he.parent, htip, Option.map_some, parentFound_of_newestOf htip] at hnot
    cases hnot
  have hroot : ¬ (rowsOf rows e.runId = [] ∧ e.parentHash ≠ none) := by
    rintro ⟨hrows, hsome⟩
    rw [he.run] at hrows
    rw [he.parent, newestOf, parsedRows, hrows] at hsome
    exact hsome rfl
  have hid : ¬ (rows.any fun row => row.checkpointId = e.checkpointId) = true := by
    rw [List.any_eq_true]
    rintro ⟨row, hrow, hsame⟩
    exact hfresh row hrow (of_decide_eq_true hsame)
  unfold appendCheckpoint
  rw [CheckpointEnvelope.verify_eq_ok.mpr he.verified]
  change (if _ then _ else _) = _
  rw [if_neg (by rw [he.run, he.sequence]; simp), if_neg hparent, if_neg hroot, if_neg hid]
  rfl

/-- An undisturbed write returns wherever recovery does, given a fresh identifier. -/
theorem write_runs (t : Supply) (hrecovered : rowsOf s.rows run.runId = [] ∨
      newestOf codec sha256Digest s.rows run.runId ≠ none)
    (hfresh : ∀ row ∈ s.rows, row.checkpointId ≠ s!"checkpoint-{t.freshId}") : ∃ e s',
    e.checkpointId = s!"checkpoint-{t.freshId}" ∧
      Runs (handle codec sha256Digest).exec
        (manager.write codec sha256Digest run plan tasks known) s (.ok e) s' := by
  obtain ⟨references, hreferences⟩ := gatherReferences_runs codec sha256Digest s run known
  obtain ⟨⟨expected, parent⟩, s₂, htip⟩ := recoverTip_runs hrecovered
  obtain ⟨hrows, hvalues⟩ := recoverTip_wp.runs htip.withFaults
  obtain ⟨hexpected, hparent, -⟩ := hvalues expected parent rfl
  let e := CheckpointEnvelope.create sha256Digest s!"checkpoint-{t.freshId}" (expected + 1)
    (Nat.le_add_left 1 expected) (checkpointPayload run plan tasks references) parent t.now
  have he : Extends codec sha256Digest s₂.rows run.runId e := by
    rw [hrows]
    exact ⟨rfl, CheckpointEnvelope.create_verified, by rw [← hexpected]; rfl, hparent, hrecovered⟩
  have happend := appendCheckpoint_of_extends he (by rw [hrows]; exact hfresh)
  rw [hrows, ← hexpected, ← hrows] at happend
  have hstored : Runs (handle codec sha256Digest).exec
      (perform (.appendCheckpoint e expected)) s₂ (.ok ())
      { s₂ with rows := stored codec e :: s₂.rows } := by
    refine runs_perform.mpr ⟨t, ?_⟩
    simp only [handle]
    rw [happend]
  have hretain : ¬ manager.retentionCount < 2 := not_lt.mpr manager.retention_at_least_two
  exact ⟨e, _, rfl, runs_bind_ok.mpr ⟨references, s, hreferences,
    runs_bind_ok.mpr ⟨(expected, parent), s₂, htip,
    runs_bind_ok.mpr ⟨_, s₂, runs_perform.mpr ⟨t, rfl⟩,
    runs_bind_ok.mpr ⟨_, s₂, runs_perform.mpr ⟨t, rfl⟩,
    runs_bind_ok.mpr ⟨(), _, hstored, runs_publish.mpr <|
    runs_bind_ok.mpr ⟨_, _, runs_perform.mpr ⟨t, by simp only [handle]; rw [if_neg hretain]⟩,
      .done _ _⟩⟩⟩⟩⟩⟩⟩

/-- A write that has recovered its parent goes on under whatever tip it then reads. -/
theorem write_stalls {latest : CheckpointEnvelope} (t : Supply)
    (hlatest : newestOf codec sha256Digest s.rows run.runId = some latest) : ∃ q s',
    Advances (handle codec sha256Digest).exec
      (manager.write codec sha256Digest run plan tasks known) s q s' ∧
    s'.rows = s.rows ∧ ∀ u : CheckpointStore Text,
      parentFound codec sha256Digest u.rows run.runId
        (some (latest.chainHash sha256Digest)) = true →
      (∀ row ∈ u.rows, row.checkpointId ≠ s!"checkpoint-{t.freshId}") → ∃ e u',
        Runs (handle codec sha256Digest).exec q u (.ok e) u' ∧ e.runId = run.runId ∧
          e.sequence = tipSequence u.rows run.runId + 1 ∧
          e.parentHash = some (latest.chainHash sha256Digest) ∧
          u'.rows = pruneCheckpoints (stored codec e :: u.rows) run.runId
            manager.retentionCount := by
  have hrows : rowsOf s.rows run.runId ≠ [] := by
    intro hrows
    rw [newestOf, parsedRows, hrows] at hlatest
    cases hlatest
  obtain ⟨references, hreferences⟩ :=
    gatherReferences_runs codec sha256Digest s run known
  obtain ⟨⟨s₁, hrecover⟩, -⟩ := @recoverLatest_returns Text codec sha256Digest s run.runId
  rw [recovered_eq_ok.mpr hlatest] at hrecover
  have hsame : s₁.rows = s.rows := (recoverLatest_wp.runs hrecover.withFaults).1
  have hlist (f : Nat × Option String → Prog (CheckpointOp Text) Exn CheckpointEnvelope) :
      Advances (handle codec sha256Digest).exec
        (recoverTip codec sha256Digest run.runId >>= f) s
        ((perform (.checkpointTipSequence run.runId) >>= fun tip =>
          pure (tip, some (latest.chainHash sha256Digest))) >>= f) s₁ := by
    refine .call ⟨t, rfl⟩ (Advances.bind ?_ f)
    change Advances _ (if List.isEmpty _ = true then _ else _) _ _ _
    rw [if_neg (by simpa using hrows)]
    exact hrecover.advances _
  refine ⟨_, s₁, (hreferences.advances _).trans (hlist _), hsame, fun u hfound hfresh => ?_⟩
  let e := CheckpointEnvelope.create sha256Digest s!"checkpoint-{t.freshId}"
    (tipSequence u.rows run.runId + 1) (Nat.le_add_left 1 _)
    (checkpointPayload run plan tasks references)
    (some (latest.chainHash sha256Digest)) t.now
  obtain ⟨rows, happend⟩ : ∃ rows, appendCheckpoint codec sha256Digest e
      (tipSequence u.rows run.runId) u.rows = .ok rows := by
    refine appendCheckpoint_accepted.mpr ⟨rfl, rfl, CheckpointEnvelope.create_verified, ?_, hfresh⟩
    split
    · next hempty =>
      unfold parentFound at hfound
      have hnone : rowsOf u.rows run.runId = [] := List.isEmpty_iff.mp hempty
      rw [hnone] at hfound
      cases hfound
    · exact hfound
  obtain ⟨-, rfl⟩ := appendCheckpoint_eq_ok happend
  have hstored : Runs (handle codec sha256Digest).exec
      (perform (.appendCheckpoint e (tipSequence u.rows run.runId))) u (.ok ())
      { u with rows := stored codec e :: u.rows } := by
    refine runs_perform.mpr ⟨t, ?_⟩
    simp only [handle]
    rw [happend]
  have hretain : ¬ manager.retentionCount < 2 := not_lt.mpr manager.retention_at_least_two
  exact ⟨e, _, runs_bind_ok.mpr ⟨(tipSequence u.rows run.runId, _), u,
    runs_bind_ok.mpr ⟨_, u, runs_perform.mpr ⟨t, rfl⟩, .done _ _⟩,
    runs_bind_ok.mpr ⟨_, u, runs_perform.mpr ⟨t, rfl⟩,
    runs_bind_ok.mpr ⟨_, u, runs_perform.mpr ⟨t, rfl⟩,
    runs_bind_ok.mpr ⟨(), _, hstored, runs_publish.mpr <|
    runs_bind_ok.mpr ⟨_, _, runs_perform.mpr ⟨t, if_neg hretain⟩,
      .done _ _⟩⟩⟩⟩⟩, rfl, rfl, rfl, rfl⟩

end DurableAgent.Checkpoints
