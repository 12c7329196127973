import DurableAgent.Application.Site
import DurableAgent.Checkpoints.Recovery
import DurableAgent.Orchestration.Answers
import DurableAgent.Orchestration.Regions

/-!
# Checkpoints and the indexes they name

A checkpoint names the index of the repository that its run is at. That index is stored, and the
checkpoint's manifest hash is its own: nobody writes a checkpoint otherwise, and stored indexes
are never changed.
-/

namespace DurableAgent.Orchestration

open Library Library.Prog Store Repository

-- Reducing a call of the service would otherwise reduce the text that it strips.
attribute [local irreducible] strip

variable {Text : Type} {I : LocalRepositoryIndexer} {codec : Codec Text} {w w' : Site Text}
  {A : Agent Text} {α β : Type}

/-- A snapshot, where there is one, is that of a stored index which has the manifest hash. -/
def Recorded (w : Site Text) (snapshotId manifestHash : Option String) : Prop :=
  ∀ id ∈ snapshotId, ∃ index ∈ w.indexes.rows,
    snapshotIdOf index = id ∧ manifestHash = some index.snapshot.manifestHash

/-- What a checkpoint says of the repository. -/
abbrev RecordedIn (w : Site Text) (payload : CheckpointPayload) : Prop :=
  Recorded w payload.repositorySnapshotId payload.repositoryManifestHash

structure Anchored (I : LocalRepositoryIndexer) (codec : Codec Text) (w : Site Text) : Prop where
  stored : ∀ index ∈ w.indexes.rows, Wellformed I.sha256Digest index
  made : ∀ index ∈ w.made, Wellformed I.sha256Digest index
  recorded : ∀ row ∈ w.store.checkpoints.rows, ∀ e, codec.modelValidateJson row.envelopeJson = some e →
    RecordedIn w e.payload

theorem Recorded.grow {snapshotId manifestHash : Option String}
    (h : Recorded w snapshotId manifestHash) (hrows : w.indexes.rows ⊆ w'.indexes.rows) :
    Recorded w' snapshotId manifestHash := by
  intro id hid
  obtain ⟨index, hindex, hmatch⟩ := h id hid
  exact ⟨index, hrows hindex, hmatch⟩

/-! ## Steps -/

/-- The payload of the checkpoint that a call appends. -/
def Appends : (β : Type) → StoreOp Text β → CheckpointPayload → Prop
  | _, .checkpoint (.appendCheckpoint envelope _), payload => envelope.payload = payload
  | _, _, _ => False

/-- The call appends no checkpoint. -/
def Unwritten (β : Type) (op : StoreOp Text β) : Prop := ∀ payload, ¬ Appends β op payload

/-- Calls that neither append checkpoints nor are about the repository. -/
def Aloof (β : Type) (op : StoreOp Text β) : Prop := Unwritten β op ∧ ¬ OfRepository β op

/-- The rows of checkpoints that a call leaves were there before, or it appended them. -/
theorem handle_checkpoints {op : StoreOp Text β} {t : Supply} {s : StoreState Text}
    {row : Checkpoints.CheckpointRow Text}
    (h : row ∈ (handle codec I.sha256Digest β op t s).2.checkpoints.rows) :
    row ∈ s.checkpoints.rows ∨ ∃ envelope, Appends β op envelope.payload ∧
      row.envelopeJson = codec.modelDumpJson envelope := by
  cases op with
  | sql op =>
    have hwrites : Region.checkpoints ∉ (sqlEffect β op).writes := by
      cases op <;> simp [sqlEffect, Effect.writes]
    have hsame : Same .checkpoints s (handleSql β op t s).2 := handleSql_same hwrites
    change (handleSql β op t s).2.checkpoints = s.checkpoints at hsame
    change row ∈ (handleSql β op t s).2.checkpoints.rows at h
    rw [hsame] at h
    exact .inl h
  | lease op => exact .inl h
  | tools op => exact .inl h
  | checkpoint op =>
    have hstep : Checkpoints.faulty codec I.sha256Digest β op s.checkpoints
        (Checkpoints.handle codec I.sha256Digest β op t.checkpoint s.checkpoints).1
        (handle codec I.sha256Digest β (.checkpoint op) t s).2.checkpoints :=
      .inl ⟨t.checkpoint, rfl⟩
    cases op with
    | appendCheckpoint envelope n =>
      rcases Checkpoints.appendCheckpoint_step hstep with ⟨hsame, -⟩ | ⟨-, -, hrows⟩
      · rw [hsame] at h
        exact .inl h
      · rw [hrows] at h
        rcases List.mem_cons.mp h with rfl | h
        · exact .inr ⟨envelope, rfl, rfl⟩
        · exact .inl h
    | pruneCheckpoints runId retain =>
      rcases Checkpoints.pruneCheckpoints_step hstep with ⟨hsame, -⟩ | ⟨-, hrows⟩
      · rw [hsame] at h
        exact .inl h
      · rw [hrows] at h
        exact .inl (Checkpoints.mem_of_mem_prune h)
    | _ => exact .inl h

/-- A call keeps the sites anchored unless it appends a checkpoint that says otherwise. -/
theorem Anchored.step {op : StoreOp Text β} {x : Except Exn β} (hw : Anchored I codec w)
    (happends : ∀ payload, Appends β op payload → RecordedIn w payload)
    (h : siteExec I codec β op w x w') :
    Anchored I codec w' ∧ w.indexes.rows ⊆ w'.indexes.rows := by
  cases siteStep_of_exec h with
  | failed e => exact ⟨hw, List.Subset.refl _⟩
  | read | hashed => exact ⟨hw, List.Subset.refl _⟩
  | @made root snapshotId previous index hindex =>
    refine ⟨⟨hw.stored, fun i hi => ?_, hw.recorded⟩, List.Subset.refl _⟩
    rcases List.mem_cons.mp hi with rfl | hi
    · refine (index_ok (fun j hj => ?_) hindex).2.1
      obtain ⟨id, -, hfound⟩ := Option.bind_eq_some_iff.mp hj
      exact hw.stored j (Table.find_eq_some.mp hfound).1
    · exact hw.made i hi
  | @saved snapshotId index indexes hmade hinsert =>
    have hrows := Table.insert_rows hinsert
    have hgrow : w.indexes.rows ⊆ indexes.rows := by
      rw [hrows]
      exact List.subset_cons_self index w.indexes.rows
    refine ⟨⟨fun i hi => ?_, hw.made, fun row hrow e he => (hw.recorded row hrow e he).grow hgrow⟩,
      hgrow⟩
    change i ∈ indexes.rows at hi
    rw [hrows] at hi
    rcases List.mem_cons.mp hi with rfl | hi
    · exact hw.made i (List.mem_of_find?_eq_some hmade)
    · exact hw.stored i hi
  | @stored _ _ _ s _ t hs =>
    refine ⟨⟨hw.stored, hw.made, fun row hrow e he => ?_⟩, List.Subset.refl _⟩
    have hrow' : row ∈ (handle codec I.sha256Digest β op t w.store).2.checkpoints.rows := by
      rw [hs]
      exact hrow
    rcases handle_checkpoints hrow' with hold | ⟨envelope, happend, htext⟩
    · exact hw.recorded row hold e he
    · rw [htext, codec.validate_dump] at he
      obtain rfl := Option.some.inj he
      exact happends _ happend

/-- What others may do between two steps: the repository changes, and more indexes are stored. -/
def anchoring (I : LocalRepositoryIndexer) (codec : Codec Text) :
    Contract (StoreOp Text) (Site Text) where
  inv := Anchored I codec
  rely w w' := w'.store = w.store ∧ w'.made = w.made ∧ w.indexes.rows ⊆ w'.indexes.rows
  guar w w' := w.indexes.rows ⊆ w'.indexes.rows
  pre _ _ _ := True
  refl _ := ⟨rfl, rfl, List.Subset.refl _⟩
  trans h h' := ⟨h'.1.trans h.1, h'.2.1.trans h.2.1, List.Subset.trans h.2.2 h'.2.2⟩

/-- The program keeps the sites anchored; what is known of its results. -/
abbrev Anchors (I : LocalRepositoryIndexer) (codec : Codec Text) (p : StoreProg Text α)
    (R : α → Site Text → Prop) (w : Site Text) : Prop :=
  (anchoring I codec).Meets (siteExec I codec) p (onOk R) w

/-- A program without appends. -/
theorem anchors_unwritten {p : StoreProg Text α} (hp : p.Calls Unwritten) :
    Anchors I codec p (fun _ _ => True) w := by
  refine Contract.Meets.kept (K := fun _ => True) (fun _ _ _ _ _ => trivial) hp trivial
    fun δ op w hop hw _ => ⟨trivial, fun x w' hstep => ?_⟩
  obtain ⟨hw', hrows⟩ := hw.step (fun payload h => absurd h (hop payload)) hstep
  exact ⟨hrows, hw', trivial⟩

/-! ## Writes of checkpoints -/

theorem keeps_recorded (snapshotId manifestHash : Option String) :
    (anchoring I codec).Keeps fun w => Recorded w snapshotId manifestHash := by
  intro w w' h hinv hrecorded
  rcases h with h | h
  · exact hrecorded.grow h.2.2
  · exact hrecorded.grow h

/-- The programs of checkpoints, as parts of the programs of a site. -/
abbrev CheckpointAnchors (I : LocalRepositoryIndexer) (codec : Codec Text)
    (p : Prog (Checkpoints.CheckpointOp Text) Exn α) (R : α → Site Text → Prop) (w : Site Text) :
    Prop :=
  ((anchoring I codec).pull fun _ => .checkpoint).Meets
    (fun δ op => siteExec I codec δ (.checkpoint op)) p (onOk R) w

theorem checkpointAnchors_unwritten {p : Prog (Checkpoints.CheckpointOp Text) Exn α}
    (hp : p.Calls fun δ op => Unwritten δ (.checkpoint op)) :
    CheckpointAnchors I codec p (fun _ _ => True) w := by
  refine Contract.Meets.kept (K := fun _ => True) (fun _ _ _ _ _ => trivial) hp trivial
    fun δ op w hop hw _ => ⟨trivial, fun x w' hstep => ?_⟩
  obtain ⟨hw', hrows⟩ := hw.step (fun payload h => absurd h (hop payload)) hstep
  exact ⟨hrows, hw', trivial⟩

section Write

variable {run : RunRecord} {plan : PlanSpec} {tasks : List TaskRecord} {known : Checkpoints.Known}

/-- The caller of a write knows no manifest hash, or that of the index its run is at. -/
def Knows (run : RunRecord) (known : Checkpoints.Known) (w : Site Text) : Prop :=
  known.repositoryManifestHash = none ∨
    Recorded w run.repositorySnapshotId known.repositoryManifestHash

theorem keeps_knows : (anchoring I codec).Keeps (Knows run known) := by
  intro w w' h hinv hknows
  exact hknows.imp_right (keeps_recorded _ _ h hinv)

theorem anchors_resolveManifestHash (h : Knows run known w) :
    CheckpointAnchors I codec (Checkpoints.resolveManifestHash run known)
      (fun manifestHash w => Recorded w run.repositorySnapshotId manifestHash) w := by
  unfold Checkpoints.resolveManifestHash
  split
  · next snapshotId _ hid =>
    refine Contract.Meets.next (R := fun manifestHash w =>
      Recorded w run.repositorySnapshotId (some manifestHash)) ?_ fun manifestHash w' _ hrecorded =>
      Contract.Meets.pure (keeps_recorded _ _) hrecorded
    refine Contract.Meets.perform (K := fun _ => True) (Contract.keeps_const True) trivial
      (fun x => ?_) fun w hw _ => ⟨trivial, fun x w' hstep => ?_⟩
    · cases x with
      | ok manifestHash => exact keeps_recorded _ _
      | error e => exact Contract.keeps_const True
    · obtain ⟨hw', hrows⟩ := hw.step (fun _ h => by simp [Appends] at h) hstep
      refine ⟨hrows, hw', ?_⟩
      cases x with
      | error e => exact trivial
      | ok manifestHash =>
        obtain ⟨rfl, index, hindex, hkey, rfl⟩ := hash_answered hstep
        intro id hrun
        rw [hid] at hrun
        obtain rfl := Option.some.inj hrun
        exact ⟨index, hindex, hkey, rfl⟩
  · next hgiven =>
    refine Contract.Meets.pure (keeps_recorded _ _) ?_
    rcases h with hnone | h
    · intro id hid
      exact (hgiven id hnone hid).elim
    · exact h

theorem unwritten_perform {op : Checkpoints.CheckpointOp Text α}
    (h : Unwritten α (.checkpoint op)) :
    CheckpointAnchors I codec (perform op) (fun _ _ => True) w :=
  checkpointAnchors_unwritten (calls_perform.mpr h)

theorem anchors_gatherReferences (h : Knows run known w) :
    CheckpointAnchors I codec (Checkpoints.gatherReferences run known)
      (fun references w => Recorded w run.repositorySnapshotId references.repositoryManifestHash)
      w := by
  unfold Checkpoints.gatherReferences
  refine Contract.Meets.next (anchors_resolveManifestHash h) fun manifestHash w₁ _ h₁ => ?_
  have hkeep : (anchoring I codec).Keeps fun w => Recorded w run.repositorySnapshotId manifestHash :=
    keeps_recorded _ _
  refine Contract.Meets.seq hkeep h₁ (unwritten_perform fun _ => id) fun _ w₂ _ h₂ _ => ?_
  refine Contract.Meets.seq hkeep h₂ (unwritten_perform fun _ => id) fun _ w₃ _ h₃ _ => ?_
  refine Contract.Meets.seq hkeep h₃ (unwritten_perform fun _ => id) fun _ w₄ _ h₄ _ => ?_
  refine Contract.Meets.seq hkeep h₄ (unwritten_perform fun _ => id) fun _ w₅ _ h₅ _ => ?_
  have herror : CheckpointAnchors I codec (Checkpoints.resolveError run known)
      (fun _ _ => True) w₅ := by
    unfold Checkpoints.resolveError
    split
    · exact unwritten_perform fun _ => id
    · exact Contract.Meets.pure (Contract.keeps_const True) trivial
  refine Contract.Meets.seq hkeep h₅ herror fun _ w₆ _ h₆ _ => ?_
  exact Contract.Meets.pure hkeep h₆

theorem aloof_recoverLatest {sha256Digest : String → String} {runId : String} :
    (Checkpoints.recoverLatest codec sha256Digest runId).Calls
      fun δ op => Aloof δ (.checkpoint op) := by
  refine Calls.bind (calls_perform.mpr ⟨fun _ => id, id⟩) fun raw => ?_
  split
  · trivial
  · dsimp only
    split
    · split
      · trivial
      · exact Calls.bind (calls_perform.mpr ⟨fun _ => id, id⟩) fun _ => trivial
    · exact Calls.bind (calls_perform.mpr ⟨fun _ => id, id⟩) fun _ => trivial

theorem unwritten_recoverLatest {sha256Digest : String → String} {runId : String} :
    (Checkpoints.recoverLatest codec sha256Digest runId).Calls
      fun δ op => Unwritten δ (.checkpoint op) :=
  aloof_recoverLatest.mono fun _ _ h => h.1

theorem unwritten_recoverTip {sha256Digest : String → String} {runId : String} :
    (Checkpoints.recoverTip codec sha256Digest runId).Calls
      fun δ op => Unwritten δ (.checkpoint op) := by
  refine Calls.bind (calls_perform.mpr fun _ => id) fun raw => ?_
  split
  · trivial
  · refine Calls.bind unwritten_recoverLatest fun _ => ?_
    exact Calls.bind (calls_perform.mpr fun _ => id) fun _ => trivial

theorem anchors_append {envelope : CheckpointEnvelope} {n : Nat}
    (h : RecordedIn w envelope.payload) :
    CheckpointAnchors I codec (perform (.appendCheckpoint envelope n)) (fun _ _ => True) w := by
  refine Contract.Meets.perform (K := fun w => RecordedIn w envelope.payload) (keeps_recorded _ _) h
    (fun x => ?_) fun w hw h => ⟨trivial, fun x w' hstep => ?_⟩
  · cases x <;> exact Contract.keeps_const True
  · obtain ⟨hw', hrows⟩ := hw.step (fun payload happend => by
      obtain rfl : envelope.payload = payload := happend
      exact h) hstep
    refine ⟨hrows, hw', ?_⟩
    cases x <;> exact trivial

/-- A write by a caller that knows no manifest hash, or the right one. -/
theorem anchors_writeCheckpoint (h : Knows run known w) :
    Anchors I codec (A.writeCheckpoint run plan tasks known) (fun _ _ => True) w := by
  unfold Agent.writeCheckpoint ofCheckpoint
  refine Contract.Meets.mapOp ?_
  unfold Checkpoints.CheckpointManager.write
  refine Contract.Meets.next (anchors_gatherReferences h) fun references w₁ _ h₁ => ?_
  have hkeep : (anchoring I codec).Keeps fun w =>
      Recorded w run.repositorySnapshotId references.repositoryManifestHash := keeps_recorded _ _
  refine Contract.Meets.seq hkeep h₁ (checkpointAnchors_unwritten unwritten_recoverTip)
    fun tip w₂ _ h₂ _ => ?_
  obtain ⟨expectedSequence, parentHash⟩ := tip
  refine Contract.Meets.seq hkeep h₂ (unwritten_perform fun _ => id) fun checkpointId w₃ _ h₃ _ => ?_
  refine Contract.Meets.seq hkeep h₃ (unwritten_perform fun _ => id) fun createdAt w₄ _ h₄ _ => ?_
  refine Contract.Meets.next (anchors_append h₄) fun _ w₅ _ _ => ?_
  refine Contract.Meets.next (unwritten_perform fun _ => id) fun _ w₆ _ _ => ?_
  refine Contract.Meets.next (unwritten_perform fun _ => id) fun _ w₇ _ _ => ?_
  exact Contract.Meets.pure (Contract.keeps_const True) trivial

end Write

/-! ## Programs that write without a manifest hash of their own -/

/-- From any site on, the program keeps the sites anchored. -/
def Anchoring (I : LocalRepositoryIndexer) (codec : Codec Text) (p : StoreProg Text α) : Prop :=
  ∀ w, Anchors I codec p (fun _ _ => True) w

section Programs

variable {f : α → StoreProg Text β} {p : StoreProg Text α} {run : RunRecord} {plan : PlanSpec}
  {tasks : List TaskRecord} {runId : String}

theorem Anchoring.bind (hp : Anchoring I codec p) (hf : ∀ a, Anchoring I codec (f a)) :
    Anchoring I codec (p >>= f) :=
  fun w => Contract.Meets.next (hp w) fun a w' _ _ => hf a w'

theorem anchoring_unwritten (hp : p.Calls Unwritten) : Anchoring I codec p :=
  fun _ => anchors_unwritten hp

theorem anchoring_done (r : Except Exn α) : Anchoring I codec (.done r : StoreProg Text α) :=
  anchoring_unwritten trivial

theorem anchoring_sql (op : SqlOp α) : Anchoring I codec (sql op : StoreProg Text α) :=
  anchoring_unwritten (calls_perform.mpr fun _ => id)

theorem anchoring_publish (eventType : String) (taskId : Option String)
    (payload : List (String × Json)) :
    Anchoring I codec (publish runId eventType taskId payload : StoreProg Text Unit) :=
  anchoring_unwritten (calls_perform.mpr fun _ => id)

/-- A program whose calls are of kinds that write nothing of the checkpoints but events. -/
theorem anchoring_within {E : List Effect} (hp : p.Calls (Within E))
    (hE : E.all (fun effect => effect ≠ .checkpoint) = true) :
    Anchoring I codec p := by
  refine anchoring_unwritten (calls_of_within hp hE fun δ op hop payload happends => ?_)
  cases op with
  | checkpoint op =>
    cases op with
    | publish event => exact happends
    | _ => simp [effectOf, checkpointEffect] at hop
  | sql op => exact happends
  | lease op => exact happends
  | tools op => exact happends

theorem Anchoring.tryCatch {handler : Exn → StoreProg Text α} (hp : Anchoring I codec p)
    (hh : ∀ e, Anchoring I codec (handler e)) : Anchoring I codec (p.tryCatch handler) :=
  fun w => Contract.Meets.tryCatch (hp w) (fun _ _ _ _ => trivial) fun e w' _ _ => hh e w'

theorem anchoring_ofLease (p : Prog Leases.LeaseOp Exn α) :
    Anchoring I codec (ofLease p : StoreProg Text α) :=
  anchoring_within (within_ofLease p) rfl

theorem Anchoring.releasing {lease : LeaseRecord} (hp : Anchoring I codec p) :
    Anchoring I codec (releasing lease p) :=
  hp.tryCatch fun e => Anchoring.bind (anchoring_ofLease _) fun _ => anchoring_done (.error e)

theorem Anchoring.mapM' (hf : ∀ a, Anchoring I codec (f a)) (l : List α) :
    Anchoring I codec (l.mapM' f : StoreProg Text (List β)) := by
  induction l with
  | nil => exact anchoring_done (.ok [])
  | cons a l ih => exact (hf a).bind fun b => ih.bind fun bs => anchoring_done (.ok (b :: bs))

theorem anchoring_write {known : Checkpoints.Known} (h : known.repositoryManifestHash = none) :
    Anchoring I codec (A.writeCheckpoint run plan tasks known) :=
  fun _ => anchors_writeCheckpoint (.inl h)

theorem anchoring_checkpointIf {wanted : Bool} {known : Checkpoints.Known}
    (h : known.repositoryManifestHash = none) :
    Anchoring I codec (A.checkpointIf wanted run plan tasks known) := by
  unfold Agent.checkpointIf
  split
  · exact (anchoring_write h).bind fun _ => anchoring_done _
  · exact anchoring_done _

/-! ### The loop -/

theorem anchoring_succeedTask {q : Progress} {started : Started} {outcome : TaskOutcome} :
    Anchoring I codec (A.succeedTask plan q started outcome) := by
  unfold Agent.succeedTask
  refine (anchoring_done _).bind fun state => (anchoring_sql _).bind fun now => ?_
  refine (anchoring_sql _).bind fun task => (anchoring_sql _).bind fun currentRun => ?_
  refine (anchoring_sql _).bind fun now => (anchoring_sql _).bind fun run => ?_
  refine (anchoring_sql _).bind fun context => ?_
  refine (anchoring_checkpointIf rfl).bind fun written => ?_
  exact (anchoring_publish _ _ _).bind fun _ => anchoring_done _

theorem anchoring_collectResults {results : List (Started × WorkerResult)} {q : Progress} :
    Anchoring I codec (A.collectResults plan results q) := by
  induction results generalizing q with
  | nil => exact anchoring_done _
  | cons result rest ih =>
    obtain ⟨started, result⟩ := result
    unfold Agent.collectResults
    split
    · exact ih.bind fun _ => anchoring_done _
    · exact anchoring_succeedTask.bind fun _ => ih

theorem anchoring_handleBatchFailures {failures : List Failure} :
    Anchoring I codec (A.handleBatchFailures run plan tasks failures) := by
  unfold Agent.handleBatchFailures
  refine (anchoring_within within_handleFailures rfl).bind fun d => ?_
  refine (anchoring_within within_skipAll rfl).bind fun tasks => ?_
  refine (anchoring_sql _).bind fun currentRun => (anchoring_sql _).bind fun now => ?_
  refine (anchoring_within within_disposedRun rfl).bind fun disposed => ?_
  refine (anchoring_sql _).bind fun run => (anchoring_write rfl).bind fun _ => ?_
  exact anchoring_done _

theorem anchoring_settleBatch {q : Progress} {started : List Started}
    {results : Except Exn (List WorkerResult)} :
    Anchoring I codec (A.settleBatch plan q started results) := by
  unfold Agent.settleBatch
  refine (anchoring_done _).bind fun results => anchoring_collectResults.bind fun r => ?_
  obtain ⟨q, failures⟩ := r
  change Anchoring I codec (A.settleFailures plan q failures)
  unfold Agent.settleFailures
  split
  · exact anchoring_done _
  · refine anchoring_handleBatchFailures.bind fun h => ?_
    refine (anchoring_within within_backOff rfl).bind fun _ => ?_
    dsimp only
    split
    · exact (anchoring_within within_generateReport rfl).bind fun _ => anchoring_done _
    · exact anchoring_done _

theorem anchoring_handleRequest {q : Progress} {request : LifecycleRequest} :
    Anchoring I codec (A.handleRequest plan q request) := by
  unfold Agent.handleRequest
  split
  · refine Anchoring.bind ?_ fun r => ?_
    · unfold Agent.cancel
      refine (Anchoring.mapM' (fun _ => anchoring_within within_cancelTask rfl) _).bind fun _ => ?_
      refine (anchoring_sql _).bind fun run => (anchoring_within within_endRun rfl).bind fun run => ?_
      refine (anchoring_sql _).bind fun _ => (anchoring_write rfl).bind fun _ => ?_
      exact (anchoring_publish _ _ _).bind fun _ => anchoring_done _
    · exact (anchoring_within within_generateReport rfl).bind fun _ => anchoring_done _
  · refine Anchoring.bind ?_ fun r => anchoring_done _
    unfold Agent.pause
    refine (anchoring_sql _).bind fun run => (anchoring_done _).bind fun state => ?_
    refine (anchoring_sql _).bind fun now => (anchoring_sql _).bind fun run => ?_
    refine (anchoring_sql _).bind fun _ => (anchoring_write rfl).bind fun _ => ?_
    exact (anchoring_publish _ _ _).bind fun _ => anchoring_done _

theorem anchoring_concludeRun {q : Progress} : Anchoring I codec (A.concludeRun plan q) := by
  unfold Agent.concludeRun
  refine (anchoring_sql _).bind fun run => ?_
  split
  · unfold Agent.completeRun
    refine (anchoring_within within_endRun rfl).bind fun run => (anchoring_write rfl).bind fun _ => ?_
    refine (anchoring_within within_generateReport rfl).bind fun _ => ?_
    exact (anchoring_publish _ _ _).bind fun _ => anchoring_done _
  · refine Anchoring.bind ?_ fun r => ?_
    · unfold Agent.failStuckRun
      refine (anchoring_sql _).bind fun run => (anchoring_within within_endRun rfl).bind fun run => ?_
      refine (anchoring_publish _ _ _).bind fun _ => (anchoring_write rfl).bind fun _ => ?_
      exact anchoring_done _
    · exact (anchoring_within within_generateReport rfl).bind fun _ => anchoring_done _

theorem anchoring_startBatch {batch : List TaskRecord} :
    Anchoring I codec (A.startBatch run plan tasks batch) := by
  unfold Agent.startBatch
  refine (anchoring_within within_startTasks rfl).bind fun r => ?_
  refine (anchoring_sql _).bind fun currentRun => (anchoring_sql _).bind fun now => ?_
  refine (anchoring_sql _).bind fun run => (anchoring_checkpointIf rfl).bind fun _ => ?_
  exact anchoring_done _

theorem anchoring_turn {q : Progress} {maximumTasks : Option Nat} :
    Anchoring I codec (A.turn plan maximumTasks q) := by
  unfold Agent.turn
  refine (anchoring_within within_pendingLifecycleRequest rfl).bind fun request => ?_
  unfold Agent.turnFor
  split
  · exact anchoring_handleRequest.bind fun _ => anchoring_done _
  · split
    · exact anchoring_done _
    · unfold Agent.scheduleTurn
      refine (anchoring_within within_promoteReady rfl).bind fun tasks => ?_
      refine (anchoring_done _).bind fun candidates => ?_
      split
      · refine (anchoring_within within_pendingLifecycleRequest rfl).bind fun request => ?_
        cases request with
        | some request => exact anchoring_done _
        | none => exact anchoring_concludeRun.bind fun _ => anchoring_done _
      · exact anchoring_startBatch.bind fun _ => anchoring_done _

theorem anchoring_loop {maximumTasks : Option Nat} {fuel : Nat} {lease : LeaseRecord}
    {q : Progress} : Anchoring I codec (A.loop plan maximumTasks fuel lease q) := by
  induction fuel generalizing lease q with
  | zero => exact anchoring_unwritten trivial
  | succ fuel ih =>
    refine anchoring_turn.releasing.bind fun turn => ?_
    cases turn with
    | ended q => exact (anchoring_ofLease _).bind fun _ => anchoring_done _
    | again q => exact ih
    | batch q started =>
      refine (anchoring_within within_executeBatch rfl).bind fun r => ?_
      obtain ⟨lease, results⟩ := r
      refine anchoring_settleBatch.releasing.bind fun r => ?_
      obtain ⟨q, ends⟩ := r
      cases ends with
      | true => exact (anchoring_ofLease _).bind fun _ => anchoring_done _
      | false => exact ih

theorem anchoring_getTasks {reader : Reader} :
    Anchoring I codec (getTasks reader runId : StoreProg Text (List TaskRecord)) := by
  refine (anchoring_sql _).bind fun run => ?_
  refine (anchoring_within within_requestedPlanId rfl).bind fun planId => ?_
  cases planId with
  | some planId => exact anchoring_sql _
  | none => exact anchoring_done _

theorem anchoring_advance {workerId : String} {maximumTasks : Option Int} :
    Anchoring I codec (A.advance runId workerId maximumTasks) := by
  have hrun (lease : LeaseRecord) (run : RunRecord) (maximumTasks : Option Nat) :
      Anchoring I codec (A.advanceRun lease run maximumTasks) := by
    unfold Agent.advanceRun
    refine (anchoring_sql _).bind fun plan => anchoring_getTasks.bind fun tasks => ?_
    exact (anchoring_sql _).bind fun _ => anchoring_loop.bind fun _ => anchoring_done _
  have hstays (lease : LeaseRecord) (run : RunRecord) :
      Anchoring I codec (unadvanced lease run : StoreProg Text _) :=
    (anchoring_ofLease _).bind fun _ => anchoring_getTasks.bind fun _ => anchoring_done _
  unfold Agent.advance
  split
  · exact anchoring_done _
  · refine (anchoring_ofLease _).bind fun lease => (anchoring_sql _).bind fun run => ?_
    split
    · refine (anchoring_within within_pendingLifecycleRequest rfl).bind fun pending => ?_
      unfold Agent.advancePaused
      split
      · exact hrun _ _ _
      · exact hstays _ _
    · split
      · exact hrun _ _ _
      · exact hstays _ _

/-! ### Recovery -/

theorem anchoring_revisePlanAfterDrift :
    Anchoring I codec (revisePlanAfterDrift run : StoreProg Text RunRecord) := by
  unfold revisePlanAfterDrift
  refine (anchoring_sql _).bind fun previous => anchoring_getTasks.bind fun prior => ?_
  refine (anchoring_sql _).bind fun revised => (anchoring_sql _).bind fun _ => ?_
  refine (anchoring_sql _).bind fun _ => (anchoring_sql _).bind fun now => ?_
  exact (anchoring_sql _).bind fun run => (anchoring_publish _ _ _).bind fun _ => anchoring_done _

theorem anchoring_validateRepository {checkpoint : CheckpointEnvelope} :
    Anchoring I codec (A.validateRepository run checkpoint) := by
  unfold Agent.validateRepository
  split
  · refine (anchoring_sql _).bind fun previous => (anchoring_sql _).bind fun current => ?_
    split
    · exact anchoring_done _
    · unfold Agent.acceptDrift
      refine (anchoring_publish _ _ _).bind fun _ => ?_
      split
      · exact anchoring_done _
      · refine (anchoring_sql _).bind fun _ => (anchoring_sql _).bind fun _ => ?_
        exact (anchoring_sql _).bind fun now => (anchoring_sql _).bind fun run => anchoring_done _
  · exact anchoring_done _

theorem anchoring_recoverTask (task : TaskRecord) :
    Anchoring I codec (recoverTask task : StoreProg Text TaskRecord) := by
  unfold recoverTask
  split
  · exact (anchoring_done _).bind fun _ => anchoring_sql _
  · split
    · unfold recoverAbandonedTask
      refine (anchoring_sql _).bind fun errorId => (anchoring_sql _).bind fun _ => ?_
      refine (anchoring_done _).bind fun state => ?_
      refine (anchoring_within within_finishedWhen rfl).bind fun finishedAt => ?_
      refine (anchoring_sql _).bind fun task => Anchoring.bind ?_ fun task => ?_
      · unfold readyIf
        split
        · exact (anchoring_done _).bind fun _ => anchoring_sql _
        · exact anchoring_done _
      · exact (anchoring_publish _ _ _).bind fun _ => anchoring_done _
    · exact anchoring_done _

theorem anchoring_resumeFrom {lease : LeaseRecord} {checkpoint : CheckpointEnvelope} :
    Anchoring I codec (A.resumeFrom lease run checkpoint) := by
  unfold Agent.resumeFrom
  refine Anchoring.bind ?_ fun _ => anchoring_validateRepository.bind fun r => ?_
  · unfold Agent.requireConfiguration
    split
    · exact anchoring_done _
    · exact (anchoring_publish _ _ _).bind fun _ => anchoring_done _
  · obtain ⟨run, drifted⟩ := r
    refine Anchoring.bind ?_ fun run => ?_
    · unfold Agent.reviseIf
      split
      · exact anchoring_revisePlanAfterDrift
      · exact anchoring_done _
    · refine (anchoring_unwritten (Calls.mapOp (fun _ _ _ => id) _)).bind fun reconciled => ?_
      refine anchoring_getTasks.bind fun tasks => ?_
      refine (Anchoring.mapM' anchoring_recoverTask _).bind fun tasks => ?_
      refine (anchoring_done _).bind fun state => (anchoring_sql _).bind fun now => ?_
      refine (anchoring_sql _).bind fun run => (anchoring_sql _).bind fun plan => ?_
      refine (anchoring_write rfl).bind fun _ => (anchoring_publish _ _ _).bind fun _ => ?_
      exact anchoring_done _

theorem anchoring_resume {workerId : String} : Anchoring I codec (A.resume runId workerId) := by
  unfold Agent.resume
  refine (anchoring_ofLease _).bind fun lease => Anchoring.releasing ?_
  unfold Agent.resumeHeld
  refine (anchoring_sql _).bind fun run => ?_
  split
  · exact anchoring_done _
  · refine Anchoring.bind ?_ fun run => ?_
    · unfold enterRecovery
      split
      · exact anchoring_done _
      · refine (anchoring_done _).bind fun state => (anchoring_sql _).bind fun now => ?_
        exact anchoring_sql _
    · refine (anchoring_unwritten ?_).bind fun checkpoint => anchoring_resumeFrom
      exact Calls.mapOp_of unwritten_recoverLatest fun _ _ hop => hop

/-! ### Creation -/

/-- No request has used the key. -/
def Unused (pk : String) (w : Site Text) : Prop := w.store.keys.find pk = none

theorem Unused.evolve {pk : String} (h : Unused pk w) (hrely : (anchoring I codec).rely w w') :
    Unused pk w' := by
  unfold Unused
  rw [hrely.1]
  exact h

/-- The kinds of calls that write no keys leave an unused key unused. -/
theorem Unused.step {pk : String} {op : StoreOp Text β} {x : Except Exn β} (h : Unused pk w)
    (hkeys : Region.keys ∉ (effectOf β op).writes) (hop : siteExec I codec β op w x w') :
    Unused pk w' := by
  cases siteStep_of_exec hop with
  | failed | made | saved | read | hashed => exact h
  | @stored _ _ _ s _ t hs =>
    have hsame := @handle_same Text codec I.sha256Digest β .keys w.store op t hkeys
    rw [hs] at hsame
    change s.keys = w.store.keys at hsame
    change s.keys.find pk = none
    rw [hsame]
    exact h

theorem answered_of_exec {op : StoreOp Text β} {x : Except Exn β}
    (hop : siteExec I codec β op w x w') : Answered β op x := by
  cases siteStep_of_exec hop with
  | failed e => exact answered_error
  | made | saved | read | hashed => exact trivial
  | stored _ t hs =>
    have hx : Answered β op (handle codec I.sha256Digest β op t w.store).1 := answered_handle
    rw [hs] at hx
    exact hx

/-- A written run is the one that was asked for, under its new version. -/
theorem anchors_updateRun {run : RunRecord} {v : Nat} {hash : Option String}
    (h : Recorded w run.repositorySnapshotId hash) :
    Anchors I codec (sql (.updateRun run v))
      (fun run' w => Recorded w run'.repositorySnapshotId hash) w := by
  have hwritten : Anchors I codec (sql (.updateRun run v))
      (fun run' _ => True ∧ run' = withVersion run v) w :=
    (anchoring_sql _ w).yields updateRun_yields fun _ _ _ _ _ => answered_of_exec
  refine (hwritten.frame (keeps_recorded _ _) h).mono fun r w' _ hr => ?_
  cases r with
  | error e => exact trivial
  | ok run' =>
    obtain ⟨⟨-, rfl⟩, hrecorded⟩ := hr
    exact hrecorded

/-- A run that is at the index whose manifest hash its planning knows. -/
theorem anchors_planRun {objective : String} {index : String × String}
    (h : Recorded w run.repositorySnapshotId (some index.2)) :
    Anchors I codec (A.planRun run objective index) (fun _ _ => True) w := by
  unfold Agent.planRun
  have hkeep (run : RunRecord) : (anchoring I codec).Keeps fun w =>
      Recorded w run.repositorySnapshotId (some index.2) := keeps_recorded _ _
  refine Contract.Meets.seq (hkeep run) h (anchoring_publish _ _ _ _) fun _ w₁ _ h₁ _ => ?_
  refine Contract.Meets.seq (hkeep run) h₁ (anchoring_done _ _) fun state w₂ _ h₂ _ => ?_
  refine Contract.Meets.seq (hkeep run) h₂ (anchoring_sql _ _) fun now w₃ _ h₃ _ => ?_
  refine Contract.Meets.next (anchors_updateRun h₃) fun run w₄ _ h₄ => ?_
  refine Contract.Meets.seq (hkeep run) h₄ (anchoring_sql _ _) fun plan w₅ _ h₅ _ => ?_
  refine Contract.Meets.seq (hkeep run) h₅ (anchoring_sql _ _) fun _ w₆ _ h₆ _ => ?_
  refine Contract.Meets.seq (hkeep run) h₆ (anchoring_sql _ _) fun _ w₇ _ h₇ _ => ?_
  refine Contract.Meets.seq (hkeep run) h₇ (anchoring_done _ _) fun state w₈ _ h₈ _ => ?_
  refine Contract.Meets.seq (hkeep run) h₈ (anchoring_sql _ _) fun now w₉ _ h₉ _ => ?_
  refine Contract.Meets.next (anchors_updateRun h₉) fun run w₁₀ _ h₁₀ => ?_
  refine Contract.Meets.next (anchors_writeCheckpoint (.inr h₁₀)) fun _ w₁₁ _ _ => ?_
  refine Contract.Meets.next (anchoring_publish _ _ _ _) fun _ w₁₂ _ _ => ?_
  exact anchoring_done _ _

/-- What is known besides while a key is unused. -/
def Awaits (pk : String) (snapshotId manifestHash : Option String) (w : Site Text) : Prop :=
  Unused pk w ∧ Recorded w snapshotId manifestHash

theorem Awaits.evolve {pk : String} {snapshotId manifestHash : Option String}
    (h : Awaits pk snapshotId manifestHash w) (hrely : (anchoring I codec).rely w w') :
    Awaits pk snapshotId manifestHash w' :=
  ⟨h.1.evolve hrely, h.2.grow hrely.2.2⟩

/-- Calls of kinds that write no keys. -/
theorem anchors_awaits {pk : String} {snapshotId manifestHash : Option String}
    (hp : p.Calls fun δ op => Unwritten δ op ∧ Region.keys ∉ (effectOf δ op).writes)
    (h : Awaits pk snapshotId manifestHash w) :
    Anchors I codec p (fun _ w => Awaits pk snapshotId manifestHash w) w := by
  refine Contract.Meets.kept (fun w w' hrely _ h => h.evolve hrely) hp h
    fun δ op w hop hw h => ⟨trivial, fun x w' hstep => ?_⟩
  obtain ⟨hw', hrows⟩ := hw.step (fun payload happends => absurd happends (hop.1 payload)) hstep
  exact ⟨hrows, hw', h.1.step hop.2 hstep, h.2.grow hrows⟩

/-- One call, from what the others keep to what they keep. -/
theorem anchors_call {op : SqlOp α} {K : Site Text → Prop} {R : α → Site Text → Prop}
    (hK : ∀ w w', (anchoring I codec).rely w w' → K w → K w') (h : K w)
    (hR : ∀ a w w', (anchoring I codec).rely w w' → R a w → R a w')
    (hstep : ∀ a w w', K w → siteExec I codec α (.sql op) w (.ok a) w' → R a w') :
    Anchors I codec (sql op) R w := by
  refine Contract.Meets.step (fun w w' hrely _ => hK w w' hrely) h fun w hw h =>
    ⟨trivial, fun x w' hop => ?_⟩
  obtain ⟨hw', hrows⟩ := hw.step (fun _ happends => by simp [Appends] at happends) hop
  refine ⟨hrows, hw', fun w'' hrely _ => ?_⟩
  cases x with
  | error e => exact trivial
  | ok a => exact hR a w' w'' hrely (hstep a w w' h hop)

/-- The calls of the store itself, as steps of a site. -/
theorem stored_of_exec {op : StoreOp Text α} {a : α} (hop : ¬ OfRepository α op)
    (h : siteExec I codec α op w (.ok a) w') :
    ∃ t s, handle codec I.sha256Digest α op t w.store = (.ok a, s) ∧ w' = { w with store := s } := by
  generalize hx : Except.ok a = x at h
  cases siteStep_of_exec h with
  | failed e => cases hx
  | made | saved | read | hashed => exact absurd trivial hop
  | stored _ t hs =>
    subst hx
    exact ⟨t, _, hs, rfl⟩

/-- An unused key is found by nobody. -/
theorem anchors_getUnused {pk : String} {snapshotId manifestHash : Option String}
    (h : Awaits pk snapshotId manifestHash w) :
    Anchors I codec (sql (.getIdempotencyKey pk))
      (fun found w => found = none ∧ Awaits pk snapshotId manifestHash w) w := by
  refine anchors_call (fun w w' hrely h => h.evolve hrely) h
    (fun a w w' hrely h => ⟨h.1, h.2.evolve hrely⟩) fun found w w' h hop => ?_
  obtain ⟨t, s, hs, rfl⟩ := stored_of_exec id hop
  obtain ⟨hfound, rfl⟩ := Prod.mk.inj hs
  refine ⟨?_, h⟩
  rw [← Except.ok.inj hfound]
  exact h.1

/-- The new run is stored, or nothing is. -/
theorem anchors_insertNew {pk : String} {hash : Option String} {run : RunRecord}
    {key : IdempotencyKey} (h : Awaits pk run.repositorySnapshotId hash w) :
    Anchors I codec (sql (.insertRun run key))
      (fun inserted w => (inserted = false → Unused pk w) ∧
        Recorded w run.repositorySnapshotId hash) w := by
  refine anchors_call (fun w w' hrely h => h.evolve hrely) h
    (fun a w w' hrely h => ⟨fun ha => (h.1 ha).evolve hrely, h.2.grow hrely.2.2⟩)
    fun inserted w w' h hop => ?_
  obtain ⟨t, s, hs, rfl⟩ := stored_of_exec id hop
  refine ⟨?_, h.2⟩
  rintro rfl
  change committed w.store (w.store.insertRun run key) = (.ok false, s) at hs
  cases hinsert : w.store.insertRun run key with
  | some s' =>
    rw [hinsert] at hs
    cases hs
  | none =>
    rw [hinsert] at hs
    obtain ⟨-, rfl⟩ := Prod.mk.inj hs
    exact h.1

/-- A run that is stored under an unused key is the new one. -/
theorem anchors_storeRun {idempotencyKey requestHash : String} {hash : Option String}
    {run : RunRecord}
    (h : Awaits (A.idempotencyPk run.ownerId "create_run" idempotencyKey)
      run.repositorySnapshotId hash w) :
    Anchors I codec (A.storeRun run idempotencyKey requestHash)
      (fun run' w => Recorded w run'.repositorySnapshotId hash) w := by
  unfold Agent.storeRun
  refine Contract.Meets.next (anchors_getUnused h) fun existing w₁ _ h₁ => ?_
  obtain ⟨rfl, h₁⟩ := h₁
  have hearlier : (earlierRun requestHash none : StoreProg Text _) = pure none := rfl
  rw [hearlier, pure_bind]
  refine Contract.Meets.next (anchors_awaits (calls_perform.mpr ⟨fun _ => id, List.not_mem_nil⟩) h₁)
    fun now w₂ _ h₂ => ?_
  refine Contract.Meets.next (anchors_insertNew h₂) fun inserted w₃ _ h₃ => ?_
  cases inserted with
  | true => exact Contract.Meets.pure (keeps_recorded _ _) h₃.2
  | false =>
    refine Contract.Meets.next (anchors_getUnused ⟨h₃.1 rfl, h₃.2⟩) fun existing w₄ _ h₄ => ?_
    obtain ⟨rfl, -⟩ := h₄
    exact Contract.Meets.raise (Contract.keeps_const True) trivial

/-- The index was made for the caller, and is the newest under its identifier. -/
def Made (index : String × String) (w : Site Text) : Prop :=
  ∃ i, w.made.find? (fun i => snapshotIdOf i = index.1) = some i ∧ i.snapshot.manifestHash = index.2

theorem anchors_indexRepository {pk root : String} (h : Unused pk w) :
    Anchors I codec (sql (.indexRepository root none))
      (fun index w => Unused pk w ∧ Made index w) w := by
  refine anchors_call (fun w w' hrely h => h.evolve hrely) h (fun index w w' hrely h => ?_)
    fun index w w' h hop => ?_
  · refine ⟨h.1.evolve hrely, ?_⟩
    unfold Made
    rw [hrely.2.1]
    exact h.2
  · obtain ⟨snapshotId, i, -, rfl, rfl⟩ := index_answered hop
    exact ⟨h, i, by simp, rfl⟩

theorem anchors_saveRepositoryIndex {pk : String} {index : String × String}
    (h : Unused pk w ∧ Made index w) :
    Anchors I codec (sql (.saveRepositoryIndex index.1))
      (fun _ w => Awaits pk (some index.1) (some index.2) w) w := by
  refine anchors_call (K := fun w => Unused pk w ∧ Made index w) (fun w w' hrely h => ?_) h
    (fun a w w' hrely h => h.evolve hrely) fun a w w' h hop => ?_
  · refine ⟨h.1.evolve hrely, ?_⟩
    unfold Made
    rw [hrely.2.1]
    exact h.2
  · obtain ⟨i, indexes, hmade, hinsert, rfl⟩ := save_answered hop
    obtain ⟨hunused, j, hj, hhash⟩ := h
    obtain rfl : i = j := Option.some.inj (hmade.symm.trans hj)
    refine ⟨hunused, fun id hid => ?_⟩
    obtain rfl := Option.some.inj hid
    refine ⟨i, ?_, by simpa using List.find?_some hmade, congrArg some hhash.symm⟩
    change i ∈ indexes.rows
    rw [Table.insert_rows hinsert]
    exact List.mem_cons_self

theorem anchors_createNewRun {objective ownerId idempotencyKey requestHash repository : String}
    (h : Unused (A.idempotencyPk ownerId "create_run" idempotencyKey) w) :
    Anchors I codec (A.createNewRun objective ownerId idempotencyKey requestHash repository)
      (fun _ _ => True) w := by
  unfold Agent.createNewRun
  refine Contract.Meets.next (anchors_indexRepository h) fun index w₁ _ h₁ => ?_
  refine Contract.Meets.next (anchors_saveRepositoryIndex h₁) fun _ w₂ _ h₂ => ?_
  refine Contract.Meets.next (anchors_awaits (calls_perform.mpr ⟨fun _ => id, List.not_mem_nil⟩) h₂)
    fun now w₃ _ h₃ => ?_
  refine Contract.Meets.next (anchors_awaits (calls_perform.mpr ⟨fun _ => id, List.not_mem_nil⟩) h₃)
    fun runId w₄ _ h₄ => ?_
  refine Contract.Meets.next (anchors_storeRun h₄) fun run w₅ _ h₅ => ?_
  split
  · exact anchoring_done _ _
  · exact anchors_planRun h₅

theorem anchoring_earlierRun {requestHash : String} {existing : Option IdempotencyKey} :
    Anchoring I codec (earlierRun requestHash existing : StoreProg Text (Option RunRecord)) := by
  cases existing with
  | none => exact anchoring_done _
  | some key =>
    unfold earlierRun
    dsimp only
    split
    · exact anchoring_done _
    · refine Anchoring.bind ?_ fun run => anchoring_done _
      refine (anchoring_sql _).bind fun found => ?_
      cases found <;> exact anchoring_done _

/-- Of a key that was used, a run is found or an exception is raised. -/
theorem earlierRun_ends {requestHash : String} {key : IdempotencyKey} :
    (earlierRun requestHash (some key) : StoreProg Text (Option RunRecord)).Ends
      fun found => found ≠ none := by
  unfold earlierRun
  dsimp only
  split
  · trivial
  · exact Ends.bind (ends_true _) fun run _ => Option.some_ne_none run

theorem anchors_findIdempotentRun {ownerId idempotencyKey requestHash : String} :
    Anchors I codec (A.findIdempotentRun ownerId idempotencyKey requestHash) (fun found w =>
      found = none → Unused (A.idempotencyPk ownerId "create_run" idempotencyKey) w) w := by
  unfold Agent.findIdempotentRun
  have hread : Anchors I codec
      (sql (.getIdempotencyKey (A.idempotencyPk ownerId "create_run" idempotencyKey)))
      (fun found w =>
        found = none → Unused (A.idempotencyPk ownerId "create_run" idempotencyKey) w) w := by
    refine anchors_call (K := fun _ => True) (fun _ _ _ _ => trivial) trivial
      (fun found w w' hrely h hnone => (h hnone).evolve hrely) fun found w w' _ hop => ?_
    obtain ⟨t, s, hs, rfl⟩ := stored_of_exec id hop
    obtain ⟨hfound, rfl⟩ := Prod.mk.inj hs
    rintro rfl
    exact Except.ok.inj hfound
  refine Contract.Meets.next hread fun existing w₁ _ h₁ => ?_
  cases existing with
  | none => exact fun w' hrely _ _ => (h₁ rfl).evolve hrely
  | some key =>
    refine ((anchoring_earlierRun w₁).ends earlierRun_ends).mono fun r w' _ hr => ?_
    cases r with
    | error e => exact trivial
    | ok found => exact fun hnone => absurd hnone hr.2

theorem anchoring_createRun {objective ownerId idempotencyKey : String}
    {repositoryPath : Option String} :
    Anchoring I codec (A.createRun objective ownerId idempotencyKey repositoryPath) := by
  unfold Agent.createRun
  dsimp only
  split
  · exact anchoring_done _
  · split
    · exact anchoring_done _
    · refine Anchoring.bind ?_ fun repository w => ?_
      · unfold Agent.resolveRepository
        refine (anchoring_sql _).bind fun r => ?_
        obtain ⟨repository, isDir⟩ := r
        dsimp only
        split
        · exact anchoring_done _
        · refine (anchoring_sql _).bind fun r => ?_
          obtain ⟨configuredRoot, -⟩ := r
          dsimp only
          split <;> exact anchoring_done _
      · refine Contract.Meets.next anchors_findIdempotentRun fun existing w₁ _ h₁ => ?_
        cases existing with
        | some existing => exact anchoring_done _ _
        | none => exact anchors_createNewRun (h₁ rfl)

/-! ### Calls of the service -/

theorem anchoring_ownedRun {ownerId : String} :
    Anchoring I codec (ownedRun runId ownerId : StoreProg Text RunRecord) := by
  unfold ownedRun
  refine (anchoring_sql _).bind fun run => ?_
  split <;> exact anchoring_done _

theorem anchoring_earlierRequest {kind : LifecycleKind} {requestHash : String}
    {existing : Option IdempotencyKey} :
    Anchoring I codec (earlierRequest kind requestHash existing : StoreProg Text _) := by
  cases existing with
  | none => exact anchoring_done _
  | some key =>
    unfold earlierRequest
    dsimp only
    split
    · exact anchoring_done _
    · refine (anchoring_sql _).bind fun found => ?_
      cases found <;> exact anchoring_done _

theorem anchoring_findLifecycleRequest {ownerId idempotencyKey requestHash : String}
    {kind : LifecycleKind} :
    Anchoring I codec (A.findLifecycleRequest ownerId runId kind idempotencyKey requestHash) :=
  (anchoring_sql _).bind fun _ => anchoring_earlierRequest

theorem anchoring_newRequest {ownerId reason idempotencyKey requestHash : String}
    {kind : LifecycleKind} :
    Anchoring I codec (A.newRequest run ownerId kind reason idempotencyKey requestHash) := by
  unfold Agent.newRequest
  refine (anchoring_sql _).bind fun requestId => (anchoring_sql _).bind fun createdAt => ?_
  unfold Agent.storeRequest
  refine (anchoring_sql _).bind fun existing => anchoring_earlierRequest.bind fun earlier => ?_
  refine (anchoring_sql _).bind fun now => ?_
  cases earlier with
  | some earlier => exact anchoring_done _
  | none => exact (anchoring_sql _).bind fun _ => anchoring_done _

theorem anchoring_requestPauseOf {ownerId reason idempotencyKey : String} :
    Anchoring I codec (A.requestPauseOf runId ownerId reason idempotencyKey) := by
  unfold Agent.requestPauseOf
  refine anchoring_ownedRun.bind fun run => ?_
  split
  · exact anchoring_done _
  · refine anchoring_findLifecycleRequest.bind fun existing => ?_
    cases existing with
    | some existing => exact anchoring_done _
    | none =>
      unfold Agent.pauseUnlessFound
      dsimp only
      split
      · exact anchoring_done _
      · refine anchoring_newRequest.bind fun request => Anchoring.bind ?_ fun _ => ?_
        · unfold requestPause
          split
          · refine (anchoring_done _).bind fun state => (anchoring_sql _).bind fun now => ?_
            exact (anchoring_sql _).bind fun _ => anchoring_done _
          · exact anchoring_done _
        · exact (anchoring_publish _ _ _).bind fun _ => anchoring_done _

theorem anchoring_requestCancelOf {ownerId reason idempotencyKey : String} :
    Anchoring I codec (A.requestCancelOf runId ownerId reason idempotencyKey) := by
  unfold Agent.requestCancelOf
  refine anchoring_ownedRun.bind fun run => ?_
  split
  · exact anchoring_done _
  · refine anchoring_findLifecycleRequest.bind fun existing => ?_
    cases existing with
    | some existing => exact anchoring_done _
    | none =>
      unfold Agent.cancelUnlessFound
      dsimp only
      split
      · exact anchoring_done _
      · refine anchoring_newRequest.bind fun request => ?_
        exact (anchoring_publish _ _ _).bind fun _ => anchoring_done _

theorem anchoring_isReplay {ownerId : String} {maximumTasks : Option Int}
    {idempotencyKey : Option String} :
    Anchoring I codec (A.isReplay runId ownerId maximumTasks idempotencyKey) := by
  cases idempotencyKey with
  | none => exact anchoring_done _
  | some key =>
    unfold Agent.isReplay
    dsimp only
    split
    · exact anchoring_done _
    · refine Anchoring.bind ?_ fun claimed => anchoring_done _
      unfold Agent.claimAction
      refine (anchoring_sql _).bind fun existing => (anchoring_sql _).bind fun now => ?_
      cases existing with
      | some existing =>
        unfold claimUnlessFound priorIntent
        dsimp only
        split
        · exact anchoring_done _
        · split <;> exact anchoring_done _
      | none =>
        refine (anchoring_sql _).bind fun inserted => ?_
        split
        · exact anchoring_done _
        · refine (anchoring_sql _).bind fun existing => ?_
          cases existing with
          | none => exact anchoring_done _
          | some existing =>
            unfold concurrentIntent
            dsimp only
            split <;> exact anchoring_done _

theorem anchoring_currentResult :
    Anchoring I codec (currentResult run : StoreProg Text RunAdvanceResult) :=
  anchoring_getTasks.bind fun _ => anchoring_done _

theorem anchoring_newWorkerId {ownerId : String} :
    Anchoring I codec (newWorkerId ownerId : StoreProg Text String) :=
  (anchoring_sql _).bind fun _ => anchoring_done _

theorem anchoring_resumeOwned {ownerId : String} {maximumTasks : Option Int}
    {idempotencyKey : Option String} :
    Anchoring I codec (A.resumeOwned runId ownerId maximumTasks idempotencyKey) := by
  unfold Agent.resumeOwned
  refine anchoring_ownedRun.bind fun run => anchoring_isReplay.bind fun replay => ?_
  split
  · exact anchoring_currentResult
  · refine anchoring_newWorkerId.bind fun workerId => Anchoring.tryCatch ?_ fun e => ?_
    · exact anchoring_resume.bind fun _ => anchoring_advance
    · unfold replayConflict
      split
      · split
        · exact anchoring_ownedRun.bind fun _ => anchoring_currentResult
        · exact anchoring_done _
      · exact anchoring_done _

/-- Every call of the service keeps the sites anchored. -/
theorem anchoring_program (call : ServiceCall) : Anchoring I codec (call.program A) := by
  cases call with
  | createRun => exact anchoring_createRun.bind fun _ => anchoring_done _
  | advance =>
    refine Anchoring.bind ?_ fun _ => anchoring_done _
    refine anchoring_ownedRun.bind fun _ => anchoring_newWorkerId.bind fun _ => ?_
    exact anchoring_advance
  | pause => exact anchoring_requestPauseOf.bind fun _ => anchoring_done _
  | resume => exact anchoring_resumeOwned.bind fun _ => anchoring_done _
  | cancel => exact anchoring_requestCancelOf.bind fun _ => anchoring_done _

end Programs

/-! ## Histories -/

theorem anchored_fresh (journal : Tools.World) (walk : Walk) :
    Anchored I codec ⟨freshStore journal, walk, [], .empty⟩ where
  stored index hindex := by cases hindex
  made index hindex := by cases hindex
  recorded row hrow := by cases hrow

/-- Along every history the sites are anchored, and what is left of a call keeps them so. -/
theorem Reached.anchored {p : StoreProg Text Unit} (h : Reached I codec p w) :
    Anchored I codec w ∧ Anchors I codec p (fun _ _ => True) w := by
  induction h with
  | fresh journal walk => exact ⟨anchored_fresh journal walk, anchoring_done _ _⟩
  | changed walk _ ih =>
    obtain ⟨hw, hp⟩ := ih
    exact ⟨⟨hw.stored, hw.made, hw.recorded⟩, hp.evolve ⟨rfl, rfl, List.Subset.refl _⟩⟩
  | @indexed p w root snapshotId previous index indexes _ hprevious hindex hinsert ih =>
    obtain ⟨hw, hp⟩ := ih
    have hrows := Table.insert_rows hinsert
    have hgrow : w.indexes.rows ⊆ indexes.rows := by
      rw [hrows]
      exact List.subset_cons_self index w.indexes.rows
    refine ⟨⟨fun i hi => ?_, hw.made, fun row hrow e he => (hw.recorded row hrow e he).grow hgrow⟩,
      hp.evolve ⟨rfl, rfl, hgrow⟩⟩
    change i ∈ indexes.rows at hi
    rw [hrows] at hi
    rcases List.mem_cons.mp hi with rfl | hi
    · exact (index_ok (fun j hj => hw.stored j (hprevious j hj)) hindex).2.1
    · exact hw.stored i hi
  | issued A _ call _ ih => exact ⟨ih.1, anchoring_program call _⟩
  | @answered β op k w w' x _ hop ih =>
    obtain ⟨hw, hp⟩ := ih
    obtain ⟨-, hw', hk⟩ := (hp w ((anchoring I codec).refl w) hw).2 x w' hop
    exact ⟨hw', hk⟩

end DurableAgent.Orchestration
