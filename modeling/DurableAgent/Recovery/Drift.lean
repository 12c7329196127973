import DurableAgent.Application.Anchoring
import DurableAgent.Application.Transitions

/-!
# What counts as drift

A resume indexes the repository against the index that its checkpoint names, and compares the
manifest hashes. A manifest holds the tombstones of the index before, which the next one drops: so
where the index records deletions, the hashes differ although nothing has changed since.
-/

namespace DurableAgent.Orchestration

open Library Library.Prog Store Repository

variable {Text : Type} {I : LocalRepositoryIndexer} {codec : Codec Text} {w w' : Site Text}
  {A : Agent Text} {α β : Type}

/-! ## The checkpoint of a resume -/

theorem keeps_recordedIn (e : CheckpointEnvelope) :
    (anchoring I codec).Keeps fun w => RecordedIn w e.payload := keeps_recorded _ _

/-- What the stored texts of a run read as is recorded. -/
theorem anchors_listCheckpointJson {runId : String} :
    CheckpointAnchors I codec (perform (.listCheckpointJson runId))
      (fun raw w => ∀ e, some e ∈ raw.map codec.modelValidateJson → RecordedIn w e.payload) w := by
  refine Contract.Meets.perform (K := fun _ => True) (Contract.keeps_const True) trivial
    (fun x => ?_) fun w hw _ => ⟨trivial, fun x w' hop => ?_⟩
  · cases x with
    | error e => exact Contract.keeps_const True
    | ok raw =>
      exact Contract.Keeps.forall fun e => Contract.Keeps.imp (keeps_recordedIn e)
  · obtain ⟨hw', hrows⟩ := hw.step (fun _ happends => by simp [Appends] at happends) hop
    refine ⟨hrows, hw', ?_⟩
    cases x with
    | error e => exact trivial
    | ok raw =>
      obtain ⟨t, s, hs, rfl⟩ := stored_of_exec id hop
      intro e he
      obtain ⟨hraw, -⟩ := Prod.mk.inj hs
      rw [← Except.ok.inj hraw, List.map_map] at he
      obtain ⟨row, hrow, htext⟩ := List.mem_map.mp he
      exact hw.recorded row (Checkpoints.mem_rowsOf.mp hrow).1 e htext

/-- A recovered checkpoint names a stored index. -/
theorem anchors_recoverLatest {sha256Digest : String → String} {runId : String} :
    CheckpointAnchors I codec (Checkpoints.recoverLatest codec sha256Digest runId)
      (fun checkpoint w => RecordedIn w checkpoint.payload) w := by
  unfold Checkpoints.recoverLatest
  refine Contract.Meets.next anchors_listCheckpointJson fun raw w₁ _ h₁ => ?_
  have hraise (e : Exn) (w : Site Text) : CheckpointAnchors I codec (raise e)
      (fun (checkpoint : CheckpointEnvelope) w => RecordedIn w checkpoint.payload) w :=
    Contract.Meets.raise (Contract.keeps_const True) trivial
  split
  · exact hraise _ _
  · dsimp only
    have hnewest : (Checkpoints.candidates sha256Digest (raw.map codec.modelValidateJson) 0
        (raw.map codec.modelValidateJson) []).2 =
          (Checkpoints.lineage sha256Digest).newest (raw.map codec.modelValidateJson) :=
      Checkpoints.candidates_snd _ 0 _ [] rfl
    split
    · next candidate hcandidate =>
      have hrecorded : RecordedIn w₁ candidate.payload := by
        rw [hcandidate] at hnewest
        exact h₁ candidate (Lineage.newest_mem hnewest.symm)
      split
      · exact Contract.Meets.pure (keeps_recordedIn candidate) hrecorded
      · refine Contract.Meets.seq (keeps_recordedIn candidate) hrecorded (unwritten_perform fun _ => id)
          fun _ w₂ _ h₂ _ => ?_
        exact Contract.Meets.pure (keeps_recordedIn candidate) h₂
    · exact Contract.Meets.next (unwritten_perform fun _ => id) fun _ w₂ _ _ => hraise _ _

/-! ## Up to the look at the repository -/

/-- The repository and the stored indexes are as they were. -/
structure Beside (I : LocalRepositoryIndexer) (codec : Codec Text) (w w' : Site Text) : Prop where
  walk : w'.walk = w.walk
  indexes : w'.indexes = w.indexes
  anchored : Anchored I codec w'

theorem Beside.trans {w₁ w₂ : Site Text} (h : Beside I codec w w₁) (h' : Beside I codec w₁ w₂) :
    Beside I codec w w₂ :=
  ⟨h'.walk.trans h.walk, h'.indexes.trans h.indexes, h'.anchored⟩

theorem Beside.step {w₀ : Site Text} {op : StoreOp Text β} {x : Except Exn β} (hop : Aloof β op)
    (h : Beside I codec w₀ w) (hstep : siteExec I codec β op w x w') : Beside I codec w₀ w' := by
  have hw' := (h.anchored.step (fun payload happends => absurd happends (hop.1 payload)) hstep).1
  cases siteStep_of_exec hstep with
  | failed e => exact h
  | made | saved | read | hashed => exact absurd trivial hop.2
  | stored => exact ⟨h.walk, h.indexes, hw'⟩

theorem beside_run {p : StoreProg Text α} {r : Except Exn α} (hp : p.Calls Aloof)
    (h : Runs (siteExec I codec) p w r w') (hw : Anchored I codec w) : Beside I codec w w' :=
  h.kept hp ⟨rfl, rfl, hw⟩ fun _ _ _ _ _ hop hK hstep => hK.step hop hstep

/-- The calls of leases leave besides the runs as they are. -/
theorem ofLease_run {p : Prog Leases.LeaseOp Exn α} {r : Except Exn α}
    (h : Runs (siteExec I codec) (ofLease p) w r w') (hw : Anchored I codec w) :
    Beside I codec w w' ∧ w'.store.runs = w.store.runs := by
  have haloof : (ofLease p : StoreProg Text α).Calls Aloof := Calls.mapOp (fun _ _ => ⟨fun _ => id, id⟩) p
  refine ⟨beside_run haloof h hw, ?_⟩
  refine h.kept (K := fun w' => w'.store.runs = w.store.runs) (within_ofLease p) rfl
    fun δ op w₁ x w₂ hop hK hstep => ?_
  have hwrites : Region.runs ∉ (effectOf δ op).writes := by
    have hlease : effectOf δ op ∈ [Effect.lease] := of_decide_eq_true hop
    rw [List.mem_singleton.mp hlease]
    simp [Effect.writes]
  cases siteStep_of_exec hstep with
  | failed | made | saved | read | hashed => exact hK
  | @stored _ _ _ s _ t hs =>
    have hsame := @handle_same Text codec I.sha256Digest δ .runs w₁.store op t hwrites
    rw [hs] at hsame
    exact hsame.trans hK

theorem sql_aloof {op : SqlOp α} (hop : ¬ OfRepository α (.sql op : StoreOp Text α) := by exact id) :
    (sql op : StoreProg Text α).Calls Aloof := calls_perform.mpr ⟨fun _ => id, hop⟩

theorem publish_aloof {runId eventType : String} {taskId : Option String}
    {payload : List (String × Json)} :
    (publish runId eventType taskId payload : StoreProg Text Unit).Calls Aloof :=
  calls_perform.mpr ⟨fun _ => id, id⟩

theorem enterRecovery_aloof {run : RunRecord} :
    (enterRecovery run : StoreProg Text RunRecord).Calls Aloof := by
  unfold enterRecovery
  split
  · trivial
  · exact Calls.bind trivial fun _ => Calls.bind sql_aloof fun _ => sql_aloof

theorem enterRecovery_root {run : RunRecord} :
    (enterRecovery run : StoreProg Text RunRecord).Yields Answered fun run' =>
      run'.repositoryRoot = run.repositoryRoot := by
  unfold enterRecovery
  split
  · exact (rfl : run.repositoryRoot = run.repositoryRoot)
  · refine yields_after fun state => yields_after fun now => ?_
    exact updateRun_yields.mono fun run' h => by rw [h]; rfl

theorem requireConfiguration_aloof {runId : String} {checkpoint : CheckpointEnvelope} :
    (A.requireConfiguration runId checkpoint).Calls Aloof := by
  unfold Agent.requireConfiguration
  split
  · trivial
  · exact Calls.bind publish_aloof fun _ => trivial

/-- What is answered of the repository is what a resume reports. -/
theorem resumeFrom_ok {lease : LeaseRecord} {run : RunRecord} {checkpoint : CheckpointEnvelope}
    {result : RecoveryResult} (hw : Anchored I codec w)
    (h : Runs (siteExec I codec) (A.resumeFrom lease run checkpoint) w (.ok result) w') :
    result.checkpoint = checkpoint ∧ ∃ w₁ run₁ w₂, Beside I codec w w₁ ∧
      Runs (siteExec I codec) (A.validateRepository run checkpoint) w₁
        (.ok (run₁, result.repositoryDrifted)) w₂ := by
  unfold Agent.resumeFrom at h
  obtain ⟨_, w₁, hconfiguration, h⟩ := runs_bind_ok.mp h
  obtain ⟨⟨run₁, drifted⟩, w₂, hvalidate, h⟩ := runs_bind_ok.mp h
  have hresult : result.checkpoint = checkpoint ∧ result.repositoryDrifted = drifted := by
    obtain ⟨run₂, w₃, -, h⟩ := runs_bind_ok.mp h
    obtain ⟨reconciled, w₄, -, h⟩ := runs_bind_ok.mp h
    obtain ⟨tasks, w₅, -, h⟩ := runs_bind_ok.mp h
    obtain ⟨tasks, w₆, -, h⟩ := runs_bind_ok.mp h
    obtain ⟨state, w₇, -, h⟩ := runs_bind_ok.mp h
    obtain ⟨now, w₈, -, h⟩ := runs_bind_ok.mp h
    obtain ⟨run₃, w₉, -, h⟩ := runs_bind_ok.mp h
    obtain ⟨plan, w₁₀, -, h⟩ := runs_bind_ok.mp h
    obtain ⟨written, w₁₁, -, h⟩ := runs_bind_ok.mp h
    obtain ⟨_, w₁₂, -, h⟩ := runs_bind_ok.mp h
    obtain ⟨hdone, -⟩ := runs_pure.mp h
    rw [Except.ok.inj hdone]
    exact ⟨rfl, rfl⟩
  refine ⟨hresult.1, w₁, run₁, w₂, beside_run requireConfiguration_aloof hconfiguration hw, ?_⟩
  rw [hresult.2]
  exact hvalidate

/-- A resume that returns has found its run, recovered a checkpoint, and looked at the repository
as it was. -/
theorem resume_ok {runId workerId : String} {result : RecoveryResult} (hcodec : A.codec = codec)
    (hw : Anchored I codec w)
    (h : Runs (siteExec I codec) (A.resume runId workerId) w (.ok result) w') :
    ∃ run, w.store.runs.find runId = some run ∧ ∃ w₁ run₁ run₂ w₂, Beside I codec w w₁ ∧
      run₁.repositoryRoot = run.repositoryRoot ∧ RecordedIn w₁ result.checkpoint.payload ∧
      Runs (siteExec I codec) (A.validateRepository run₁ result.checkpoint) w₁
        (.ok (run₂, result.repositoryDrifted)) w₂ := by
  subst hcodec
  unfold Agent.resume at h
  obtain ⟨lease, w₁, hlease, h⟩ := runs_bind_ok.mp h
  obtain ⟨hbeside, hruns⟩ := ofLease_run hlease hw
  have hheld : Runs (siteExec I A.codec) (A.resumeHeld runId lease) w₁ (.ok result) w' := by
    rcases h.of_tryCatch_ok with hheld | ⟨e, w₂, -, hrelease⟩
    · exact hheld
    · obtain ⟨_, w₃, -, hraise⟩ := runs_bind_ok.mp hrelease
      cases (runs_raise.mp hraise).1
  unfold Agent.resumeHeld at hheld
  obtain ⟨run, w₂, hrun, hheld⟩ := runs_bind_ok.mp hheld
  rw [show (sql (.getRun runId) : StoreProg Text RunRecord) = perform (.sql (.getRun runId)) from rfl,
    runs_perform] at hrun
  obtain ⟨t, s, hs, rfl⟩ := stored_of_exec id hrun
  obtain ⟨hfound, rfl⟩ := Prod.mk.inj hs
  have hrow : w.store.runs.find runId = some run := by
    rw [← hruns]
    change w₁.store.getRun runId = .ok run at hfound
    unfold StoreState.getRun at hfound
    split at hfound
    · next found hfind => rw [hfind, Except.ok.inj hfound]
    · cases hfound
  refine ⟨run, hrow, ?_⟩
  split at hheld
  · cases (runs_raise.mp hheld).1
  · obtain ⟨run₁, w₃, henter, hheld⟩ := runs_bind_ok.mp hheld
    obtain ⟨checkpoint, w₄, hrecover, hheld⟩ := runs_bind_ok.mp hheld
    have h₃ := beside_run enterRecovery_aloof henter hbeside.anchored
    have hroot : Anchors I A.codec (enterRecovery run)
        (fun run' _ => True ∧ run'.repositoryRoot = run.repositoryRoot) w₁ :=
      Contract.Meets.yields (anchors_unwritten (enterRecovery_aloof.mono fun _ _ h => h.1))
        enterRecovery_root fun _ _ _ _ _ => answered_of_exec
    have hroot₁ := (hroot.runs hbeside.anchored henter).2.2
    have h₄ := beside_run (Calls.mapOp_of aloof_recoverLatest fun _ _ hop => hop) hrecover
      h₃.anchored
    have hrecorded := (Contract.Meets.mapOp anchors_recoverLatest).runs h₃.anchored hrecover
    obtain ⟨rfl, w₅, run₂, w₆, h₅, hvalidate⟩ := resumeFrom_ok h₄.anchored hheld
    refine ⟨w₅, run₁, run₂, w₆, ((hbeside.trans h₃).trans h₄).trans h₅, hroot₁, ?_, hvalidate⟩
    exact hrecorded.2.grow (by rw [h₅.indexes]; exact List.Subset.refl _)

/-! ## The look at the repository -/

/-- The contents of the repository are not those that the index gives. -/
def Changed (I : LocalRepositoryIndexer) (w : Site Text) (index : RepositoryIndex) : Prop :=
  I.contents w.walk ≠ contentsOf index

/-- The manifest hash of a present index differs exactly if the contents have changed or the stored
index records deletions. -/
theorem current_ne_iff (hsha : Function.Injective I.sha256Digest) (hw : Anchored I codec w)
    {root snapshotId : String} {index again : RepositoryIndex} (hindex : index ∈ w.indexes.rows)
    (h : I.index root w.walk (some index) snapshotId = .ok again) :
    again.snapshot.manifestHash ≠ index.snapshot.manifestHash ↔
      Changed I w index ∨ recordsDeletions index = true := by
  rw [Ne, reindex_same_iff hsha (hw.stored index hindex) h, not_and_or, Bool.not_eq_false]
  rfl

theorem acceptDrift_ok {run run' : RunRecord} {drifted : Bool} {snapshotId manifestHash : String}
    {current : String × String}
    (h : Runs (siteExec I codec) (A.acceptDrift run snapshotId manifestHash current) w
      (.ok (run', drifted)) w') : drifted = true ∧ A.settings.repositoryDriftPolicy ≠ .FAIL := by
  unfold Agent.acceptDrift at h
  obtain ⟨_, w₁, -, h⟩ := runs_bind_ok.mp h
  split at h
  · cases (runs_raise.mp h).1
  · next hpolicy =>
    obtain ⟨_, w₂, -, h⟩ := runs_bind_ok.mp h
    obtain ⟨_, w₃, -, h⟩ := runs_bind_ok.mp h
    obtain ⟨now, w₄, -, h⟩ := runs_bind_ok.mp h
    obtain ⟨run₁, w₅, -, h⟩ := runs_bind_ok.mp h
    exact ⟨congrArg Prod.snd (Except.ok.inj (runs_pure.mp h).1), hpolicy⟩

theorem present_some {text : String} (h : text ≠ "") : present (some text) = some text := by
  simp [present, h]

/-- What a look at the repository compares: it reads a stored index, and indexes against it. -/
structure Compared (I : LocalRepositoryIndexer) (w : Site Text) (snapshotId manifestHash : String)
    (index again : RepositoryIndex) : Prop where
  stored : index ∈ w.indexes.rows
  named : snapshotIdOf index = snapshotId
  hash : manifestHash = index.snapshot.manifestHash
  current : ∃ root freshId, I.index root w.walk (some index) freshId = .ok again

theorem Compared.ne_iff (hsha : Function.Injective I.sha256Digest) (hw : Anchored I codec w)
    {snapshotId manifestHash : String} {index again : RepositoryIndex}
    (h : Compared I w snapshotId manifestHash index again) :
    again.snapshot.manifestHash ≠ manifestHash ↔
      Changed I w index ∨ recordsDeletions index = true := by
  obtain ⟨root, freshId, hcurrent⟩ := h.current
  rw [h.hash]
  exact current_ne_iff hsha hw h.stored hcurrent

/-- The comparison of a checkpoint that names a snapshot. -/
def Agent.compareRepository (A : Agent Text) (run : RunRecord) (snapshotId manifestHash : String) :
    StoreProg Text (RunRecord × Bool) := do
  let previous ← sql (.getRepositoryIndex snapshotId)
  let current ← sql (.indexRepository A.settings.repositoryRoot (some previous))
  if current.2 = manifestHash then pure (run, false)
  else A.acceptDrift run snapshotId manifestHash current

/-- A recorded snapshot is compared with, where the run has a repository. -/
theorem validateRepository_eq (hdigest : ∀ text, I.sha256Digest text ≠ "") (hw : Anchored I codec w)
    {run : RunRecord} {checkpoint : CheckpointEnvelope} {snapshotId : String}
    (hrecorded : RecordedIn w checkpoint.payload)
    (hsnapshot : checkpoint.payload.repositorySnapshotId = some snapshotId)
    (hroot : present run.repositoryRoot ≠ none) :
    ∃ index ∈ w.indexes.rows, snapshotIdOf index = snapshotId ∧
      A.validateRepository run checkpoint =
        A.compareRepository run snapshotId index.snapshot.manifestHash := by
  obtain ⟨index, hindex, rfl, hhash⟩ := hrecorded snapshotId (by rw [hsnapshot]; rfl)
  have hstored := hw.stored index hindex
  obtain ⟨root, hroot⟩ := Option.ne_none_iff_exists'.mp hroot
  have hnonempty : index.snapshot.manifestHash ≠ "" := by
    rw [hstored.manifestHash]
    exact hdigest _
  refine ⟨index, hindex, rfl, ?_⟩
  unfold Agent.validateRepository
  have hnamed : present (some (snapshotIdOf index)) = some (snapshotIdOf index) :=
    present_some hstored.named
  rw [hsnapshot, hhash, hroot, hnamed, present_some hnonempty]
  rfl

/-- What is compared is the stored index with the one that is made against it. -/
theorem compared_of_answers {snapshotId root : String} {index : RepositoryIndex} {previous : String}
    {current : String × String} {w₁ w₂ : Site Text} (hindex : index ∈ w.indexes.rows)
    (hid : snapshotIdOf index = snapshotId)
    (hread : siteExec I codec _ (.sql (.getRepositoryIndex snapshotId)) w (.ok previous) w₁)
    (hcurrent : siteExec I codec _ (.sql (.indexRepository root (some previous))) w₁
      (.ok current) w₂) :
    ∃ again, Compared I w snapshotId index.snapshot.manifestHash index again ∧
      current.2 = again.snapshot.manifestHash := by
  obtain ⟨rfl, rfl, found, hfound⟩ := read_answered hread
  obtain ⟨freshId, again, hagain, rfl, -⟩ := index_answered hcurrent
  have hsame : w₁.indexes.find previous = some index := Table.find_eq_some.mpr ⟨hindex, hid⟩
  rw [Option.bind_some, hsame] at hagain
  exact ⟨again, ⟨hindex, hid, rfl, root, freshId, hagain⟩, rfl⟩

/-- A look that returns reports exactly that the manifest hashes differ, which under the policy
that a drift fails they do not. -/
theorem compareRepository_ok {run run' : RunRecord} {snapshotId : String} {drifted : Bool}
    {index : RepositoryIndex} (hindex : index ∈ w.indexes.rows)
    (hid : snapshotIdOf index = snapshotId)
    (h : Runs (siteExec I codec)
      (A.compareRepository run snapshotId index.snapshot.manifestHash) w (.ok (run', drifted)) w') :
    ∃ again, Compared I w snapshotId index.snapshot.manifestHash index again ∧
      (drifted = true ↔ again.snapshot.manifestHash ≠ index.snapshot.manifestHash) ∧
      (drifted = true → A.settings.repositoryDriftPolicy ≠ .FAIL) := by
  unfold Agent.compareRepository at h
  obtain ⟨previous, w₁, hread, h⟩ := runs_bind_ok.mp h
  obtain ⟨current, w₂, hcurrent, h⟩ := runs_bind_ok.mp h
  obtain ⟨again, hcompared, hhash⟩ :=
    compared_of_answers hindex hid (runs_perform.mp hread) (runs_perform.mp hcurrent)
  refine ⟨again, hcompared, ?_⟩
  rw [hhash] at h
  split at h
  · next hsame =>
    have hreport : drifted = false := congrArg Prod.snd (Except.ok.inj (runs_pure.mp h).1)
    simp [hreport, hsame]
  · next hdiffers =>
    obtain ⟨hreport, hpolicy⟩ := acceptDrift_ok h
    simp [hreport, hdiffers, hpolicy]

/-- What is raised under the policy that a drift fails. -/
def changedSince : Exn := .of .repositoryChanged "repository changed since the checkpoint"

theorem Site.indexRepository_ne {root freshId : String} {previous : Option String} :
    (w.indexRepository I root previous freshId).1 ≠ .error changedSince := by
  unfold Site.indexRepository
  split
  · exact fun h => by cases h
  · next e h =>
    intro he
    obtain ⟨message, hrefused | hrefused⟩ := index_error h <;>
      rw [Except.error.inj he] at hrefused <;> cases hrefused

theorem Site.getRepositoryIndex_ne {snapshotId : String} :
    (w.getRepositoryIndex snapshotId).map snapshotIdOf ≠ .error changedSince := by
  unfold Site.getRepositoryIndex
  split
  · exact fun h => by cases h
  · exact fun h => by cases h

/-- Where a drift fails, a look that fails by itself in this way or returns has failed exactly if
the manifest hashes differ. -/
theorem compareRepository_fail (hpolicy : A.settings.repositoryDriftPolicy = .FAIL)
    {run : RunRecord} {snapshotId : String} {index : RepositoryIndex}
    {r : Except Exn (RunRecord × Bool)} (hindex : index ∈ w.indexes.rows)
    (hid : snapshotIdOf index = snapshotId) (hr : (∃ a, r = .ok a) ∨ r = .error changedSince)
    (h : Runs (handleSite I codec).exec
      (A.compareRepository run snapshotId index.snapshot.manifestHash) w r w') :
    ∃ again, Compared I w snapshotId index.snapshot.manifestHash index again ∧
      (r = .error changedSince ↔
        again.snapshot.manifestHash ≠ index.snapshot.manifestHash) := by
  rcases hr with ⟨⟨run', drifted⟩, rfl⟩ | rfl
  · obtain ⟨again, hcompared, hreport, hcontinues⟩ := compareRepository_ok hindex hid h.withFaults
    refine ⟨again, hcompared, iff_of_false (fun he => nomatch he) fun hdiffers => ?_⟩
    exact hcontinues (hreport.mpr hdiffers) hpolicy
  · unfold Agent.compareRepository at h
    rcases runs_bind_error.mp h with hread | ⟨previous, w₁, hread, h⟩
    · obtain ⟨t, ht⟩ := runs_perform.mp hread
      exact absurd (Prod.mk.inj ht).1 Site.getRepositoryIndex_ne
    · rcases runs_bind_error.mp h with hcurrent | ⟨current, w₂, hcurrent, h⟩
      · obtain ⟨t, ht⟩ := runs_perform.mp hcurrent
        exact absurd (congrArg Prod.fst ht) Site.indexRepository_ne
      · obtain ⟨again, hcompared, hhash⟩ := compared_of_answers hindex hid
          (.inl (runs_perform.mp hread)) (.inl (runs_perform.mp hcurrent))
        refine ⟨again, hcompared, ?_⟩
        rw [hhash] at h
        split at h
        · cases (runs_pure.mp h).1
        · next hdiffers => simp [hdiffers]

/-! ## Histories -/

/-- Drift is reported exactly if the contents have changed. -/
def ReportedExactly (I : LocalRepositoryIndexer) (w : Site Text) (index : RepositoryIndex)
    (reported : Prop) : Prop :=
  reported ↔ Changed I w index

/-- The contents have changed, or the stored index records no deletion. -/
def Telling (I : LocalRepositoryIndexer) (w : Site Text) (index : RepositoryIndex) : Prop :=
  Changed I w index ∨ recordsDeletions index = false

theorem reportedExactly_iff {index : RepositoryIndex} {reported : Prop}
    (h : reported ↔ Changed I w index ∨ recordsDeletions index = true) :
    ReportedExactly I w index reported ↔ Telling I w index := by
  unfold ReportedExactly Telling
  rw [h]
  by_cases hchanged : Changed I w index <;> simp [hchanged]

/-- At every site that a history of the repository and of the service leads to: a resume that
returns reports drift exactly, an index that is made against a stored one has another manifest hash
exactly, and where a drift fails it fails exactly, if the contents have changed or the stored index
records no deletion, and not otherwise. -/
theorem drift_detection {p : StoreProg Text Unit} (hsha : Function.Injective I.sha256Digest)
    (hdigest : ∀ text, I.sha256Digest text ≠ "") (hreach : Reached I codec p w) :
    (∀ (A : Agent Text) (runId workerId snapshotId : String) (run : RunRecord)
      (result : RecoveryResult) (w' : Site Text), A.codec = codec →
      Runs (siteExec I codec) (A.resume runId workerId) w (.ok result) w' →
      w.store.runs.find runId = some run → present run.repositoryRoot ≠ none →
      result.checkpoint.payload.repositorySnapshotId = some snapshotId →
      ∃ index ∈ w.indexes.rows, snapshotIdOf index = snapshotId ∧
        (ReportedExactly I w index (result.repositoryDrifted = true) ↔ Telling I w index)) ∧
    (∀ index ∈ w.indexes.rows, ∀ root snapshotId again,
      I.index root w.walk (some index) snapshotId = .ok again →
      (ReportedExactly I w index (again.snapshot.manifestHash ≠ index.snapshot.manifestHash) ↔
        Telling I w index)) ∧
    (∀ (A : Agent Text) (run : RunRecord) (row : Checkpoints.CheckpointRow Text)
      (checkpoint : CheckpointEnvelope) (snapshotId : String) (r : Except Exn (RunRecord × Bool))
      (w' : Site Text), A.settings.repositoryDriftPolicy = .FAIL →
      row ∈ w.store.checkpoints.rows → codec.modelValidateJson row.envelopeJson = some checkpoint →
      checkpoint.payload.repositorySnapshotId = some snapshotId →
      present run.repositoryRoot ≠ none →
      Runs (handleSite I codec).exec (A.validateRepository run checkpoint) w r w' →
      (∃ a, r = .ok a) ∨ r = .error changedSince →
      ∃ index ∈ w.indexes.rows, snapshotIdOf index = snapshotId ∧
        (ReportedExactly I w index (r = .error changedSince) ↔ Telling I w index)) := by
  have hw := hreach.anchored.1
  refine ⟨?_, ?_, ?_⟩
  · intro A runId workerId snapshotId run result w' hcodec hresume hrun hroot hsnapshot
    obtain ⟨run₀, hrun₀, w₁, run₁, run₂, w₂, hbeside, hsame, hrecorded, hlook⟩ :=
      resume_ok hcodec hw hresume
    obtain rfl : run = run₀ := Option.some.inj (hrun.symm.trans hrun₀)
    rw [← hsame] at hroot
    obtain ⟨index, hindex, hid, heq⟩ :=
      validateRepository_eq (A := A) hdigest hbeside.anchored hrecorded hsnapshot hroot
    rw [heq] at hlook
    obtain ⟨again, hcompared, hreport, -⟩ := compareRepository_ok hindex hid hlook
    have hreported := hreport.trans (hcompared.ne_iff hsha hbeside.anchored)
    unfold Changed at hreported
    rw [hbeside.walk] at hreported
    rw [hbeside.indexes] at hindex
    exact ⟨index, hindex, hid, reportedExactly_iff hreported⟩
  · intro index hindex root snapshotId again hagain
    exact reportedExactly_iff (current_ne_iff hsha hw hindex hagain)
  · intro A run row checkpoint snapshotId r w' hpolicy hrow hread hsnapshot hroot hlook hr
    have hrecorded := hw.recorded row hrow checkpoint hread
    obtain ⟨index, hindex, hid, heq⟩ :=
      validateRepository_eq (A := A) hdigest hw hrecorded hsnapshot hroot
    rw [heq] at hlook
    obtain ⟨again, hcompared, hfails⟩ := compareRepository_fail hpolicy hindex hid hr hlook
    exact ⟨index, hindex, hid, reportedExactly_iff (hfails.trans (hcompared.ne_iff hsha hw))⟩

/-! ## A small repository -/

/-- The content hash of a file is its text. -/
def plainIndexer (sha256Digest : String → String) : LocalRepositoryIndexer :=
  { sha256 := fun raw => String.ofList (raw.map fun byte => Char.ofNat byte.toNat)
    sha256Digest
    injectionIndicators := fun _ _ => 0
    limits_positive := default_limits }

def fileA : WalkedFile := { relativePath := "a", size := 1, raw := [97] }

def fileB : WalkedFile := { relativePath := "b", size := 1, raw := [98] }

def bothFiles : Walk := ⟨[fileA, fileB], [], by decide⟩

/-- The second file is gone. -/
def firstFile : Walk := ⟨[fileA], [], by decide⟩

def freshSite (walk : Walk) : Site CheckpointEnvelope := ⟨plainStore, walk, [], .empty⟩

theorem generation_eq_triples (files : List RepositoryFile) (path : String) :
    generation files path = ((files.map triple).find? fun t => t.1 = path).map Prod.snd := by
  unfold generation
  rw [List.find?_map, Option.map_map]
  rfl

/-- An index that has the tombstone of the second file gives the contents without it. -/
theorem not_changed_of_triples {sha256Digest : String → String} {index : RepositoryIndex}
    {w : Site CheckpointEnvelope} (hwalk : w.walk = firstFile)
    (hfiles : index.snapshot.files.map triple = [("a", "a", false), ("b", "b", true)]) :
    ¬ Changed (plainIndexer sha256Digest) w index := by
  have hkeeps : (plainIndexer sha256Digest).keeps fileA = true := by
    change (plainIndexer id).keeps fileA = true
    decide +kernel
  have hkept : firstFile.files.filter (plainIndexer sha256Digest).keeps = [fileA] := by
    rw [firstFile, List.filter_cons_of_pos hkeeps]
    rfl
  have hraw : (plainIndexer sha256Digest).sha256 fileA.raw = "a" := rfl
  unfold Changed LocalRepositoryIndexer.contents contentsOf Generation.live
  rw [hwalk, hkept, not_not]
  funext path
  rw [generationOf, Option.map_some, Option.getD_some, generation_eq_triples, hfiles]
  by_cases ha : "a" = path
  · subst ha
    rfl
  · by_cases hb : "b" = path
    · subst hb
      rfl
    · simp [fileA, ha, hb]

/-- The digest marks the text. -/
abbrev marked (text : String) : String := "#" ++ text

theorem marked_injective : Function.Injective marked := fun a b h => by simpa [marked] using h

theorem marked_ne (text : String) : marked text ≠ "" := by simp [marked]

/-- Indexing under a new identifier leads on. -/
theorem Reached.index {p : StoreProg Text Unit} {root snapshotId : String}
    {previous : Option RepositoryIndex} {index : RepositoryIndex} (h : Reached I codec p w)
    (hprevious : ∀ i ∈ previous, i ∈ w.indexes.rows)
    (hindex : I.index root w.walk previous snapshotId = .ok index)
    (hnew : ∀ i ∈ w.indexes.rows, snapshotIdOf i ≠ snapshotId) :
    ∃ w', Reached I codec p w' ∧ w'.walk = w.walk ∧ w'.indexes.rows = index :: w.indexes.rows := by
  have hid : snapshotIdOf index = snapshotId := (index_eq_ok hindex).1
  have hfree : w.indexes.find (snapshotIdOf index) = none := by
    rw [hid]
    exact List.find?_eq_none.mpr fun i hi => by simpa using hnew i hi
  obtain ⟨indexes, hinsert, hrows, -⟩ := Table.insert_of_find_none hfree
  exact ⟨_, h.indexed hprevious hindex hinsert, rfl, hrows⟩

/-- Three indexings, with the deletion of the second file before the second of them. -/
def indexings : Except Exn (RepositoryIndex × RepositoryIndex × RepositoryIndex) := do
  let first ← (plainIndexer marked).index "/r" bothFiles none "snap-1"
  let second ← (plainIndexer marked).index "/r" firstFile (some first) "snap-2"
  let third ← (plainIndexer marked).index "/r" firstFile (some second) "snap-3"
  pure (first, second, third)

theorem indexings_ok : ∃ first second third, indexings = .ok (first, second, third) ∧
    second.snapshot.files.map triple = [("a", "a", false), ("b", "b", true)] ∧
    third.snapshot.manifestHash ≠ second.snapshot.manifestHash := by
  have h : indexings.toOption.any (fun indexes =>
      indexes.2.1.snapshot.files.map triple = [("a", "a", false), ("b", "b", true)] ∧
        indexes.2.2.snapshot.manifestHash ≠ indexes.2.1.snapshot.manifestHash) = true := by
    decide +kernel
  cases hindexings : indexings with
  | error e =>
    rw [hindexings] at h
    cases h
  | ok indexes =>
    rw [hindexings] at h
    obtain ⟨hfiles, hhash⟩ := of_decide_eq_true h
    exact ⟨_, _, _, rfl, hfiles, hhash⟩

/-- A file is deleted between two indexings: the second records that, and a third one against it
has another manifest hash, although nothing has changed. -/
theorem drift_detection_deleted : ∃ p w index again,
    Reached (plainIndexer marked) plainCodec p w ∧ index ∈ w.indexes.rows ∧
    (plainIndexer marked).index "/r" w.walk (some index) "snap-3" = .ok again ∧
    again.snapshot.manifestHash ≠ index.snapshot.manifestHash ∧
    ¬ Changed (plainIndexer marked) w index ∧
    (ReportedExactly (plainIndexer marked) w index
      (again.snapshot.manifestHash ≠ index.snapshot.manifestHash) ↔
        Telling (plainIndexer marked) w index) := by
  obtain ⟨first, second, third, hindexings, hfiles, hhash⟩ := indexings_ok
  obtain ⟨i₁, hfirst, hrest⟩ := Security.bind_eq_ok.mp hindexings
  obtain ⟨i₂, hsecond, hrest⟩ := Security.bind_eq_ok.mp hrest
  obtain ⟨i₃, hthird, hrest⟩ := Security.bind_eq_ok.mp hrest
  cases hrest
  have hfresh : Reached (plainIndexer marked) plainCodec (pure ()) (freshSite bothFiles) :=
    .fresh _ _
  obtain ⟨w₁, h₁, hwalk₁, hrows₁⟩ := hfresh.index (by simp) hfirst fun i hi => by cases hi
  have hrows₁ : w₁.indexes.rows = [first] := hrows₁
  obtain ⟨w₂, h₂, hwalk₂, hrows₂⟩ := (h₁.changed firstFile).index
    (by simp [hrows₁]) hsecond fun i hi => by
      rw [hrows₁] at hi
      rw [List.mem_singleton.mp hi, show snapshotIdOf _ = "snap-1" from (index_eq_ok hfirst).1]
      decide
  have hwalk : w₂.walk = firstFile := hwalk₂
  have hmem : second ∈ w₂.indexes.rows := by
    rw [hrows₂]
    exact List.mem_cons_self
  rw [← hwalk] at hthird
  exact ⟨_, w₂, _, _, h₂, hmem, hthird, hhash, not_changed_of_triples hwalk hfiles,
    (drift_detection marked_injective marked_ne h₂).2.1 _ hmem _ _ _ hthird⟩

/-! ### The service over it -/

/-- The digest tells apart what is about files. -/
def fileDigest (text : String) : String :=
  if text.toByteArray.data.toList.head? = some 91 then marked text else "#"

/-- An agent that indexes again where the repository has changed. -/
def reindexingAgent : Agent CheckpointEnvelope :=
  { plainAgent with
    settings := { plainSettings with repositoryDriftPolicy := .REINDEX }
    sha256Digest := fileDigest }

/-- A part of a call leads on, and leaves the repository as it is. -/
theorem Reached.advances {p p' : StoreProg Text Unit} (h : Reached I codec p w)
    (hrun : Advances (siteExec I codec) p w p' w') :
    Reached I codec p' w' ∧ w'.walk = w.walk := by
  induction hrun with
  | refl => exact ⟨h, rfl⟩
  | call hop _ ih =>
    obtain ⟨hreach, hwalk⟩ := ih (h.answered hop)
    refine ⟨hreach, hwalk.trans ?_⟩
    cases siteStep_of_exec hop <;> rfl

/-- A call of the service, under the given identifier. -/
def callSite (call : ServiceCall) (freshId : String) (w : Site CheckpointEnvelope) :
    Site CheckpointEnvelope :=
  ((handleSite (plainIndexer fileDigest) plainCodec).advance (call.program reindexingAgent)
    (List.replicate 200 (plainSupply freshId)) w).2

theorem reached_callSite {p : StoreProg CheckpointEnvelope Unit} {w : Site CheckpointEnvelope}
    (h : Reached (plainIndexer fileDigest) plainCodec p w) (call : ServiceCall) (freshId : String) :
    ∃ p', Reached (plainIndexer fileDigest) plainCodec p' (callSite call freshId w) ∧
      (callSite call freshId w).walk = w.walk :=
  ⟨_, (h.issued reindexingAgent rfl call).advances
    ((Handler.advances _ _ _ _).mono fun _ _ _ _ _ => .inl)⟩

/-! ### Its digests

The digests of checkpoints are those of objects, which are all alike here, so none has to be taken
to follow a run. -/

/-- A digest that is the same for every text. -/
def shortDigest (_ : String) : String := "#"

theorem fileDigest_object (fields : List (String × Json)) :
    fileDigest (canonicalJson (.obj fields)) = shortDigest (canonicalJson (.obj fields)) := by
  have hbrace : "\x7b".toByteArray.data.toList.head? = some 123 := by decide +kernel
  have hhead : (canonicalJson (.obj fields)).toByteArray.data.toList.head? = some 123 := by
    unfold canonicalJson Json.canonical
    simp [hbrace]
  unfold fileDigest
  rw [hhead]
  rfl

theorem digest_short : CheckpointPayload.digest fileDigest =
    CheckpointPayload.digest shortDigest := by
  ext1 payload
  exact fileDigest_object _

theorem chainHash_short :
    CheckpointEnvelope.chainHash fileDigest = CheckpointEnvelope.chainHash shortDigest := by
  ext1 envelope
  exact fileDigest_object _

theorem verified_short (e : CheckpointEnvelope) :
    decide (e.Verified fileDigest) = decide (e.Verified shortDigest) := by
  apply decide_eq_decide.mpr
  unfold CheckpointEnvelope.Verified
  rw [digest_short]

theorem candidates_short :
    Checkpoints.candidates fileDigest = Checkpoints.candidates shortDigest := by
  have hlineage : Checkpoints.lineage fileDigest = Checkpoints.lineage shortDigest := by
    unfold Checkpoints.lineage
    simp only [verified_short, chainHash_short]
  have hrejection : Checkpoints.rejection fileDigest = Checkpoints.rejection shortDigest := by
    unfold Checkpoints.rejection Checkpoints.chainIsValid
    rw [hlineage]
  ext1 parsed
  ext1 index
  ext1 rows
  induction rows generalizing index with
  | nil => rfl
  | cons candidate older ih =>
    ext1 failures
    unfold Checkpoints.candidates
    rw [hrejection]
    split
    · rfl
    · rw [ih]

section Codec

variable (codec : Codec Text)

theorem recoverLatest_short : Checkpoints.recoverLatest codec fileDigest =
    Checkpoints.recoverLatest codec shortDigest := by
  unfold Checkpoints.recoverLatest
  rw [candidates_short]

theorem write_short : Checkpoints.CheckpointManager.write codec fileDigest =
    Checkpoints.CheckpointManager.write codec shortDigest := by
  unfold Checkpoints.CheckpointManager.write Checkpoints.recoverTip CheckpointEnvelope.create
  rw [recoverLatest_short, chainHash_short, digest_short]

theorem appendCheckpoint_short : Checkpoints.appendCheckpoint codec fileDigest =
    Checkpoints.appendCheckpoint codec shortDigest := by
  have hverify : CheckpointEnvelope.verify fileDigest = CheckpointEnvelope.verify shortDigest := by
    unfold CheckpointEnvelope.verify
    rw [digest_short]
  have hread : codec.fromUntrustedJson fileDigest = codec.fromUntrustedJson shortDigest := by
    unfold Codec.fromUntrustedJson
    simp only [verified_short]
  unfold Checkpoints.appendCheckpoint Checkpoints.parentFound
  rw [hverify, hread, chainHash_short]

theorem checkpoints_handle_short {β : Type} (op : Checkpoints.CheckpointOp Text β)
    (t : Checkpoints.Supply) (s : Checkpoints.CheckpointStore Text) :
    Checkpoints.handle codec fileDigest β op t s = Checkpoints.handle codec shortDigest β op t s := by
  cases op with
  | appendCheckpoint envelope expectedSequence =>
    unfold Checkpoints.handle
    rw [appendCheckpoint_short]
  | _ => rfl

theorem handle_short : Store.handle codec fileDigest = Store.handle codec shortDigest := by
  funext β op t s
  unfold Store.handle
  simp only [checkpoints_handle_short]

end Codec

/-- The agent with the short digest. -/
def shortAgent : Agent CheckpointEnvelope := { reindexingAgent with sha256Digest := shortDigest }

theorem writeCheckpoint_short : reindexingAgent.writeCheckpoint = shortAgent.writeCheckpoint := by
  funext run plan tasks known
  exact congrArg (fun write => ofCheckpoint (write reindexingAgent.checkpoints run plan tasks known))
    (write_short plainCodec)

theorem resumeFrom_short : reindexingAgent.resumeFrom = shortAgent.resumeFrom := by
  funext lease run checkpoint
  unfold Agent.resumeFrom
  rw [writeCheckpoint_short]
  rfl

theorem resume_short : reindexingAgent.resume = shortAgent.resume := by
  have hheld : reindexingAgent.resumeHeld = shortAgent.resumeHeld := by
    have hrecover : Checkpoints.recoverLatest reindexingAgent.codec reindexingAgent.sha256Digest =
        Checkpoints.recoverLatest shortAgent.codec shortAgent.sha256Digest :=
      recoverLatest_short plainCodec
    funext runId lease
    unfold Agent.resumeHeld
    rw [resumeFrom_short, hrecover]
  funext runId workerId
  unfold Agent.resume
  rw [hheld]
  rfl

/-- The calls over the store's own handler. -/
def siteOver (I : LocalRepositoryIndexer)
    (store : Handler (StoreOp CheckpointEnvelope) Exn Supply (StoreState CheckpointEnvelope)) :
    Handler (StoreOp CheckpointEnvelope) Exn Supply (Site CheckpointEnvelope)
  | _, .sql (.indexRepository root previous), t, w => w.indexRepository I root previous t.freshId
  | _, .sql (.saveRepositoryIndex snapshotId), _, w => w.saveRepositoryIndex snapshotId
  | _, .sql (.getRepositoryIndex snapshotId), _, w =>
    ((w.getRepositoryIndex snapshotId).map snapshotIdOf, w)
  | _, .checkpoint (.getRepositoryIndex snapshotId), _, w =>
    ((w.getRepositoryIndex snapshotId).map fun index => index.snapshot.manifestHash, w)
  | _, op, t, w =>
    let (x, changed) := store _ op t w.store
    (x, { w with store := changed })

theorem handleSite_short : handleSite (plainIndexer fileDigest) plainCodec =
    siteOver (plainIndexer fileDigest) (Store.handle plainCodec shortDigest) := by
  rw [← handle_short plainCodec]
  funext β op t w
  cases op with
  | sql op => cases op <;> rfl
  | checkpoint op => cases op <;> rfl
  | lease op => rfl
  | tools op => rfl

/-- A resume of the service, with the recovery as a part. -/
def resumeWith (recover : String → String → StoreProg CheckpointEnvelope RecoveryResult) :
    StoreProg CheckpointEnvelope RunAdvanceResult := do
  let run ← ownedRun "run-r" "owner"
  let replay ← reindexingAgent.isReplay "run-r" "owner" (some 0) none
  if replay ∧ run.state ≠ .PAUSED ∧ run.state ≠ .RECOVERING then currentResult run
  else do
    let workerId ← newWorkerId "owner"
    Prog.tryCatch (do
      let _ ← recover "run-r" workerId
      reindexingAgent.advance "run-r" workerId (some 0)) (replayConflict "run-r" "owner" replay)

theorem program_resume : (ServiceCall.resume "run-r" "owner" (some 0) none).program reindexingAgent =
    (resumeWith shortAgent.resume).bind fun _ => pure () := by
  rw [← resume_short]
  rfl

theorem callSite_resume (w : Site CheckpointEnvelope) :
    callSite (.resume "run-r" "owner" (some 0) none) "s" w =
      ((siteOver (plainIndexer fileDigest) (Store.handle plainCodec shortDigest)).advance
        ((resumeWith shortAgent.resume).bind fun _ => pure ())
          (List.replicate 200 (plainSupply "s")) w).2 := by
  unfold callSite
  rw [program_resume, handleSite_short]

theorem callSite_create (w : Site CheckpointEnvelope) :
    callSite (.createRun "objective" "owner" "key" none) "r" w =
      ((siteOver (plainIndexer fileDigest) (Store.handle plainCodec shortDigest)).advance
        ((ServiceCall.createRun "objective" "owner" "key" none).program reindexingAgent)
          (List.replicate 200 (plainSupply "r")) w).2 := by
  unfold callSite
  rw [handleSite_short]

/-- A run is created, the second file is deleted, and the run is resumed. -/
def resumedSite : Site CheckpointEnvelope :=
  callSite (.resume "run-r" "owner" (some 0) none) "s"
    { callSite (.createRun "objective" "owner" "key" none) "r" (freshSite bothFiles) with
      walk := firstFile }

/-- The resume reports drift since the index. -/
def reportsSince (snapshotId : String) : Except Exn RecoveryResult → Bool
  | .ok result => result.repositoryDrifted ∧
      result.checkpoint.payload.repositorySnapshotId = some snapshotId
  | .error _ => false

theorem resumedSite_resume : (∃ index ∈ resumedSite.indexes.rows, snapshotIdOf index = "snap-s" ∧
      index.snapshot.files.map triple = [("a", "a", false), ("b", "b", true)]) ∧
    ((handleSite (plainIndexer fileDigest) plainCodec).play
      (reindexingAgent.resume "run-r" "worker") (List.replicate 100 (plainSupply "t"))
      resumedSite).any (fun x => reportsSince "snap-s" x.1) = true := by
  rw [show resumedSite = _ from callSite_resume _, callSite_create, resume_short, handleSite_short]
  decide +kernel

/-- The next resume reports drift although nothing has changed since the first one. -/
theorem drift_detection_repeated : ∃ p w result w' index,
    Reached (plainIndexer fileDigest) plainCodec p w ∧
    Runs (siteExec (plainIndexer fileDigest) plainCodec) (reindexingAgent.resume "run-r" "worker") w
      (.ok result) w' ∧
    index ∈ w.indexes.rows ∧
    result.checkpoint.payload.repositorySnapshotId = some (snapshotIdOf index) ∧
    result.repositoryDrifted = true ∧ ¬ Changed (plainIndexer fileDigest) w index := by
  obtain ⟨⟨index, hindex, hid, hfiles⟩, hresume⟩ := resumedSite_resume
  have hfresh : Reached (plainIndexer fileDigest) plainCodec (pure ()) (freshSite bothFiles) :=
    .fresh _ _
  obtain ⟨p₁, h₁, -⟩ := reached_callSite hfresh (.createRun "objective" "owner" "key" none) "r"
  obtain ⟨p₂, h₂, hwalk⟩ := reached_callSite (h₁.changed firstFile)
    (.resume "run-r" "owner" (some 0) none) "s"
  obtain ⟨⟨r, w'⟩, hplay, hreports⟩ := Option.any_eq_true _ _ |>.mp hresume
  cases r with
  | error e => cases hreports
  | ok result =>
    obtain ⟨hdrifted, hsnapshot⟩ := of_decide_eq_true hreports
    have hrun := (Handler.play_runs _ hplay).withFaults
    exact ⟨p₂, resumedSite, result, w', index, h₂, hrun, hindex, by rw [hid]; exact hsnapshot,
      hdrifted, not_changed_of_triples hwalk hfiles⟩

end DurableAgent.Orchestration
