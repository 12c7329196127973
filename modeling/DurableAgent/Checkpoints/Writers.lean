import DurableAgent.Checkpoints.Chains
import DurableAgent.Checkpoints.WriteThenRecover
import DurableAgent.Domain.Commitment
import DurableAgent.Library.History

/-!
# Concurrent writers of one run

A write lists the rows to find its parent and reads the tip in another transaction. Where no other
envelope is appended between the two, the envelopes of a run are an unbroken chain, however the
writers interleave.
-/

namespace DurableAgent.Checkpoints

open Library Library.Prog

variable {Text ι : Type} {codec : Codec Text} {sha256Digest : String → String} {runId : String}
  {retain : Nat} {e : CheckpointEnvelope}

/-! ## What is known of the writers -/

/-- The tip that each writer saw when it last listed the rows, the writers that have appended and
have not pruned since, and the envelopes that were appended, newest first. -/
structure WriterLog (ι : Type) where
  seen : ι → Nat := fun _ => 0
  owes : ι → Bool := fun _ => false
  appended : List CheckpointEnvelope := []

/-- The rows are the newest of an unbroken chain; more of them than are to be retained are there
only while some writer has yet to prune. -/
def Racing (codec : Codec Text) (sha256Digest : String → String) (runId : String) (retain : Nat)
    (s : CheckpointStore Text × WriterLog ι) : Prop :=
  ∃ kept, Keeps codec sha256Digest runId s.1.rows s.2.appended kept ∧
    min s.2.appended.length retain ≤ kept ∧ (retain < kept → ∃ i, s.2.owes i = true)

/-- A writer adds to what was appended, and nobody else changes what is known of it. -/
def writing (codec : Codec Text) (sha256Digest : String → String) (runId : String) (retain : Nat)
    (i : ι) : Contract (CheckpointOp Text) (CheckpointStore Text × WriterLog ι) where
  inv := Racing codec sha256Digest runId retain
  rely s s' := s.2.appended <:+ s'.2.appended ∧ s'.2.seen i = s.2.seen i ∧ s'.2.owes i = s.2.owes i
  guar s s' := s.2.appended <:+ s'.2.appended ∧
    ∀ j, j ≠ i → s'.2.seen j = s.2.seen j ∧ s'.2.owes j = s.2.owes j
  pre _ _ _ := True
  refl _ := ⟨List.suffix_rfl, rfl, rfl⟩
  trans h h' := ⟨h.1.trans h'.1, h'.2.1.trans h.2.1, h'.2.2.trans h.2.2⟩

theorem compatible_writing : Compatible fun i : ι =>
    writing codec sha256Digest runId retain i where
  inv _ _ _ h := h
  rely _ j _ _ hne h _ := ⟨h.1, h.2 j (Ne.symm hne)⟩

/-- The digest belongs to the envelope that was the tip when the writer last listed the rows. -/
def SawParent (sha256Digest : String → String) (i : ι) (parent : Option String)
    (s : CheckpointStore Text × WriterLog ι) : Prop :=
  (s.2.seen i = 0 ∧ parent = none) ∨ ∃ e ∈ s.2.appended, e.sequence = s.2.seen i ∧
    parent = some (e.chainHash sha256Digest)

theorem SawParent.stable {i : ι} {parent : Option String}
    {s s' : CheckpointStore Text × WriterLog ι} (h : SawParent sha256Digest i parent s)
    (hsuffix : s.2.appended <:+ s'.2.appended) (hseen : s'.2.seen i = s.2.seen i) :
    SawParent sha256Digest i parent s' := by
  unfold SawParent
  rw [hseen]
  exact h.imp_right fun ⟨e, he, hsequence⟩ => ⟨e, hsuffix.subset he, hsequence⟩

variable [DecidableEq ι]

/-- The log after an answered call of a writer of the run. -/
def noteWriter (runId : String) (i : ι) : Note (CheckpointOp Text) Exn (CheckpointStore Text)
    (WriterLog ι)
  | _, .listCheckpointJson _, _, s, l =>
    { l with seen := Function.update l.seen i (tipSequence s.rows runId) }
  | _, .appendCheckpoint e _, .ok _, _, l =>
    { l with appended := e :: l.appended, owes := Function.update l.owes i true }
  | _, .pruneCheckpoints _ _, .ok _, _, l => { l with owes := Function.update l.owes i false }
  | _, _, _, _, l => l

/-- The envelope that a call appends, with the tip that it expects. -/
def appendOf : (β : Type) → CheckpointOp Text β → Option (CheckpointEnvelope × Nat)
  | _, .appendCheckpoint e expectedSequence => some (e, expectedSequence)
  | _, _ => none

/-- An append that finds the tip that it expects found it already when its writer last listed the
rows. -/
def SawTip (i : ι) (β : Type) (op : CheckpointOp Text β) (s : CheckpointStore Text × WriterLog ι) :
    Prop :=
  ∀ append ∈ appendOf β op, tipSequence s.1.rows append.1.runId = append.2 →
    s.2.seen i = append.2

instance (i : ι) (β : Type) (op : CheckpointOp Text β) (s : CheckpointStore Text × WriterLog ι) :
    Decidable (SawTip i β op s) :=
  inferInstanceAs (Decidable (∀ _ ∈ _, _ → _))

abbrev writerHandle (codec : Codec Text) (sha256Digest : String → String) (runId : String)
    (i : ι) : Handler (CheckpointOp Text) Exn Supply (CheckpointStore Text × WriterLog ι) :=
  (handle codec sha256Digest).recorded (noteWriter runId i)

abbrev sawTipExec (codec : Codec Text) (sha256Digest : String → String) (runId : String) (i : ι) :
    Exec (CheckpointOp Text) Exn (CheckpointStore Text × WriterLog ι) :=
  (writerHandle codec sha256Digest runId i).exec.guard (SawTip i)

/-- One call of `write`, with what its caller passes on. -/
structure WriteCall where
  run : RunRecord
  plan : PlanSpec
  tasks : List TaskRecord
  known : Known

/-- The writers before their first steps. -/
def writersPool (codec : Codec Text) (sha256Digest : String → String) (manager : CheckpointManager)
    (calls : ι → WriteCall) (s : CheckpointStore Text) :
    Pool (CheckpointOp Text) Exn (CheckpointStore Text × WriterLog ι) ι :=
  ⟨fun i => do
    let _ ← manager.write codec sha256Digest (calls i).run (calls i).plan (calls i).tasks
      (calls i).known, s, {}⟩

/-! ## The calls of a writer -/

variable {i : ι} {s s' : CheckpointStore Text × WriterLog ι}

omit [DecidableEq ι] in
theorem Racing.congr (h : Racing codec sha256Digest runId retain s) (hrows : s'.1.rows = s.1.rows)
    (happended : s'.2.appended = s.2.appended) (howes : s'.2.owes = s.2.owes) :
    Racing codec sha256Digest runId retain s' := by
  unfold Racing
  rw [hrows, happended, howes]
  exact h

theorem idle_step {β : Type} {op : CheckpointOp Text β} {x : Except Exn β} (hop : Idle β op)
    (h : sawTipExec codec sha256Digest runId i β op s x s') :
    s'.1.rows = s.1.rows ∧ s'.2 = s.2 ∧ ∃ a, x = .ok a := by
  obtain ⟨-, t, h⟩ := h
  obtain ⟨rfl, rfl⟩ := Prod.mk.inj h
  cases op <;> first | exact hop.elim | exact ⟨rfl, rfl, _, rfl⟩

/-- What the others do not destroy is known still after idle calls. -/
theorem meets_idle {α : Type} {p : Prog (CheckpointOp Text) Exn α}
    {K : CheckpointStore Text × WriterLog ι → Prop}
    (hK : ∀ s s', (writing codec sha256Digest runId retain i).rely s s' → K s → K s')
    (hp : p.Calls (@Idle Text)) (hs : K s) :
    (writing codec sha256Digest runId retain i).Meets (sawTipExec codec sha256Digest runId i) p
      (fun _ s' => K s') s := by
  refine Contract.Meets.of_quiet (fun s s' hrely _ => hK s s' hrely) hp hs
    fun β op s hop hinv _ => ⟨trivial, fun x s' h => ?_⟩
  obtain ⟨hrows, hlog, -⟩ := idle_step hop h
  have hinv' : Racing codec sha256Digest runId retain s' :=
    Racing.congr hinv hrows (by rw [hlog]) (by rw [hlog])
  refine ⟨⟨?_, fun j _ => ?_⟩, ⟨?_, ?_, ?_⟩, hinv'⟩
  · rw [hlog]
  · rw [hlog]
    exact ⟨rfl, rfl⟩
  · rw [hlog]
  · rw [hlog]
  · rw [hlog]

/-- A listing, and what follows it. -/
theorem meets_listing {α : Type} {k : Except Exn (List Text) → Prog (CheckpointOp Text) Exn α}
    {Q : Except Exn α → CheckpointStore Text × WriterLog ι → Prop} {owes : Bool}
    (howes : s.2.owes i = owes)
    (hk : ∀ s', Racing codec sha256Digest runId retain s' → s'.2.owes i = owes →
      s'.2.seen i = tipSequence s'.1.rows runId →
      (writing codec sha256Digest runId retain i).Meets (sawTipExec codec sha256Digest runId i)
        (k (.ok ((rowsOf s'.1.rows runId).map CheckpointRow.envelopeJson))) Q s') :
    (writing codec sha256Digest runId retain i).Meets (sawTipExec codec sha256Digest runId i)
      (.call (.listCheckpointJson runId) k) Q s := by
  refine Contract.Meets.step (K := fun s => s.2.owes i = owes)
    (fun s s' hrely _ h => hrely.2.2.trans h) howes fun s₁ hinv₁ howes₁ => ⟨trivial, ?_⟩
  rintro x s₂ ⟨-, t, h⟩
  obtain ⟨rfl, rfl⟩ := Prod.mk.inj h
  have hinv₂ : Racing codec sha256Digest runId retain
      (s₁.1, { s₁.2 with seen := Function.update s₁.2.seen i (tipSequence s₁.1.rows runId) }) :=
    Racing.congr hinv₁ rfl rfl rfl
  refine ⟨⟨List.suffix_rfl, fun j hj => ⟨?_, rfl⟩⟩, hinv₂, hk _ hinv₂ howes₁ ?_⟩
  · exact Function.update_of_ne hj _ _
  · exact Function.update_self _ _ _

omit [DecidableEq ι] in
/-- The newest envelope of the rows is the last one that was appended. -/
theorem Racing.newest (h : Racing codec sha256Digest runId retain s)
    (he : newestOf codec sha256Digest s.1.rows runId = some e) :
    e ∈ s.2.appended ∧ e.sequence = tipSequence s.1.rows runId := by
  obtain ⟨kept, hkeeps, -⟩ := h
  rw [hkeeps.newestOf_eq] at he
  have hunbroken := hkeeps.unbroken
  rw [hkeeps.tipSequence_eq]
  cases happended : s.2.appended with
  | nil =>
    rw [happended] at he
    cases he
  | cons newest older =>
    rw [happended] at he hunbroken
    obtain rfl := Option.some.inj he
    exact ⟨List.mem_cons_self, hunbroken.2.2.1⟩

/-! ## A writer -/

/-- What `recover_latest` answers is the tip that the writer saw. -/
theorem meets_recoverLatest {owes : Bool} (howes : s.2.owes i = owes) :
    (writing codec sha256Digest runId retain i).Meets (sawTipExec codec sha256Digest runId i)
      (recoverLatest codec sha256Digest runId)
      (fun r s' => s'.2.owes i = owes ∧ ∀ e, r = .ok e →
        e ∈ s'.2.appended ∧ e.sequence = s'.2.seen i) s := by
  have hstable {s s' : CheckpointStore Text × WriterLog ι}
      (hrely : (writing codec sha256Digest runId retain i).rely s s') (h : s.2.owes i = owes) :
      s'.2.owes i = owes := hrely.2.2.trans h
  unfold recoverLatest
  refine meets_listing howes fun s₁ hinv₁ howes₁ hseen₁ => ?_
  change Contract.Meets _ _ (if List.isEmpty _ = true then _ else _) _ _
  split
  · exact fun s₂ hrely _ => ⟨hstable hrely howes₁, fun e he => by cases he⟩
  · have hparsed : ((rowsOf s₁.1.rows runId).map CheckpointRow.envelopeJson).map
        codec.modelValidateJson = parsedRows codec s₁.1.rows runId := List.map_map
    rw [hparsed]
    have hnewest := @candidates_newestOf Text codec sha256Digest s₁.1.rows runId
    cases hc : (candidates sha256Digest (parsedRows codec s₁.1.rows runId) 0
      (parsedRows codec s₁.1.rows runId) []).2 with
    | none =>
      refine Contract.Meets.bind (meets_idle (fun _ _ => hstable) (calls_perform.mpr trivial) howes₁)
        (fun _ s₂ _ howes₂ => ?_) fun _ s₂ _ howes₂ => ⟨howes₂, fun e he => by cases he⟩
      exact fun s₃ hrely _ => ⟨hstable hrely howes₂, fun e he => by cases he⟩
    | some e =>
      rw [hc] at hnewest
      obtain ⟨hmem, hsequence⟩ := hinv₁.newest hnewest.symm
      let K (s : CheckpointStore Text × WriterLog ι) : Prop :=
        s.2.owes i = owes ∧ e ∈ s.2.appended ∧ e.sequence = s.2.seen i
      have hK (s s' : CheckpointStore Text × WriterLog ι)
          (hrely : (writing codec sha256Digest runId retain i).rely s s') (h : K s) : K s' :=
        ⟨hstable hrely h.1, hrely.1.subset h.2.1, h.2.2.trans hrely.2.1.symm⟩
      have hK₁ : K s₁ := ⟨howes₁, hmem, hsequence.trans hseen₁.symm⟩
      have hpure {s : CheckpointStore Text × WriterLog ι} (h : K s) :
          (writing codec sha256Digest runId retain i).Meets
            (sawTipExec codec sha256Digest runId i)
            (pure e : Prog (CheckpointOp Text) Exn CheckpointEnvelope)
            (fun r s' => s'.2.owes i = owes ∧ ∀ e, r = .ok e →
              e ∈ s'.2.appended ∧ e.sequence = s'.2.seen i) s := by
        intro s₂ hrely _
        obtain ⟨howes₂, hmem₂⟩ := hK _ _ hrely h
        exact ⟨howes₂, fun e' he' => by rwa [← Except.ok.inj he']⟩
      dsimp only
      split
      · exact hpure hK₁
      · refine Contract.Meets.bind (meets_idle hK (calls_perform.mpr trivial) hK₁)
          (fun _ s₂ _ h => hpure h) fun _ s₂ _ h => ⟨h.1, fun e he => by cases he⟩

/-- The parent that a writer names is the tip that it saw. -/
theorem meets_recoverTip {owes : Bool} (howes : s.2.owes i = owes) :
    (writing codec sha256Digest runId retain i).Meets (sawTipExec codec sha256Digest runId i)
      (recoverTip codec sha256Digest runId)
      (fun r s' => s'.2.owes i = owes ∧ ∀ expected parent, r = .ok (expected, parent) →
        SawParent sha256Digest i parent s') s := by
  have hstable {s s' : CheckpointStore Text × WriterLog ι}
      (hrely : (writing codec sha256Digest runId retain i).rely s s') (h : s.2.owes i = owes) :
      s'.2.owes i = owes := hrely.2.2.trans h
  unfold recoverTip
  refine meets_listing howes fun s₁ hinv₁ howes₁ hseen₁ => ?_
  change Contract.Meets _ _ (if List.isEmpty _ = true then _ else _) _ _
  split
  · next hempty =>
    have hrows : rowsOf s₁.1.rows runId = [] := by simpa using hempty
    have hsaw : SawParent sha256Digest i none s₁ := by
      left
      rw [hseen₁, tipSequence, hrows]
      exact ⟨rfl, rfl⟩
    intro s₂ hrely _
    refine ⟨hstable hrely howes₁, fun expected parent hr => ?_⟩
    obtain ⟨-, rfl⟩ := Prod.mk.inj (Except.ok.inj hr)
    exact hsaw.stable hrely.1 hrely.2.1
  · refine Contract.Meets.bind (meets_recoverLatest howes₁) (fun latest s₂ _ h => ?_)
      fun _ s₂ _ h => ⟨h.1, fun _ _ hr => by cases hr⟩
    obtain ⟨hmem, hsequence⟩ := h.2 latest rfl
    let parent := some (latest.chainHash sha256Digest)
    let K (s : CheckpointStore Text × WriterLog ι) : Prop :=
      s.2.owes i = owes ∧ SawParent sha256Digest i parent s
    have hK (s s' : CheckpointStore Text × WriterLog ι)
        (hrely : (writing codec sha256Digest runId retain i).rely s s') (h : K s) : K s' :=
      ⟨hstable hrely h.1, h.2.stable hrely.1 hrely.2.1⟩
    have hK₂ : K s₂ := ⟨h.1, .inr ⟨latest, hmem, hsequence, rfl⟩⟩
    refine Contract.Meets.bind (meets_idle hK (calls_perform.mpr trivial) hK₂)
      (fun tip s₃ _ h => ?_) fun _ s₃ _ h => ⟨h.1, fun _ _ hr => by cases hr⟩
    intro s₄ hrely _
    obtain ⟨howes₄, hsaw⟩ := hK _ _ hrely h
    refine ⟨howes₄, fun expected parent' hr => ?_⟩
    obtain ⟨-, rfl⟩ := Prod.mk.inj (Except.ok.inj hr)
    exact hsaw

omit [DecidableEq ι] in
/-- An envelope whose parent was seen as the tip that it is appended to continues the chain. -/
theorem Racing.append (h : Racing codec sha256Digest runId retain s) {expected : Nat}
    (hrun : e.runId = runId) (hverified : e.Verified sha256Digest)
    (hsequence : e.sequence = expected + 1) (htip : tipSequence s.1.rows runId = expected)
    (hseen : s.2.seen i = expected) (hsaw : SawParent sha256Digest i e.parentHash s) :
    ∃ kept, Keeps codec sha256Digest runId (stored codec e :: s.1.rows) (e :: s.2.appended) kept ∧
      min (s.2.appended.length + 1) retain ≤ kept := by
  obtain ⟨kept, hkeeps, hmin, -⟩ := h
  rw [hkeeps.tipSequence_eq] at htip
  have hparent : e.parentHash =
      s.2.appended.head?.map (CheckpointEnvelope.chainHash sha256Digest) := by
    rcases hsaw with ⟨hzero, hnone⟩ | ⟨parent, hmem, hparent, hhash⟩
    · have hempty : s.2.appended = [] := by
        rw [← List.length_eq_zero_iff, htip, ← hseen, hzero]
      rw [hnone, hempty]
      rfl
    · rw [hkeeps.unbroken.head hmem (by rw [hparent, hseen, htip]), hhash]
      rfl
  refine ⟨kept + 1, hkeeps.append hrun hverified (by rw [hsequence, htip]) hparent, ?_⟩
  omega

/-- What follows an append: the writer reports it and prunes. -/
theorem meets_afterAppend {manager : CheckpointManager} {event : Event}
    (hretain : manager.retentionCount = retain) :
    (writing codec sha256Digest runId retain i).Meets (sawTipExec codec sha256Digest runId i)
      (do
        perform (.publish event)
        let _ ← perform (.pruneCheckpoints runId manager.retentionCount)
        pure e)
      (fun _ s' => s'.2.owes i = false) s := by
  refine Contract.Meets.step (K := fun _ => True) (fun _ _ _ _ _ => trivial) trivial
    fun s₁ hinv₁ _ => ⟨trivial, fun x s₂ h => ?_⟩
  obtain ⟨hrows, hlog, a, rfl⟩ := idle_step (by trivial) h
  have hinv₂ : Racing codec sha256Digest runId retain s₂ :=
    Racing.congr hinv₁ hrows (by rw [hlog]) (by rw [hlog])
  refine ⟨⟨by rw [hlog], fun j _ => by rw [hlog]; exact ⟨rfl, rfl⟩⟩, hinv₂, ?_⟩
  refine Contract.Meets.step (K := fun _ => True) (fun _ _ _ _ _ => trivial) trivial
    fun s₃ hinv₃ _ => ⟨trivial, ?_⟩
  rintro x s₄ ⟨-, t, h⟩
  have hbound : ¬ manager.retentionCount < 2 := Nat.not_lt.mpr manager.retention_at_least_two
  simp only [writerHandle, Handler.recorded, handle, if_neg hbound] at h
  obtain ⟨rfl, rfl⟩ := Prod.mk.inj h
  obtain ⟨kept, hkeeps, hmin, -⟩ := hinv₃
  refine ⟨⟨List.suffix_rfl, fun j hj => ⟨rfl, Function.update_of_ne hj _ _⟩⟩, ?_, ?_⟩
  · rw [hretain]
    refine ⟨min kept retain, hkeeps.prune (hretain ▸ manager.retention_at_least_two), ?_, ?_⟩
    · exact le_min hmin (Nat.min_le_right _ _)
    · intro hlt
      exact absurd (Nat.min_le_right kept retain) (Nat.not_le.mpr hlt)
  · intro s₅ hrely _
    exact hrely.2.2.trans (Function.update_self _ _ _)

/-- A write leaves nothing to prune behind. -/
theorem meets_write {manager : CheckpointManager} {call : WriteCall}
    (hretain : manager.retentionCount = retain) (hrun : call.run.runId = runId)
    (howes : s.2.owes i = false) :
    (writing codec sha256Digest runId retain i).Meets (sawTipExec codec sha256Digest runId i)
      (manager.write codec sha256Digest call.run call.plan call.tasks call.known)
      (fun _ s' => s'.2.owes i = false) s := by
  have howesStable (s s' : CheckpointStore Text × WriterLog ι)
      (hrely : (writing codec sha256Digest runId retain i).rely s s') (h : s.2.owes i = false) :
      s'.2.owes i = false := hrely.2.2.trans h
  unfold CheckpointManager.write
  refine Contract.Meets.bind (meets_idle howesStable gatherReferences_calls howes)
    (fun references s₁ _ howes₁ => ?_) fun _ _ _ h => h
  rw [hrun]
  refine Contract.Meets.bind (meets_recoverTip howes₁) (fun tip s₂ _ h => ?_) fun _ _ _ h => h.1
  obtain ⟨expected, parent⟩ := tip
  let K (s : CheckpointStore Text × WriterLog ι) : Prop :=
    s.2.owes i = false ∧ SawParent sha256Digest i parent s
  have hK (s s' : CheckpointStore Text × WriterLog ι)
      (hrely : (writing codec sha256Digest runId retain i).rely s s') (h : K s) : K s' :=
    ⟨howesStable s s' hrely h.1, h.2.stable hrely.1 hrely.2.1⟩
  have hK₂ : K s₂ := ⟨h.1, h.2 expected parent rfl⟩
  refine Contract.Meets.bind (meets_idle hK (calls_perform.mpr trivial) hK₂)
    (fun checkpointId s₃ _ hK₃ => ?_) fun _ _ _ h => h.1
  refine Contract.Meets.bind (meets_idle hK (calls_perform.mpr trivial) hK₃)
    (fun createdAt s₄ _ hK₄ => ?_) fun _ _ _ h => h.1
  dsimp only
  generalize henvelope : CheckpointEnvelope.create sha256Digest checkpointId (expected + 1) _ _
    parent createdAt = envelope
  have hrun' : envelope.runId = runId := by
    rw [← henvelope, ← hrun]
    rfl
  have hverified : envelope.Verified sha256Digest := by
    rw [← henvelope]
    exact CheckpointEnvelope.create_verified
  have hsequence : envelope.sequence = expected + 1 := by
    rw [← henvelope]
    rfl
  have hparent : envelope.parentHash = parent := by
    rw [← henvelope]
    rfl
  refine Contract.Meets.step (fun s s' hrely _ => hK s s' hrely) hK₄
    fun s₅ hinv₅ hK₅ => ⟨trivial, ?_⟩
  rintro x s₆ ⟨hsawTip, t, h⟩
  simp only [writerHandle, Handler.recorded, handle] at h
  cases happend : appendCheckpoint codec sha256Digest envelope expected s₅.1.rows with
  | error err =>
    rw [happend] at h
    obtain ⟨rfl, rfl⟩ := Prod.mk.inj h
    refine ⟨⟨List.suffix_rfl, fun j _ => ⟨rfl, rfl⟩⟩, hinv₅, ?_⟩
    exact fun s₇ hrely _ => howesStable _ _ hrely hK₅.1
  | ok rows =>
    rw [happend] at h
    obtain ⟨rfl, rfl⟩ := Prod.mk.inj h
    obtain ⟨htip, rfl⟩ := appendCheckpoint_eq_ok happend
    have hseen : s₅.2.seen i = expected := hsawTip _ rfl htip
    rw [hrun'] at htip
    obtain ⟨kept, hkeeps, hmin⟩ := Racing.append hinv₅ hrun' hverified hsequence htip hseen
      (hparent ▸ hK₅.2)
    refine ⟨⟨List.suffix_cons _ _, fun j hj => ⟨rfl, Function.update_of_ne hj _ _⟩⟩, ?_,
      meets_afterAppend hretain⟩
    exact ⟨kept, hkeeps, hmin, fun _ => ⟨i, Function.update_self _ _ _⟩⟩

/-! ## Every interleaving -/

/-- Along every interleaving of writes of one run in which every append that finds the tip that it
expects found it already when its writer last listed the rows: the sequences that were appended
are the first numbers, each once; every envelope names the one before it; the rows are the newest
of them, as many as are retained at least, and exactly those once all writes have ended; and the
newest is what recovery answers. -/
theorem writers_chain {manager : CheckpointManager} {calls : ι → WriteCall}
    {start : CheckpointStore Text}
    {P : Pool (CheckpointOp Text) Exn (CheckpointStore Text × WriterLog ι) ι}
    (hruns : ∀ i, (calls i).run.runId = runId) (hstart : Reachable codec sha256Digest start)
    (hempty : rowsOf start.rows runId = [])
    (hreach : ThreadRuns (sawTipExec codec sha256Digest runId)
      (writersPool codec sha256Digest manager calls start) P) :
    P.shared.2.appended.map CheckpointEnvelope.sequence =
      (List.range' 1 P.shared.2.appended.length).reverse ∧
    Unbroken sha256Digest runId P.shared.2.appended ∧
    (∃ kept, min P.shared.2.appended.length manager.retentionCount ≤ kept ∧
      rowsOf P.shared.1.rows runId = (P.shared.2.appended.take kept).map (stored codec)) ∧
    ((∀ i, ∃ r, P.threads i = .done r) → rowsOf P.shared.1.rows runId =
      (P.shared.2.appended.take manager.retentionCount).map (stored codec)) ∧
    ∀ e ∈ P.shared.2.appended.head?,
      Returns (handle codec sha256Digest).exec (recoverLatest codec sha256Digest runId)
        P.shared.1 (.ok e) := by
  let C (i : ι) := writing codec sha256Digest runId manager.retentionCount i
  have hracing : Racing codec sha256Digest runId manager.retentionCount
      (start, ({} : WriterLog ι)) := by
    refine ⟨0, ⟨hstart.ordered, trivial, ?_, Nat.le_refl 0, ?_⟩, Nat.zero_le _, ?_⟩
    · simpa using hempty
    · exact fun h => absurd rfl h
    · exact fun h => absurd h (Nat.not_lt_zero _)
  have hmeets : PoolMeets C (sawTipExec codec sha256Digest runId)
      (fun i _ s => s.2.owes i = false) (writersPool codec sha256Digest manager calls start) := by
    refine fun i => ⟨hracing, ?_⟩
    refine Contract.Meets.bind (meets_write rfl (hruns i) rfl) (fun _ s _ howes => ?_)
      fun _ _ _ h => h
    exact fun s' hrely _ => hrely.2.2.trans howes
  have hinv : Racing codec sha256Digest runId manager.retentionCount P.shared ∧
      PoolMeets C (sawTipExec codec sha256Digest runId) (fun i _ s => s.2.owes i = false) P := by
    refine ⟨?_, hmeets.runs compatible_writing hreach⟩
    rcases Relation.ReflTransGen.cases_tail hreach with rfl | ⟨_, _, i, _⟩
    · exact hracing
    · exact (hmeets.runs compatible_writing hreach i).1
  obtain ⟨⟨kept, hkeeps, hmin, howed⟩, hended⟩ := hinv
  refine ⟨hkeeps.unbroken.sequences, hkeeps.unbroken, ⟨kept, hmin, hkeeps.rows_eq⟩,
    fun hdone => ?_, fun e he => ?_⟩
  · have hle : kept ≤ manager.retentionCount := by
      by_contra hlt
      obtain ⟨i, hi⟩ := howed (Nat.lt_of_not_le hlt)
      obtain ⟨r, hr⟩ := hdone i
      have hpruned : P.shared.2.owes i = false := hended.ended hr
      rw [hpruned] at hi
      cases hi
    have hbound := hkeeps.kept_le
    have htake : P.shared.2.appended.take kept =
        P.shared.2.appended.take manager.retentionCount := by
      have hkept : kept = manager.retentionCount ∨ kept = P.shared.2.appended.length := by omega
      rcases hkept with h | h
      · rw [h]
      · rw [List.take_of_length_le (by omega), List.take_of_length_le (by omega)]
    rw [hkeeps.rows_eq, htake]
  · have hanswer := @recoverLatest_returns Text codec sha256Digest P.shared.1 runId
    have hrecovered : recovered codec sha256Digest P.shared.1.rows runId = .ok e := by
      rw [recovered_eq_ok, hkeeps.newestOf_eq]
      exact he
    rwa [hrecovered] at hanswer

/-! ## Racing writers -/

def sampleCall : WriteCall := ⟨sampleRun "run", samplePlan "run", [sampleRecord "run"], {}⟩

/-- Turns of one writer, under the given identifier. -/
def writerTurns (i : Nat) (freshId : String) (turns : Nat) : List (Nat × Supply) :=
  List.replicate turns (i, { (default : Supply) with freshId := freshId })

/-- The writers of the sample call, with one digest for all texts. -/
def samplePool : Pool (CheckpointOp StoredText) Exn (CheckpointStore StoredText × WriterLog Nat) Nat :=
  writersPool documentCodec (fun _ => "") sampleManager (fun _ => sampleCall) ⟨[], []⟩

/-- A writer finds no rows, and another one writes before it appends: the first is refused, and a
third one goes on with the chain. -/
theorem writers_chain_refused : ∃ P,
    ThreadRuns (sawTipExec documentCodec (fun _ => "") "run") samplePool P ∧
    P.shared.2.appended.map CheckpointEnvelope.sequence = [2, 1] ∧
    Unbroken (fun _ => "") "run" P.shared.2.appended := by
  have hreach := Pool.playEach_guarded (writerHandle documentCodec (fun _ => "") "run") SawTip
    (writerTurns 0 "1" 6 ++ writerTurns 1 "2" 11 ++ writerTurns 0 "1" 3 ++ writerTurns 2 "3" 13)
    samplePool (by decide +kernel)
  have hchain := @writers_chain StoredText Nat documentCodec (fun _ => "") "run" _ sampleManager
    (fun _ => sampleCall) ⟨[], []⟩ _ (fun _ => rfl) .refl rfl hreach
  exact ⟨_, hreach, by decide +kernel, hchain.2.1⟩

/-- A writer recovers the first envelope, and another one appends the second before it reads the
tip: it appends a third one that names the first. -/
theorem writers_chain_overtaken : ∃ P,
    PoolRuns (handle documentCodec id).exec
      (writersPool documentCodec id sampleManager (fun _ : Nat => sampleCall) ⟨[], []⟩).forget P ∧
    ∃ e parent, stored documentCodec e ∈ P.shared.rows ∧
      stored documentCodec parent ∈ P.shared.rows ∧ e.sequence = parent.sequence + 1 ∧
      e.parentHash ≠ some (parent.chainHash id) := by
  let calls (_ : Nat) : WriteCall := sampleCall
  let finish (_ : CheckpointEnvelope) : Prog (CheckpointOp StoredText) Exn Unit := pure ()
  let P₀ := (writersPool documentCodec id sampleManager calls ⟨[], []⟩).forget
  have hthread (i : Nat) : P₀.threads i = sampleWrite "run" >>= finish := rfl
  -- the first envelope
  obtain ⟨e₁, s₁, hrun₁, he₁, hrows₁, -, hids₁⟩ :=
    @sampleWrite_runs ⟨[], []⟩ "run" ordered_nil "1" (.inl rfl) (by simp)
  have hseq₁ : e₁.sequence = 1 := he₁.sequence
  have hordered₁ : Ordered s₁.rows :=
    (Written.reachable (.single (.write hrun₁.withFaults))).ordered
  have hrows₁ : rowsOf s₁.rows "run" = [stored documentCodec e₁] := hrows₁
  have hnewest₁ : newestOf documentCodec id s₁.rows "run" = some e₁ := by
    have hlinked : (lineage id).Linked [e₁] := he₁.valid
    have hchain : rowsOf s₁.rows "run" = [e₁].map (stored documentCodec) := hrows₁
    exact newestOf_of_linked hchain hlinked
  have hids₁ : ∀ row ∈ s₁.rows, row.checkpointId = sampleId "1" := by
    intro row hrow
    exact (hids₁ row hrow).resolve_right fun h => by cases h
  -- the slow writer recovers it
  obtain ⟨q, s₂, hstall, hrows₂, hresume⟩ := @write_stalls StoredText documentCodec id s₁ sampleManager
    (sampleRun "run") (samplePlan "run") [sampleRecord "run"] {} e₁
    { (default : Supply) with freshId := "3" } hnewest₁
  -- the second envelope
  obtain ⟨e₂, s₃, hrun₂, he₂, hrows₃, -, hids₃⟩ := @sampleWrite_runs s₂ "run"
    (hrows₂ ▸ hordered₁) "2" (.inr (by rw [hrows₂, hnewest₁]; exact Option.some_ne_none e₁))
    fun row hrow => by
      rw [hrows₂] at hrow
      rw [hids₁ row hrow]
      exact sampleId_ne (by decide)
  rw [hrows₂, hrows₁] at hrows₃
  have hseq₂ : e₂.sequence = 2 := by
    rw [he₂.sequence, tipSequence, hrows₂, hrows₁]
    exact congrArg (· + 1) hseq₁
  have hmem₂ : stored documentCodec e₂ ∈ rowsOf s₃.rows "run" := by rw [hrows₃]; simp
  have hmem₁ : stored documentCodec e₁ ∈ rowsOf s₃.rows "run" := by rw [hrows₃]; simp
  -- the slow writer goes on
  obtain ⟨e₃, s₄, hrun₃, hid₃, hseq₃, hparent₃, hrows₄⟩ := hresume s₃
    (parentFound_of_stored he₁.verified hmem₁) fun row hrow => by
      rcases hids₃ row hrow with h | hrow
      · rw [h]
        exact sampleId_ne (by decide)
      · rw [hrows₂] at hrow
        rw [hids₁ row hrow]
        exact sampleId_ne (by decide)
  let P₁ : Pool (CheckpointOp StoredText) Exn (CheckpointStore StoredText) Nat :=
    ⟨Function.update P₀.threads 0 (finish e₁), s₁⟩
  let P₂ : Pool (CheckpointOp StoredText) Exn (CheckpointStore StoredText) Nat :=
    ⟨Function.update P₁.threads 1 (q >>= finish), s₂⟩
  let P₃ : Pool (CheckpointOp StoredText) Exn (CheckpointStore StoredText) Nat :=
    ⟨Function.update P₂.threads 2 (finish e₂), s₃⟩
  have hreach₁ : PoolRuns (handle documentCodec id).exec P₀ P₁ := by
    have hadvance : Advances _ (P₀.threads 0) P₀.shared _ s₁ := hrun₁.advances finish
    exact hadvance.poolRuns
  have hreach₂ : PoolRuns (handle documentCodec id).exec P₁ P₂ := by
    have hadvance : Advances _ (P₁.threads 1) P₁.shared _ s₂ := hstall.bind finish
    exact hadvance.poolRuns
  have hreach₃ : PoolRuns (handle documentCodec id).exec P₂ P₃ := by
    have hadvance : Advances _ (P₂.threads 2) P₂.shared _ s₃ := hrun₂.advances finish
    exact hadvance.poolRuns
  let P₄ : Pool (CheckpointOp StoredText) Exn (CheckpointStore StoredText) Nat :=
    ⟨Function.update P₃.threads 1 (finish e₃), s₄⟩
  have hreach₄ : PoolRuns (handle documentCodec id).exec P₃ P₄ := by
    have hstalled : P₃.threads 1 = q >>= finish := rfl
    have hadvance : Advances _ (P₃.threads 1) P₃.shared _ s₄ := hstalled ▸ hrun₃.advances finish
    exact hadvance.poolRuns
  have hordered₃ : Ordered s₃.rows := by
    have hcall : CallStep documentCodec id s₂ s₃ := .write hrun₂.withFaults
    exact hcall.ordered (hrows₂ ▸ hordered₁)
  have htip : tipSequence s₃.rows "run" = 2 := by
    rw [tipSequence, hrows₃]
    exact hseq₂
  have hkept : rowsOf s₄.rows "run" = [stored documentCodec e₃, stored documentCodec e₂,
      stored documentCodec e₁] := by
    have hid : (stored documentCodec e₃).runId = "run" := hid₃
    have hnext : tipSequence s₃.rows (stored documentCodec e₃).runId <
        (stored documentCodec e₃).sequence := by
      rw [hid]
      change tipSequence s₃.rows "run" < e₃.sequence
      rw [hseq₃]
      exact Nat.lt_succ_self _
    have hcons := rowsOf_cons hordered₃ hnext
    rw [hid] at hcons
    have hpruned := @rowsOf_prune StoredText _ "run" (hordered₃.cons hnext) 3 (by decide)
    rw [hcons, hrows₃] at hpruned
    rw [hrows₄]
    exact hpruned
  refine ⟨P₄, hreach₁.trans (hreach₂.trans (hreach₃.trans hreach₄)), e₃, e₂, ?_, ?_, ?_, ?_⟩
  · exact (mem_rowsOf.mp (by rw [hkept]; simp)).1
  · exact (mem_rowsOf.mp (by rw [hkept]; simp)).1
  · rw [hseq₃, hseq₂]
    exact congrArg (· + 1) htip
  · rw [hparent₃]
    intro hsame
    have hsequence := (CheckpointEnvelope.same_of_chainHash Function.injective_id
      (Option.some.inj hsame)).sequence
    rw [hseq₁, hseq₂] at hsequence
    cases hsequence

end DurableAgent.Checkpoints
