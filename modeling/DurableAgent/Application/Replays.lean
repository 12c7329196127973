import DurableAgent.Application.Reactions
import DurableAgent.Library.History
import DurableAgent.Orchestration.Requests

/-!
# Replayed resumes

A resume stores its key before it does anything else, and keys are never removed. Whether a resume
that finds its key stored does anything again is decided from the state that it read of the run.
-/

namespace DurableAgent.Orchestration

open Library Library.Prog Store Contract

-- Reducing a call of the service would otherwise reduce the text that it strips.
attribute [local irreducible] strip

variable {Text ι : Type} [DecidableEq ι] {codec : Codec Text} {sha256Digest : String → String}
  {A : Agent Text} {runId ownerId idempotencyKey : String} {maximumTasks : Option Int}
  {α β : Type} {op : StoreOp Text β} {s s' : StoreState Text} {t : Supply} {x : Except Exn β}

/-! ## Keys -/

/-- The keys that are stored stay stored. -/
def KeysStay (s s' : StoreState Text) : Prop := ∀ row ∈ s.keys.rows, row ∈ s'.keys.rows

theorem keys_persist : KeysStay s (handle codec sha256Digest β op t s).2 := by
  intro row hrow
  by_cases hwrites : Region.keys ∈ (effectOf β op).writes
  · cases op with
    | sql op =>
      cases op with
      | insertRun run key =>
        change row ∈ (committed s (s.insertRun run key)).2.keys.rows
        unfold StoreState.insertRun
        cases hruns : s.runs.insert run with
        | none => exact hrow
        | some runs =>
          cases hkeys : s.keys.insert key with
          | none => simpa [hkeys, committed] using hrow
          | some keys =>
            have hmem : row ∈ keys.rows := by
              rw [Table.insert_rows hkeys]
              exact List.mem_cons_of_mem key hrow
            simpa [hkeys, committed] using hmem
      | insertIdempotencyKey key =>
        change row ∈ (committed s ((s.keys.insert key).map fun keys =>
          { s with keys := keys })).2.keys.rows
        cases hkeys : s.keys.insert key with
        | none => exact hrow
        | some keys =>
          change row ∈ keys.rows
          rw [Table.insert_rows hkeys]
          exact List.mem_cons_of_mem key hrow
      | insertLifecycleRequest request key =>
        change row ∈ (settle s (s.insertLifecycleRequest request key)).2.keys.rows
        unfold StoreState.insertLifecycleRequest
        split
        · next requests keys hrequests hkeys =>
          change row ∈ keys.rows
          rw [Table.insert_rows hkeys]
          exact List.mem_cons_of_mem key hrow
        · exact hrow
      | _ => simp [effectOf, sqlEffect, Effect.writes] at hwrites
    | lease op => simp [effectOf, Effect.writes] at hwrites
    | checkpoint op => cases op <;> simp [effectOf, checkpointEffect, Effect.writes] at hwrites
    | tools op => simp [effectOf, Effect.writes] at hwrites
  · have hsame := @handle_same Text codec sha256Digest β .keys s op t hwrites
    change (handle codec sha256Digest β op t s).2.keys = s.keys at hsame
    rw [hsame]
    exact hrow

theorem faultyExec_keys (hop : faultyExec codec sha256Digest β op s x s') : KeysStay s s' := by
  rcases hop with ⟨t, hhandle⟩ | ⟨e, -, rfl⟩
  · have hstay := @keys_persist Text codec sha256Digest β op s t
    rw [hhandle] at hstay
    exact hstay
  · exact fun _ h => h

/-- A key is stored, with the request that it was used for. -/
def KeyStored (pk requestHash resourceId : String) (s : StoreState Text) : Prop :=
  ∃ row ∈ s.keys.rows, row.idempotencyPk = pk ∧ row.requestHash = requestHash ∧
    row.resourceId = resourceId

theorem KeysStay.stored {pk requestHash resourceId : String} (h : KeysStay s s')
    (hs : KeyStored pk requestHash resourceId s) : KeyStored pk requestHash resourceId s' := by
  obtain ⟨row, hrow, hkey⟩ := hs
  exact ⟨row, h row hrow, hkey⟩

/-- A thread that relies on the keys, and issues calls of a kind. -/
def keeping (pre : (β : Type) → StoreOp Text β → Prop) : Contract (StoreOp Text) (StoreState Text) where
  inv _ := True
  rely := KeysStay
  guar _ _ := True
  pre β op _ := pre β op
  refl _ := fun _ h => h
  trans h h' := fun row hrow => h' row (h row hrow)

/-- Every interleaving leaves a thread what it relies on. -/
theorem keeping_watched {pre : (β : Type) → StoreOp Text β → Prop} {Q : Except Exn Unit → StoreState Text → Prop}
    {P P' : Pool (StoreOp Text) Exn (StoreState Text) ι} {i : ι}
    (hrun : PoolRuns (faultyExec codec sha256Digest) P P')
    (h : (keeping pre).Meets (faultyExec codec sha256Digest) (P.threads i) Q P.shared) :
    (keeping pre).Meets (faultyExec codec sha256Digest) (P'.threads i) Q P'.shared :=
  (ThreadRuns.watched (C := keeping pre)
    (fun _ _ _ _ _ _ _ hop _ => ⟨faultyExec_keys hop, trivial⟩)
    (threadRuns_of_poolRuns hrun) trivial h).2

/-! ## The first resume -/

section Claim

variable {pre : (β : Type) → StoreOp Text β → Prop} {action requestHash resourceId pk : String}

abbrev Keeping (pre : (β : Type) → StoreOp Text β → Prop) (codec : Codec Text)
    (sha256Digest : String → String) (p : StoreProg Text α) (R : α → StoreState Text → Prop)
    (s : StoreState Text) : Prop :=
  (keeping pre).Meets (faultyExec codec sha256Digest) p (onOk R) s

theorem keeping_kept {K : StoreState Text → Prop} {p : StoreProg Text α}
    (hK : ∀ s s', KeysStay s s' → K s → K s') (hp : p.Calls pre) (h : K s) :
    Keeping pre codec sha256Digest p (fun _ s' => K s') s :=
  Meets.kept (fun s s' hrely _ => hK s s' hrely) hp h fun _ _ s hop _ hs =>
    ⟨hop, fun _ s' hexec => ⟨trivial, trivial, hK s s' (faultyExec_keys hexec) hs⟩⟩

/-- One statement, and what its answer says of the keys from then on. -/
theorem keeping_sql {op : SqlOp α} {R : α → StoreState Text → Prop} (hop : pre α (.sql op))
    (hR : ∀ a s₁ s₂, KeysStay s₁ s₂ → R a s₁ → R a s₂)
    (h : ∀ t a s₁, KeysStay s s₁ → (handleSql α op t s₁).1 = .ok a → R a (handleSql α op t s₁).2) :
    Keeping pre codec sha256Digest (sql op) R s := by
  intro s₁ hs₁ _
  refine ⟨hop, fun x s₂ hexec => ⟨trivial, trivial, fun s' hs' _ => ?_⟩⟩
  cases x with
  | error e => exact trivial
  | ok a =>
    rcases hexec with ⟨t, hhandle⟩ | ⟨e, ⟨⟩, -⟩
    obtain ⟨hanswer, hstate⟩ := Prod.mk.inj hhandle
    have hfirst := h t a s₁ hs₁ hanswer
    rw [show (handleSql α op t s₁).2 = s₂ from hstate] at hfirst
    exact hR a s₂ s' hs' hfirst

/-- The row that a look for a key finds is stored under it. -/
theorem keeping_getIdempotencyKey (hop : pre _ (.sql (.getIdempotencyKey pk))) :
    Keeping pre codec sha256Digest (sql (.getIdempotencyKey pk))
      (fun existing s' => ∀ row ∈ existing, KeyStored pk row.requestHash row.resourceId s') s := by
  refine keeping_sql hop (fun existing s₁ s₂ hstay h row hrow => hstay.stored (h row hrow))
    fun t existing s₁ _ hanswer row hrow => ?_
  have hfound : s₁.keys.find pk = existing := Except.ok.inj hanswer
  rw [hfound.symm, Option.mem_def, Table.find_eq_some] at hrow
  exact ⟨row, hrow.1, hrow.2, rfl, rfl⟩

theorem insertIdempotencyKey_stored {key : IdempotencyKey}
    (h : (handleSql Bool (.insertIdempotencyKey key) t s).1 = .ok true) :
    KeyStored key.idempotencyPk key.requestHash key.resourceId
      (handleSql Bool (.insertIdempotencyKey key) t s).2 := by
  change (committed s ((s.keys.insert key).map fun keys => { s with keys := keys })).1 = .ok true at h
  change KeyStored _ _ _ (committed s ((s.keys.insert key).map fun keys => { s with keys := keys })).2
  cases hkeys : s.keys.insert key with
  | none =>
    rw [hkeys] at h
    cases h
  | some keys =>
    refine ⟨key, ?_, rfl, rfl, rfl⟩
    change key ∈ keys.rows
    rw [Table.insert_rows hkeys]
    exact List.mem_cons_self

/-- An action that was claimed, by this call or an earlier one, has its key stored. -/
theorem keeping_claimAction {digest : Agent Text} :
    Keeping (fun _ _ => True) codec sha256Digest
      (digest.claimAction ownerId action idempotencyKey requestHash resourceId)
      (fun _ s' => KeyStored (digest.idempotencyPk ownerId action idempotencyKey) requestHash
        resourceId s') s := by
  refine Meets.next (keeping_getIdempotencyKey trivial) fun existing s₁ _ h₁ => ?_
  refine Meets.next (keeping_kept (K := fun s => ∀ row ∈ existing, KeyStored
    (digest.idempotencyPk ownerId action idempotencyKey) row.requestHash row.resourceId s)
    (fun s s' hstay h row hrow => hstay.stored (h row hrow)) (calls_true _) h₁) fun now s₂ _ h₂ => ?_
  have hdone {claimed : Bool} {s : StoreState Text}
      (h : KeyStored (digest.idempotencyPk ownerId action idempotencyKey) requestHash resourceId s) :
      Keeping (fun _ _ => True) codec sha256Digest (Pure.pure claimed)
        (fun _ s' => KeyStored (digest.idempotencyPk ownerId action idempotencyKey) requestHash
          resourceId s') s := fun s' hs' _ => KeysStay.stored hs' h
  cases existing with
  | some row =>
    change Keeping _ codec sha256Digest (priorIntent requestHash resourceId row) _ s₂
    unfold priorIntent
    split
    · exact fun _ _ _ => trivial
    · next hhash =>
      split
      · exact fun _ _ _ => trivial
      · next hresource =>
        have hstored := h₂ row rfl
        rw [not_not.mp hhash, not_not.mp hresource] at hstored
        exact hdone hstored
  | none =>
    refine Meets.next (keeping_sql (R := fun inserted s' => inserted = true →
      KeyStored (digest.idempotencyPk ownerId action idempotencyKey) requestHash resourceId s')
      trivial (fun _ _ _ hstay h hinserted => hstay.stored (h hinserted)) ?_)
      fun inserted s₃ _ h₃ => ?_
    · intro t inserted s₁ _ hanswer hinserted
      subst hinserted
      exact insertIdempotencyKey_stored hanswer
    · cases inserted with
      | true => exact hdone (h₃ rfl)
      | false =>
        refine Meets.next (keeping_getIdempotencyKey trivial) fun winner s₄ _ h₄ => ?_
        cases winner with
        | none => exact fun _ _ _ => trivial
        | some row =>
          change Keeping _ codec sha256Digest (concurrentIntent requestHash resourceId (some row)) _ s₄
          unfold concurrentIntent
          dsimp only
          split
          · next hsame =>
            have hstored := h₄ row rfl
            rw [hsame.1, hsame.2] at hstored
            exact hdone hstored
          · exact fun _ _ _ => trivial

/-- The hash under which a resume is claimed. -/
def Agent.resumeHash (A : Agent Text) (runId : String) (maximumTasks : Option Int) : String :=
  A.sha256Digest (canonicalJson (.obj [("run_id", .str runId),
    ("maximum_tasks", (maximumTasks.map Json.int).getD .null)]))

/-- The key of a resume is stored, for the same request. -/
abbrev ResumeStored (A : Agent Text) (runId ownerId idempotencyKey : String)
    (maximumTasks : Option Int) : StoreState Text → Prop :=
  KeyStored (A.idempotencyPk ownerId s!"resume:{runId}" idempotencyKey)
    (A.resumeHash runId maximumTasks) runId

/-- A resume with a key that goes on at all has stored it. -/
theorem keeping_resumeOwned :
    Keeping (fun _ _ => True) codec sha256Digest
      (A.resumeOwned runId ownerId maximumTasks (some idempotencyKey))
      (fun _ s' => ResumeStored A runId ownerId idempotencyKey maximumTasks s') s := by
  unfold Agent.resumeOwned
  refine Meets.next (keeping_kept (K := fun _ => True) (fun _ _ _ h => h) (calls_true _) trivial)
    fun run s₁ _ _ => ?_
  refine Meets.next (R := fun _ => ResumeStored A runId ownerId idempotencyKey maximumTasks) ?_
    fun replay s₂ _ h₂ => keeping_kept (fun _ _ hstay h => hstay.stored h) (calls_true _) h₂
  unfold Agent.isReplay
  dsimp only
  split
  · exact fun _ _ _ => trivial
  · exact Meets.next keeping_claimAction fun _ s₂ _ h₂ s' hs' _ => KeysStay.stored hs' h₂

/-! ## The replay -/

/-- The calls that only read runs, keys and tasks. -/
def Inert : (β : Type) → StoreOp Text β → Prop
  | _, .sql .now | _, .sql (.getRun _) | _, .sql (.getIdempotencyKey _)
  | _, .sql (.latestPlanId _) | _, .sql (.selectTasks _ _ _) => True
  | _, _ => False

theorem Inert.handle_eq (h : Inert β op) : (handle codec sha256Digest β op t s).2 = s := by
  unfold Inert at h
  split at h
  all_goals first | rfl | exact h.elim

theorem keeping_claimAction_again
    (h : KeyStored (A.idempotencyPk ownerId action idempotencyKey) requestHash resourceId s) :
    Keeping Inert codec sha256Digest
      (A.claimAction ownerId action idempotencyKey requestHash resourceId)
      (fun claimed _ => claimed = false) s := by
  refine Meets.next (keeping_sql (R := fun existing _ => ∃ row : IdempotencyKey,
    existing = some row ∧ row.requestHash = requestHash ∧ row.resourceId = resourceId) trivial
    (fun _ _ _ _ h => h) fun t existing s₁ hstay hanswer => ?_) fun existing s₁ _ h₁ => ?_
  · obtain ⟨row, hrow, hpk, hhash, hresource⟩ := hstay.stored h
    have hfound := Table.find_eq_some.mpr ⟨hrow, hpk⟩
    exact ⟨row, (Except.ok.inj hanswer).symm.trans hfound, hhash, hresource⟩
  · obtain ⟨row, rfl, hhash, hresource⟩ := h₁
    refine Meets.next (keeping_kept (K := fun _ => True) (fun _ _ _ h => h) ⟨trivial, fun _ => trivial⟩ trivial)
      fun now s₂ _ _ => ?_
    change Keeping Inert codec sha256Digest (priorIntent requestHash resourceId row) _ s₂
    unfold priorIntent
    rw [if_neg (not_not.mpr hhash), if_neg (not_not.mpr hresource)]
    exact fun _ _ _ => rfl

/-- A resume that read a run at rest and finds its key stored only reads. -/
theorem keeping_replay {run : RunRecord}
    (hrun : run.state ≠ .PAUSED ∧ run.state ≠ .RECOVERING)
    (h : ResumeStored A runId ownerId idempotencyKey maximumTasks s) :
    Keeping Inert codec sha256Digest
      (do
        let run ← (if run.ownerId ≠ ownerId then
            raise (.of .securityPolicy "run is owned by another principal")
          else pure run : StoreProg Text RunRecord)
        let replay ← A.isReplay runId ownerId maximumTasks (some idempotencyKey)
        if replay ∧ run.state ≠ .PAUSED ∧ run.state ≠ .RECOVERING then currentResult run
        else do
          let workerId ← newWorkerId ownerId
          (A.resumeAndAdvance runId workerId maximumTasks).tryCatch
            (replayConflict runId ownerId replay))
      (fun _ _ => True) s := by
  split
  · exact fun _ _ _ => trivial
  · change Keeping Inert codec sha256Digest
      (A.isReplay runId ownerId maximumTasks (some idempotencyKey) >>= fun replay => _) _ s
    refine Meets.next (R := fun replay _ => replay = true) ?_ fun replay s₁ _ hreplay => ?_
    · unfold Agent.isReplay
      dsimp only
      split
      · exact fun _ _ _ => trivial
      · refine Meets.next (keeping_claimAction_again h) fun claimed s₁ _ hclaimed => ?_
        subst hclaimed
        exact fun _ _ _ => rfl
    · rw [if_pos ⟨hreplay, hrun⟩]
      refine keeping_kept (fun _ _ _ h => h) (Calls.bind ?_ fun tasks => trivial) trivial
      refine Calls.bind (calls_perform.mpr trivial) fun run => Calls.bind ?_ fun planId => ?_
      · unfold requestedPlanId
        split
        · trivial
        · exact calls_perform.mpr trivial
      · cases planId with
        | some planId => exact calls_perform.mpr trivial
        | none => trivial

end Claim

/-! ## Every history -/

/-- After a resume with a key has returned, in any history: a resume with the same owner, key and
request that begins by reading the run while it is neither paused nor recovering only reads,
whatever the others do meanwhile. -/
theorem resume_replays {B : Agent Text} {i j : ι} {P P₁ P₂ P₃ : Pool (StoreOp Text) Exn (StoreState Text) ι}
    (hfirst : P.threads j =
      (ServiceCall.resume runId ownerId maximumTasks (some idempotencyKey)).program A)
    (hhistory : PoolRuns (faultyExec codec sha256Digest) P P₁)
    (hreturned : P₁.threads j = .done (.ok ()))
    (hdigest : B.sha256Digest = A.sha256Digest)
    (hreplay : P₁.threads i =
      (ServiceCall.resume runId ownerId maximumTasks (some idempotencyKey)).program B)
    (hrest : ∀ run ∈ P₁.shared.runs.rows, run.runId = runId →
      run.state ≠ .PAUSED ∧ run.state ≠ .RECOVERING)
    (hreads : PoolStep (faultyExec codec sha256Digest) P₁ i P₂)
    (hrun : PoolRuns (faultyExec codec sha256Digest) P₂ P₃) :
    ∀ β (op : StoreOp Text β) k, P₃.threads i = .call op k →
      Inert β op ∧ ∀ t s, (handle codec sha256Digest β op t s).2 = s := by
  have hclaimed : ResumeStored A runId ownerId idempotencyKey maximumTasks P₁.shared := by
    have hmeets : Keeping (fun _ _ => True) codec sha256Digest (P.threads j)
        (fun _ s' => ResumeStored A runId ownerId idempotencyKey maximumTasks s') P.shared := by
      rw [hfirst]
      exact Meets.next keeping_resumeOwned fun _ _ _ h s' hs' _ => KeysStay.stored hs' h
    have hended := keeping_watched hhistory hmeets
    rw [hreturned] at hended
    exact Contract.Meets.ended hended trivial
  have hstored : ResumeStored B runId ownerId idempotencyKey maximumTasks P₁.shared := by
    unfold ResumeStored Agent.idempotencyPk Agent.resumeHash
    rw [hdigest]
    exact hclaimed
  have hmeets : Keeping Inert codec sha256Digest (P₂.threads i) (fun _ _ => True) P₂.shared := by
    obtain @⟨_, _, _, op, k, x, s', hi, hop⟩ := hreads
    rw [hreplay] at hi
    cases hi
    dsimp only
    rw [Function.update_self]
    cases x with
    | error e => exact fun _ _ _ => trivial
    | ok run =>
      rcases hop with ⟨t, hhandle⟩ | ⟨e, ⟨⟩, -⟩
      obtain ⟨hanswer, hstate⟩ := Prod.mk.inj hhandle
      have hread : run ∈ P₁.shared.runs.rows ∧ run.runId = runId := by
        have hget : P₁.shared.getRun runId = .ok run := hanswer
        unfold StoreState.getRun at hget
        split at hget
        · next found hfound =>
          cases hget
          exact Table.find_eq_some.mp hfound
        · cases hget
      obtain rfl : P₁.shared = s' := hstate
      exact Meets.next (keeping_replay (hrest run hread.1 hread.2) hstored)
        fun _ _ _ _ _ _ _ => trivial
  intro β op k hop
  have hnext := keeping_watched hrun hmeets
  rw [hop] at hnext
  have hinert : Inert β op := Contract.Meets.pre hnext trivial
  exact ⟨hinert, fun t s => hinert.handle_eq⟩

/-! ## A replay in a run that goes on, and in a run that was paused -/

/-- A created run with two tasks, one after the other. -/
def restingStore : StoreState CheckpointEnvelope :=
  (plainPlay (planTurns pairPlan 0 (List.replicate 38 "r"))
    ⟨fun _ => (ServiceCall.createRun "objective" "owner" "key" none).program (digestAgent "create"),
      plainStore⟩).shared

/-- Two pauses, two workers, and resumes that are all the same. -/
def replaysPool : Pool (StoreOp CheckpointEnvelope) Exn (StoreState CheckpointEnvelope) Nat :=
  ⟨fun i => match i with
    | 0 => (ServiceCall.pause "run-r" "owner" "reason" "first").program (digestAgent "first")
    | 1 => (ServiceCall.pause "run-r" "owner" "reason" "second").program (digestAgent "second")
    | 2 | 3 => plainAgent.advance "run-r" "worker" none >>= fun _ => pure ()
    | _ => (ServiceCall.resume "run-r" "owner" (some 1) (some "key")).program plainAgent,
    restingStore⟩

-- the store has no key of a resume yet
example : (restingStore.keys.rows.map IdempotencyKey.action) = ["create_run"] := by
  decide +kernel

/-- The run is paused, and resumed for one task. -/
def resumedOnce : List (Nat × Supply) :=
  turns 0 (List.replicate 10 "p") ++ turns 2 (List.replicate 40 "a") ++
    turns 4 ((List.range 100).map fun n => s!"r{n}")

/-- The run goes on, and the replay comes to its last look at the store. -/
theorem resume_replays_running : ∃ P₁ P₂ P₃, PoolRuns plainExec replaysPool P₁ ∧
    P₁.threads 4 = .done (.ok ()) ∧ PoolStep plainExec P₁ 5 P₂ ∧ PoolRuns plainExec P₂ P₃ ∧
    (P₃.threads 5).returned = false ∧
    ∀ β (op : StoreOp CheckpointEnvelope β) k, P₃.threads 5 = .call op k →
      Inert β op ∧ ∀ t s, (handle plainCodec plainAgent.sha256Digest β op t s).2 = s := by
  have hhistory := plainPlay_runs resumedOnce replaysPool
  have hreturned : (plainPlay resumedOnce replaysPool).threads 4 = .done (.ok ()) :=
    returned_iff.mp (by decide +kernel)
  have hreplay : (plainPlay resumedOnce replaysPool).threads 5 =
      (ServiceCall.resume "run-r" "owner" (some 1) (some "key")).program plainAgent :=
    Pool.play_threads _ resumedOnce replaysPool (by decide +kernel)
  have hreads : PoolStep plainExec (plainPlay resumedOnce replaysPool) 5
      (plainPlay (turns 5 ["s"]) (plainPlay resumedOnce replaysPool)) :=
    (Pool.play_step _ (plainSupply "s") hreplay).mono fun _ _ _ _ _ => .inl
  have hrun := plainPlay_runs (turns 5 (List.replicate 3 "s"))
    (plainPlay (turns 5 ["s"]) (plainPlay resumedOnce replaysPool))
  exact ⟨_, _, _, hhistory, hreturned, hreads, hrun, by decide +kernel,
    resume_replays (j := 4) rfl hhistory hreturned rfl hreplay (by decide +kernel) hreads hrun⟩

/-- Then it is paused with another key. -/
def pausedAgain : List (Nat × Supply) :=
  resumedOnce ++ turns 1 (List.replicate 10 "q") ++ turns 3 ((List.range 40).map fun n => s!"b{n}")

/-- The run was paused once more before the replay, which executes the next task. -/
theorem resume_replays_paused : ∃ P₁ P₂,
    PoolRuns plainExec replaysPool P₁ ∧ (P₁.threads 4).returned = true ∧
    P₁.threads 5 = (ServiceCall.resume "run-r" "owner" (some 1) (some "key")).program plainAgent ∧
    (P₁.shared.runs.rows.map RunRecord.state) = [.PAUSED] ∧
    (P₁.shared.tasks.rows.map TaskRecord.state) = [.PENDING, .SUCCEEDED] ∧
    PoolRuns plainExec P₁ P₂ ∧ (P₂.threads 5).returned = true ∧
    (P₂.shared.runs.rows.map RunRecord.state) = [.RUNNING] ∧
    (P₂.shared.tasks.rows.map TaskRecord.state) = [.SUCCEEDED, .SUCCEEDED] := by
  have hhistory := plainPlay_runs pausedAgain replaysPool
  have hrun := plainPlay_runs (turns 5 ((List.range 100).map fun n => s!"s{n}"))
    (plainPlay pausedAgain replaysPool)
  have hturn : 5 ∉ pausedAgain.map Prod.fst := by decide +kernel
  have hreplay : (plainPlay pausedAgain replaysPool).threads 5 =
      (ServiceCall.resume "run-r" "owner" (some 1) (some "key")).program plainAgent := by
    rw [Pool.play_threads _ pausedAgain replaysPool hturn]
    rfl
  have hpaused : ((plainPlay pausedAgain replaysPool).threads 4).returned = true ∧
      ((plainPlay pausedAgain replaysPool).shared.runs.rows.map RunRecord.state) = [.PAUSED] ∧
      ((plainPlay pausedAgain replaysPool).shared.tasks.rows.map TaskRecord.state) =
        [.PENDING, .SUCCEEDED] := by
    decide +kernel
  have hadvanced : ((plainPlay (turns 5 ((List.range 100).map fun n => s!"s{n}"))
        (plainPlay pausedAgain replaysPool)).threads 5).returned = true ∧
      ((plainPlay (turns 5 ((List.range 100).map fun n => s!"s{n}"))
        (plainPlay pausedAgain replaysPool)).shared.runs.rows.map RunRecord.state) = [.RUNNING] ∧
      ((plainPlay (turns 5 ((List.range 100).map fun n => s!"s{n}"))
        (plainPlay pausedAgain replaysPool)).shared.tasks.rows.map TaskRecord.state) =
        [.SUCCEEDED, .SUCCEEDED] := by
    decide +kernel
  obtain ⟨hreturned, hruns, htasks⟩ := hpaused
  exact ⟨_, _, hhistory, hreturned, hreplay, hruns, htasks, hrun, hadvanced⟩

end DurableAgent.Orchestration
