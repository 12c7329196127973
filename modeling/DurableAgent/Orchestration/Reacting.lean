import DurableAgent.Orchestration.Heeding

/-!
# The loop under lifecycle requests

Each part of the loop against what is noted of the worker's reaction.
-/

namespace DurableAgent.Orchestration

open Library Library.Prog Store Contract

variable {Text ι : Type} [DecidableEq ι] {codec : Codec Text} {sha256Digest : String → String}
  {A : Agent Text} {runId : String} {worker : ι} {s s' : StoreState Text × Reaction} {α β : Type}

/-- What a program of the worker does while others commit requests. -/
abbrev Reacts (codec : Codec Text) (sha256Digest : String → String) (runId : String) (worker : ι)
    (p : StoreProg Text α) (R : α → StoreState Text × Reaction → Prop)
    (s : StoreState Text × Reaction) : Prop :=
  (heeding runId).Meets (reactingExec codec sha256Digest runId worker worker) p (onOk R) s

section Rules

variable {R : α → StoreState Text × Reaction → Prop} {T : β → StoreState Text × Reaction → Prop}

theorem Reacts.bind {p : StoreProg Text α} {f : α → StoreProg Text β}
    (hp : Reacts codec sha256Digest runId worker p R s)
    (hf : ∀ a s', Prompt s' → R a s' → Reacts codec sha256Digest runId worker (f a) T s') :
    Reacts codec sha256Digest runId worker (p >>= f) T s :=
  Meets.next hp hf

theorem Reacts.pure {a : α} (hR : ∀ s', Elsewhere runId s s' → R a s') :
    Reacts codec sha256Digest runId worker (Pure.pure a : StoreProg Text α) R s :=
  fun s' hs' _ => hR s' hs'

/-- Calls of which nothing is noted leave to the worker what it knows of its own doing. -/
theorem reacts_quiet {φ : (δ : Type) → StoreOp Text δ → Prop} {K : Reaction → Prop}
    {p : StoreProg Text α} (hK : ∀ r b, K r → K { r with requested := b }) (hp : p.Calls φ)
    (hφ : ∀ δ op x s r, φ δ op → K r → noteWorker δ op x s r = r) (h : K s.2) :
    Reacts codec sha256Digest runId worker p (fun _ s' => K s'.2) s := by
  refine Meets.kept (K := fun s : StoreState Text × Reaction => K s.2)
    (fun s s' hrely _ hs => ?_) hp h
    fun δ op s hop hprompt hs => ⟨trivial, fun x s' hexec => ⟨trivial, ?_⟩⟩
  · rw [hrely.record]
    exact hK _ _ hs
  · rcases workerExec_cases hexec with ⟨t, -, hnote⟩ | ⟨e, -, rfl⟩
    · rw [hφ δ op x s.1 s.2 hop hs] at hnote
      change Prompt s' ∧ K s'.2
      unfold Prompt
      rw [hnote]
      exact ⟨hprompt, hs⟩
    · exact ⟨hprompt, hs⟩

theorem reacts_unnoted {K : Reaction → Prop} {E : List Effect} {p : StoreProg Text α}
    (hK : ∀ r b, K r → K { r with requested := b }) (hp : p.Calls (Within E))
    (hE : E.all Effect.unnoted = true) (h : K s.2) :
    Reacts codec sha256Digest runId worker p (fun _ s' => K s'.2) s :=
  reacts_quiet hK (calls_of_within hp hE fun _ _ h => h)
    (fun _ _ _ _ _ hop _ => noteWorker_unnoted hop) h

theorem reacts_working {E : List Effect} {p : StoreProg Text α} (hp : p.Calls (Within E))
    (hE : E.all Effect.working = true) (h : Working runId s) :
    Reacts codec sha256Digest runId worker p (fun _ s' => Working runId s') s := by
  have hcalls : p.Calls fun δ op => (effectOf δ op).working = true :=
    calls_of_within hp hE fun _ _ h => h
  exact Meets.kept (fun s s' hrely _ hs => hrely.working hs) hcalls h
    fun δ op s hop hprompt hs => ⟨trivial, fun x s' hexec =>
      ⟨trivial, hs.step hop hprompt hexec⟩⟩

/-- Reading changes nothing that the worker knows of requests. -/
theorem reacts_reading {E : List Effect} {p : StoreProg Text α} (hp : p.Calls (Within E))
    (hE : (E.all fun e => e.unnoted && e.working) = true) (h : Heeds runId s) :
    Reacts codec sha256Digest runId worker p (fun _ s' => Heeds runId s') s := by
  have hcalls : p.Calls fun δ op =>
      (effectOf δ op).unnoted = true ∧ (effectOf δ op).working = true :=
    calls_of_within hp hE fun _ _ h => by simpa using h
  refine Meets.kept (fun s s' hrely _ hs => hrely.heeds hs) hcalls h
    fun δ op s hop hprompt hs => ⟨trivial, fun x s' hexec => ⟨trivial, ?_⟩⟩
  · rcases workerExec_cases hexec with ⟨t, hhandle, hnote⟩ | ⟨e, -, rfl⟩
    · rw [noteWorker_unnoted hop.1] at hnote
      refine ⟨?_, ?_, ?_⟩
      · change Prompt s'
        unfold Prompt
        rw [hnote]
        exact hprompt
      all_goals rw [hnote]
      · exact hs.requested
      · intro hrequested
        obtain ⟨kind, hkind⟩ := hs.pending hrequested
        exact ⟨kind, pendingOf_persists hhandle
          (fun row _ _ => Effect.working_leaves hop.2 row) hkind⟩
    · exact ⟨hprompt, hs⟩

theorem Reacts.yields {p : StoreProg Text α} {E : α → Prop}
    (h : Reacts codec sha256Digest runId worker p R s) (hp : p.Yields Answered E) :
    Reacts codec sha256Digest runId worker p (fun a s' => R a s' ∧ E a) s :=
  Meets.yields h hp fun _ _ _ _ _ => workerExec_answered

end Rules

/-! ## The check -/

/-- After a check: without a request the worker may go on, and only a cancellation makes it cancel. -/
structure Checked (runId : String) (answer : Option LifecycleRequest)
    (s : StoreState Text × Reaction) : Prop extends Heeds runId s where
  free : answer = none → Working runId s
  cancelling : s.2.cancelling = true → answer.map LifecycleRequest.kind = some .cancel

/-- No cancellation was found, and where a batch was late, a pause is pending. -/
structure Uncancelled (runId : String) (s : StoreState Text × Reaction) : Prop extends
    Heeds runId s where
  uncancelled : s.2.cancelling = false
  pausing : s.2.late = 1 → PendingOf runId .pause s.1

theorem Elsewhere.checked {answer : Option LifecycleRequest} (h : Elsewhere runId s s')
    (hs : Checked runId answer s) : Checked runId answer s' where
  toHeeds := h.heeds hs.toHeeds
  free hnone := h.working (hs.free hnone)
  cancelling := by
    rw [h.record]
    exact hs.cancelling

theorem Elsewhere.uncancelled (h : Elsewhere runId s s') (hs : Uncancelled runId s) :
    Uncancelled runId s' where
  toHeeds := h.heeds hs.toHeeds
  uncancelled := by
    rw [h.record]
    exact hs.uncancelled
  pausing hlate := by
    rw [h.record] at hlate
    exact h.pending .pause (hs.pausing hlate)

/-- The second look, for a pause. -/
theorem reacts_checkPause (h : Uncancelled runId s) :
    Reacts codec sha256Digest runId worker (sql (.pendingRequest runId .pause))
      (Checked runId) s := by
  intro s₁ hs₁ hprompt
  have h₁ := hs₁.uncancelled h
  refine ⟨trivial, fun x s₂ hop => ?_⟩
  rcases workerExec_cases hop with ⟨t, hhandle, hnote⟩ | ⟨e, rfl, rfl⟩
  · obtain ⟨rfl, hstate⟩ := Prod.mk.inj hhandle
    obtain rfl : s₂ = s₁ := Prod.ext hstate.symm hnote
    refine ⟨trivial, hprompt, fun s' hs' _ => hs'.checked ⟨h₁.toHeeds, fun hnone => ?_, ?_⟩⟩
    · refine ⟨h₁.toHeeds, ?_, h₁.uncancelled⟩
      have hlate : s₂.2.late ≠ 1 := fun hlate => pendingRequest_eq_none.mp hnone (h₁.pausing hlate)
      have hfresh := Bool.toNat_le s₂.2.fresh
      have hpromptly := hprompt.1
      omega
    · rw [h₁.uncancelled]
      exact fun hfalse => nomatch hfalse
  · exact ⟨trivial, hprompt, fun _ _ _ => trivial⟩

theorem reacts_pendingLifecycleRequest (h : Heeds runId s) :
    Reacts codec sha256Digest runId worker (pendingLifecycleRequest runId) (Checked runId) s := by
  intro s₁ hs₁ hprompt
  have h₁ := hs₁.heeds h
  refine ⟨trivial, fun x s₂ hop => ?_⟩
  have hanswered := workerExec_answered hop
  rcases workerExec_cases hop with ⟨t, hhandle, hnote⟩ | ⟨e, rfl, rfl⟩
  · obtain ⟨rfl, hstate⟩ := Prod.mk.inj hhandle
    change s₂.2 = s₁.2.check (s₁.1.pendingRequest runId .cancel).isSome at hnote
    have hprompt₂ : Prompt s₂ := by
      unfold Prompt
      rw [hnote]
      exact hprompt
    have h₂ : Heeds runId s₂ := by
      refine ⟨?_, ?_⟩
      · rw [hnote]
        exact h₁.requested
      · rw [hnote, ← hstate]
        exact h₁.pending
    refine ⟨trivial, hprompt₂, ?_⟩
    change Reacts codec sha256Digest runId worker (orPause runId (s₁.1.pendingRequest runId .cancel))
      (Checked runId) s₂
    cases hanswer : s₁.1.pendingRequest runId .cancel with
    | some request =>
      rw [hanswer] at hanswered
      have hkind : request.kind = .cancel := hanswered
      refine Reacts.pure fun s' hs' => hs'.checked ⟨h₂, nofun, fun _ => ?_⟩
      rw [Option.map_some, hkind]
    | none =>
      refine reacts_checkPause ⟨h₂, ?_, fun hlate => ?_⟩
      · rw [hnote, hanswer]
        rfl
      · obtain ⟨kind, hkind⟩ := h₂.pending (h₂.requested hlate)
        cases kind with
        | pause => exact hkind
        | cancel =>
          rw [← hstate] at hkind
          exact absurd hkind (pendingRequest_eq_none.mp hanswer)
  · exact ⟨trivial, hprompt, fun _ _ _ => trivial⟩

/-! ## The ends of the loop -/

/-- A cancellation that was found has been carried out. -/
def Ending (r : Reaction) : Prop := r.cancelling = true → r.cancelled = true

theorem ending_requested (r : Reaction) (b : Bool) (h : Ending r) : Ending { r with requested := b } :=
  h

theorem Elsewhere.own {K : Reaction → Prop} (h : Elsewhere runId s s')
    (hK : ∀ r b, K r → K { r with requested := b }) (hs : K s.2) : K s'.2 := by
  rw [h.record]
  exact hK _ _ hs

section Ends

variable {run : RunRecord} {plan : PlanSpec} {tasks : List TaskRecord} {p : Progress}
  {request : LifecycleRequest}

/-- A run that is cancelled is brought to no other state. -/
theorem reacts_endRun {activeTaskId : Option String} :
    Reacts codec sha256Digest runId worker (endRun run .CANCELLED activeTaskId)
      (fun _ s' => Ending s'.2) s := by
  unfold endRun
  cases hstate : transitionRun run.state .CANCELLED with
  | error e => exact fun _ _ _ => trivial
  | ok state =>
    obtain ⟨rfl, -⟩ := transitionRun_legal hstate
    change Reacts codec sha256Digest runId worker (sql .now >>= fun updated => _) _ s
    refine Reacts.bind (reacts_unnoted (K := fun _ => True) (E := [.read]) (fun _ _ _ => trivial)
      (within_sql rfl) rfl trivial) fun updated s₂ _ _ => ?_
    refine Reacts.bind (reacts_unnoted (K := fun _ => True) (E := [.read]) (fun _ _ _ => trivial)
      (within_sql rfl) rfl trivial) fun finished s₃ _ _ => ?_
    intro s₄ _ hprompt
    refine ⟨trivial, fun x s₅ hop => ?_⟩
    rcases workerExec_cases hop with ⟨t, hhandle, hnote⟩ | ⟨e, rfl, rfl⟩
    · cases x with
      | error e =>
        change s₅.2 = s₄.2 at hnote
        refine ⟨trivial, ?_, fun _ _ _ => trivial⟩
        change Prompt s₅
        unfold Prompt
        rw [hnote]
        exact hprompt
      | ok run' =>
        change s₅.2 = s₄.2.update .CANCELLED at hnote
        have hupdated : Prompt s₅ ∧ Ending s₅.2 := by
          unfold Prompt Ending
          rw [hnote]
          unfold Reaction.update
          by_cases hcancelling : s₄.2.cancelling = true
          · rw [if_pos hcancelling]
            exact ⟨⟨hprompt.1, by simpa using hprompt.2⟩, fun _ => by simp⟩
          · rw [if_neg hcancelling]
            exact ⟨hprompt, fun h => absurd h hcancelling⟩
        refine ⟨trivial, hupdated.1, fun s' hs' _ => ?_⟩
        change Ending s'.2
        unfold Ending
        rw [hs'.record]
        exact hupdated.2
    · exact ⟨trivial, hprompt, fun _ _ _ => trivial⟩

theorem reacts_cancel :
    Reacts codec sha256Digest runId worker (A.cancel run plan tasks request)
      (fun _ s' => Ending s'.2) s := by
  refine Reacts.bind (reacts_unnoted (K := fun _ => True) (E := [.read, .cancelTask])
    (fun _ _ _ => trivial) (Calls.mapM' (fun _ => within_cancelTask) tasks) rfl trivial)
    fun updated s₁ _ _ => ?_
  refine Reacts.bind (reacts_unnoted (K := fun _ => True) (E := [.read]) (fun _ _ _ => trivial)
    (within_sql rfl) rfl trivial) fun current s₂ _ _ => ?_
  refine Reacts.bind reacts_endRun fun run s₃ _ h₃ => ?_
  refine Reacts.bind (reacts_unnoted ending_requested (E := [.applyLifecycleRequest])
    (within_sql rfl) rfl h₃) fun _ s₄ _ h₄ => ?_
  refine Reacts.bind (reacts_unnoted ending_requested within_writeCheckpoint rfl h₄)
    fun checkpoint s₅ _ h₅ => ?_
  refine Reacts.bind (reacts_unnoted ending_requested (E := [.publish "run.cancelled"])
    (within_publish (by decide)) rfl h₅) fun _ s₆ _ h₆ => ?_
  exact Reacts.pure fun s' hs' => hs'.own ending_requested h₆

/-- A run is paused where no cancellation was found. -/
theorem reacts_pause (h : s.2.cancelling = false) :
    Reacts codec sha256Digest runId worker (A.pause run plan tasks request)
      (fun _ s' => s'.2.cancelling = false) s := by
  have hcalls : (A.pause run plan tasks request).Calls
      fun δ op => (effectOf δ op).settling = true :=
    calls_of_within within_pause (rfl : requestEffects.all Effect.settling = true) fun _ _ h => h
  exact reacts_quiet (K := fun r => r.cancelling = false) (fun _ _ => id) hcalls
    (fun _ _ _ _ _ hop => noteWorker_settling hop) h

theorem reacts_handleRequest (h : Checked runId (some request) s) :
    Reacts codec sha256Digest runId worker (A.handleRequest plan p request)
      (fun _ s' => Ending s'.2) s := by
  unfold Agent.handleRequest
  split
  · refine Reacts.bind reacts_cancel fun r s₁ _ h₁ => ?_
    refine Reacts.bind (reacts_unnoted ending_requested within_generateReport rfl h₁)
      fun _ s₂ _ h₂ => ?_
    exact Reacts.pure fun s' hs' => hs'.own ending_requested h₂
  · next hkind =>
    have hnot : s.2.cancelling = false := by
      rw [Bool.eq_false_iff]
      intro hcancelling
      have hcancel := h.cancelling hcancelling
      rw [Option.map_some, hkind] at hcancel
      cases hcancel
    refine Reacts.bind (reacts_pause hnot) fun r s₁ _ h₁ => ?_
    refine Reacts.pure fun s' hs' hcancelling => ?_
    rw [hs'.record, h₁] at hcancelling
    cases hcancelling

end Ends

/-! ## The loop -/

section Loop

variable {lease : LeaseRecord} {run : RunRecord} {plan : PlanSpec} {tasks : List TaskRecord}
  {p : Progress}

/-- What the worker knows after a turn. -/
def TurnReacts (runId : String) : Turn → StoreState Text × Reaction → Prop
  | .ended _, s => Ending s.2
  | .again _, s => Heeds runId s
  | .batch _ _, s => Working runId s

theorem Working.ending (h : Working runId s) : Ending s.2 := by
  intro hcancelling
  rw [h.uncancelled] at hcancelling
  cases hcancelling

theorem reacts_done {a : α} (h : Ending s.2) :
    Reacts codec sha256Digest runId worker (Pure.pure a : StoreProg Text α)
      (fun _ s' => Ending s'.2) s :=
  Reacts.pure fun _ hs' => hs'.own ending_requested h

theorem reacts_concludeTurn {request : Option LifecycleRequest} (h : Checked runId request s) :
    Reacts codec sha256Digest runId worker (A.concludeTurn plan p request) (TurnReacts runId) s := by
  cases request with
  | some request => exact Reacts.pure fun _ hs' => hs'.heeds h.toHeeds
  | none =>
    refine Reacts.bind (reacts_working within_concludeRun rfl (h.free rfl)) fun p s₁ _ h₁ => ?_
    exact Reacts.pure fun _ hs' => hs'.own ending_requested h₁.ending

theorem reacts_scheduleTurn {maximumTasks : Option Nat} (hrun : p.run.runId = runId)
    (h : Working runId s) :
    Reacts codec sha256Digest runId worker (A.scheduleTurn plan maximumTasks p)
      (TurnReacts runId) s := by
  refine Reacts.bind (reacts_working within_promoteReady rfl h) fun tasks s₁ _ h₁ => ?_
  refine Reacts.bind (p := Prog.ofExcept (readyTasks tasks)) (reacts_working (E := []) trivial rfl h₁)
    fun candidates s₂ _ h₂ => ?_
  split
  · rw [hrun]
    exact Reacts.bind (reacts_pendingLifecycleRequest h₂.toHeeds)
      fun request s₃ _ h₃ => reacts_concludeTurn h₃
  · refine Reacts.bind (reacts_working within_startBatch rfl h₂) fun r s₃ _ h₃ => ?_
    exact Reacts.pure fun _ hs' => hs'.working h₃

theorem reacts_turn {maximumTasks : Option Nat} (hrun : p.run.runId = runId)
    (h : Heeds runId s) :
    Reacts codec sha256Digest runId worker (A.turn plan maximumTasks p) (TurnReacts runId) s := by
  unfold Agent.turn
  rw [hrun]
  refine Reacts.bind (reacts_pendingLifecycleRequest h) fun request s₁ _ h₁ => ?_
  cases request with
  | some request =>
    refine Reacts.bind (reacts_handleRequest h₁) fun p s₂ _ h₂ => ?_
    exact Reacts.pure fun _ hs' => hs'.own ending_requested h₂
  | none =>
    unfold Agent.turnFor
    dsimp only
    split
    · exact Reacts.pure fun _ hs' => hs'.own ending_requested (h₁.free rfl).ending
    · exact reacts_scheduleTurn hrun (h₁.free rfl)

theorem reacts_releaseLease (h : Ending s.2) :
    Reacts codec sha256Digest runId worker (releaseLease lease) (fun _ s' => Ending s'.2) s :=
  reacts_unnoted ending_requested (within_ofLease _) rfl h

/-- What holds where a program returns holds also where an exception releases the lease. -/
theorem reacts_releasing {q : StoreProg Text α} {R : α → StoreState Text × Reaction → Prop}
    (hq : Reacts codec sha256Digest runId worker q R s) :
    Reacts codec sha256Digest runId worker (releasing lease q) R s := by
  refine Meets.tryCatch hq (fun _ _ _ h => h) fun e s' _ _ => ?_
  refine Reacts.bind (reacts_unnoted (K := fun _ => True) (fun _ _ _ => trivial) (within_ofLease _)
    rfl trivial) fun _ _ _ _ => ?_
  exact fun _ _ _ => trivial

theorem reacts_loop {maximumTasks : Option Nat} {fuel : Nat} (hrun : p.run.runId = runId)
    (h : Heeds runId s) :
    Reacts codec sha256Digest runId worker (A.loop plan maximumTasks fuel lease p)
      (fun _ s' => Ending s'.2) s := by
  induction fuel generalizing lease p s with
  | zero => trivial
  | succ fuel ih =>
    refine Reacts.bind (reacts_releasing ((reacts_turn hrun h).yields (turn_yields hrun)))
      fun turn s₁ _ h₁ => ?_
    obtain ⟨h₁, hturn⟩ := h₁
    cases turn with
    | ended p => exact Reacts.bind (reacts_releaseLease h₁) fun _ s₂ _ h₂ => reacts_done h₂
    | again p => exact ih hturn h₁
    | batch p started =>
      refine Reacts.bind (reacts_working within_executeBatch rfl h₁) fun done s₂ _ h₂ => ?_
      refine Reacts.bind (reacts_releasing ((reacts_working within_settleBatch rfl h₂).yields
        (settleBatch_yields hturn))) fun settled s₃ _ h₃ => ?_
      obtain ⟨p, ends⟩ := settled
      cases ends with
      | true =>
        exact Reacts.bind (reacts_releaseLease h₃.1.ending) fun _ s₄ _ h₄ => reacts_done h₄
      | false => exact ih h₃.2 h₃.1.toHeeds

theorem reacts_advanceRun {maximumTasks : Option Nat} (hrun : run.runId = runId)
    (h : Heeds runId s) :
    Reacts codec sha256Digest runId worker (A.advanceRun lease run maximumTasks)
      (fun _ s' => Ending s'.2) s := by
  refine Reacts.bind (reacts_reading (E := [.read]) (within_sql rfl) rfl h) fun plan s₁ _ h₁ => ?_
  refine Reacts.bind (reacts_reading within_getTasks rfl h₁) fun tasks s₂ _ h₂ => ?_
  refine Reacts.bind (reacts_reading (E := [.read]) (within_sql rfl) rfl h₂) fun _ s₃ _ h₃ => ?_
  exact Reacts.bind (reacts_loop hrun h₃) fun p s₄ _ h₄ => reacts_done h₄

theorem reacts_unadvanced (h : Ending s.2) :
    Reacts codec sha256Digest runId worker (unadvanced lease run) (fun _ s' => Ending s'.2) s := by
  refine Reacts.bind (reacts_releaseLease h) fun _ s₁ _ h₁ => ?_
  exact Reacts.bind (reacts_unnoted ending_requested within_getTasks rfl h₁)
    fun tasks s₂ _ h₂ => reacts_done h₂

theorem reacts_advance {workerId : String} {maximumTasks : Option Int} (h : Working runId s) :
    Reacts codec sha256Digest runId worker (A.advance runId workerId maximumTasks)
      (fun _ s' => Ending s'.2) s := by
  unfold Agent.advance
  split
  · exact fun _ _ _ => trivial
  · refine Reacts.bind (reacts_working (within_ofLease _) rfl h) fun lease s₁ _ h₁ => ?_
    refine Reacts.bind (Reacts.yields (p := sql (.getRun runId))
      (reacts_working (E := [.read]) (within_sql rfl) rfl h₁) getRun_yields)
      fun run s₂ _ h₂ => ?_
    obtain ⟨h₂, hrun⟩ := h₂
    split
    · refine Reacts.bind (reacts_pendingLifecycleRequest h₂.toHeeds) fun pending s₃ _ h₃ => ?_
      unfold Agent.advancePaused
      split
      · exact reacts_advanceRun hrun h₃.toHeeds
      · next hcancel => exact reacts_unadvanced fun h => absurd (h₃.cancelling h) hcancel
    · split
      · exact reacts_advanceRun hrun h₂.toHeeds
      · exact reacts_unadvanced h₂.ending

end Loop

end DurableAgent.Orchestration
