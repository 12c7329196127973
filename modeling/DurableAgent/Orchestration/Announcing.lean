import DurableAgent.Orchestration.Endings
import DurableAgent.Orchestration.Failures
import DurableAgent.Orchestration.LoopRule
import DurableAgent.Recovery.Manager

/-!
# The loop announces what it owes

Every part of the loop that brings a run to its end announces that end before it returns, but for
the failures of a batch.
-/

namespace DurableAgent.Orchestration

open Library Library.Prog Store Contract

variable {Text ι : Type} [DecidableEq ι] {codec : Codec Text} {sha256Digest : String → String}
  {A : Agent Text} {i : ι} {s s' : StoreState Text × Account ι} {α β : Type}
  {op : StoreOp Text β} {x : Except Exn β} {L : List (RunEnd ι)} {b : Bool}

/-- What a thread owes, and whether it is at work. -/
structure Owes (i : ι) (L : List (RunEnd ι)) (b : Bool) (s : StoreState Text × Account ι) : Prop where
  owed : (s.2.owed.filter fun d => d.mover = i) = L
  working : s.2.working i = b

theorem Owes.share (h : Owes i L b s) (hshare : s'.2.share i = s.2.share i) : Owes i L b s' := by
  obtain ⟨howed, hrest⟩ := Prod.mk.inj hshare
  exact ⟨howed.trans h.owed, (Prod.mk.inj hrest).1.trans h.working⟩

theorem Owes.same (h : Owes i L b s) (howed : s'.2.owed = s.2.owed)
    (hworking : s'.2.working = s.2.working) : Owes i L b s' :=
  ⟨by rw [howed]; exact h.owed, by rw [hworking]; exact h.working⟩

theorem endingExec_cases (hop : lastingExec codec sha256Digest i β op s x s') :
    (∃ t, EndsOnce i β op s ∧ handle codec sha256Digest β op t s.1 = (x, s'.1) ∧
      s'.2 = noteEnding i β op x s.1 s.2) ∨ ∃ e, x = .error e ∧ s' = s :=
  Handler.noted_cases hop.1

theorem lastingExec_answered (hop : lastingExec codec sha256Digest i β op s x s') :
    Answered β op x := by
  rcases endingExec_cases hop with ⟨t, -, hhandle, -⟩ | ⟨e, rfl, -⟩
  · rw [← (Prod.mk.inj hhandle).1]
    exact answered_handle
  · exact answered_error

/-! ## Calls that leave what is owed -/

/-- The kinds of calls that announce no end. -/
def Effect.silent : Effect → Bool
  | .publish eventType => eventType ∉ endEvents
  | _ => true

/-- The kinds of calls that a thread at work may issue. -/
def Effect.steady : Effect → Bool
  | .check _ => false
  | e => e.silent

/-- The kinds of calls after which a thread owes what it owed. -/
def Effect.unmoving : Effect → Bool
  | .updateRun => false
  | e => e.silent

/-- The kinds of calls that a thread may issue at any time. -/
def Effect.idle : Effect → Bool
  | .check _ | .startTaskAttempt => false
  | e => e.unmoving

theorem publish_unowed {a : Account ι} {event : Checkpoints.Event}
    (h : event.eventType ∉ endEvents) : a.publish i event = a := by
  have howed : (a.owed.filter fun d => ¬ Announces i event d) = a.owed := by
    refine List.filter_eq_self.mpr fun d _ => decide_eq_true fun hannounces => ?_
    exact h (endEvent_mem hannounces.2.2)
  unfold Account.publish
  rw [howed]

omit [DecidableEq ι] in
theorem announcing_pre [DecidableEq ι] (h : ∀ event ∈ published β op, event.eventType ∉ endEvents) :
    (announcing i).pre β op s :=
  fun event hevent hend => absurd hend (h event hevent)

theorem silent_published (h : (effectOf β op).silent = true) :
    ∀ event ∈ published β op, event.eventType ∉ endEvents := by
  intro event hevent
  cases op with
  | checkpoint op =>
    cases op with
    | publish event' =>
      obtain rfl : event' = event := Option.some.inj hevent
      exact of_decide_eq_true h
    | _ => cases hevent
  | _ => cases hevent

theorem steady_silent {e : Effect} (h : e.steady = true) : e.silent = true := by
  cases e <;> first | rfl | exact h

theorem unmoving_silent {e : Effect} (h : e.unmoving = true) : e.silent = true := by
  cases e <;> first | rfl | exact h

theorem idle_unmoving {e : Effect} (h : e.idle = true) : e.unmoving = true := by
  cases e <;> first | exact h | cases h

theorem noteEnding_owed {a : Account ι} {s : StoreState Text}
    (h : (effectOf β op).unmoving = true) : (noteEnding i β op x s a).owed = a.owed := by
  cases op with
  | sql op =>
    cases op with
    | updateRun run v => cases h
    | pendingRequest _ _ | startTaskAttempt _ _ _ | insertIdempotencyKey _ | getIdempotencyKey _ =>
      cases x <;> rfl
    | _ => rfl
  | checkpoint op =>
    cases op with
    | publish event =>
      cases x with
      | error e => rfl
      | ok _ =>
        change (a.publish i event).owed = a.owed
        rw [publish_unowed (of_decide_eq_true h)]
    | _ => rfl
  | _ => rfl

theorem noteEnding_working {a : Account ι} {s : StoreState Text}
    (h : (effectOf β op).idle = true) : (noteEnding i β op x s a).working = a.working := by
  cases op with
  | sql op =>
    cases op with
    | updateRun run v => cases h
    | pendingRequest runId kind => cases h
    | startTaskAttempt runId taskId n => cases h
    | insertIdempotencyKey _ | getIdempotencyKey _ => cases x <;> rfl
    | _ => rfl
  | checkpoint op =>
    cases op with
    | publish event => cases x <;> rfl
    | _ => rfl
  | _ => rfl

theorem Owes.idle (h : Owes i L b s) (hidle : (effectOf β op).idle = true)
    (hop : lastingExec codec sha256Digest i β op s x s') : Owes i L b s' := by
  rcases endingExec_cases hop with ⟨t, -, -, hnote⟩ | ⟨e, -, rfl⟩
  · exact h.same (by rw [hnote, noteEnding_owed (idle_unmoving hidle)])
      (by rw [hnote, noteEnding_working hidle])
  · exact h

/-- An update that brings no run to an end. -/
theorem Owes.update {run : RunRecord} {v : Nat} {x : Except Exn RunRecord} (h : Owes i L b s)
    (hmove : endEvent run.state ≠ none → b = true)
    (hop : lastingExec codec sha256Digest i _ (.sql (.updateRun run v)) s x s') : Owes i L b s' := by
  rcases endingExec_cases hop with ⟨t, honce, -, hnote⟩ | ⟨e, -, rfl⟩
  · cases x with
    | error e => exact h.same (by rw [hnote]; rfl) (by rw [hnote]; rfl)
    | ok run' =>
      have hunmoved : ¬ (endEvent run.state ≠ none ∧ ¬ Ended s.1 run.runId) := by
        rintro ⟨hend, hended⟩
        exact hended ((honce hend).mpr (h.working.trans (hmove hend)))
      change s'.2 = s.2.update i run s.1 at hnote
      rw [Account.update, if_neg hunmoved] at hnote
      exact h.same (by rw [hnote]) (by rw [hnote])
  · exact h

/-- A thread at work owes what it owed. -/
theorem Owes.steady (h : Owes i L true s) (hsteady : (effectOf β op).steady = true)
    (hop : lastingExec codec sha256Digest i β op s x s') : Owes i L true s' := by
  by_cases hidle : (effectOf β op).idle = true
  · exact h.idle hidle hop
  · cases op with
    | sql op =>
      cases op with
      | updateRun run v => exact h.update (fun _ => rfl) hop
      | startTaskAttempt runId taskId n =>
        rcases endingExec_cases hop with ⟨t, -, -, hnote⟩ | ⟨e, -, rfl⟩
        · cases x with
          | error e => exact h.same (by rw [hnote]; rfl) (by rw [hnote]; rfl)
          | ok _ =>
            refine ⟨by rw [hnote]; exact h.owed, ?_⟩
            rw [hnote]
            exact Function.update_self _ _ _
        · exact h
      | pendingRequest runId kind => cases hsteady
      | _ => exact absurd rfl hidle
    | checkpoint op =>
      cases op with
      | publish event => exact absurd hsteady hidle
      | _ => exact absurd rfl hidle
    | _ => exact absurd rfl hidle

/-! ## Programs -/

abbrev Announced (codec : Codec Text) (sha256Digest : String → String) (i : ι)
    (p : StoreProg Text α) (R : α → StoreState Text × Account ι → Prop)
    (s : StoreState Text × Account ι) : Prop :=
  (announcing i).Meets (lastingExec codec sha256Digest i) p (onOk R) s

theorem announced_done {a : α} (h : Owes i L b s) :
    Announced codec sha256Digest i (Pure.pure a : StoreProg Text α) (fun _ s' => Owes i L b s') s :=
  fun _ hs' _ => h.share hs'

theorem announced_idle {E : List Effect} {p : StoreProg Text α} (hp : p.Calls (Within E))
    (hE : E.all Effect.idle = true) (h : Owes i L b s) :
    Announced codec sha256Digest i p (fun _ s' => Owes i L b s') s := by
  have hcalls : p.Calls fun δ op => (effectOf δ op).idle = true :=
    calls_of_within hp hE fun _ _ h => h
  refine Meets.kept (fun s s' hrely _ hs => Owes.share hs hrely) hcalls h
    fun δ op s hop hinv hs => ?_
  have hpre : (announcing i).pre δ op s := announcing_pre (silent_published (unmoving_silent (idle_unmoving hop)))
  refine ⟨hpre, fun x s' hexec => ?_⟩
  obtain ⟨hguar, hinv'⟩ := announcing_step hinv hpre hexec
  exact ⟨hguar, hinv', hs.idle hop hexec⟩

theorem announced_steady {E : List Effect} {p : StoreProg Text α} (hp : p.Calls (Within E))
    (hE : E.all Effect.steady = true) (h : Owes i L true s) :
    Announced codec sha256Digest i p (fun _ s' => Owes i L true s') s := by
  have hcalls : p.Calls fun δ op => (effectOf δ op).steady = true :=
    calls_of_within hp hE fun _ _ h => h
  refine Meets.kept (fun s s' hrely _ hs => Owes.share hs hrely) hcalls h
    fun δ op s hop hinv hs => ?_
  have hpre : (announcing i).pre δ op s := announcing_pre (silent_published (steady_silent hop))
  refine ⟨hpre, fun x s' hexec => ?_⟩
  obtain ⟨hguar, hinv'⟩ := announcing_step hinv hpre hexec
  exact ⟨hguar, hinv', hs.steady hop hexec⟩

/-- One call that publishes nothing, and what its note leaves. -/
theorem announced_sql {op : SqlOp α} {R : α → StoreState Text × Account ι → Prop}
    (h : Owes i L b s)
    (hR : ∀ a s₁ s₂, s₂.2.share i = s₁.2.share i → R a s₁ → R a s₂)
    (hop : ∀ a s₁ s₂, Owes i L b s₁ → lastingExec codec sha256Digest i α (.sql op) s₁ (.ok a) s₂ →
      R a s₂) :
    Announced codec sha256Digest i (sql op) R s := by
  intro s₁ hs₁ hinv
  have hpre : (announcing i).pre α (.sql op) s₁ := announcing_pre fun _ hevent => by cases hevent
  refine ⟨hpre, fun x s₂ hexec => ?_⟩
  obtain ⟨hguar, hinv'⟩ := announcing_step hinv hpre hexec
  refine ⟨hguar, hinv', fun s' hs' _ => ?_⟩
  cases x with
  | error e => exact trivial
  | ok a => exact hR a s₂ s' hs' (hop a s₁ s₂ (h.share hs₁) hexec)

theorem announced_pendingRequest {runId : String} {kind : LifecycleKind} (h : Owes i L b s) :
    Announced codec sha256Digest i (sql (.pendingRequest runId kind))
      (fun _ s' => Owes i L false s') s := by
  refine announced_sql h (fun _ _ _ hs h => h.share hs) fun a s₁ s₂ h₁ hop => ?_
  rcases endingExec_cases hop with ⟨t, -, -, hnote⟩ | ⟨e, ⟨⟩, -⟩
  refine ⟨by rw [hnote]; exact h₁.owed, ?_⟩
  rw [hnote]
  exact Function.update_self _ _ _

theorem announced_pendingLifecycleRequest {runId : String} (h : Owes i L b s) :
    Announced codec sha256Digest i (pendingLifecycleRequest runId)
      (fun _ s' => Owes i L false s') s := by
  refine Meets.next (announced_pendingRequest h) fun answer s₁ _ h₁ => ?_
  cases answer with
  | some request => exact fun s' hs' _ => h₁.share hs'
  | none => exact announced_pendingRequest h₁

theorem announced_startTaskAttempt {runId taskId : String} {n : Nat} (h : Owes i L b s) :
    Announced codec sha256Digest i (sql (.startTaskAttempt runId taskId n))
      (fun _ s' => Owes i L true s') s := by
  refine announced_sql h (fun _ _ _ hs h => h.share hs) fun a s₁ s₂ h₁ hop => ?_
  rcases endingExec_cases hop with ⟨t, -, -, hnote⟩ | ⟨e, ⟨⟩, -⟩
  refine ⟨by rw [hnote]; exact h₁.owed, ?_⟩
  rw [hnote]
  exact Function.update_self _ _ _

/-- A run is brought to an end, which is owed from then on. -/
theorem announced_end {run : RunRecord} {v : Nat} (hend : endEvent run.state ≠ none)
    (h : Owes i [] false s) :
    Announced codec sha256Digest i (sql (.updateRun run v))
      (fun run' s' => run'.runId = run.runId ∧ Owes i [⟨i, run.runId, run.state⟩] false s') s := by
  refine announced_sql h (fun _ _ _ hs h => ⟨h.1, h.2.share hs⟩) fun run' s₁ s₂ h₁ hop => ?_
  have hanswer : run' = withVersion run v := lastingExec_answered hop
  refine ⟨by rw [hanswer]; rfl, ?_⟩
  rcases endingExec_cases hop with ⟨t, honce, -, hnote⟩ | ⟨e, ⟨⟩, -⟩
  have hmove : endEvent run.state ≠ none ∧ ¬ Ended s₁.1 run.runId := by
    refine ⟨hend, fun hended => ?_⟩
    have hworking := (honce hend).mp hended
    rw [h₁.working] at hworking
    cases hworking
  change s₂.2 = s₁.2.update i run s₁.1 at hnote
  rw [Account.update, if_pos hmove] at hnote
  refine ⟨?_, by rw [hnote]; exact h₁.working⟩
  rw [hnote]
  change ((⟨i, run.runId, run.state⟩ :: s₁.2.owed).filter fun d => d.mover = i) = _
  rw [List.filter_cons, if_pos (decide_eq_true rfl), h₁.owed]

theorem announced_endRun {run : RunRecord} {target : RunState} {activeTaskId : Option String}
    (hend : endEvent target ≠ none) (h : Owes i [] false s) :
    Announced codec sha256Digest i (endRun run target activeTaskId)
      (fun run' s' => run'.runId = run.runId ∧ Owes i [⟨i, run.runId, target⟩] false s') s := by
  unfold endRun
  cases htransition : transitionRun run.state target with
  | error e => exact fun _ _ _ => trivial
  | ok state =>
    obtain ⟨rfl, -⟩ := transitionRun_legal htransition
    refine Meets.next (p := sql .now) (announced_idle (E := [.read]) (within_sql rfl) rfl h)
      fun updated s₁ _ h₁ => ?_
    refine Meets.next (announced_idle (E := [.read]) (within_sql rfl) rfl h₁)
      fun finished s₂ _ h₂ => ?_
    exact announced_end hend h₂

/-- The end that is owed is announced. -/
theorem announced_publish {runId eventType : String} {state : RunState}
    {payload : List (String × Json)} (hevent : endEvent state = some eventType)
    (h : Owes i [⟨i, runId, state⟩] b s) :
    Announced codec sha256Digest i (publish runId eventType none payload)
      (fun _ s' => Owes i [] b s') s := by
  intro s₁ hs₁ hinv
  have h₁ := h.share hs₁
  have hmem : (⟨i, runId, state⟩ : RunEnd ι) ∈ s₁.2.owed := by
    have hown : (⟨i, runId, state⟩ : RunEnd ι) ∈ s₁.2.owed.filter fun d => d.mover = i := by
      rw [h₁.owed]
      exact List.mem_singleton_self _
    exact (List.mem_filter.mp hown).1
  have hpre : (announcing i).pre _ (.checkpoint (.publish ⟨runId, eventType, .obj payload, none⟩))
      s₁ := by
    intro event hpublished _
    obtain rfl := Option.some.inj hpublished
    exact ⟨_, hmem, rfl, rfl, hevent⟩
  refine ⟨hpre, fun x s₂ hexec => ?_⟩
  obtain ⟨hguar, hinv'⟩ := announcing_step hinv hpre hexec
  refine ⟨hguar, hinv', fun s' hs' _ => ?_⟩
  cases x with
  | error e => exact trivial
  | ok _ =>
    refine Owes.share ?_ hs'
    rcases endingExec_cases hexec with ⟨t, -, -, hnote⟩ | ⟨e, ⟨⟩, -⟩
    refine ⟨?_, by rw [hnote]; exact h₁.working⟩
    rw [hnote]
    change ((s₁.2.owed.filter fun d => ¬ Announces i _ d).filter fun d => d.mover = i) = []
    rw [List.filter_comm, h₁.owed, List.filter_cons_of_neg]
    · rfl
    · simp [Announces, hevent]

/-- An update that brings no run to an end leaves what is owed. -/
theorem announced_update {run : RunRecord} {v : Nat} (hend : endEvent run.state = none)
    (h : Owes i L b s) :
    Announced codec sha256Digest i (sql (.updateRun run v)) (fun _ s' => Owes i L b s') s :=
  announced_sql h (fun _ _ _ hs h => h.share hs) fun _ _ _ h₁ hop =>
    h₁.update (fun hne => absurd hend hne) hop

/-! ## The loop -/

section Loop

variable {lease : LeaseRecord} {run : RunRecord} {plan : PlanSpec} {tasks batch : List TaskRecord}
  {p : Progress} {request : LifecycleRequest}

/-- Nothing is owed. -/
def Clear (i : ι) (s : StoreState Text × Account ι) : Prop := ∃ b, Owes i [] b s

theorem announced_clear {E : List Effect} {q : StoreProg Text α} (hq : q.Calls (Within E))
    (hE : E.all Effect.idle = true) (h : Clear i s) :
    Announced codec sha256Digest i q (fun _ s' => Clear i s') s := by
  obtain ⟨b, h⟩ := h
  refine (announced_idle hq hE h).mono fun r s' _ hr => ?_
  cases r with
  | ok a => exact ⟨b, hr⟩
  | error e => exact trivial

theorem Clear.rest {a : α} (h : Clear i s) :
    Announced codec sha256Digest i (Pure.pure a : StoreProg Text α) (fun _ s' => Clear i s') s :=
  fun _ hs' _ => h.imp fun _ h => h.share hs'

theorem announced_abandon :
    Announced codec sha256Digest i (releaseLease lease) (fun _ _ => True) s := by
  refine (announced_idle (L := s.2.owed.filter fun d => d.mover = i) (b := s.2.working i)
    (within_ofLease _) rfl ⟨rfl, rfl⟩).mono fun r s' _ _ => ?_
  cases r <;> exact trivial

theorem announced_cancel (h : Owes i [] false s) :
    Announced codec sha256Digest i (A.cancel run plan tasks request)
      (fun _ s' => Owes i [] false s') s := by
  refine Meets.next (announced_idle (Calls.mapM' (fun _ => within_cancelTask) tasks) rfl h)
    fun updated s₁ _ h₁ => ?_
  refine Meets.next (announced_idle (E := [.read]) (within_sql rfl) rfl h₁) fun run s₂ _ h₂ => ?_
  refine Meets.next (announced_endRun nofun h₂) fun run' s₃ _ h₃ => ?_
  obtain ⟨hid, h₃⟩ := h₃
  rw [← hid] at h₃
  refine Meets.next (announced_idle (E := [.applyLifecycleRequest]) (within_sql rfl) rfl h₃)
    fun _ s₄ _ h₄ => ?_
  refine Meets.next (announced_idle within_writeCheckpoint rfl h₄) fun checkpoint s₅ _ h₅ => ?_
  exact Meets.next (announced_publish rfl h₅) fun _ s₆ _ h₆ => announced_done h₆

theorem announced_pause (h : Owes i [] false s) :
    Announced codec sha256Digest i (A.pause run plan tasks request)
      (fun _ s' => Owes i [] false s') s := by
  refine Meets.next (announced_idle (E := [.read]) (within_sql rfl) rfl h) fun run s₁ _ h₁ => ?_
  cases htransition : pausedState run.state with
  | error e => exact fun _ _ _ => trivial
  | ok state =>
    obtain ⟨rfl, -⟩ := pausedState_eq_ok htransition
    refine Meets.next (p := sql .now) (announced_idle (E := [.read]) (within_sql rfl) rfl h₁)
      fun now s₂ _ h₂ => ?_
    refine Meets.next (announced_update rfl h₂) fun run' s₃ _ h₃ => ?_
    refine Meets.next (announced_idle (E := [.applyLifecycleRequest]) (within_sql rfl) rfl h₃)
      fun _ s₄ _ h₄ => ?_
    refine Meets.next (announced_idle within_writeCheckpoint rfl h₄) fun checkpoint s₅ _ h₅ => ?_
    exact Meets.next (announced_idle (E := [.publish "run.paused"]) (within_publish (by decide))
      rfl h₅) fun _ s₆ _ h₆ => announced_done h₆

theorem announced_handleRequest (h : Owes i [] false s) :
    Announced codec sha256Digest i (A.handleRequest plan p request)
      (fun _ s' => Clear i s') s := by
  unfold Agent.handleRequest
  split
  · refine Meets.next (announced_cancel h) fun r s₁ _ h₁ => ?_
    exact Meets.next (announced_idle within_generateReport rfl h₁)
      fun _ s₂ _ h₂ => Clear.rest ⟨_, h₂⟩
  · exact Meets.next (announced_pause h) fun r s₁ _ h₁ => Clear.rest ⟨_, h₁⟩

theorem announced_completeRun (h : Owes i [] false s) :
    Announced codec sha256Digest i (A.completeRun run plan p)
      (fun _ s' => Owes i [] false s') s := by
  refine Meets.next (announced_endRun nofun h) fun run' s₁ _ h₁ => ?_
  obtain ⟨hid, h₁⟩ := h₁
  rw [← hid] at h₁
  refine Meets.next (announced_idle within_writeCheckpoint rfl h₁) fun checkpoint s₂ _ h₂ => ?_
  refine Meets.next (announced_idle within_generateReport rfl h₂) fun reportId s₃ _ h₃ => ?_
  exact Meets.next (announced_publish rfl h₃) fun _ s₄ _ h₄ => announced_done h₄

theorem announced_failStuckRun (h : Owes i [] false s) :
    Announced codec sha256Digest i (A.failStuckRun run plan tasks)
      (fun _ s' => Owes i [] false s') s := by
  refine Meets.next (announced_idle (E := [.read]) (within_sql rfl) rfl h) fun run s₁ _ h₁ => ?_
  refine Meets.next (announced_endRun nofun h₁) fun run' s₂ _ h₂ => ?_
  obtain ⟨hid, h₂⟩ := h₂
  rw [← hid] at h₂
  refine Meets.next (announced_publish rfl h₂) fun _ s₃ _ h₃ => ?_
  exact Meets.next (announced_idle within_writeCheckpoint rfl h₃)
    fun checkpoint s₄ _ h₄ => announced_done h₄

theorem announced_concludeRun (h : Owes i [] false s) :
    Announced codec sha256Digest i (A.concludeRun plan p) (fun _ s' => Owes i [] false s') s := by
  refine Meets.next (announced_idle (E := [.read]) (within_sql rfl) rfl h) fun run s₁ _ h₁ => ?_
  split
  · exact announced_completeRun h₁
  · refine Meets.next (announced_failStuckRun h₁) fun r s₂ _ h₂ => ?_
    exact Meets.next (announced_idle within_generateReport rfl h₂)
      fun _ s₃ _ h₃ => announced_done h₃

/-- Once a task is started the thread is at work. -/
theorem announced_startTask {runId : String} {n : Nat} {candidate : TaskRecord}
    (h : Owes i [] b s) :
    Announced codec sha256Digest i (startTask runId n tasks candidate)
      (fun _ s' => Owes i [] true s') s := by
  unfold startTask
  cases htransition : transitionTask candidate.state .RUNNING with
  | error e => exact fun _ _ _ => trivial
  | ok state =>
    refine Meets.next (p := sql .now) (announced_idle (E := [.read]) (within_sql rfl) rfl h)
      fun now s₁ _ h₁ => ?_
    refine Meets.next (announced_idle (E := [.updateTask]) (within_sql rfl) rfl h₁)
      fun task s₂ _ h₂ => ?_
    refine Meets.next (announced_startTaskAttempt h₂) fun attemptId s₃ _ h₃ => ?_
    exact Meets.next (announced_idle (E := [.publish "task.started"]) (within_publish (by decide))
      rfl h₃) fun _ s₄ _ h₄ => announced_done h₄

theorem announced_startBatch (hbatch : batch ≠ []) (h : Owes i [] b s) :
    Announced codec sha256Digest i (A.startBatch run plan tasks batch)
      (fun _ s' => Owes i [] true s') s := by
  obtain ⟨candidate, rest, rfl⟩ := List.exists_cons_of_ne_nil hbatch
  refine Meets.next (R := fun _ s' => Owes i [] true s') ?_ fun r s₁ _ h₁ => ?_
  · refine Meets.next (announced_startTask h) fun r s₁ _ h₁ => ?_
    exact Meets.next (announced_steady within_startTasks rfl h₁)
      fun _ s₂ _ h₂ => announced_done h₂
  · refine Meets.next (announced_steady (E := [.read]) (within_sql rfl) rfl h₁)
      fun current s₂ _ h₂ => ?_
    refine Meets.next (announced_steady (E := [.read]) (within_sql rfl) rfl h₂) fun now s₃ _ h₃ => ?_
    refine Meets.next (announced_steady (E := [.updateRun]) (within_sql rfl) rfl h₃)
      fun run s₄ _ h₄ => ?_
    exact Meets.next (announced_steady within_checkpointIf rfl h₄) fun _ s₅ _ h₅ => announced_done h₅

theorem announced_turn {maximumTasks : Option Nat} (h : Clear i s) :
    Announced codec sha256Digest i (A.turn plan maximumTasks p)
      (AfterTurn (fun _ => Clear i) (fun _ => Clear i) fun _ _ => Owes i [] true) s := by
  obtain ⟨b, h⟩ := h
  refine Meets.next (announced_pendingLifecycleRequest h) fun request s₁ _ h₁ => ?_
  cases request with
  | some request =>
    exact Meets.next (announced_handleRequest h₁) fun p s₂ _ h₂ s' hs' _ =>
      h₂.imp fun _ h => h.share hs'
  | none =>
    unfold Agent.turnFor
    dsimp only
    split
    · exact fun s' hs' _ => ⟨_, h₁.share hs'⟩
    · refine Meets.next (announced_idle within_promoteReady rfl h₁) fun tasks s₂ _ h₂ => ?_
      cases hready : readyTasks tasks with
      | error e => exact fun _ _ _ => trivial
      | ok candidates =>
        change Announced _ _ _ (if candidates.isEmpty then _ else _) _ _
        split
        · refine Meets.next (announced_pendingLifecycleRequest h₂) fun request s₃ _ h₃ => ?_
          cases request with
          | some request => exact fun s' hs' _ => ⟨_, h₃.share hs'⟩
          | none =>
            exact Meets.next (announced_concludeRun h₃) fun p s₄ _ h₄ s' hs' _ => ⟨_, h₄.share hs'⟩
        · next hcandidates =>
          have hbatch : A.selectBatch candidates p.executed maximumTasks ≠ [] := by
            refine selectBatch_ne_nil fun hnil => hcandidates ?_
            rw [hnil]
            rfl
          exact Meets.next (announced_startBatch hbatch h₂) fun r s₃ _ h₃ s' hs' _ => h₃.share hs'

theorem announced_loopRule (plan : PlanSpec) (maximumTasks : Option Nat) :
    LoopRule (announcing i) (lastingExec codec sha256Digest i) A plan maximumTasks
      (fun _ => Clear i) (fun _ => Clear i) (fun _ _ => Owes i [] true)
      (fun _ _ _ => Owes i [] true) where
  turn _ h := announced_turn h
  batch _ h := announced_steady within_executeBatch rfl h
  settle _ h := by
    refine (announced_steady within_settleBatch rfl h).mono fun r s' _ hr => ?_
    cases r with
    | error e => exact trivial
    | ok settled =>
      obtain ⟨p, ends⟩ := settled
      cases ends <;> exact ⟨_, hr⟩
  release _ h := announced_clear (within_ofLease _) rfl h
  abandon _ := announced_abandon
  stay hs' _ h := h.imp fun _ h => h.share hs'

/-- Around the loop nothing is owed that was not. -/
theorem announced_entry {q : StoreProg Text α} (hq : q.Calls (Within entryEffects))
    (h : Clear i s) : Announced codec sha256Digest i q (fun _ s' => Clear i s') s := by
  have hcalls : q.Calls fun δ op => (effectOf δ op).unmoving = true :=
    calls_of_within hq (rfl : entryEffects.all Effect.unmoving = true) fun _ _ h => h
  refine Meets.kept (K := fun s : StoreState Text × Account ι => Clear i s)
    (fun s s' hrely _ hs => hs.imp fun _ h => h.share hrely) hcalls h fun δ op s hop hinv hs => ?_
  have hpre : (announcing i).pre δ op s := announcing_pre (silent_published (unmoving_silent hop))
  refine ⟨hpre, fun x s' hexec => ?_⟩
  obtain ⟨hguar, hinv'⟩ := announcing_step hinv hpre hexec
  refine ⟨hguar, hinv', ?_⟩
  rcases endingExec_cases hexec with ⟨t, -, -, hnote⟩ | ⟨e, -, rfl⟩
  · obtain ⟨b, hs⟩ := hs
    exact ⟨_, by rw [hnote, noteEnding_owed hop]; exact hs.owed, rfl⟩
  · exact hs

theorem announced_advance {runId workerId : String} {maximumTasks : Option Int} (h : Clear i s) :
    Announced codec sha256Digest i (A.advance runId workerId maximumTasks)
      (fun _ s' => Clear i s') s :=
  advance_rule (fun _ _ hs' _ h => h.imp fun _ h => h.share hs')
    (fun _ _ _ hq h => announced_entry hq h)
    (fun plan maximumTasks _ _ _ hinv h => (announced_loopRule plan maximumTasks).loop hinv h) h

end Loop

end DurableAgent.Orchestration
