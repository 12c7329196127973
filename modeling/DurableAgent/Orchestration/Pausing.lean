import DurableAgent.Library.Contract
import DurableAgent.Library.History
import DurableAgent.Orchestration.Requests

/-!
# Requests for a pause and the pause that follows

Requests are acknowledged one at a time, each by the worker whose check found it. What is left of
them after the run was brought to a pause depends on which were pending then.
-/

namespace DurableAgent.Orchestration

open Library Library.Prog Store

variable {Text ι : Type} [DecidableEq ι]

/-! ## What is noted of the worker -/

/-- The pause that the worker's last check found; all requests for a pause that were there when the
worker brought the run to one; and the request that it still has to acknowledge for it. -/
structure PauseNote where
  handled : Option (LifecycleKind × String) := none
  earlier : List LifecycleRequest := []
  owed : Option (LifecycleKind × String) := none
  deriving DecidableEq

/-- The update brings a run to a pause. -/
def Pauses (run : RunRecord) (expectedVersion : Nat) (s : StoreState Text) : Prop :=
  run.state = .PAUSED ∧ ∃ row ∈ s.runs.rows, row.runId = run.runId ∧
    row.version = expectedVersion ∧ row.state ≠ .PAUSED

instance (run : RunRecord) (expectedVersion : Nat) (s : StoreState Text) :
    Decidable (Pauses run expectedVersion s) :=
  inferInstanceAs (Decidable (_ ∧ ∃ _ ∈ _, _ ∧ _ ∧ _))

/-- The requests for a pause of a run. -/
def pausesOf (runId : String) (s : StoreState Text) : List LifecycleRequest :=
  s.requests.rows.filter fun row => row.kind = .pause ∧ row.runId = runId

/-- The pauses that were there when the run was brought to one are noted. -/
def PauseNote.update (n : PauseNote) (run : RunRecord) (expectedVersion : Nat)
    (s : StoreState Text) : PauseNote :=
  if Pauses run expectedVersion s then
    { n with earlier := n.earlier ++ pausesOf run.runId s, owed := n.handled }
  else n

def PauseNote.acknowledge (n : PauseNote) (request : LifecycleRequest) : PauseNote :=
  if n.owed = some (requestPk request) then { n with owed := none } else n

def notePauses : Note (StoreOp Text) Exn (StoreState Text) PauseNote
  | _, .sql (.pendingRequest _ .cancel), .ok _, _, n => { n with handled := none }
  | _, .sql (.pendingRequest _ .pause), .ok answer, _, n => { n with handled := answer.map requestPk }
  | _, .sql (.updateRun run expectedVersion), .ok _, s, n => n.update run expectedVersion s
  | _, .sql (.applyLifecycleRequest request), .ok _, _, n => n.acknowledge request
  | _, _, _, _, n => n

/-- Nothing is noted of the other threads. -/
def noteWatched (worker i : ι) : Note (StoreOp Text) Exn (StoreState Text) PauseNote :=
  if i = worker then notePauses else fun _ _ _ _ n => n

/-- The worker brings a run to a pause only while no request for a pause is pending but the one that
it handles. -/
def HandlesAll (worker i : ι) : (β : Type) → StoreOp Text β → StoreState Text × PauseNote → Prop
  | _, .sql (.updateRun run expectedVersion), s => i = worker → Pauses run expectedVersion s.1 →
    ∀ request ∈ pausesOf run.runId s.1, request.status = .PENDING →
      s.2.handled = some (requestPk request)
  | _, _, _ => True

/-- The run that the call updates, with the version that it expects. -/
def updatedRun : (β : Type) → StoreOp Text β → Option (RunRecord × Nat)
  | _, .sql (.updateRun run expectedVersion) => some (run, expectedVersion)
  | _, _ => none

omit [DecidableEq ι] in
theorem handlesAll_iff {worker i : ι} {β : Type} {op : StoreOp Text β}
    {s : StoreState Text × PauseNote} :
    HandlesAll worker i β op s ↔
      ∀ update ∈ updatedRun β op, ¬ (i = worker ∧ Pauses update.1 update.2 s.1) ∨
        ∀ request ∈ pausesOf update.1.runId s.1,
          request.status ≠ .PENDING ∨ s.2.handled = some (requestPk request) := by
  cases op with
  | sql op =>
    cases op with
    | updateRun run expectedVersion =>
      simp only [HandlesAll, updatedRun, Option.mem_some_iff, forall_eq']
      rw [not_and_or, or_assoc]
      simp only [imp_iff_not_or]
    | _ => simp [HandlesAll, updatedRun]
  | _ => simp [HandlesAll, updatedRun]

instance (worker i : ι) (β : Type) (op : StoreOp Text β) (s : StoreState Text × PauseNote) :
    Decidable (HandlesAll worker i β op s) :=
  decidable_of_iff _ handlesAll_iff.symm

abbrev pausingExec (codec : Codec Text) (sha256Digest : String → String) (worker i : ι) :
    Exec (StoreOp Text) Exn (StoreState Text × PauseNote) :=
  (((handle codec sha256Digest).recorded (noteWatched worker i)).exec.guard
    (HandlesAll worker i)).withFaults

/-! ## What is acknowledged -/

variable {codec : Codec Text} {sha256Digest : String → String} {A : Agent Text}
  {worker i : ι} {s s' : StoreState Text × PauseNote} {α β : Type} {op : StoreOp Text β}
  {x : Except Exn β} {due : Option (LifecycleKind × String)} {request : LifecycleRequest}

/-- What was requested before the pause is acknowledged, but for what is owed. -/
def Covered (s : StoreState Text × PauseNote) : Prop :=
  ∀ request ∈ s.2.earlier, Acknowledged (requestPk request) s.1 ∨
    s.2.owed = some (requestPk request)

/-- The worker relies on what is acknowledged, and on its own notes. -/
def consuming : Contract (StoreOp Text) (StoreState Text × PauseNote) where
  inv := Covered
  rely s s' := SettledStay s.1 s'.1 ∧ s'.2 = s.2
  guar _ _ := True
  pre _ _ _ := True
  refl _ := ⟨fun _ h _ => h, rfl⟩
  trans h h' := ⟨fun row hrow hstatus => h'.1 row (h.1 row hrow hstatus) hstatus, h'.2.trans h.2⟩

theorem Covered.evolve (h : Covered s) (hstay : SettledStay s.1 s'.1)
    (hearlier : s'.2.earlier = s.2.earlier) (howed : s'.2.owed = s.2.owed) : Covered s' := by
  intro request hrequest
  rw [hearlier] at hrequest
  rw [howed]
  exact (h request hrequest).imp_left hstay.acknowledged

theorem pausingExec_cases (hop : pausingExec codec sha256Digest worker worker β op s x s') :
    (∃ t, HandlesAll worker worker β op s ∧ handle codec sha256Digest β op t s.1 = (x, s'.1) ∧
      s'.2 = notePauses β op x s.1 s.2) ∨ ∃ e, x = .error e ∧ s' = s := by
  rcases Handler.noted_cases hop with ⟨t, hhandles, hhandle, hnote⟩ | hfault
  · rw [noteWatched, if_pos rfl] at hnote
    exact .inl ⟨t, hhandles, hhandle, hnote⟩
  · exact .inr hfault

theorem pausingExec_other (hi : i ≠ worker)
    (hop : pausingExec codec sha256Digest worker i β op s x s') :
    SettledStay s.1 s'.1 ∧ s'.2 = s.2 := by
  rcases Handler.noted_cases hop with ⟨t, -, hhandle, hnote⟩ | ⟨e, -, rfl⟩
  · rw [noteWatched, if_neg hi] at hnote
    exact ⟨handle_settledStay hhandle, hnote⟩
  · exact ⟨fun _ h _ => h, rfl⟩

/-! ## What the worker knows -/

/-- The request that the last check found is due, and nothing is owed. -/
structure Due (due : Option (LifecycleKind × String)) (s : StoreState Text × PauseNote) : Prop where
  handled : s.2.handled = due
  owed : s.2.owed = none

/-- The kinds of calls that look for no requests. -/
def Effect.unchecked : Effect → Bool
  | .check _ => false
  | _ => true

/-- The kinds of calls that bring no run to a pause. -/
def Effect.pauseless : Effect → Bool
  | .updateRun => false
  | _ => true

/-- Where a run is brought to a pause, all pending requests are the one that is handled. -/
theorem Covered.update {run : RunRecord} {v : Nat} (h : Covered s) (hdue : Due due s)
    (hstay : SettledStay s.1 s'.1)
    (hhandles : Pauses run v s.1 → ∀ request ∈ pausesOf run.runId s.1,
      request.status = .PENDING → s.2.handled = some (requestPk request))
    (hnote : s'.2 = s.2.update run v s.1) :
    Covered s' ∧ s'.2.handled = due ∧ (s'.2.owed = none ∨ s'.2.owed = due) := by
  unfold PauseNote.update at hnote
  by_cases hpauses : Pauses run v s.1
  · rw [if_pos hpauses] at hnote
    rw [hnote]
    refine ⟨?_, hdue.handled, .inr hdue.handled⟩
    intro request hrequest
    rw [hnote] at hrequest ⊢
    rcases List.mem_append.mp hrequest with hearlier | hnew
    · rcases h request hearlier with hack | howed
      · exact .inl (hstay.acknowledged hack)
      · rw [hdue.owed] at howed
        cases howed
    · by_cases hstatus : request.status = .PENDING
      · exact .inr (hhandles hpauses request hnew hstatus)
      · exact .inl (hstay.acknowledged ⟨request, (List.mem_filter.mp hnew).1, rfl, hstatus⟩)
  · rw [if_neg hpauses] at hnote
    rw [hnote]
    exact ⟨h.evolve hstay (by rw [hnote]) (by rw [hnote]), hdue.handled, .inl hdue.owed⟩

/-- Where a request is acknowledged, it is not owed any more. -/
theorem Covered.acknowledge (h : Covered s) (hstay : SettledStay s.1 s'.1)
    (hack : Acknowledged (requestPk request) s'.1) (hnote : s'.2 = s.2.acknowledge request) :
    Covered s' ∧ s'.2.handled = s.2.handled ∧
      (s.2.owed = none ∨ s.2.owed = some (requestPk request) → s'.2.owed = none) := by
  unfold PauseNote.acknowledge at hnote
  by_cases howed : s.2.owed = some (requestPk request)
  · rw [if_pos howed] at hnote
    rw [hnote]
    refine ⟨fun earlier hearlier => ?_, rfl, fun _ => rfl⟩
    rw [hnote] at hearlier
    rcases h earlier hearlier with hbefore | hdue
    · exact .inl (hstay.acknowledged hbefore)
    · rw [howed] at hdue
      rw [← Option.some.inj hdue]
      exact .inl hack
  · rw [if_neg howed] at hnote
    rw [hnote]
    exact ⟨h.evolve hstay (by rw [hnote]) (by rw [hnote]), rfl, fun h => h.resolve_right howed⟩

/-- Every other call leaves what is owed. -/
theorem Covered.step (h : Covered s) (hop' : (effectOf β op).pauseless = true)
    (hop : pausingExec codec sha256Digest worker worker β op s x s') :
    Covered s' ∧ ((effectOf β op).unchecked = true → s'.2.handled = s.2.handled) ∧
      (s.2.owed = none → s'.2.owed = none) := by
  rcases pausingExec_cases hop with ⟨t, -, hhandle, hnote⟩ | ⟨e, -, rfl⟩
  · have hstay := handle_settledStay hhandle
    have hsame (hnote : s'.2 = s.2) : Covered s' ∧
        ((effectOf β op).unchecked = true → s'.2.handled = s.2.handled) ∧
        (s.2.owed = none → s'.2.owed = none) := by
      rw [hnote]
      exact ⟨h.evolve hstay (by rw [hnote]) (by rw [hnote]), fun _ => rfl, id⟩
    cases op with
    | sql op =>
      cases op with
      | pendingRequest runId kind =>
        have howed : s'.2.earlier = s.2.earlier ∧ s'.2.owed = s.2.owed := by
          rw [hnote]
          cases kind <;> cases x <;> exact ⟨rfl, rfl⟩
        rw [howed.2]
        exact ⟨h.evolve hstay howed.1 howed.2, nofun, id⟩
      | updateRun run v => cases hop'
      | applyLifecycleRequest request =>
        cases x with
        | error e => exact hsame hnote
        | ok applied =>
          obtain ⟨hcovered, hhandled, howed⟩ :=
            h.acknowledge hstay (applyLifecycleRequest_acknowledges hhandle) hnote
          exact ⟨hcovered, fun _ => hhandled, fun hnone => howed (.inl hnone)⟩
      | _ => exact hsame hnote
    | _ => exact hsame hnote
  · exact ⟨h, fun _ => rfl, id⟩

/-! ## The loop -/

open Contract

abbrev Consumes (codec : Codec Text) (sha256Digest : String → String) (worker : ι)
    (p : StoreProg Text α) (R : α → StoreState Text × PauseNote → Prop)
    (s : StoreState Text × PauseNote) : Prop :=
  consuming.Meets (pausingExec codec sha256Digest worker worker) p (onOk R) s

theorem Due.same (h : Due due s) (hnote : s'.2 = s.2) : Due due s' :=
  ⟨by rw [hnote]; exact h.handled, by rw [hnote]; exact h.owed⟩

theorem consumes_unowed {E : List Effect} {p : StoreProg Text α} (hp : p.Calls (Within E))
    (hE : E.all Effect.pauseless = true) (h : s.2.owed = none) :
    Consumes codec sha256Digest worker p (fun _ s' => s'.2.owed = none) s := by
  have hcalls : p.Calls fun δ op => (effectOf δ op).pauseless = true :=
    calls_of_within hp hE fun _ _ h => h
  refine Meets.kept (K := fun s : StoreState Text × PauseNote => s.2.owed = none)
    (fun s s' hrely _ hs => by rw [hrely.2]; exact hs) hcalls h
    fun δ op s hop hcovered hs => ⟨trivial, fun x s' hexec => ?_⟩
  obtain ⟨hcovered', -, howed⟩ := Covered.step hcovered hop hexec
  exact ⟨trivial, hcovered', howed hs⟩

theorem consumes_due {E : List Effect} {p : StoreProg Text α} (hp : p.Calls (Within E))
    (hE : (E.all fun e => e.unchecked && e.pauseless) = true) (h : Due due s) :
    Consumes codec sha256Digest worker p (fun _ s' => Due due s') s := by
  have hcalls : p.Calls fun δ op =>
      (effectOf δ op).unchecked = true ∧ (effectOf δ op).pauseless = true :=
    calls_of_within hp hE fun _ _ h => by simpa using h
  refine Meets.kept (fun s s' hrely _ hs => hs.same hrely.2) hcalls h
    fun δ op s hop hcovered hs => ⟨trivial, fun x s' hexec => ?_⟩
  obtain ⟨hcovered', hhandled, howed⟩ := Covered.step hcovered hop.2 hexec
  exact ⟨trivial, hcovered', (hhandled hop.1).trans hs.handled, howed hs.owed⟩

theorem updateRun_step {run : RunRecord} {v : Nat} {x : Except Exn RunRecord} (h : Covered s)
    (hdue : Due due s)
    (hop : pausingExec codec sha256Digest worker worker _ (.sql (.updateRun run v)) s x s') :
    Covered s' ∧ s'.2.handled = due ∧ (s'.2.owed = none ∨ s'.2.owed = due) := by
  rcases pausingExec_cases hop with ⟨t, hhandles, hhandle, hnote⟩ | ⟨e, -, rfl⟩
  · have hstay := handle_settledStay hhandle
    cases x with
    | error e =>
      change s'.2 = s.2 at hnote
      rw [hnote]
      exact ⟨h.evolve hstay (by rw [hnote]) (by rw [hnote]), hdue.handled, .inl hdue.owed⟩
    | ok run' => exact h.update hdue hstay (hhandles rfl) hnote
  · exact ⟨h, hdue.handled, .inl hdue.owed⟩

/-- While no pause is due, none is owed. -/
theorem consumes_idle {E : List Effect} {p : StoreProg Text α} (hp : p.Calls (Within E))
    (hE : E.all Effect.unchecked = true) (h : Due none s) :
    Consumes codec sha256Digest worker p (fun _ s' => Due none s') s := by
  have hcalls : p.Calls fun δ op => (effectOf δ op).unchecked = true :=
    calls_of_within hp hE fun _ _ h => h
  refine Meets.kept (fun s s' hrely _ hs => hs.same hrely.2) hcalls h
    fun δ op s hop hcovered hs => ⟨trivial, fun x s' hexec => ?_⟩
  by_cases hpauseless : (effectOf δ op).pauseless = true
  · obtain ⟨hcovered', hhandled, howed⟩ := Covered.step hcovered hpauseless hexec
    exact ⟨trivial, hcovered', (hhandled hop).trans hs.handled, howed hs.owed⟩
  · cases op with
    | sql op =>
      cases op with
      | updateRun run v =>
        obtain ⟨hcovered', hhandled, howed⟩ := updateRun_step hcovered hs hexec
        exact ⟨trivial, hcovered', hhandled, howed.elim id id⟩
      | _ => exact absurd rfl hpauseless
    | checkpoint op => cases op <;> exact absurd rfl hpauseless
    | _ => exact absurd rfl hpauseless

/-- The run is brought to the pause that is due. -/
theorem consumes_updateRun {run : RunRecord} {v : Nat} (h : Due due s) :
    Consumes codec sha256Digest worker (sql (.updateRun run v))
      (fun _ s' => s'.2.owed = none ∨ s'.2.owed = due) s := by
  intro s₁ hs₁ hcovered
  refine ⟨trivial, fun x s₂ hop => ?_⟩
  obtain ⟨hcovered', -, howed⟩ := updateRun_step hcovered (h.same hs₁.2) hop
  refine ⟨trivial, hcovered', fun s' hs' _ => ?_⟩
  cases x with
  | error e => exact trivial
  | ok run' =>
    change s'.2.owed = none ∨ s'.2.owed = due
    rw [hs'.2]
    exact howed

/-- The request that was handled is acknowledged last. -/
theorem consumes_applyLifecycleRequest
    (h : s.2.owed = none ∨ s.2.owed = some (requestPk request)) :
    Consumes codec sha256Digest worker (sql (.applyLifecycleRequest request))
      (fun _ s' => s'.2.owed = none) s := by
  intro s₁ hs₁ hcovered
  rw [← hs₁.2] at h
  refine ⟨trivial, fun x s₂ hop => ⟨trivial, (Covered.step hcovered rfl hop).1, fun s' hs' _ => ?_⟩⟩
  cases x with
  | error e => exact trivial
  | ok applied =>
    rcases pausingExec_cases hop with ⟨t, -, hhandle, hnote⟩ | ⟨e, ⟨⟩, -⟩
    obtain ⟨-, -, howed⟩ := Covered.acknowledge hcovered (handle_settledStay hhandle)
      (applyLifecycleRequest_acknowledges hhandle) hnote
    change s'.2.owed = none
    rw [hs'.2]
    exact howed h

theorem pausingExec_answered
    (hop : pausingExec codec sha256Digest worker worker β op s x s') : Answered β op x := by
  rcases pausingExec_cases hop with ⟨t, -, hhandle, -⟩ | ⟨e, rfl, -⟩
  · rw [← (Prod.mk.inj hhandle).1]
    exact answered_handle
  · exact answered_error

/-- The pause that an answered check leaves to be handled. -/
def duePause (answer : Option LifecycleRequest) : Option (LifecycleKind × String) :=
  (answer.filter fun request => request.kind = .pause).map requestPk

theorem duePause_cancel (hkind : request.kind = .cancel) : duePause (some request) = none := by
  simp [duePause, Option.filter, hkind]

theorem duePause_pause (hkind : request.kind = .pause) :
    duePause (some request) = some (requestPk request) := by
  simp [duePause, Option.filter, hkind]

/-- After a look for a request what it found is due. -/
theorem consumes_pendingRequest {runId : String} {kind : LifecycleKind} (h : s.2.owed = none) :
    Consumes codec sha256Digest worker (sql (.pendingRequest runId kind))
      (fun answer s' => Due (duePause answer) s') s := by
  intro s₁ hs₁ hcovered
  rw [← hs₁.2] at h
  refine ⟨trivial, fun x s₂ hop => ?_⟩
  obtain ⟨hcovered', -, howed⟩ := Covered.step hcovered rfl hop
  refine ⟨trivial, hcovered', fun s' hs' _ => ?_⟩
  have hanswered := pausingExec_answered hop
  cases x with
  | error e => exact trivial
  | ok answer =>
    refine Due.same ⟨?_, howed h⟩ hs'.2
    rcases pausingExec_cases hop with ⟨t, -, -, hnote⟩ | ⟨e, ⟨⟩, -⟩
    rw [hnote]
    cases kind with
    | cancel =>
      cases answer with
      | none => rfl
      | some request => exact (duePause_cancel hanswered).symm
    | pause =>
      cases answer with
      | none => rfl
      | some request => exact (duePause_pause hanswered).symm

theorem consumes_pendingLifecycleRequest {runId : String} (h : s.2.owed = none) :
    Consumes codec sha256Digest worker (pendingLifecycleRequest runId)
      (fun answer s' => Due (duePause answer) s') s := by
  refine Meets.next (consumes_pendingRequest h) fun answer s₁ _ h₁ => ?_
  cases answer with
  | some request => exact fun s' hs' _ => h₁.same hs'.2
  | none => exact consumes_pendingRequest h₁.owed

theorem owed_of_same (h : s.2.owed = none) (hnote : s'.2 = s.2) : s'.2.owed = none := by
  rw [hnote]
  exact h

theorem consumes_done {a : α} (h : s.2.owed = none) :
    Consumes codec sha256Digest worker (Pure.pure a : StoreProg Text α)
      (fun _ s' => s'.2.owed = none) s :=
  fun _ hs' _ => owed_of_same h hs'.2

section Loop

variable {lease : LeaseRecord} {run : RunRecord} {plan : PlanSpec} {tasks : List TaskRecord}
  {p : Progress}

theorem consumes_pause (h : Due (some (requestPk request)) s) :
    Consumes codec sha256Digest worker (A.pause run plan tasks request)
      (fun _ s' => s'.2.owed = none) s := by
  refine Meets.next (consumes_due (E := [.read]) (within_sql rfl) rfl h) fun run s₁ _ h₁ => ?_
  refine Meets.next (p := Prog.ofExcept (pausedState run.state))
    (consumes_due (E := []) trivial rfl h₁) fun state s₂ _ h₂ => ?_
  refine Meets.next (consumes_due (E := [.read]) (within_sql rfl) rfl h₂) fun now s₃ _ h₃ => ?_
  refine Meets.next (consumes_updateRun h₃) fun run s₄ _ h₄ => ?_
  refine Meets.next (consumes_applyLifecycleRequest h₄) fun _ s₅ _ h₅ => ?_
  refine Meets.next (consumes_unowed within_writeCheckpoint rfl h₅) fun checkpoint s₆ _ h₆ => ?_
  exact Meets.next (consumes_unowed (E := [.publish "run.paused"]) (within_publish (by decide))
    rfl h₆) fun _ s₇ _ h₇ => consumes_done h₇

theorem consumes_handleRequest (h : Due (duePause (some request)) s) :
    Consumes codec sha256Digest worker (A.handleRequest plan p request)
      (fun _ s' => s'.2.owed = none) s := by
  unfold Agent.handleRequest
  split
  · next hkind =>
    rw [duePause_cancel hkind] at h
    refine Meets.next (consumes_idle within_cancel rfl h) fun r s₁ _ h₁ => ?_
    exact Meets.next (consumes_unowed within_generateReport rfl h₁.owed)
      fun _ s₂ _ h₂ => consumes_done h₂
  · next hkind =>
    rw [duePause_pause hkind] at h
    exact Meets.next (consumes_pause h) fun r s₁ _ h₁ => consumes_done h₁

/-- What the worker knows after a turn. -/
def TurnConsumes : Turn → StoreState Text × PauseNote → Prop
  | .batch _ _, s => Due none s
  | _, s => s.2.owed = none

theorem consumes_concludeTurn {request : Option LifecycleRequest} (h : Due (duePause request) s) :
    Consumes codec sha256Digest worker (A.concludeTurn plan p request) TurnConsumes s := by
  cases request with
  | some request => exact fun _ hs' _ => owed_of_same h.owed hs'.2
  | none =>
    exact Meets.next (consumes_idle within_concludeRun rfl h)
      fun p s₁ _ h₁ _ hs' _ => owed_of_same h₁.owed hs'.2

theorem consumes_scheduleTurn {maximumTasks : Option Nat} (h : Due none s) :
    Consumes codec sha256Digest worker (A.scheduleTurn plan maximumTasks p) TurnConsumes s := by
  refine Meets.next (consumes_idle within_promoteReady rfl h) fun tasks s₁ _ h₁ => ?_
  refine Meets.next (p := Prog.ofExcept (readyTasks tasks)) (consumes_idle (E := []) trivial rfl h₁)
    fun candidates s₂ _ h₂ => ?_
  split
  · exact Meets.next (consumes_pendingLifecycleRequest h₂.owed)
      fun request s₃ _ h₃ => consumes_concludeTurn h₃
  · exact Meets.next (consumes_idle within_startBatch rfl h₂)
      fun r s₃ _ h₃ _ hs' _ => h₃.same hs'.2

theorem consumes_turn {maximumTasks : Option Nat} (h : s.2.owed = none) :
    Consumes codec sha256Digest worker (A.turn plan maximumTasks p) TurnConsumes s := by
  refine Meets.next (consumes_pendingLifecycleRequest h) fun request s₁ _ h₁ => ?_
  cases request with
  | some request =>
    exact Meets.next (consumes_handleRequest h₁) fun p s₂ _ h₂ _ hs' _ => owed_of_same h₂ hs'.2
  | none =>
    unfold Agent.turnFor
    dsimp only
    split
    · exact fun _ hs' _ => owed_of_same h₁.owed hs'.2
    · exact consumes_scheduleTurn h₁

theorem consumes_releasing {q : StoreProg Text α} {R : α → StoreState Text × PauseNote → Prop}
    (hq : Consumes codec sha256Digest worker q R s) :
    Consumes codec sha256Digest worker (releasing lease q) R s := by
  refine Meets.tryCatch hq (fun _ _ _ h => h) fun e s' _ _ => ?_
  have hrelease : Consumes codec sha256Digest worker (releaseLease lease) (fun _ _ => True) s' :=
    Meets.kept (K := fun _ => True) (fun _ _ _ _ h => h)
      (calls_of_within (within_ofLease _) (rfl : [Effect.lease].all Effect.pauseless = true)
        fun _ _ h => h) trivial
      fun _ _ _ hop hcovered _ => ⟨trivial, fun _ _ hexec =>
        ⟨trivial, (Covered.step hcovered hop hexec).1, trivial⟩⟩
  exact Meets.next hrelease fun _ _ _ _ _ _ _ => trivial

theorem consumes_release {a : α} (h : s.2.owed = none) :
    Consumes codec sha256Digest worker (releaseLease lease >>= fun _ => Pure.pure a)
      (fun _ s' => s'.2.owed = none) s :=
  Meets.next (consumes_unowed (within_ofLease _) rfl h) fun _ _ _ h₁ => consumes_done h₁

theorem consumes_loop {maximumTasks : Option Nat} {fuel : Nat} (h : s.2.owed = none) :
    Consumes codec sha256Digest worker (A.loop plan maximumTasks fuel lease p)
      (fun _ s' => s'.2.owed = none) s := by
  induction fuel generalizing lease p s with
  | zero => trivial
  | succ fuel ih =>
    refine Meets.next (consumes_releasing (consumes_turn h)) fun turn s₁ _ h₁ => ?_
    cases turn with
    | ended p => exact consumes_release h₁
    | again p => exact ih h₁
    | batch p started =>
      refine Meets.next (consumes_idle within_executeBatch rfl h₁) fun done s₂ _ h₂ => ?_
      refine Meets.next (consumes_releasing (consumes_idle within_settleBatch rfl h₂))
        fun settled s₃ _ h₃ => ?_
      obtain ⟨p, ends⟩ := settled
      cases ends with
      | true => exact consumes_release h₃.owed
      | false => exact ih h₃.owed

theorem consumes_advanceRun {maximumTasks : Option Nat} (h : s.2.owed = none) :
    Consumes codec sha256Digest worker (A.advanceRun lease run maximumTasks)
      (fun _ s' => s'.2.owed = none) s := by
  refine Meets.next (consumes_unowed (E := [.read]) (within_sql rfl) rfl h) fun plan s₁ _ h₁ => ?_
  refine Meets.next (consumes_unowed within_getTasks rfl h₁) fun tasks s₂ _ h₂ => ?_
  refine Meets.next (consumes_unowed (E := [.read]) (within_sql rfl) rfl h₂) fun _ s₃ _ h₃ => ?_
  exact Meets.next (consumes_loop h₃) fun p s₄ _ h₄ => consumes_done h₄

theorem consumes_unadvanced (h : s.2.owed = none) :
    Consumes codec sha256Digest worker (unadvanced lease run) (fun _ s' => s'.2.owed = none) s := by
  refine Meets.next (consumes_unowed (within_ofLease _) rfl h) fun _ s₁ _ h₁ => ?_
  exact Meets.next (consumes_unowed within_getTasks rfl h₁) fun tasks s₂ _ h₂ => consumes_done h₂

theorem consumes_advance {runId workerId : String} {maximumTasks : Option Int}
    (h : s.2.owed = none) :
    Consumes codec sha256Digest worker (A.advance runId workerId maximumTasks)
      (fun _ s' => s'.2.owed = none) s := by
  unfold Agent.advance
  split
  · exact fun _ _ _ => trivial
  · refine Meets.next (consumes_unowed (within_ofLease _) rfl h) fun lease s₁ _ h₁ => ?_
    refine Meets.next (consumes_unowed (E := [.read]) (within_sql rfl) rfl h₁) fun run s₂ _ h₂ => ?_
    split
    · refine Meets.next (consumes_pendingLifecycleRequest h₂) fun pending s₃ _ h₃ => ?_
      unfold Agent.advancePaused
      split
      · exact consumes_advanceRun h₃.owed
      · exact consumes_unadvanced h₃.owed
    · split
      · exact consumes_advanceRun h₂
      · exact consumes_unadvanced h₂

end Loop

end DurableAgent.Orchestration
