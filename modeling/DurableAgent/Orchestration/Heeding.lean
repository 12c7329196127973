import DurableAgent.Library.Contract
import DurableAgent.Library.History
import DurableAgent.Orchestration.Requests

/-!
# The reaction of a worker to lifecycle requests

The loop looks for requests before each batch, for a cancellation first. A request that is
committed later and that nobody else acknowledges is still pending at the next look, so at most
one batch has attempts that started after it.
-/

namespace DurableAgent.Orchestration

open Library Library.Prog Store

variable {Text ι : Type} [DecidableEq ι]

/-! ## What is noted of the worker -/

/-- Whether a request of the run was committed; whether no attempt has started after it since the
worker's last check, and how many batches have attempts that have; whether the last check found a
cancellation, and to which states the worker has then brought the run. -/
structure Reaction where
  requested : Bool := false
  fresh : Bool := false
  late : Nat := 0
  cancelling : Bool := false
  paused : Bool := false
  cancelled : Bool := false
  deriving DecidableEq

/-- A committed request is noted. -/
def noteRequest (runId : String) : Note (StoreOp Text) Exn (StoreState Text) Reaction
  | _, .sql (.insertLifecycleRequest request _), .ok _, _, r =>
    if request.runId = runId ∧ request.status = .PENDING then { r with requested := true } else r
  | _, _, _, _, r => r

/-- The worker has looked for a cancellation. -/
def Reaction.check (r : Reaction) (found : Bool) : Reaction :=
  { r with fresh := true, cancelling := found, cancelled := false }

/-- The worker has started an attempt. -/
def Reaction.start (r : Reaction) : Reaction :=
  if r.requested ∧ r.fresh then { r with fresh := false, late := r.late + 1 } else r

/-- The worker has brought the run to a state. -/
def Reaction.update (r : Reaction) (state : RunState) : Reaction :=
  if r.cancelling then
    { r with paused := r.paused || state = .PAUSED, cancelled := r.cancelled || state = .CANCELLED }
  else r

/-- What the worker itself does: its checks, the attempts that it starts, its updates of the run. -/
def noteWorker : Note (StoreOp Text) Exn (StoreState Text) Reaction
  | _, .sql (.pendingRequest _ .cancel), .ok answer, _, r => r.check answer.isSome
  | _, .sql (.startTaskAttempt _ _ _), .ok _, _, r => r.start
  | _, .sql (.updateRun run _), .ok _, _, r => r.update run.state
  | _, _, _, _, r => r

def noteReaction (runId : String) (worker i : ι) : Note (StoreOp Text) Exn (StoreState Text) Reaction :=
  if i = worker then noteWorker else noteRequest runId

/-- Nobody but the worker acknowledges requests of the run. -/
def LeavesRequests (runId : String) (worker i : ι) (β : Type) (op : StoreOp Text β)
    (s : StoreState Text × Reaction) : Prop :=
  i ≠ worker → ∀ row ∈ s.1.requests.rows, row.runId = runId → ¬ Acknowledges row β op

instance (runId : String) (worker i : ι) (β : Type) (op : StoreOp Text β)
    (s : StoreState Text × Reaction) : Decidable (LeavesRequests runId worker i β op s) :=
  inferInstanceAs (Decidable (_ → ∀ _ ∈ _, _ → _))

abbrev reactingExec (codec : Codec Text) (sha256Digest : String → String) (runId : String)
    (worker i : ι) : Exec (StoreOp Text) Exn (StoreState Text × Reaction) :=
  (((handle codec sha256Digest).recorded (noteReaction runId worker i)).exec.guard
    (LeavesRequests runId worker i)).withFaults

/-! ## What the worker relies on -/

variable {codec : Codec Text} {sha256Digest : String → String} {A : Agent Text}
  {runId : String} {worker i : ι} {s s' s'' : StoreState Text × Reaction} {α β : Type}
  {op : StoreOp Text β} {x : Except Exn β}

/-- What the others may do: commit requests, and leave the pending ones of the run. -/
structure Elsewhere (runId : String) (s s' : StoreState Text × Reaction) : Prop where
  record : s'.2 = { s.2 with requested := s'.2.requested }
  requested : s.2.requested = true → s'.2.requested = true
  committed : s'.2.requested = true → s.2.requested = true ∨ ∃ kind, PendingOf runId kind s'.1
  pending : ∀ kind, PendingOf runId kind s.1 → PendingOf runId kind s'.1

theorem Elsewhere.refl (s : StoreState Text × Reaction) : Elsewhere runId s s :=
  ⟨rfl, id, .inl, fun _ => id⟩

theorem Elsewhere.trans (h : Elsewhere runId s s') (h' : Elsewhere runId s' s'') :
    Elsewhere runId s s'' where
  record := by rw [h'.record, h.record]
  requested hs := h'.requested (h.requested hs)
  committed hs := by
    rcases h'.committed hs with hs' | hpending
    · rcases h.committed hs' with hs | ⟨kind, hpending⟩
      · exact .inl hs
      · exact .inr ⟨kind, h'.pending kind hpending⟩
    · exact .inr hpending
  pending kind hs := h'.pending kind (h.pending kind hs)

/-- At most one batch reacts late, and no cancelled run is paused. -/
def Prompt (s : StoreState Text × Reaction) : Prop := s.2.late ≤ 1 ∧ s.2.paused = false

theorem Elsewhere.prompt (h : Elsewhere runId s s') (hs : Prompt s) : Prompt s' := by
  unfold Prompt
  rw [h.record]
  exact hs

def heeding (runId : String) : Contract (StoreOp Text) (StoreState Text × Reaction) where
  inv := Prompt
  rely := Elsewhere runId
  guar _ _ := True
  pre _ _ _ := True
  refl := Elsewhere.refl
  trans := Elsewhere.trans

/-- The pending requests of a run survive the calls that acknowledge none of them. -/
theorem pendingOf_persists {s s' : StoreState Text} {t : Supply} {kind : LifecycleKind}
    (h : handle codec sha256Digest β op t s = (x, s'))
    (hnot : ∀ row ∈ s.requests.rows, row.runId = runId → ¬ Acknowledges row β op)
    (hpending : PendingOf runId kind s) : PendingOf runId kind s' := by
  obtain ⟨row, hrow, hkind, hrun, hstatus⟩ := hpending
  have hstays := @request_persists Text codec sha256Digest β s t op row hrow (hnot row hrow hrun)
  rw [h] at hstays
  exact ⟨row, hstays, hkind, hrun, hstatus⟩

theorem noteRequest_elsewhere {s s' : StoreState Text} {t : Supply} {r : Reaction}
    (h : handle codec sha256Digest β op t s = (x, s')) :
    noteRequest runId β op x s r = r ∨ noteRequest runId β op x s r = { r with requested := true } ∧
      ∃ kind, PendingOf runId kind s' := by
  unfold noteRequest
  split
  · next request key a =>
    by_cases hnoted : request.runId = runId ∧ request.status = .PENDING
    · rw [if_pos hnoted]
      refine .inr ⟨rfl, request.kind, ?_⟩
      obtain ⟨hanswer, hstate⟩ := Prod.mk.inj h
      obtain ⟨s₁, hinsert⟩ := settle_eq_ok hanswer
      have hs' : s₁ = s' := by
        rw [← hstate]
        change s₁ = (settle s (s.insertLifecycleRequest request key)).2
        rw [hinsert]
        rfl
      rw [← hs', ← hnoted.1]
      exact insertLifecycleRequest_pends hinsert hnoted.2
    · rw [if_neg hnoted]
      exact .inl rfl
  · exact .inl rfl

/-- A step of another thread is one that the worker relies on. -/
theorem reactingExec_elsewhere (hi : i ≠ worker)
    (hop : reactingExec codec sha256Digest runId worker i β op s x s') : Elsewhere runId s s' := by
  rcases Handler.noted_cases hop with ⟨t, hleaves, hhandle, hnote⟩ | ⟨e, -, rfl⟩
  · have hpending (kind : LifecycleKind) : PendingOf runId kind s.1 → PendingOf runId kind s'.1 :=
      pendingOf_persists hhandle (hleaves hi)
    rw [noteReaction, if_neg hi] at hnote
    rcases @noteRequest_elsewhere Text codec sha256Digest runId β op x s.1 s'.1 t s.2 hhandle
      with hsame | ⟨hrequested, hkind⟩
    · rw [hsame] at hnote
      exact ⟨by rw [hnote], by rw [hnote]; exact id, by rw [hnote]; exact .inl, hpending⟩
    · rw [hrequested] at hnote
      exact ⟨by rw [hnote], by rw [hnote]; exact fun _ => rfl, fun _ => .inr hkind, hpending⟩
  · exact .refl _

/-! ## What the worker knows -/

/-- A late batch came after a request, and a committed request is pending. -/
structure Heeds (runId : String) (s : StoreState Text × Reaction) : Prop where
  requested : s.2.late = 1 → s.2.requested = true
  pending : s.2.requested = true → ∃ kind, PendingOf runId kind s.1

/-- The last check found nothing, and no attempt of an earlier batch was late. -/
structure Working (runId : String) (s : StoreState Text × Reaction) : Prop extends
    Heeds runId s where
  bounded : s.2.late + s.2.fresh.toNat ≤ 1
  uncancelled : s.2.cancelling = false

theorem Elsewhere.heeds (h : Elsewhere runId s s') (hs : Heeds runId s) : Heeds runId s' where
  requested hlate := by
    rw [h.record] at hlate
    exact h.requested (hs.requested hlate)
  pending hrequested := by
    rcases h.committed hrequested with hbefore | hpending
    · obtain ⟨kind, hkind⟩ := hs.pending hbefore
      exact ⟨kind, h.pending kind hkind⟩
    · exact hpending

theorem Elsewhere.working (h : Elsewhere runId s s') (hs : Working runId s) : Working runId s' where
  toHeeds := h.heeds hs.toHeeds
  bounded := by
    rw [h.record]
    exact hs.bounded
  uncancelled := by
    rw [h.record]
    exact hs.uncancelled

/-- A call of the worker is noted, or fails without effect. -/
theorem workerExec_cases (hop : reactingExec codec sha256Digest runId worker worker β op s x s') :
    (∃ t, handle codec sha256Digest β op t s.1 = (x, s'.1) ∧
      s'.2 = noteWorker β op x s.1 s.2) ∨ ∃ e, x = .error e ∧ s' = s := by
  rcases Handler.noted_cases hop with ⟨t, -, hhandle, hnote⟩ | hfault
  · rw [noteReaction, if_pos rfl] at hnote
    exact .inl ⟨t, hhandle, hnote⟩
  · exact .inr hfault

theorem workerExec_answered
    (hop : reactingExec codec sha256Digest runId worker worker β op s x s') :
    Answered β op x := by
  rcases workerExec_cases hop with ⟨t, hhandle, -⟩ | ⟨e, rfl, -⟩
  · rw [← (Prod.mk.inj hhandle).1]
    exact answered_handle
  · exact answered_error

/-- The kinds of calls of which nothing is noted. -/
def Effect.unnoted : Effect → Bool
  | .check .cancel | .startTaskAttempt | .updateRun => false
  | _ => true

theorem noteWorker_unnoted {s : StoreState Text} {r : Reaction}
    (hop : (effectOf β op).unnoted = true) : noteWorker β op x s r = r := by
  cases op with
  | sql op =>
    cases op with
    | pendingRequest runId kind =>
      cases kind with
      | cancel => cases hop
      | pause => rfl
    | startTaskAttempt runId taskId n => cases hop
    | updateRun run v => cases hop
    | _ => rfl
  | _ => rfl

/-- The kinds of calls that a worker makes while it works on a batch: it neither looks for requests
nor handles them. -/
def Effect.working : Effect → Bool
  | .check _ | .insertLifecycleRequest | .applyLifecycleRequest => false
  | _ => true

theorem Effect.working_leaves (hop : (effectOf β op).working = true) (row : LifecycleRequest) :
    ¬ Acknowledges row β op := by
  unfold Acknowledges
  split
  · cases hop
  · exact id

/-- The kinds of calls of which nothing is noted while no cancellation was found. -/
def Effect.settling : Effect → Bool
  | .check .cancel | .startTaskAttempt => false
  | _ => true

theorem noteWorker_settling {s : StoreState Text} {r : Reaction}
    (hop : (effectOf β op).settling = true) (hr : r.cancelling = false) :
    noteWorker β op x s r = r := by
  by_cases hunnoted : (effectOf β op).unnoted = true
  · exact noteWorker_unnoted hunnoted
  · cases op with
    | sql op =>
      cases op with
      | pendingRequest runId kind =>
        cases kind with
        | cancel => cases hop
        | pause => rfl
      | startTaskAttempt runId taskId n => cases hop
      | updateRun run v =>
        cases x with
        | error e => rfl
        | ok run' =>
          refine if_neg ?_
          rw [hr]
          exact Bool.false_ne_true
      | _ => exact absurd rfl hunnoted
    | checkpoint op => cases op <;> rfl
    | _ => rfl

/-- What is noted while the worker works on a batch. -/
theorem noteWorker_working {s : StoreState Text} {r : Reaction}
    (hop : (effectOf β op).working = true) (hr : r.cancelling = false) :
    noteWorker β op x s r = r ∨ r.requested = true ∧ r.fresh = true ∧
      noteWorker β op x s r = { r with fresh := false, late := r.late + 1 } := by
  by_cases hsettling : (effectOf β op).settling = true
  · exact .inl (noteWorker_settling hsettling hr)
  · cases op with
    | sql op =>
      cases op with
      | pendingRequest runId kind => cases hop
      | startTaskAttempt runId taskId n =>
        cases x with
        | error e => exact .inl rfl
        | ok attemptId =>
          change r.start = r ∨ r.requested = true ∧ r.fresh = true ∧ r.start = _
          unfold Reaction.start
          by_cases hnoted : r.requested ∧ r.fresh
          · rw [if_pos hnoted]
            exact .inr ⟨hnoted.1, hnoted.2, rfl⟩
          · rw [if_neg hnoted]
            exact .inl rfl
      | _ => exact absurd rfl hsettling
    | checkpoint op => cases op <;> exact absurd rfl hsettling
    | _ => exact absurd rfl hsettling

theorem Working.step (hs : Working runId s) (hop' : (effectOf β op).working = true)
    (hprompt : Prompt s)
    (hop : reactingExec codec sha256Digest runId worker worker β op s x s') :
    Prompt s' ∧ Working runId s' := by
  rcases workerExec_cases hop with ⟨t, hhandle, hnote⟩ | ⟨e, -, rfl⟩
  · have hpending (kind : LifecycleKind) : PendingOf runId kind s.1 → PendingOf runId kind s'.1 :=
      pendingOf_persists hhandle fun row _ _ => Effect.working_leaves hop' row
    have hkinds : (∃ kind, PendingOf runId kind s.1) → ∃ kind, PendingOf runId kind s'.1 :=
      fun ⟨kind, h⟩ => ⟨kind, hpending kind h⟩
    rcases noteWorker_working (x := x) (s := s.1) hop' hs.uncancelled with
      hsame | ⟨hrequested, hfresh, hlate⟩
    · rw [hsame] at hnote
      refine ⟨?_, ⟨?_, ?_⟩, ?_, ?_⟩
      · unfold Prompt
        rw [hnote]
        exact hprompt
      all_goals rw [hnote]
      · exact hs.requested
      · exact fun h => hkinds (hs.pending h)
      · exact hs.bounded
      · exact hs.uncancelled
    · have hbounded := hs.bounded
      rw [hfresh, Bool.toNat_true] at hbounded
      rw [hlate] at hnote
      refine ⟨?_, ⟨?_, ?_⟩, ?_, ?_⟩
      · unfold Prompt
        rw [hnote]
        exact ⟨hbounded, hprompt.2⟩
      all_goals rw [hnote]
      · exact fun _ => hrequested
      · exact fun h => hkinds (hs.pending h)
      · exact hbounded
      · exact hs.uncancelled
  · exact ⟨hprompt, hs⟩

end DurableAgent.Orchestration
