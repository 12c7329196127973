import DurableAgent.Orchestration.Regions
import DurableAgent.Orchestration.Answers

/-!
# Lifecycle requests

A request is stored pending and stays as it is until it is acknowledged, and what has been
acknowledged stays so.
-/

namespace DurableAgent.Orchestration

open Library Library.Prog Store

variable {Text : Type} {codec : Codec Text} {sha256Digest : String → String} {β : Type}
  {runId : String} {kind : LifecycleKind} {s : StoreState Text} {t : Supply}

/-- A request of a run waits to be handled. -/
def PendingOf (runId : String) (kind : LifecycleKind) (s : StoreState Text) : Prop :=
  ∃ row ∈ s.requests.rows, row.kind = kind ∧ row.runId = runId ∧ row.status = .PENDING

instance (runId : String) (kind : LifecycleKind) (s : StoreState Text) :
    Decidable (PendingOf runId kind s) :=
  inferInstanceAs (Decidable (∃ _ ∈ _, _ ∧ _ ∧ _))

theorem pendingRequest_isSome :
    (s.pendingRequest runId kind).isSome = true ↔ PendingOf runId kind s := by
  constructor
  · intro h
    obtain ⟨row, hrow⟩ := Option.isSome_iff_exists.mp h
    exact ⟨row, answered_pendingRequest hrow⟩
  · rintro ⟨row, hrow, hkind, hrun, hstatus⟩
    have hmem : row ∈ (s.requests.rows.filter fun row =>
        row.kind = kind ∧ row.runId = runId ∧ row.status = .PENDING).insertionSort
          fun a b => a.createdAt ≤ b.createdAt := by
      rw [List.mem_insertionSort, List.mem_filter]
      exact ⟨hrow, decide_eq_true ⟨hkind, hrun, hstatus⟩⟩
    unfold StoreState.pendingRequest
    rw [List.isSome_head?]
    exact List.ne_nil_of_mem hmem

theorem pendingRequest_eq_none :
    s.pendingRequest runId kind = none ↔ ¬ PendingOf runId kind s := by
  rw [← pendingRequest_isSome]
  simp

/-- The call acknowledges a pending request. -/
def Acknowledges (row : LifecycleRequest) : (β : Type) → StoreOp Text β → Prop
  | _, .sql (.applyLifecycleRequest request) =>
    requestPk row = requestPk request ∧ row.status = .PENDING
  | _, _ => False

/-- The request that the call writes as handled. -/
def acknowledged : (β : Type) → StoreOp Text β → Option LifecycleRequest
  | _, .sql (.applyLifecycleRequest request) => some request
  | _, _ => none

theorem acknowledges_iff {row : LifecycleRequest} {op : StoreOp Text β} :
    Acknowledges row β op ↔
      ∃ request ∈ acknowledged β op, requestPk row = requestPk request ∧ row.status = .PENDING := by
  cases op with
  | sql op => cases op <;> simp [Acknowledges, acknowledged]
  | _ => simp [Acknowledges, acknowledged]

instance (row : LifecycleRequest) (β : Type) (op : StoreOp Text β) :
    Decidable (Acknowledges row β op) :=
  decidable_of_iff _ acknowledges_iff.symm

/-- A request that is not acknowledged stays as it is. -/
theorem request_persists {op : StoreOp Text β} {row : LifecycleRequest}
    (hrow : row ∈ s.requests.rows) (hnot : ¬ Acknowledges row β op) :
    row ∈ (handle codec sha256Digest β op t s).2.requests.rows := by
  by_cases hwrites : Region.requests ∈ (effectOf β op).writes
  · cases op with
    | sql op =>
      cases op with
      | insertLifecycleRequest request key =>
        change row ∈ (settle s (s.insertLifecycleRequest request key)).2.requests.rows
        unfold StoreState.insertLifecycleRequest
        split
        · next requests keys hrequests hkeys =>
          change row ∈ requests.rows
          rw [Table.insert_rows hrequests]
          exact List.mem_cons_of_mem request hrow
        · exact hrow
      | applyLifecycleRequest request =>
        change row ∈ (settle s (s.applyLifecycleRequest request t.now)).2.requests.rows
        unfold StoreState.applyLifecycleRequest
        dsimp only
        split
        · refine List.mem_map.mpr ⟨row, hrow, if_neg fun hnamed => hnot ?_⟩
          have hwritten := of_decide_eq_true hnamed
          exact hwritten
        · exact hrow
      | _ => simp [effectOf, sqlEffect, Effect.writes] at hwrites
    | lease op => simp [effectOf, Effect.writes] at hwrites
    | checkpoint op => cases op <;> simp [effectOf, checkpointEffect, Effect.writes] at hwrites
    | tools op => simp [effectOf, Effect.writes] at hwrites
  · have hsame := @handle_same Text codec sha256Digest β .requests s op t hwrites
    change (handle codec sha256Digest β op t s).2.requests = s.requests at hsame
    rw [hsame]
    exact hrow

/-- A pending request that is stored pends. -/
theorem insertLifecycleRequest_pends {request : LifecycleRequest} {key : IdempotencyKey} {a : Unit}
    {s' : StoreState Text} (h : s.insertLifecycleRequest request key = .ok (a, s'))
    (hstatus : request.status = .PENDING) : PendingOf request.runId request.kind s' := by
  unfold StoreState.insertLifecycleRequest at h
  split at h
  · next requests keys hrequests hkeys =>
    cases h
    refine ⟨request, ?_, rfl, rfl, hstatus⟩
    change request ∈ requests.rows
    rw [Table.insert_rows hrequests]
    exact List.mem_cons_self
  · cases h

/-! ## What is acknowledged -/

/-- A request was stored and is not pending any more. -/
def Acknowledged (pk : LifecycleKind × String) (s : StoreState Text) : Prop :=
  ∃ row ∈ s.requests.rows, requestPk row = pk ∧ row.status ≠ .PENDING

theorem Acknowledged.not_pending {pk : LifecycleKind × String} {s : StoreState Text}
    {row : LifecycleRequest} (h : Acknowledged pk s) (hrow : row ∈ s.requests.rows)
    (hstatus : row.status = .PENDING) : requestPk row ≠ pk := by
  rintro rfl
  obtain ⟨other, hother, hpk, hnot⟩ := h
  rw [s.requests.row_unique hother hrow hpk] at hnot
  exact hnot hstatus

/-- The requests that are not pending stay as they are. -/
def SettledStay (s s' : StoreState Text) : Prop :=
  ∀ row ∈ s.requests.rows, row.status ≠ .PENDING → row ∈ s'.requests.rows

theorem handle_settledStay {op : StoreOp Text β} {x : Except Exn β} {s s' : StoreState Text} {t : Supply}
    (h : handle codec sha256Digest β op t s = (x, s')) : SettledStay s s' := by
  intro row hrow hstatus
  have hnot : ¬ Acknowledges row β op := by
    unfold Acknowledges
    split
    · exact fun h => hstatus h.2
    · exact id
  have hstays := @request_persists Text codec sha256Digest β s t op row hrow hnot
  rw [h] at hstays
  exact hstays

theorem SettledStay.acknowledged {pk : LifecycleKind × String} {s s' : StoreState Text}
    (h : SettledStay s s') (hs : Acknowledged pk s) : Acknowledged pk s' := by
  obtain ⟨row, hrow, hpk, hstatus⟩ := hs
  exact ⟨row, h row hrow hstatus, hpk, hstatus⟩

/-- A request that is acknowledged was stored. -/
theorem applyLifecycleRequest_acknowledges {request applied : LifecycleRequest}
    {s' : StoreState Text}
    (h : handle codec sha256Digest _ (.sql (.applyLifecycleRequest request)) t s =
      (.ok applied, s')) : Acknowledged (requestPk request) s' := by
  obtain ⟨hanswer, hstate⟩ := Prod.mk.inj h
  change (settle s (s.applyLifecycleRequest request t.now)).1 = _ at hanswer
  change (settle s (s.applyLifecycleRequest request t.now)).2 = _ at hstate
  unfold StoreState.applyLifecycleRequest at hanswer hstate
  dsimp only at hanswer hstate
  split at hanswer
  · next hnamed =>
    rw [if_pos hnamed] at hstate
    obtain ⟨row, hrow, hmatch⟩ := List.any_eq_true.mp hnamed
    rw [← hstate]
    refine ⟨_, List.mem_map.mpr ⟨row, hrow, if_pos hmatch⟩, ?_, by simp⟩
    exact (of_decide_eq_true hmatch).1
  · cases hanswer

end DurableAgent.Orchestration
