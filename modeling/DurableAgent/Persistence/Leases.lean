import DurableAgent.Domain.Models
import DurableAgent.Library.Program

/-!
# Run leases, statement by statement

`acquire_lease`, `renew_lease` and `release_lease` as sequences of the SQL statements they
issue. Each statement is one atomic step; the row a transaction has read may be stale by the
time its own UPDATE, INSERT or DELETE runs.
-/

namespace DurableAgent.Leases

open Library Library.Prog

/-- The `leases` table by its primary key. -/
abbrev LeaseTable := String → Option LeaseRecord

inductive LeaseOp : Type → Type where
  | now : LeaseOp Timestamp
  | get (runId : String) : LeaseOp (Option LeaseRecord)
  /-- INSERT at commit; `false` is an `IntegrityError`. -/
  | insert (lease : LeaseRecord) : LeaseOp Bool
  /-- UPDATE of `acquire_lease`: matched by the run and by the version of the row it has read. -/
  | updateAcquired (read lease : LeaseRecord) : LeaseOp Nat
  /-- UPDATE of `renew_lease`: matched by run, owner, fence and version of the held lease. -/
  | updateRenewed (lease : LeaseRecord) (expires now : Timestamp) : LeaseOp Nat
  /-- DELETE of `release_lease`, matched like the renewal. -/
  | delete (lease : LeaseRecord) : LeaseOp Nat

/-- The row carries the owner, the fence and the version of the held lease. -/
def Matches (row lease : LeaseRecord) : Prop :=
  row.ownerId = lease.ownerId ∧ row.fencingToken = lease.fencingToken ∧
    row.version = lease.version

instance (row lease : LeaseRecord) : Decidable (Matches row lease) :=
  inferInstanceAs (Decidable (_ ∧ _ ∧ _))

/-- The lease of a run that has no row. -/
def firstLease (runId ownerId : String) (expires now : Timestamp) : LeaseRecord :=
  { runId, ownerId, expiresAt := expires, fencingToken := 1, version := 1,
    acquiredAt := now, renewedAt := now, fencingToken_pos := counter_start
    version_pos := counter_start }

/-- A lease whose expiry and version are replaced and whose owner and fence stay. -/
def renewed (row lease : LeaseRecord) (expires now : Timestamp) : LeaseRecord :=
  { row with
    expiresAt := expires, version := lease.version + 1, renewedAt := now
    version_pos := Nat.le_add_left 1 lease.version }

/-- The effect of one statement; a statement with an affected-row count answers the count. -/
def handle : Handler LeaseOp Exn Timestamp LeaseTable
  | _, .now, t, s => (.ok t, s)
  | _, .get runId, _, s => (.ok (s runId), s)
  | _, .insert lease, _, s =>
    match s lease.runId with
    | some _ => (.ok false, s)
    | none => (.ok true, Function.update s lease.runId (some lease))
  | _, .updateAcquired read lease, _, s =>
    match s lease.runId with
    | some row =>
      if row.version = read.version then (.ok 1, Function.update s lease.runId (some lease))
      else (.ok 0, s)
    | none => (.ok 0, s)
  | _, .updateRenewed lease expires now, _, s =>
    match s lease.runId with
    | some row =>
      if Matches row lease then
        (.ok 1, Function.update s lease.runId
          (some (renewed row lease expires now)))
      else (.ok 0, s)
    | none => (.ok 0, s)
  | _, .delete lease, _, s =>
    match s lease.runId with
    | some row =>
      if Matches row lease then (.ok 1, Function.update s lease.runId none) else (.ok 0, s)
    | none => (.ok 0, s)

/-- What is found after one key was written: the value at that key, else what was there. -/
theorem update_eq_some {table : LeaseTable} {key runId : String} {v : Option LeaseRecord}
    {row : LeaseRecord} (h : Function.update table key v runId = some row) :
    (runId = key ∧ v = some row) ∨ (runId ≠ key ∧ table runId = some row) := by
  by_cases hkey : runId = key
  · rw [hkey, Function.update_self] at h
    exact .inl ⟨hkey, h⟩
  · rw [Function.update_of_ne hkey] at h
    exact .inr ⟨hkey, h⟩

abbrev conflict (message : String) : Exn := .of .concurrencyConflict message

/-- `timedelta(seconds=ttl_seconds)` -/
def seconds (n : Int) : Timestamp := n * 1000000

/-- `SqlStore.acquire_lease` -/
def acquireLease (runId ownerId : String) (ttlSeconds : Int) : Prog LeaseOp Exn LeaseRecord := do
  let now ← perform .now
  let expires := now + seconds ttlSeconds
  match ← perform (.get runId) with
  | none =>
    let lease := firstLease runId ownerId expires now
    if ← perform (.insert lease) then pure lease
    else raise (conflict "concurrent lease acquisition")
  | some row =>
    if row.ownerId ≠ ownerId ∧ row.expiresAt > now then
      raise (conflict s!"run {runId} is leased by {row.ownerId} until {row.expiresAt.isoformat}")
    else
      let lease : LeaseRecord :=
        { runId, ownerId, expiresAt := expires
          fencingToken := if row.ownerId = ownerId then row.fencingToken else row.fencingToken + 1
          version := row.version + 1
          acquiredAt := if row.ownerId = ownerId then row.acquiredAt else now
          renewedAt := now
          fencingToken_pos := by have := row.fencingToken_pos; split <;> omega
          version_pos := Nat.le_add_left 1 row.version }
      if (← perform (.updateAcquired row lease)) ≠ 1 then
        raise (conflict "lease changed during acquisition")
      else pure lease

/-- `SqlStore.renew_lease` -/
def renewLease (lease : LeaseRecord) (ttlSeconds : Int) : Prog LeaseOp Exn LeaseRecord := do
  let now ← perform .now
  let expires := now + seconds ttlSeconds
  let stale := conflict "lease expired or ownership changed before renewal"
  match ← perform (.get lease.runId) with
  | none => raise stale
  | some row =>
    if ¬ Matches row lease ∨ row.expiresAt ≤ now then raise stale
    else if (← perform (.updateRenewed lease expires now)) ≠ 1 then
      raise (conflict "lease changed during renewal")
    else pure (renewed lease lease expires now)

/-- `SqlStore.release_lease` -/
def releaseLease (lease : LeaseRecord) : Prog LeaseOp Exn Unit := do
  if (← perform (.delete lease)) ≠ 1 then
    raise (conflict "lease ownership changed before release")
  else pure ()

/-! ## What one statement can do -/

theorem insert_cases {lease : LeaseRecord} {s s' : LeaseTable} {x : Except Exn Bool}
    (h : handle.exec _ (.insert lease) s x s') :
    (s lease.runId = none ∧ x = .ok true ∧ s' = Function.update s lease.runId (some lease)) ∨
      (x = .ok false ∧ s' = s) := by
  obtain ⟨t, h⟩ := h
  simp only [handle] at h
  split at h
  · obtain ⟨rfl, rfl⟩ := Prod.mk.inj h
    exact .inr ⟨rfl, rfl⟩
  · next hnone =>
    obtain ⟨rfl, rfl⟩ := Prod.mk.inj h
    exact .inl ⟨hnone, rfl, rfl⟩

theorem updateAcquired_cases {read lease : LeaseRecord} {s s' : LeaseTable}
    {x : Except Exn Nat} (h : handle.exec _ (.updateAcquired read lease) s x s') :
    (∃ row, s lease.runId = some row ∧ row.version = read.version ∧ x = .ok 1 ∧
      s' = Function.update s lease.runId (some lease)) ∨ (x = .ok 0 ∧ s' = s) := by
  obtain ⟨t, h⟩ := h
  simp only [handle] at h
  split at h
  · next row hrow =>
    split at h <;> obtain ⟨rfl, rfl⟩ := Prod.mk.inj h
    · next hv => exact .inl ⟨row, hrow, hv, rfl, rfl⟩
    · exact .inr ⟨rfl, rfl⟩
  · obtain ⟨rfl, rfl⟩ := Prod.mk.inj h
    exact .inr ⟨rfl, rfl⟩

theorem updateRenewed_cases {lease : LeaseRecord} {expires now : Timestamp} {s s' : LeaseTable}
    {x : Except Exn Nat} (h : handle.exec _ (.updateRenewed lease expires now) s x s') :
    (∃ row, s lease.runId = some row ∧ Matches row lease ∧ x = .ok 1 ∧
      s' = Function.update s lease.runId (some (renewed row lease expires now))) ∨
      (x = .ok 0 ∧ s' = s) := by
  obtain ⟨t, h⟩ := h
  simp only [handle] at h
  split at h
  · next row hrow =>
    split at h <;> obtain ⟨rfl, rfl⟩ := Prod.mk.inj h
    · next hm => exact .inl ⟨row, hrow, hm, rfl, rfl⟩
    · exact .inr ⟨rfl, rfl⟩
  · obtain ⟨rfl, rfl⟩ := Prod.mk.inj h
    exact .inr ⟨rfl, rfl⟩

theorem delete_cases {lease : LeaseRecord} {s s' : LeaseTable} {x : Except Exn Nat}
    (h : handle.exec _ (.delete lease) s x s') :
    (∃ row, s lease.runId = some row ∧ Matches row lease ∧ x = .ok 1 ∧
      s' = Function.update s lease.runId none) ∨ (x = .ok 0 ∧ s' = s) := by
  obtain ⟨t, h⟩ := h
  simp only [handle] at h
  split at h
  · next row hrow =>
    split at h <;> obtain ⟨rfl, rfl⟩ := Prod.mk.inj h
    · next hm => exact .inl ⟨row, hrow, hm, rfl, rfl⟩
    · exact .inr ⟨rfl, rfl⟩
  · obtain ⟨rfl, rfl⟩ := Prod.mk.inj h
    exact .inr ⟨rfl, rfl⟩

/-! ## What an undisturbed call does -/

section Undisturbed

variable {s s' : LeaseTable}

theorem runs_now {α : Type} {f : Timestamp → Prog LeaseOp Exn α} {r : Except Exn α} :
    Runs handle.exec (perform .now >>= f) s r s' ↔ ∃ now, Runs handle.exec (f now) s r s' := by
  constructor
  · intro h
    obtain ⟨x, s₁, ⟨t, hop⟩, hrest⟩ := runs_call.mp h
    obtain ⟨rfl, rfl⟩ := Prod.mk.inj hop
    exact ⟨t, hrest⟩
  · rintro ⟨now, h⟩
    exact runs_call.mpr ⟨.ok now, s, ⟨now, rfl⟩, h⟩

theorem runs_get {α : Type} {runId : String} {f : Option LeaseRecord → Prog LeaseOp Exn α}
    {r : Except Exn α} :
    Runs handle.exec (perform (.get runId) >>= f) s r s' ↔
      Runs handle.exec (f (s runId)) s r s' := by
  constructor
  · intro h
    obtain ⟨x, s₁, ⟨t, hop⟩, hrest⟩ := runs_call.mp h
    obtain ⟨rfl, rfl⟩ := Prod.mk.inj hop
    exact hrest
  · intro h
    exact runs_call.mpr ⟨.ok (s runId), s, ⟨0, rfl⟩, h⟩

/-- A granted lease is the stored row afterwards. It opens a fresh row when the run had none,
and otherwise replaces a row of the same owner or one that has expired. -/
theorem acquireLease_granted {runId ownerId : String} {ttlSeconds : Int} {lease : LeaseRecord}
    (h : Runs handle.exec (acquireLease runId ownerId ttlSeconds) s (.ok lease) s') :
    lease.runId = runId ∧ lease.ownerId = ownerId ∧
      s' = Function.update s runId (some lease) ∧
      ((s runId = none ∧ lease.fencingToken = 1) ∨
        ∃ row, s runId = some row ∧
          ((row.ownerId = ownerId ∧ lease.fencingToken = row.fencingToken) ∨
            (row.ownerId ≠ ownerId ∧ row.expiresAt ≤ lease.renewedAt ∧
              lease.fencingToken = row.fencingToken + 1))) := by
  unfold acquireLease at h
  obtain ⟨now, h⟩ := runs_now.mp h
  replace h := runs_get.mp h
  split at h
  · next hnone =>
    obtain ⟨x, s₁, hop, hrest⟩ := runs_call.mp h
    rcases insert_cases hop with ⟨-, rfl, rfl⟩ | ⟨rfl, rfl⟩
    · obtain ⟨hl, rfl⟩ := runs_done.mp hrest
      cases hl
      exact ⟨rfl, rfl, rfl, .inl ⟨hnone, rfl⟩⟩
    · cases hrest
  · next row hrow =>
    split at h
    · cases h
    · next hfree =>
      obtain ⟨x, s₁, hop, hrest⟩ := runs_call.mp h
      rcases updateAcquired_cases hop with ⟨_, -, -, rfl, rfl⟩ | ⟨rfl, rfl⟩
      · obtain ⟨hl, rfl⟩ := runs_done.mp hrest
        cases hl
        refine ⟨rfl, rfl, rfl, .inr ⟨row, hrow, ?_⟩⟩
        by_cases howner : row.ownerId = ownerId
        · exact .inl ⟨howner, by simp [howner]⟩
        · refine .inr ⟨howner, ?_, by simp [howner]⟩
          exact not_lt.mp fun hlt => hfree ⟨howner, hlt⟩
      · cases hrest

theorem acquireLease_refused {runId ownerId : String} {ttlSeconds : Int} {e : Exn}
    (h : Runs handle.exec (acquireLease runId ownerId ttlSeconds) s (.error e) s') : s' = s := by
  unfold acquireLease at h
  obtain ⟨now, h⟩ := runs_now.mp h
  replace h := runs_get.mp h
  split at h
  · obtain ⟨x, s₁, hop, hrest⟩ := runs_call.mp h
    rcases insert_cases hop with ⟨-, rfl, rfl⟩ | ⟨rfl, rfl⟩
    · cases hrest
    · exact (runs_done.mp hrest).2
  · split at h
    · exact (runs_done.mp h).2
    · obtain ⟨x, s₁, hop, hrest⟩ := runs_call.mp h
      rcases updateAcquired_cases hop with ⟨_, -, -, rfl, rfl⟩ | ⟨rfl, rfl⟩
      · cases hrest
      · exact (runs_done.mp hrest).2

/-- A renewal keeps the owner and the fence of the row, or changes nothing. -/
theorem renewLease_runs {lease : LeaseRecord} {ttlSeconds : Int} {r : Except Exn LeaseRecord}
    (h : Runs handle.exec (renewLease lease ttlSeconds) s r s') :
    s' = s ∨ ∃ row row', s lease.runId = some row ∧ s' = Function.update s lease.runId (some row') ∧
      Matches row lease ∧ row'.ownerId = row.ownerId ∧ row'.fencingToken = row.fencingToken := by
  unfold renewLease at h
  obtain ⟨now, h⟩ := runs_now.mp h
  replace h := runs_get.mp h
  split at h
  · exact .inl (runs_done.mp h).2
  · next row hrow =>
    split at h
    · exact .inl (runs_done.mp h).2
    · obtain ⟨x, s₁, hop, hrest⟩ := runs_call.mp h
      rcases updateRenewed_cases hop with ⟨row', hrow', hm, rfl, rfl⟩ | ⟨rfl, rfl⟩
      · obtain ⟨-, rfl⟩ := runs_done.mp hrest
        exact .inr ⟨row', _, hrow', rfl, hm, rfl, rfl⟩
      · exact .inl (runs_done.mp hrest).2

/-- A release deletes the row it matches, or changes nothing. -/
theorem releaseLease_runs {lease : LeaseRecord} {r : Except Exn Unit}
    (h : Runs handle.exec (releaseLease lease) s r s') :
    s' = s ∨ s' = Function.update s lease.runId none := by
  unfold releaseLease at h
  obtain ⟨x, s₁, hop, hrest⟩ := runs_call.mp h
  rcases delete_cases hop with ⟨_, -, -, rfl, rfl⟩ | ⟨rfl, rfl⟩
  · exact .inr (runs_done.mp hrest).2
  · exact .inl (runs_done.mp hrest).2

end Undisturbed

end DurableAgent.Leases
