import DurableAgent.Persistence.Leases

/-!
# Mutual exclusion of leases

Any number of lease calls, interleaved statement by statement. Beside the table the world notes
every grant with the row it replaced, and the leases that are held: granted, not released, and
not lost by expiry to a later grant. An acquisition checks the row it has read and replaces the
row it then finds under the same version, so exclusion stands and falls with these being one row.
-/

namespace DurableAgent.Leases

open Library Library.Prog

/-- One call of the lease interface, with any arguments. -/
inductive LeaseCall where
  | acquire (runId ownerId : String) (ttlSeconds : Int)
  | renew (lease : LeaseRecord) (ttlSeconds : Int)
  | release (lease : LeaseRecord)

def LeaseCall.program : LeaseCall → Prog LeaseOp Exn Unit
  | .acquire runId ownerId ttlSeconds => do let _ ← acquireLease runId ownerId ttlSeconds
  | .renew lease ttlSeconds => do let _ ← renewLease lease ttlSeconds
  | .release lease => releaseLease lease

/-- A committed acquisition and the row that was stored when it committed. -/
structure Grant where
  replaced : Option LeaseRecord
  lease : LeaseRecord
  deriving DecidableEq

structure World where
  table : LeaseTable
  grants : List Grant
  holders : List LeaseRecord

/-- A held lease ends with a grant of its run to its own owner, or after its expiry. -/
def Superseded (held lease : LeaseRecord) : Prop :=
  held.runId = lease.runId ∧
    (held.ownerId = lease.ownerId ∨ held.expiresAt ≤ lease.renewedAt)

instance (held lease : LeaseRecord) : Decidable (Superseded held lease) :=
  inferInstanceAs (Decidable (_ ∧ _))

def World.grant (w : World) (lease : LeaseRecord) : World :=
  { w with
    grants := ⟨w.table lease.runId, lease⟩ :: w.grants
    holders := lease :: w.holders.filter fun held => ¬ Superseded held lease }

/-- The held lease that a renewal or a release names. -/
def Named (held lease : LeaseRecord) : Prop := held.runId = lease.runId ∧ Matches held lease

instance (held lease : LeaseRecord) : Decidable (Named held lease) :=
  inferInstanceAs (Decidable (_ ∧ _))

/-- What a statement with its answer means for the grants and the holders. -/
def World.note (w : World) : (β : Type) → LeaseOp β → Except Exn β → World
  | _, .insert lease, .ok true => w.grant lease
  | _, .updateAcquired _ lease, .ok 1 => w.grant lease
  | _, .updateRenewed lease expires now, .ok 1 =>
    { w with holders := w.holders.map fun held =>
        if Named held lease then renewed held lease expires now else held }
  | _, .delete lease, .ok 1 =>
    { w with holders := w.holders.filter fun held => ¬ Named held lease }
  | _, _, _ => w

/-- The statements on the table, with the notes kept beside it. -/
def observe : Handler LeaseOp Exn Timestamp World := fun β op t w =>
  ((handle β op t w.table).1,
    { w.note β op (handle β op t w.table).1 with table := (handle β op t w.table).2 })

theorem observe_exec {β : Type} {op : LeaseOp β} {w w' : World} {x : Except Exn β}
    (h : observe.exec β op w x w') :
    ∃ table, handle.exec β op w.table x table ∧ w' = { w.note β op x with table := table } := by
  obtain ⟨t, h⟩ := h
  obtain ⟨rfl, rfl⟩ := Prod.mk.inj h
  exact ⟨_, ⟨t, rfl⟩, rfl⟩

/-- No acquisition replaced another owner's lease that was unexpired at its time, and the held
leases of a run are all of one owner. -/
structure MutualExclusion (w : World) : Prop where
  grants : ∀ g ∈ w.grants, ∀ row, g.replaced = some row → row.ownerId ≠ g.lease.ownerId →
    row.expiresAt ≤ g.lease.renewedAt
  holders : ∀ h₁ ∈ w.holders, ∀ h₂ ∈ w.holders, h₁.runId = h₂.runId → h₁.ownerId = h₂.ownerId

/-- The row that an acquisition is about to replace is the row it has read. -/
def ReplacesRead : (β : Type) → LeaseOp β → World → Prop
  | _, .updateAcquired read lease, w =>
    ∀ row, w.table lease.runId = some row → row.version = read.version → row = read
  | _, _, _ => True

/-- What `acquire_lease` has checked by the time it issues its UPDATE. -/
def Checked : (β : Type) → LeaseOp β → Prop
  | _, .updateAcquired read lease =>
    read.ownerId = lease.ownerId ∨ read.expiresAt ≤ lease.renewedAt
  | _, _ => True

theorem acquireLease_calls (runId ownerId : String) (ttlSeconds : Int) :
    (acquireLease runId ownerId ttlSeconds).Calls Checked := by
  unfold acquireLease
  refine Calls.bind (calls_perform.mpr trivial) fun now => ?_
  refine Calls.bind (calls_perform.mpr trivial) fun row => ?_
  cases row with
  | none =>
    refine Calls.bind (calls_perform.mpr trivial) fun inserted => ?_
    cases inserted <;> trivial
  | some row =>
    dsimp only
    split
    · trivial
    · next hfree =>
      refine Calls.bind (calls_perform.mpr ?_) fun count => ?_
      · by_cases howner : row.ownerId = ownerId
        · exact .inl howner
        · exact .inr (not_lt.mp fun hlt => hfree ⟨howner, hlt⟩)
      · split <;> trivial

theorem renewLease_calls (lease : LeaseRecord) (ttlSeconds : Int) :
    (renewLease lease ttlSeconds).Calls Checked := by
  unfold renewLease
  refine Calls.bind (calls_perform.mpr trivial) fun now => ?_
  refine Calls.bind (calls_perform.mpr trivial) fun row => ?_
  cases row with
  | none => trivial
  | some row =>
    dsimp only
    split
    · trivial
    · refine Calls.bind (calls_perform.mpr trivial) fun count => ?_
      split <;> trivial

theorem releaseLease_calls (lease : LeaseRecord) : (releaseLease lease).Calls Checked := by
  unfold releaseLease
  refine Calls.bind (calls_perform.mpr trivial) fun count => ?_
  split <;> trivial

theorem LeaseCall.program_calls (c : LeaseCall) : c.program.Calls Checked := by
  cases c with
  | acquire runId ownerId ttlSeconds =>
    exact Calls.bind (acquireLease_calls runId ownerId ttlSeconds) fun _ => trivial
  | renew lease ttlSeconds => exact Calls.bind (renewLease_calls lease ttlSeconds) fun _ => trivial
  | release lease => exact releaseLease_calls lease

/-- Every held lease is the stored row of its run. -/
structure Inv (w : World) : Prop where
  stored : ∀ h ∈ w.holders, w.table h.runId = some h
  grants : ∀ g ∈ w.grants, ∀ row, g.replaced = some row → row.ownerId ≠ g.lease.ownerId →
    row.expiresAt ≤ g.lease.renewedAt

theorem Inv.mutualExclusion {w : World} (h : Inv w) : MutualExclusion w where
  grants := h.grants
  holders := by
    intro h₁ hh₁ h₂ hh₂ hrun
    have hstored := h.stored h₁ hh₁
    rw [hrun, h.stored h₂ hh₂] at hstored
    rw [Option.some.inj hstored]

/-- A grant keeps the invariant when it takes a free run, or one whose row it may replace. -/
theorem Inv.grant {w : World} (h : Inv w) {lease : LeaseRecord}
    (hrow : ∀ row, w.table lease.runId = some row →
      row.ownerId = lease.ownerId ∨ row.expiresAt ≤ lease.renewedAt) :
    Inv { w.grant lease with table := Function.update w.table lease.runId (some lease) } where
  stored := by
    intro held hheld
    rcases List.mem_cons.mp hheld with rfl | hheld
    · simp
    · have hmem := List.mem_filter.mp hheld
      have hstored := h.stored held hmem.1
      have hrun : held.runId ≠ lease.runId := by
        intro heq
        rw [heq] at hstored
        have hsup : Superseded held lease := ⟨heq, hrow held hstored⟩
        simp [hsup] at hmem
      simpa [Function.update_of_ne hrun] using hstored
  grants := by
    intro g hg row hreplaced howner
    rcases List.mem_cons.mp hg with rfl | hg
    · exact (hrow row hreplaced).resolve_left howner
    · exact h.grants g hg row hreplaced howner

theorem Inv.renew {w : World} (h : Inv w) {row lease : LeaseRecord} {expires now : Timestamp}
    (hrow : w.table lease.runId = some row) (hm : Matches row lease) :
    Inv { w.note _ (.updateRenewed lease expires now) (.ok 1) with
      table := Function.update w.table lease.runId (some (renewed row lease expires now)) } where
  stored := by
    intro held hheld
    obtain ⟨old, hold, rfl⟩ := List.mem_map.mp hheld
    have hstored := h.stored old hold
    by_cases hrun : old.runId = lease.runId
    · rw [hrun, hrow] at hstored
      have heq : row = old := Option.some.inj hstored
      subst heq
      have hnamed : Named row lease := ⟨hrun, hm⟩
      simp [hnamed, renewed, hrun]
    · have hother : ¬ Named old lease := fun hn => hrun hn.1
      simp [hother, Function.update_of_ne hrun, hstored]
  grants := h.grants

theorem Inv.release {w : World} (h : Inv w) {row lease : LeaseRecord}
    (hrow : w.table lease.runId = some row) (hm : Matches row lease) :
    Inv { w.note _ (.delete lease) (.ok 1) with
      table := Function.update w.table lease.runId none } where
  stored := by
    intro held hheld
    have hmem := List.mem_filter.mp hheld
    have hstored := h.stored held hmem.1
    have hrun : held.runId ≠ lease.runId := by
      intro heq
      rw [heq, hrow] at hstored
      have hnamed : Named held lease := ⟨heq, Option.some.inj hstored ▸ hm⟩
      simp [hnamed] at hmem
    simpa [Function.update_of_ne hrun] using hstored
  grants := h.grants

/-- One statement keeps the invariant, if an UPDATE of an acquisition replaces the row read. -/
theorem Inv.step {δ : Type} {op : LeaseOp δ} {w w' : World} {x : Except Exn δ}
    (hcall : Checked δ op) (h : Inv w) (hop : (observe.exec.guard ReplacesRead) δ op w x w') :
    Inv w' := by
  obtain ⟨hread, hobs⟩ := hop
  obtain ⟨table, hop, rfl⟩ := observe_exec hobs
  have hsame : Inv { w with table := w.table } := h
  cases op with
  | now =>
    obtain ⟨t, hop⟩ := hop
    rw [← (Prod.mk.inj hop).2]
    exact hsame
  | get runId =>
    obtain ⟨t, hop⟩ := hop
    rw [← (Prod.mk.inj hop).2]
    exact hsame
  | insert lease =>
    rcases insert_cases hop with ⟨hnone, rfl, rfl⟩ | ⟨rfl, rfl⟩
    · exact h.grant fun row hrow => by rw [hnone] at hrow; cases hrow
    · exact hsame
  | updateAcquired read lease =>
    rcases updateAcquired_cases hop with ⟨row, hrow, hv, rfl, rfl⟩ | ⟨rfl, rfl⟩
    · have heq : row = read := hread row hrow hv
      refine h.grant fun row' hrow' => ?_
      rw [hrow] at hrow'
      rw [← Option.some.inj hrow', heq]
      exact hcall
    · exact hsame
  | updateRenewed lease expires now =>
    rcases updateRenewed_cases hop with ⟨row, hrow, hm, rfl, rfl⟩ | ⟨rfl, rfl⟩
    · exact h.renew hrow hm
    · exact hsame
  | delete lease =>
    rcases delete_cases hop with ⟨row, hrow, hm, rfl, rfl⟩ | ⟨rfl, rfl⟩
    · exact h.release hrow hm
    · exact hsame

section Interleaved

variable {ι : Type} [DecidableEq ι]

/-- Any family of lease calls, none of them started, over any table. -/
def start (calls : ι → LeaseCall) (table : LeaseTable) : Pool LeaseOp Exn World ι :=
  ⟨fun i => (calls i).program, ⟨table, [], []⟩⟩

/-- Exclusion holds along every interleaving in which each acquisition that finds a row under
the version it has read finds the row it has read. -/
theorem lease_mutualExclusion (calls : ι → LeaseCall) (table : LeaseTable)
    {P : Pool LeaseOp Exn World ι}
    (hrun : PoolRuns (observe.exec.guard ReplacesRead) (start calls table) P) :
    MutualExclusion P.shared := by
  have hcalls : ∀ i, ((start calls table).threads i).Calls Checked :=
    fun i => (calls i).program_calls
  have hinit : Inv (start calls table).shared := ⟨by simp [start], by simp [start]⟩
  have hinv := hrun.invariant hcalls hinit fun δ op w x w' hcall h hop => h.step hcall hop
  exact hinv.1.mutualExclusion

end Interleaved

/-- After the expiry of the first lease the second owner takes the run over. -/
theorem lease_mutualExclusion_takeOver : ∃ P,
    PoolRuns (observe.exec.guard ReplacesRead)
      (start (fun second : Bool => if second then .acquire "run" "b" 60 else .acquire "run" "a" 1)
        fun _ => none) P ∧
      (P.shared.holders.map fun h => (h.ownerId, h.fencingToken)) = [("b", 2)] ∧
      MutualExclusion P.shared := by
  have hrun := PoolRuns.handled observe ReplacesRead
    (P := start (fun second : Bool =>
      if second then .acquire "run" "b" 60 else .acquire "run" "a" 1) fun _ => none)
    false 0 rfl trivial <|
    .handled _ _ false 0 rfl trivial <| .handled _ _ false 0 rfl trivial <|
    .handled _ _ true (seconds 10) rfl trivial <| .handled _ _ true 0 rfl trivial <|
    .handled _ _ true 0 rfl (fun row hrow _ => (Option.some.inj hrow).symm) .refl
  exact ⟨_, hrun, by decide, lease_mutualExclusion _ _ hrun⟩

/-! ## A version that is used twice

The stalled acquisition of `b` has read the expired first row of `a`. Then `a` releases, and the
row that `c` opens starts again at version 1. -/

inductive Caller where
  | acquireA | acquireB | releaseA | acquireC
  deriving DecidableEq

def reuseCalls : Caller → LeaseCall
  | .acquireA => .acquire "run" "a" 1
  | .acquireB => .acquire "run" "b" 60
  | .releaseA => .release (firstLease "run" "a" (seconds 1) 0)
  | .acquireC => .acquire "run" "c" 60

/-- Which call steps, and the reading of the clock that it would be given. -/
def reuseSchedule : List (Caller × Timestamp) :=
  [(.acquireA, 0), (.acquireA, 0), (.acquireA, 0), (.acquireB, seconds 10),
    (.acquireB, seconds 10), (.releaseA, seconds 11), (.acquireC, seconds 12),
    (.acquireC, seconds 12), (.acquireC, seconds 12), (.acquireB, seconds 13)]

theorem lease_reused_version : ∃ P,
    PoolRuns observe.exec (start reuseCalls fun _ => none) P ∧
      P.shared.grants.head? = some
        ⟨some (firstLease "run" "c" (seconds 72) (seconds 12)),
          ⟨"run", "b", seconds 70, 2, 2, seconds 10, seconds 10, by decide, by decide⟩⟩ ∧
      ¬ MutualExclusion P.shared := by
  refine ⟨_, Pool.play_runs observe reuseSchedule _, by decide, fun h => ?_⟩
  have hholders := h.holders
    (firstLease "run" "c" (seconds 72) (seconds 12)) (by decide)
    ⟨"run", "b", seconds 70, 2, 2, seconds 10, seconds 10, by decide, by decide⟩ (by decide) rfl
  revert hholders
  decide

end DurableAgent.Leases
