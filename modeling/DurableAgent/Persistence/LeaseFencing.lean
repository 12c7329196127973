import DurableAgent.Persistence.Leases

/-!
# Fencing tokens

Histories of completed lease calls. A grant that changes the owner raises the token of the row
it replaces by one, so it exceeds every earlier token as long as the row still carries the
highest of them. A release deletes the row, and with it the mark.
-/

namespace DurableAgent.Leases

open Library

/-- The table and the leases granted so far, the latest first. -/
structure History where
  table : LeaseTable
  grants : List LeaseRecord

def History.empty : History := ⟨fun _ => none, []⟩

/-- One completed call by anyone, at any clock reading. -/
inductive HistoryStep : History → History → Prop where
  | acquired {h : History} {runId ownerId : String} {ttlSeconds : Int} {lease : LeaseRecord}
      {table : LeaseTable}
      (run : Runs handle.exec (acquireLease runId ownerId ttlSeconds) h.table (.ok lease) table) :
      HistoryStep h ⟨table, lease :: h.grants⟩
  | refused {h : History} {runId ownerId : String} {ttlSeconds : Int} {e : Exn}
      {table : LeaseTable}
      (run : Runs handle.exec (acquireLease runId ownerId ttlSeconds) h.table (.error e) table) :
      HistoryStep h ⟨table, h.grants⟩
  | renewed {h : History} {lease : LeaseRecord} {ttlSeconds : Int} {r : Except Exn LeaseRecord}
      {table : LeaseTable} (run : Runs handle.exec (renewLease lease ttlSeconds) h.table r table) :
      HistoryStep h ⟨table, h.grants⟩
  | released {h : History} {lease : LeaseRecord} {r : Except Exn Unit} {table : LeaseTable}
      (run : Runs handle.exec (releaseLease lease) h.table r table) :
      HistoryStep h ⟨table, h.grants⟩

/-- The histories of the store from its creation. -/
def Reachable (h : History) : Prop := Relation.ReflTransGen HistoryStep .empty h

/-- The owner of the latest grant of a run. -/
def History.previousHolder (h : History) (runId : String) : Option String :=
  (h.grants.find? fun g => g.runId = runId).map LeaseRecord.ownerId

/-- The stored row carries at least the token of every grant of its run. -/
def HighWater (h : History) (runId : String) : Prop :=
  ∀ g ∈ h.grants, g.runId = runId →
    ∃ row, h.table runId = some row ∧ g.fencingToken ≤ row.fencingToken

/-- A stored row belongs to the owner of the latest grant of its run. -/
def Attributed (h : History) : Prop :=
  ∀ runId row, h.table runId = some row → h.previousHolder runId = some row.ownerId

theorem previousHolder_grant (h : History) (table : LeaseTable) (lease : LeaseRecord)
    (runId : String) : History.previousHolder ⟨table, lease :: h.grants⟩ runId =
      if lease.runId = runId then some lease.ownerId else h.previousHolder runId := by
  by_cases hrun : lease.runId = runId
  · simp [History.previousHolder, hrun]
  · simp [History.previousHolder, hrun]

theorem Attributed.step {h h' : History} (hattr : Attributed h) (hstep : HistoryStep h h') :
    Attributed h' := by
  cases hstep with
  | @acquired _ _ _ lease table run =>
    obtain ⟨rfl, rfl, rfl, -⟩ := acquireLease_granted run
    intro runId row hrow
    rw [previousHolder_grant]
    rcases update_eq_some hrow with ⟨rfl, heq⟩ | ⟨hrun, hrow⟩
    · rw [if_pos rfl, Option.some.inj heq]
    · rw [if_neg (Ne.symm hrun)]
      exact hattr runId row hrow
  | refused run =>
    rw [acquireLease_refused run]
    exact hattr
  | renewed run =>
    rcases renewLease_runs run with rfl | ⟨row, row', hrow, rfl, -, howner, -⟩
    · exact hattr
    · intro runId row₁ hrow₁
      rcases update_eq_some hrow₁ with ⟨rfl, heq⟩ | ⟨-, hrow₁⟩
      · rw [← Option.some.inj heq, howner]
        exact hattr _ row hrow
      · exact hattr runId row₁ hrow₁
  | released run =>
    rcases releaseLease_runs run with rfl | rfl
    · exact hattr
    · intro runId row hrow
      rcases update_eq_some hrow with ⟨-, hnone⟩ | ⟨-, hrow⟩
      · cases hnone
      · exact hattr runId row hrow

theorem Reachable.attributed {h : History} (hreach : Reachable h) : Attributed h := by
  induction hreach with
  | refl =>
    intro runId row hrow
    simp [History.empty] at hrow
  | tail _ hstep ih => exact ih.step hstep

/-- A grant to a new owner exceeds every earlier token of the run exactly when the mark has
not been lost. -/
theorem fencing_token_increases_iff {h : History} (hreach : Reachable h) {runId ownerId : String}
    {ttlSeconds : Int} {lease : LeaseRecord} {table : LeaseTable}
    (hgrant : Runs handle.exec (acquireLease runId ownerId ttlSeconds) h.table (.ok lease) table)
    (hnew : h.previousHolder runId ≠ some ownerId) :
    (∀ g ∈ h.grants, g.runId = runId → g.fencingToken < lease.fencingToken) ↔
      HighWater h runId := by
  obtain ⟨-, -, -, ⟨hnone, hfence⟩ | ⟨row, hrow, hcase⟩⟩ := acquireLease_granted hgrant
  · -- a fresh row starts at token 1, which exceeds no token at all
    constructor
    · intro hall g hg hrun
      have hlt := hall g hg hrun
      have hpos := g.fencingToken_pos
      omega
    · intro hmark g hg hrun
      obtain ⟨row, hrow, -⟩ := hmark g hg hrun
      rw [hnone] at hrow
      cases hrow
  · have howner : row.ownerId ≠ ownerId := by
      intro heq
      rw [hreach.attributed runId row hrow, heq] at hnew
      exact hnew rfl
    have hfence : lease.fencingToken = row.fencingToken + 1 := by
      rcases hcase with ⟨hsame, -⟩ | ⟨-, -, hfence⟩
      · exact absurd hsame howner
      · exact hfence
    constructor
    · intro hall g hg hrun
      have hlt := hall g hg hrun
      exact ⟨row, hrow, by omega⟩
    · intro hmark g hg hrun
      obtain ⟨row', hrow', hle⟩ := hmark g hg hrun
      rw [hrow] at hrow'
      rw [← Option.some.inj hrow'] at hle
      omega

/-- The run is released between its first two grants. -/
theorem fencing_token_restarts : ∃ (h : History) (lease : LeaseRecord) (table : LeaseTable),
    Reachable h ∧ Runs handle.exec (acquireLease "run" "b" 60) h.table (.ok lease) table ∧
      h.previousHolder "run" = some "a" ∧
      ¬ ∀ g ∈ h.grants, g.runId = "run" → g.fencingToken < lease.fencingToken := by
  let a := firstLease "run" "a" (seconds 60) 0
  have hacquire : HistoryStep .empty ⟨Function.update (fun _ => none) "run" (some a), [a]⟩ :=
    .acquired (Handler.play_runs (p := acquireLease "run" "a" 60) [0, 0, 0] rfl)
  have hrelease : HistoryStep ⟨Function.update (fun _ => none) "run" (some a), [a]⟩
      ⟨Function.update (Function.update (fun _ => none) "run" (some a)) "run" none, [a]⟩ :=
    .released (Handler.play_runs (p := releaseLease a) [0] rfl)
  refine ⟨_, _, _, .tail (.single hacquire) hrelease,
    Handler.play_runs [seconds 1, 0, 0] rfl, by decide, ?_⟩
  simp [a, firstLease]

/-- After an expiry the new owner's token is higher. -/
theorem fencing_token_increases_takeOver :
    ∃ (h : History) (lease : LeaseRecord), Reachable h ∧ HighWater h "run" ∧
      lease.fencingToken = 2 ∧
      ∀ g ∈ h.grants, g.runId = "run" → g.fencingToken < lease.fencingToken := by
  let a := firstLease "run" "a" (seconds 1) 0
  have hacquire : HistoryStep .empty ⟨Function.update (fun _ => none) "run" (some a), [a]⟩ :=
    .acquired (Handler.play_runs (p := acquireLease "run" "a" 1) [0, 0, 0] rfl)
  have hmark : HighWater ⟨Function.update (fun _ => none) "run" (some a), [a]⟩ "run" := by
    intro g hg _
    exact ⟨a, by simp, by rw [List.mem_singleton.mp hg]⟩
  let b : LeaseRecord := ⟨"run", "b", seconds 69, 2, 2, seconds 9, seconds 9, by decide, by decide⟩
  have hgrant : Runs handle.exec (acquireLease "run" "b" 60)
      (Function.update (fun _ => none) "run" (some a)) (.ok b)
      (Function.update (Function.update (fun _ => none) "run" (some a)) "run" (some b)) :=
    Handler.play_runs [seconds 9, 0, 0] rfl
  exact ⟨_, b, .single hacquire, hmark, rfl,
    (fencing_token_increases_iff (.single hacquire) hgrant (by decide)).mpr hmark⟩

section Kept

variable {h h' : History} {runId : String}

/-- The mark survives every call that does not delete the row of the run. -/
theorem HighWater.step (hmark : HighWater h runId) (hstep : HistoryStep h h')
    (hkept : h.table runId ≠ none → h'.table runId ≠ none) : HighWater h' runId := by
  intro g hg hrun
  cases hstep with
  | @acquired run _ _ lease table hgrant =>
    obtain ⟨hl, -, rfl, hcase⟩ := acquireLease_granted hgrant
    by_cases hsame : runId = run
    · subst hsame
      refine ⟨lease, by simp, ?_⟩
      rcases List.mem_cons.mp hg with rfl | hg
      · exact le_refl _
      · obtain ⟨row, hrow, hle⟩ := hmark g hg hrun
        rcases hcase with ⟨hnone, -⟩ | ⟨row', hrow', hfence⟩
        · rw [hnone] at hrow
          cases hrow
        · rw [hrow] at hrow'
          cases hrow'
          omega
    · have hold : g ∈ h.grants := by
        rcases List.mem_cons.mp hg with rfl | hg
        · exact absurd (hrun.symm.trans hl) hsame
        · exact hg
      obtain ⟨row, hrow, hle⟩ := hmark g hold hrun
      exact ⟨row, by simpa [Function.update_of_ne hsame] using hrow, hle⟩
  | refused hrefused =>
    rw [acquireLease_refused hrefused]
    exact hmark g hg hrun
  | @renewed lease _ _ table hrenew =>
    obtain ⟨row, hrow, hle⟩ := hmark g hg hrun
    rcases renewLease_runs hrenew with rfl | ⟨old, new, hold, rfl, -, -, hfence⟩
    · exact ⟨row, hrow, hle⟩
    · by_cases hsame : runId = lease.runId
      · subst hsame
        rw [hrow] at hold
        cases hold
        exact ⟨new, by simp, by omega⟩
      · exact ⟨row, by simpa [Function.update_of_ne hsame] using hrow, hle⟩
  | @released lease _ table hrelease =>
    obtain ⟨row, hrow, hle⟩ := hmark g hg hrun
    rcases releaseLease_runs hrelease with rfl | rfl
    · exact ⟨row, hrow, hle⟩
    · by_cases hsame : runId = lease.runId
      · subst hsame
        exact absurd (by simp) (hkept (by simp [hrow]))
      · exact ⟨row, by simpa [Function.update_of_ne hsame] using hrow, hle⟩

/-- Only a release that deletes the row can lose the mark. -/
theorem highWater_of_kept (hruns : Relation.ReflTransGen
    (fun h h' => HistoryStep h h' ∧ (h.table runId ≠ none → h'.table runId ≠ none)) .empty h) :
    HighWater h runId := by
  induction hruns with
  | refl => intro g hg; cases hg
  | tail _ hstep ih => exact ih.step hstep.1 hstep.2

end Kept

end DurableAgent.Leases
