import DurableAgent.Library.Interference
import DurableAgent.Persistence.Leases

/-!
# Leases in custody

What one worker holds while others work on the same table and statements fail: the lease that it
remembers is the only row in its name. The others take over what has expired, but none writes in
the name of a worker whose identifier is its own.
-/

namespace DurableAgent.Leases

open Library Library.Prog

/-- What the others do to the table. Where leases are `lasting`, they take none of them over. -/
structure Others (lasting : Prop) (workerId : String) (t t' : LeaseTable) : Prop where
  unforged : ∀ runId row, t' runId = some row → row.ownerId = workerId → t runId = some row
  untaken : lasting → ∀ runId row, t runId = some row → row.ownerId = workerId → t' runId = some row

theorem Others.refl (lasting : Prop) (workerId : String) (t : LeaseTable) :
    Others lasting workerId t t :=
  ⟨fun _ _ h _ => h, fun _ _ _ h _ => h⟩

/-- No lease is in the name of the worker. -/
def Unowned (workerId : String) (t : LeaseTable) : Prop :=
  ∀ runId row, t runId = some row → row.ownerId ≠ workerId

/-- No other run has a lease in the name of the worker. -/
def Confined (workerId runId : String) (t : LeaseTable) : Prop :=
  ∀ other row, t other = some row → row.ownerId = workerId → other = runId

/-- Every lease in the name of the owner is the one remembered. -/
def InCustody (lease : LeaseRecord) (t : LeaseTable) : Prop :=
  ∀ runId row, t runId = some row → row.ownerId = lease.ownerId →
    runId = lease.runId ∧ Matches row lease

/-- The statement with which a lease is released. -/
def Deletes : (β : Type) → LeaseOp β → Prop
  | _, .delete _ => True
  | _, _ => False

/-- Every statement but a release may fail, and then leaves the table as it is. -/
def failing : Exec LeaseOp Exn LeaseTable := fun β op t x t' =>
  handle.exec β op t x t' ∨ (¬ Deletes β op ∧ ∃ e, x = .error e ∧ t' = t)

/-- Statements of one worker, with those of the others between them. -/
abbrev amongOthers (lasting : Prop) (workerId : String) : Exec LeaseOp Exn LeaseTable :=
  failing.disturbed (Others lasting workerId)

variable {lasting : Prop} {workerId runId : String} {t t' : LeaseTable} {K : LeaseTable → Prop}

section Stability

theorem stable_unowned : Stable (Others lasting workerId) (Unowned workerId) :=
  fun _ _ h hK key row hrow howner => hK key row (h.unforged key row hrow howner) howner

theorem stable_confined : Stable (Others lasting workerId) (Confined workerId runId) :=
  fun _ _ h hK other row hrow howner => hK other row (h.unforged other row hrow howner) howner

theorem stable_inCustody {lease : LeaseRecord} (howner : lease.ownerId = workerId) :
    Stable (Others lasting workerId) (InCustody lease) := by
  intro t t' h hK key row hrow hrowner
  exact hK key row (h.unforged key row hrow (hrowner.trans howner)) hrowner

theorem stable_owned (h : lasting) :
    Stable (Others lasting workerId) fun t => ¬ Unowned workerId t := by
  intro t t' hothers hK hnone
  exact hK fun key row hrow howner => hnone key row (hothers.untaken h key row hrow howner) howner

theorem Unowned.confined (h : Unowned workerId t) : Confined workerId runId t :=
  fun other row hrow howner => absurd howner (h other row hrow)

theorem InCustody.confined {lease : LeaseRecord} (h : InCustody lease t) :
    Confined lease.ownerId lease.runId t :=
  fun other row hrow howner => (h other row hrow howner).1

end Stability

/-! ## The statements -/

section Statements

variable {α β : Type} {op : LeaseOp β} {f : β → Prog LeaseOp Exn α} {r : Except Exn α}

theorem handle_ok (op : LeaseOp β) (now : Timestamp) (t : LeaseTable) :
    ∃ b, (handle β op now t).1 = .ok b := by
  cases op <;> simp only [handle]
  case now => exact ⟨now, rfl⟩
  case get key => exact ⟨t key, rfl⟩
  all_goals
    split
    · first
      | exact ⟨_, rfl⟩
      | split <;> exact ⟨_, rfl⟩
    · exact ⟨_, rfl⟩

/-- The others work, and then the statement is answered or fails. -/
theorem runs_statement (h : Runs (amongOthers lasting workerId) (perform op >>= f) t r t') :
    ∃ t₁, Others lasting workerId t t₁ ∧
      ((∃ b t₂, handle.exec β op t₁ (.ok b) t₂ ∧
        Runs (amongOthers lasting workerId) (f b) t₂ r t') ∨
      (¬ Deletes β op ∧ ∃ e, r = .error e ∧ t' = t₁)) := by
  obtain ⟨x, t₂, ⟨t₁, hothers, hop⟩, hrest⟩ := runs_call.mp h
  refine ⟨t₁, hothers, ?_⟩
  rcases hop with ⟨now, hhandle⟩ | ⟨hdelete, e, rfl, rfl⟩
  · obtain ⟨b, hb⟩ := handle_ok op now t₁
    have hx : x = .ok b := by rw [← hb, hhandle]
    subst hx
    exact .inl ⟨b, t₂, ⟨now, hhandle⟩, hrest⟩
  · obtain ⟨hr, ht⟩ := runs_done.mp hrest
    exact .inr ⟨hdelete, e, hr, ht⟩

/-- A statement that only reads. -/
theorem runs_read (hread : ∀ t t₂ x, handle.exec β op t x t₂ → t₂ = t)
    (hK : Stable (Others lasting workerId) K) (ht : K t)
    (h : Runs (amongOthers lasting workerId) (perform op >>= f) t r t') :
    (∃ b t₁, K t₁ ∧ handle.exec β op t₁ (.ok b) t₁ ∧
      Runs (amongOthers lasting workerId) (f b) t₁ r t') ∨ ((∃ e, r = .error e) ∧ K t') := by
  obtain ⟨t₁, hothers, ⟨b, t₂, hop, hrest⟩ | ⟨-, e, hr, ht'⟩⟩ := runs_statement h
  · have hsame := hread _ _ _ hop
    subst hsame
    exact .inl ⟨b, t₂, hK hothers ht, hop, hrest⟩
  · subst ht'
    exact .inr ⟨⟨e, hr⟩, hK hothers ht⟩

theorem now_reads (t t₂ : LeaseTable) (x : Except Exn Timestamp)
    (h : handle.exec _ .now t x t₂) : t₂ = t := by
  obtain ⟨now, h⟩ := h
  exact (Prod.mk.inj h).2.symm

theorem get_reads (t t₂ : LeaseTable) (x : Except Exn (Option LeaseRecord))
    (h : handle.exec _ (.get runId) t x t₂) : t₂ = t := by
  obtain ⟨now, h⟩ := h
  exact (Prod.mk.inj h).2.symm

end Statements

/-! ## Acquisition -/

/-- A row in the name of its owner, written where the owner had at most this row. -/
theorem inCustody_written {lease row : LeaseRecord} {t : LeaseTable}
    (hc : Confined lease.ownerId lease.runId t) (hm : Matches row lease) :
    InCustody lease (Function.update t lease.runId (some row)) := by
  intro key other hother howner
  rcases update_eq_some hother with ⟨hkey, hrow⟩ | ⟨hkey, hrow⟩
  · cases hrow
    exact ⟨hkey, hm⟩
  · exact absurd (hc key other hrow howner) hkey

theorem not_unowned_written {lease : LeaseRecord} {t : LeaseTable} :
    ¬ Unowned lease.ownerId (Function.update t lease.runId (some lease)) :=
  fun h => h lease.runId lease (Function.update_self ..) rfl

/-- A granted lease is in custody, and it is there. -/
theorem acquireLease_inCustody {ttlSeconds : Int} {lease : LeaseRecord}
    (hc : Confined workerId runId t)
    (h : Runs (amongOthers lasting workerId) (acquireLease runId workerId ttlSeconds) t
      (.ok lease) t') :
    (lease.runId = runId ∧ lease.ownerId = workerId) ∧ InCustody lease t' ∧
      ¬ Unowned workerId t' := by
  unfold acquireLease at h
  rcases runs_read now_reads stable_confined hc h with ⟨now, t₁, h₁, -, h⟩ | ⟨⟨e, ⟨⟩⟩, -⟩
  rcases runs_read get_reads stable_confined h₁ h with ⟨row, t₂, h₂, -, h⟩ | ⟨⟨e, ⟨⟩⟩, -⟩
  cases row with
  | none =>
    obtain ⟨t₃, hothers, ⟨b, t₄, hop, h⟩ | ⟨-, e, ⟨⟩, -⟩⟩ := runs_statement h
    rcases insert_cases hop with ⟨-, hb, rfl⟩ | ⟨hb, -⟩
    · cases hb
      obtain ⟨hlease, rfl⟩ := runs_done.mp h
      cases hlease
      exact ⟨⟨rfl, rfl⟩, inCustody_written (stable_confined hothers h₂) ⟨rfl, rfl, rfl⟩,
        not_unowned_written⟩
    · cases hb
      cases h
  | some row =>
    dsimp only at h
    split at h
    · cases h
    · obtain ⟨t₃, hothers, ⟨b, t₄, hop, h⟩ | ⟨-, e, ⟨⟩, -⟩⟩ := runs_statement h
      rcases updateAcquired_cases hop with ⟨_, -, -, hb, rfl⟩ | ⟨hb, -⟩
      · cases hb
        obtain ⟨hlease, rfl⟩ := runs_done.mp h
        cases hlease
        exact ⟨⟨rfl, rfl⟩, inCustody_written (stable_confined hothers h₂) ⟨rfl, rfl, rfl⟩,
          not_unowned_written⟩
      · cases hb
        cases h

/-- An acquisition that raises has written nothing. -/
theorem acquireLease_raised {ttlSeconds : Int} {e : Exn}
    (hK : Stable (Others lasting workerId) K) (ht : K t)
    (h : Runs (amongOthers lasting workerId) (acquireLease runId workerId ttlSeconds) t
      (.error e) t') : K t' := by
  unfold acquireLease at h
  rcases runs_read now_reads hK ht h with ⟨now, t₁, h₁, -, h⟩ | ⟨-, ht'⟩
  swap
  · exact ht'
  rcases runs_read get_reads hK h₁ h with ⟨row, t₂, h₂, -, h⟩ | ⟨-, ht'⟩
  swap
  · exact ht'
  cases row with
  | none =>
    obtain ⟨t₃, hothers, ⟨b, t₄, hop, h⟩ | ⟨-, e, -, rfl⟩⟩ := runs_statement h
    · rcases insert_cases hop with ⟨-, hb, -⟩ | ⟨hb, rfl⟩
      · cases hb
        cases h
      · cases hb
        rw [(runs_done.mp h).2]
        exact hK hothers h₂
    · exact hK hothers h₂
  | some row =>
    dsimp only at h
    split at h
    · rw [(runs_done.mp h).2]
      exact h₂
    · obtain ⟨t₃, hothers, ⟨b, t₄, hop, h⟩ | ⟨-, e, -, rfl⟩⟩ := runs_statement h
      · rcases updateAcquired_cases hop with ⟨_, -, -, hb, -⟩ | ⟨hb, rfl⟩
        · cases hb
          cases h
        · cases hb
          rw [(runs_done.mp h).2]
          exact hK hothers h₂
      · exact hK hothers h₂

/-- What is left for the next worker: an acquisition is refused only while another worker holds
the run. -/
theorem acquireLease_refused_of_held {next : String} {ttlSeconds : Int} {e : Exn}
    (h : Runs handle.exec (acquireLease runId next ttlSeconds) t (.error e) t') :
    ∃ row, t runId = some row ∧ row.ownerId ≠ next := by
  unfold acquireLease at h
  obtain ⟨now, h⟩ := runs_now.mp h
  replace h := runs_get.mp h
  split at h
  · next hnone =>
    obtain ⟨x, t₁, hop, h⟩ := runs_call.mp h
    obtain ⟨_, hop⟩ := hop
    simp only [handle, firstLease, hnone] at hop
    obtain ⟨rfl, rfl⟩ := Prod.mk.inj hop
    cases h
  · next row hrow =>
    split at h
    · next hheld => exact ⟨row, hrow, hheld.1⟩
    · obtain ⟨x, t₁, hop, h⟩ := runs_call.mp h
      obtain ⟨_, hop⟩ := hop
      simp only [handle, hrow, if_true] at hop
      obtain ⟨rfl, rfl⟩ := Prod.mk.inj hop
      cases h

/-! ## Renewal and release -/

/-- A renewed lease is in custody in place of the one it renews. -/
theorem renewLease_inCustody {ttlSeconds : Int} {lease lease' : LeaseRecord}
    (hc : InCustody lease t)
    (h : Runs (amongOthers lasting lease.ownerId) (renewLease lease ttlSeconds) t
      (.ok lease') t') :
    (lease'.runId = lease.runId ∧ lease'.ownerId = lease.ownerId) ∧ InCustody lease' t' := by
  unfold renewLease at h
  rcases runs_read now_reads (stable_inCustody rfl) hc h with ⟨now, t₁, h₁, -, h⟩ | ⟨⟨e, ⟨⟩⟩, -⟩
  rcases runs_read get_reads (stable_inCustody rfl) h₁ h with ⟨row, t₂, h₂, -, h⟩ | ⟨⟨e, ⟨⟩⟩, -⟩
  cases row with
  | none => cases h
  | some row =>
    dsimp only at h
    split at h
    · cases h
    · obtain ⟨t₃, hothers, ⟨b, t₄, hop, h⟩ | ⟨-, e, ⟨⟩, -⟩⟩ := runs_statement h
      rcases updateRenewed_cases hop with ⟨row, -, hm, hb, rfl⟩ | ⟨hb, -⟩
      · cases hb
        obtain ⟨hlease, rfl⟩ := runs_done.mp h
        cases hlease
        have h₃ := (stable_inCustody rfl hothers h₂).confined
        exact ⟨⟨rfl, rfl⟩, @inCustody_written (renewed lease lease _ _) _ _ h₃
          ⟨hm.1, hm.2.1, rfl⟩⟩
      · cases hb
        cases h

/-- A renewal that raises leaves the lease in custody that it was to renew. -/
theorem renewLease_raised {ttlSeconds : Int} {lease : LeaseRecord} {e : Exn}
    (hc : InCustody lease t)
    (h : Runs (amongOthers lasting lease.ownerId) (renewLease lease ttlSeconds) t
      (.error e) t') : InCustody lease t' := by
  unfold renewLease at h
  have hK : Stable (Others lasting lease.ownerId) (InCustody lease) := stable_inCustody rfl
  rcases runs_read now_reads hK hc h with ⟨now, t₁, h₁, -, h⟩ | ⟨-, ht'⟩
  swap
  · exact ht'
  rcases runs_read get_reads hK h₁ h with ⟨row, t₂, h₂, -, h⟩ | ⟨-, ht'⟩
  swap
  · exact ht'
  cases row with
  | none =>
    rw [(runs_done.mp h).2]
    exact h₂
  | some row =>
    dsimp only at h
    split at h
    · rw [(runs_done.mp h).2]
      exact h₂
    · obtain ⟨t₃, hothers, ⟨b, t₄, hop, h⟩ | ⟨-, e, -, rfl⟩⟩ := runs_statement h
      · rcases updateRenewed_cases hop with ⟨_, -, -, hb, -⟩ | ⟨hb, rfl⟩
        · cases hb
          cases h
        · cases hb
          rw [(runs_done.mp h).2]
          exact hK hothers h₂
      · exact hK hothers h₂

/-- Whether it finds its row or raises, a release leaves no lease in the name of its owner. -/
theorem releaseLease_unowned {lease : LeaseRecord} {r : Except Exn Unit} (hc : InCustody lease t)
    (h : Runs (amongOthers lasting lease.ownerId) (releaseLease lease) t r t') :
    Unowned lease.ownerId t' := by
  unfold releaseLease at h
  obtain ⟨t₁, hothers, ⟨b, t₂, hop, h⟩ | ⟨hdelete, -⟩⟩ := runs_statement h
  · have h₁ := stable_inCustody rfl hothers hc
    have ht' : t' = t₂ := by
      split at h <;> exact (runs_done.mp h).2
    subst ht'
    obtain ⟨now, hop⟩ := hop
    intro key row hrow howner
    simp only [handle] at hop
    split at hop
    · next stored hstored =>
      split at hop
      · obtain ⟨-, rfl⟩ := Prod.mk.inj hop
        rcases update_eq_some hrow with ⟨-, ⟨⟩⟩ | ⟨hkey, hrow⟩
        exact hkey (h₁ key row hrow howner).1
      · next hm =>
        obtain ⟨-, rfl⟩ := Prod.mk.inj hop
        obtain ⟨rfl, hmatches⟩ := h₁ key row hrow howner
        rw [hstored] at hrow
        cases hrow
        exact hm hmatches
    · next hnone =>
      obtain ⟨-, rfl⟩ := Prod.mk.inj hop
      obtain ⟨rfl, -⟩ := h₁ key row hrow howner
      rw [hnone] at hrow
      cases hrow
  · exact absurd trivial hdelete

end DurableAgent.Leases
