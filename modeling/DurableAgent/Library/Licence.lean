import DurableAgent.Library.Program
import Mathlib.Data.Finset.Card

/-!
# Uses that need a licence

Some calls grant their caller a licence, others use one up. A program is licensed when it issues
no using call without holding a licence. However such programs are interleaved, there are never
more uses than grants: the threads that hold a licence account for the difference.
-/

namespace DurableAgent.Library

variable {Op : Type → Type} {ε α β σ ι : Type}

/-- Which answered calls grant a licence, and which use it. -/
structure Licensing (Op : Type → Type) (ε : Type) where
  grants : (β : Type) → Op β → Except ε β → Bool
  uses : (β : Type) → Op β → Except ε β → Bool

namespace Licensing

variable (L : Licensing Op ε)

/-- Whether the caller holds a licence after an answered call. -/
def after (held : Bool) (op : Op β) (x : Except ε β) : Bool :=
  if L.uses β op x then false else L.grants β op x || held

/-- The program uses licences only while it holds one. -/
def Licensed : Bool → Prog Op ε α → Prop
  | _, .done _ => True
  | _, .halt => True
  | held, .call op k => ∀ x, (L.uses _ op x = true → held = true) ∧
      Licensed (L.after held op x) (k x)

variable {L}

/-- Holding a licence is no obstacle. -/
theorem Licensed.hold {p : Prog Op ε α} {held : Bool} (h : L.Licensed held p) :
    L.Licensed true p := by
  induction p generalizing held with
  | done r => trivial
  | halt => trivial
  | call op k ih =>
    intro x
    refine ⟨fun _ => rfl, ?_⟩
    have hk := (h x).2
    unfold after at hk ⊢
    by_cases huse : L.uses _ op x = true
    · rw [if_pos huse] at hk ⊢
      exact hk
    · rw [if_neg huse] at hk ⊢
      rw [Bool.or_true]
      exact ih x hk

theorem Licensed.of_unheld {p : Prog Op ε α} (h : L.Licensed false p) (held : Bool) :
    L.Licensed held p := by
  cases held with
  | false => exact h
  | true => exact h.hold

/-- Neither a grant nor a use, whatever the answer. -/
def Neutral (L : Licensing Op ε) (β : Type) (op : Op β) : Prop :=
  ∀ x, L.uses β op x = false ∧ L.grants β op x = false

/-- A first part that neither grants nor uses leaves the licence to the rest. -/
theorem Licensed.bind {p : Prog Op ε α} {f : α → Prog Op ε β} {held : Bool}
    (hp : p.Calls L.Neutral) (hf : ∀ a, L.Licensed held (f a)) : L.Licensed held (p >>= f) := by
  induction p with
  | done r =>
    cases r with
    | ok a => exact hf a
    | error e => trivial
  | halt => trivial
  | call op k ih =>
    intro x
    obtain ⟨huse, hgrant⟩ := hp.1 x
    refine ⟨fun h => absurd h (by simp [huse]), ?_⟩
    rw [after, huse, hgrant]
    exact ih x (hp.2 x)

theorem Licensed.of_neutral {p : Prog Op ε α} {held : Bool} (hp : p.Calls L.Neutral) :
    L.Licensed held p := by
  induction p with
  | done r => trivial
  | halt => trivial
  | call op k ih =>
    intro x
    obtain ⟨huse, hgrant⟩ := hp.1 x
    refine ⟨fun h => absurd h (by simp [huse]), ?_⟩
    rw [after, huse, hgrant]
    exact ih x (hp.2 x)

/-- A call and what follows its answer. -/
theorem Licensed.perform {op : Op α} {f : α → Prog Op ε β} {held : Bool}
    (huse : ∀ x, L.uses α op x = true → held = true)
    (hf : ∀ a, L.Licensed (L.after held op (.ok a)) (f a)) :
    L.Licensed held (Prog.perform op >>= f) := by
  intro x
  refine ⟨huse x, ?_⟩
  cases x with
  | ok a => exact hf a
  | error e => trivial

/-- A first part that ends without a licence, followed by parts that start without one. -/
theorem Licensed.seq {p : Prog Op ε α} {f : α → Prog Op ε β} {held : Bool}
    (hp : L.Licensed held p) (hf : ∀ a, L.Licensed false (f a)) : L.Licensed held (p >>= f) := by
  induction p generalizing held with
  | done r =>
    cases r with
    | ok a => exact (hf a).of_unheld held
    | error e => trivial
  | halt => trivial
  | call op k ih => exact fun x => ⟨(hp x).1, ih x (hp x).2⟩

theorem Licensed.tryCatch {p : Prog Op ε α} {handler : ε → Prog Op ε α} {held : Bool}
    (hp : L.Licensed held p) (hh : ∀ e, L.Licensed false (handler e)) :
    L.Licensed held (p.tryCatch handler) := by
  induction p generalizing held with
  | done r =>
    cases r with
    | ok a => trivial
    | error e => exact (hh e).of_unheld held
  | halt => trivial
  | call op k ih => exact fun x => ⟨(hp x).1, ih x (hp x).2⟩

variable [DecidableEq ι] {exec : Exec Op ε σ} {granted used : σ → Nat}

/-- Every thread is licensed, and the holders cover the grants that are not used up. -/
structure Covered (L : Licensing Op ε) (granted used : σ → Nat) (P : Pool Op ε σ ι)
    (holders : Finset ι) : Prop where
  licensed : ∀ i, L.Licensed (decide (i ∈ holders)) (P.threads i)
  covered : used P.shared + holders.card ≤ granted P.shared

/-- One step moves the stepping thread into or out of the holders as its call grants or uses. -/
theorem Covered.step (hcount : ∀ β op s x s', exec β op s x s' →
      granted s + (L.grants β op x).toNat ≤ granted s' ∧ used s' ≤ used s + (L.uses β op x).toNat)
    {P P' : Pool Op ε σ ι} {i : ι} {holders : Finset ι} (h : L.Covered granted used P holders)
    (hstep : PoolStep exec P i P') : ∃ holders', L.Covered granted used P' holders' := by
  cases hstep with
  | @call δ P i op k x s' hi hop =>
    obtain ⟨hgranted, hused⟩ := hcount δ op P.shared x s' hop
    have hthread := h.licensed i
    rw [hi] at hthread
    obtain ⟨huse, hk⟩ := hthread x
    have hcovered := h.covered
    let holders' := if L.after (decide (i ∈ holders)) op x then insert i holders else holders.erase i
    have hmem (j : ι) : j ∈ holders' ↔
        if j = i then L.after (decide (i ∈ holders)) op x = true else j ∈ holders := by
      by_cases hafter : L.after (decide (i ∈ holders)) op x = true
      · by_cases hj : j = i
        · simp [holders', hafter, hj]
        · simp [holders', hafter, hj]
      · by_cases hj : j = i
        · simp [holders', hafter, hj]
        · simp [holders', hafter, hj]
    refine ⟨holders', fun j => ?_, ?_⟩
    · by_cases hj : j = i
      · subst hj
        have hheld : decide (j ∈ holders') = L.after (decide (j ∈ holders)) op x := by
          simp [hmem]
        simpa [hheld] using hk
      · have hheld : decide (j ∈ holders') = decide (j ∈ holders) := by
          simp [hmem, hj]
        simpa [hheld, Function.update_of_ne hj] using h.licensed j
    · change used s' + holders'.card ≤ granted s'
      by_cases huses : L.uses δ op x = true
      · have hi' : i ∈ holders := by simpa using huse huses
        have hcard := Finset.card_erase_add_one hi'
        have hafter : holders' = holders.erase i := by simp [holders', after, huses]
        rw [huses, Bool.toNat_true] at hused
        rw [hafter]
        omega
      · have hnot : used s' ≤ used P.shared := by simpa [huses] using hused
        by_cases hgrants : L.grants δ op x = true
        · have hafter : holders' = insert i holders := by simp [holders', after, huses, hgrants]
          have hcard := Finset.card_insert_le i holders
          rw [hgrants, Bool.toNat_true] at hgranted
          rw [hafter]
          omega
        · have hafter : holders' = holders := by
            by_cases hi' : i ∈ holders
            · simp [holders', after, huses, hgrants, hi']
            · simp [holders', after, huses, hgrants, hi']
          rw [hafter]
          omega

/-- In every interleaving of licensed programs that start without licences the uses are covered
by the grants. -/
theorem used_le_granted (hcount : ∀ β op s x s', exec β op s x s' →
      granted s + (L.grants β op x).toNat ≤ granted s' ∧ used s' ≤ used s + (L.uses β op x).toNat)
    {P P' : Pool Op ε σ ι} (hlicensed : ∀ i, L.Licensed false (P.threads i))
    (hinit : used P.shared ≤ granted P.shared) (hrun : PoolRuns exec P P') :
    used P'.shared ≤ granted P'.shared := by
  have hstart : L.Covered granted used P ∅ := ⟨by simpa using hlicensed, by simpa using hinit⟩
  obtain ⟨holders, hcovered⟩ : ∃ holders, L.Covered granted used P' holders := by
    induction hrun with
    | refl => exact ⟨∅, hstart⟩
    | tail _ hstep ih =>
      obtain ⟨i, hstep⟩ := hstep
      obtain ⟨holders, hcovered⟩ := ih
      exact hcovered.step hcount hstep
  have hbound := hcovered.covered
  omega

end Licensing

end DurableAgent.Library
