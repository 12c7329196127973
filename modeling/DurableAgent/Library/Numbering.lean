import Mathlib.Data.List.MinMax
import Mathlib.Order.Nat
import Mathlib.Data.List.Pairwise

/-!
# Numbers within groups

Rows are numbered within their groups, each new row by one more than the greatest number that its
group has at the time. As long as whatever removes rows of a group adds a row to it, the greatest
number stays, so no number is ever given twice, removed rows included.
-/

namespace DurableAgent.Library

variable {ρ κ : Type} [DecidableEq κ]

/-- The greatest number of a group, or zero. -/
def latestNumber (group : ρ → κ) (number : ρ → Nat) (rows : List ρ) (k : κ) : Nat :=
  ((rows.filter fun row => group row = k).map number).foldr max ⊥

/-- Within a group, later rows have greater numbers. -/
def Increasing (group : ρ → κ) (number : ρ → Nat) (rows : List ρ) : Prop :=
  rows.Pairwise fun a b => group a = group b → number a < number b

/-- The rows that are there are among those that were ever added, in the order of their addition,
and no group has ever had a greater number than it has. -/
structure Issued (group : ρ → κ) (number : ρ → Nat) (added rows : List ρ) : Prop where
  increasing : Increasing group number added
  kept : rows.Sublist added
  highest : ∀ a ∈ added, number a ≤ latestNumber group number rows (group a)

section Latest

variable {group : ρ → κ} {number : ρ → Nat} {rows : List ρ} {a : ρ}

theorem le_latestNumber (ha : a ∈ rows) :
    number a ≤ latestNumber group number rows (group a) := by
  have hmem : number a ∈ (rows.filter fun row => group row = group a).map number :=
    List.mem_map.mpr ⟨a, List.mem_filter.mpr ⟨ha, by simp⟩, rfl⟩
  exact List.le_max_of_le hmem (le_refl _)

/-- A row that is gone does not matter where a row of its group has a greater number. -/
theorem latestNumber_le {rows' : List ρ} {k : κ}
    (h : ∀ a ∈ rows, group a = k → ∃ b ∈ rows', group b = k ∧ number a ≤ number b) :
    latestNumber group number rows k ≤ latestNumber group number rows' k := by
  unfold latestNumber
  apply List.max_le_of_forall_le
  intro n hn
  obtain ⟨a, ha, rfl⟩ := List.mem_map.mp hn
  obtain ⟨hmem, hgroup⟩ := List.mem_filter.mp ha
  obtain ⟨b, hb, hsame, hle⟩ := h a hmem (by simpa using hgroup)
  refine hle.trans ?_
  rw [← hsame]
  exact le_latestNumber hb

end Latest

namespace Issued

variable {group : ρ → κ} {number : ρ → Nat} {added rows : List ρ} {row : ρ}

theorem nil : Issued group number [] [] :=
  ⟨List.Pairwise.nil, List.Sublist.refl [], fun _ h => by cases h⟩

/-- What was ever added to the group of a new row has a smaller number. -/
theorem below (h : Issued group number added rows)
    (hrow : number row = latestNumber group number rows (group row) + 1) {a : ρ} (ha : a ∈ added)
    (hgroup : group a = group row) : number a < number row := by
  have hle := h.highest a ha
  rw [hgroup] at hle
  omega

/-- A new row, which other rows of its group may make way for. -/
theorem replace (h : Issued group number added rows) {keep : ρ → Bool}
    (hrow : number row = latestNumber group number rows (group row) + 1)
    (hgone : ∀ a ∈ rows, keep a = false → group a = group row) :
    Issued group number (added ++ [row]) (rows.filter keep ++ [row]) := by
  have hlast : row ∈ rows.filter keep ++ [row] := List.mem_append_right _ List.mem_cons_self
  constructor
  · apply List.pairwise_append.mpr
    refine ⟨h.increasing, List.pairwise_singleton _ _, fun a ha b hb hgroup => ?_⟩
    rw [List.mem_singleton.mp hb] at hgroup ⊢
    exact h.below hrow ha hgroup
  · exact (List.filter_sublist.trans h.kept).append (List.Sublist.refl [row])
  · intro a ha
    rcases List.mem_append.mp ha with hold | hnew
    · by_cases hgroup : group a = group row
      · have hlt := h.below hrow hold hgroup
        have hle := @le_latestNumber _ _ _ group number _ _ hlast
        rw [hgroup]
        omega
      · refine (h.highest a hold).trans (latestNumber_le fun b hb hsame => ?_)
        refine ⟨b, List.mem_append_left _ (List.mem_filter.mpr ⟨hb, ?_⟩), hsame, le_refl _⟩
        cases hkeep : keep b with
        | true => rfl
        | false => exact absurd (hsame.symm.trans (hgone b hb hkeep)) hgroup
    · rw [List.mem_singleton.mp hnew]
      exact le_latestNumber hlast

/-- A new row. -/
theorem append (h : Issued group number added rows)
    (hrow : number row = latestNumber group number rows (group row) + 1) :
    Issued group number (added ++ [row]) (rows ++ [row]) := by
  have hall := @Issued.replace _ _ _ _ _ _ _ _ h (fun _ => true) hrow fun _ _ hkeep => by cases hkeep
  rwa [List.filter_true] at hall

/-- The rows that are there have distinct numbers within their groups. -/
theorem rows_increasing (h : Issued group number added rows) : Increasing group number rows :=
  h.increasing.sublist h.kept

/-- A number is never given to two rows. -/
theorem number_injective (h : Issued group number added rows) {a b : ρ} (ha : a ∈ added)
    (hb : b ∈ added) (hgroup : group a = group b) (hnumber : number a = number b) : a = b := by
  have hne : added.Pairwise fun a b => group a = group b → number a ≠ number b :=
    h.increasing.imp fun hlt hsame => (hlt hsame).ne
  have hsymm : Std.Symm fun a b : ρ => group a = group b → number a ≠ number b :=
    ⟨fun _ _ hab hsame => (hab hsame.symm).symm⟩
  by_contra hdistinct
  exact hne.forall ha hb hdistinct hgroup hnumber

end Issued

end DurableAgent.Library
