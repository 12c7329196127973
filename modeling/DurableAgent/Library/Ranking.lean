import Mathlib.Algebra.BigOperators.Group.List.Lemmas
import Mathlib.Algebra.Order.BigOperators.Group.List
import Mathlib.Algebra.Order.Group.Defs
import Mathlib.Data.List.Nodup
import Mathlib.Data.List.Sort
import DurableAgent.Library.Dict

/-!
# Rankings and their fusion

Sorting by a key orders a list in a way that does not depend on how it stood before, where no two
items have one key. Rankings are fused by adding up, over the rankings an item is in, a weight of
its rank: an item that stands before another in every ranking that has the other has the greater
sum.
-/

namespace DurableAgent.Library

/-! ## Sorting by a key -/

section Sorting

variable {α κ : Type} [LinearOrder κ] (key : α → κ)

def sortOn (l : List α) : List α := l.mergeSort fun a b => decide (key a ≤ key b)

theorem sortOn_perm (l : List α) : (sortOn key l).Perm l := List.mergeSort_perm l _

theorem sortOn_pairwise (l : List α) : (sortOn key l).Pairwise fun a b => key a ≤ key b := by
  have h : (sortOn key l).Pairwise fun a b => decide (key a ≤ key b) = true := by
    apply List.pairwise_mergeSort
    · intro a b c hab hbc
      simp only [decide_eq_true_eq] at *
      exact hab.trans hbc
    · intro a b
      simpa using le_total (key a) (key b)
  simpa using h

/-- Where no two items have one key, the order does not depend on the list that is sorted. -/
theorem sortOn_eq_of_perm {l l' : List α} (hperm : l.Perm l')
    (hkey : ∀ a ∈ l, ∀ b ∈ l, key a = key b → a = b) : sortOn key l = sortOn key l' := by
  have hsorted : (sortOn key l).Perm (sortOn key l') :=
    (sortOn_perm key l).trans (hperm.trans (sortOn_perm key l').symm)
  apply hsorted.eq_of_pairwise _ (sortOn_pairwise key l) (sortOn_pairwise key l')
  intro a b ha hb hab hba
  apply hkey a ((sortOn_perm key l).mem_iff.mp ha) b _ (le_antisymm hab hba)
  exact hperm.mem_iff.mpr ((sortOn_perm key l').mem_iff.mp hb)

end Sorting

/-! ## What stands before what -/

section Precedence

variable {α : Type} [DecidableEq α] {a b : α} {l : List α}

/-- Both are in the list, and the first is reached before the second. -/
def Precedes (a b : α) (l : List α) : Prop := b ∈ l ∧ l.idxOf a < l.idxOf b

instance (a b : α) (l : List α) : Decidable (Precedes a b l) :=
  inferInstanceAs (Decidable (b ∈ l ∧ l.idxOf a < l.idxOf b))

theorem Precedes.mem_left (h : Precedes a b l) : a ∈ l := by
  have hb := List.idxOf_lt_length_of_mem h.1
  exact List.idxOf_lt_length_iff.mp (h.2.trans hb)

/-- What stands before a kept item is kept. -/
theorem Precedes.take (h : Precedes a b l) {n : ℕ} (hb : b ∈ l.take n) :
    Precedes a b (l.take n) := by
  have hlt := h.2
  rw [← List.take_append_drop n l, List.idxOf_append_of_mem hb] at hlt
  by_cases ha : a ∈ l.take n
  · rw [List.idxOf_append_of_mem ha] at hlt
    exact ⟨hb, hlt⟩
  · rw [List.idxOf_append_of_notMem ha] at hlt
    have hbound := List.idxOf_lt_length_of_mem hb
    omega

/-- In a sorted list the item with the lesser key stands first. -/
theorem precedes_of_lt {κ : Type} [LinearOrder κ] {key : α → κ}
    (hsorted : l.Pairwise fun a b => key a ≤ key b) (ha : a ∈ l) (hb : b ∈ l)
    (hlt : key a < key b) : Precedes a b l := by
  refine ⟨hb, ?_⟩
  by_contra hle
  rw [not_lt] at hle
  have hia := List.idxOf_lt_length_of_mem ha
  have hib := List.idxOf_lt_length_of_mem hb
  rcases hle.lt_or_eq with hlt' | heq
  · have hkeys := List.pairwise_iff_getElem.mp hsorted _ _ hib hia hlt'
    rw [List.getElem_idxOf, List.getElem_idxOf] at hkeys
    exact absurd hlt (not_lt_of_ge hkeys)
  · have hab : b = a := (List.idxOf_inj hb).mp heq
    rw [hab] at hlt
    exact lt_irrefl _ hlt

end Precedence

/-! ## Fusion -/

section Fusion

variable {ι K : Type} [DecidableEq ι] [AddCommGroup K] [LinearOrder K] (weight : ℕ → K)

/-- What a ranking adds to the sum of an item, where ranks are counted from one. -/
def contribution (l : List ι) (a : ι) : K := if a ∈ l then weight (l.idxOf a + 1) else 0

/-- The sum of an item over rankings. -/
def fusedScore (rankings : List (List ι)) (a : ι) : K :=
  (rankings.map fun l => contribution weight l a).sum

variable {weight} {a b : ι} {l : List ι}

theorem contribution_nonneg (hpos : ∀ r, 0 ≤ weight r) (l : List ι) (a : ι) :
    0 ≤ contribution weight l a := by
  unfold contribution
  split
  · exact hpos _
  · exact le_rfl

theorem contribution_lt_of_precedes (hweight : ∀ r s, r < s → weight s < weight r)
    (h : Precedes a b l) : contribution weight l b < contribution weight l a := by
  rw [contribution, contribution, if_pos h.1, if_pos h.mem_left]
  exact hweight _ _ (Nat.succ_lt_succ h.2)

theorem contribution_le (hweight : ∀ r s, r < s → weight s < weight r) (hpos : ∀ r, 0 ≤ weight r)
    (h : b ∈ l → Precedes a b l) : contribution weight l b ≤ contribution weight l a := by
  by_cases hb : b ∈ l
  · exact (contribution_lt_of_precedes hweight (h hb)).le
  · rw [contribution, if_neg hb]
    exact contribution_nonneg hpos l a

/-- An item that stands before another wherever that other is ranked has the greater sum. -/
theorem fusedScore_lt [IsOrderedAddMonoid K] (hweight : ∀ r s, r < s → weight s < weight r)
    (hpos : ∀ r, 0 ≤ weight r) {rankings : List (List ι)}
    (h : ∀ l ∈ rankings, b ∈ l → Precedes a b l) (hb : ∃ l ∈ rankings, b ∈ l) :
    fusedScore weight rankings b < fusedScore weight rankings a := by
  apply List.sum_lt_sum
  · intro l hl
    exact contribution_le hweight hpos (h l hl)
  · obtain ⟨l, hl, hmem⟩ := hb
    exact ⟨l, hl, contribution_lt_of_precedes hweight (h l hl hmem)⟩

end Fusion

/-! ## Sums kept in a dictionary -/

section Accumulation

variable {κ K : Type} [DecidableEq κ] [AddCommMonoid K]

/-- Adding a number to what stands under a key. -/
def Dict.add (d : Dict κ K) (k : κ) (x : K) : Dict κ K := d.set k ((d.get k).getD 0 + x)

theorem Dict.mem_keys_add {d : Dict κ K} {k j : κ} {x : K} :
    j ∈ (d.add k x).keys ↔ j = k ∨ j ∈ d.keys := by
  rw [mem_keys, mem_keys, add]
  by_cases hj : j = k
  · simp [hj, get_set]
  · simp [hj, get_set]

theorem Dict.getD_add (d : Dict κ K) (k j : κ) (x : K) :
    ((d.add k x).get j).getD 0 = (d.get j).getD 0 + if j = k then x else 0 := by
  rw [add, get_set]
  by_cases hj : j = k
  · simp [hj]
  · simp [hj]

variable {ι : Type} (name : ι → κ)

/-- The sums after a ranking, whose first item has the given rank. -/
def addRanking (weight : ℕ → K) (d : Dict κ K) (items : List ι) (first : ℕ) : Dict κ K :=
  (items.zipIdx first).foldl (fun d ranked => d.add (name ranked.1) (weight ranked.2)) d

variable {name} {weight : ℕ → K}

theorem mem_keys_addRanking {items : List ι} {first : ℕ} {d : Dict κ K} {k : κ} :
    k ∈ (addRanking name weight d items first).keys ↔ k ∈ d.keys ∨ k ∈ items.map name := by
  unfold addRanking
  induction items generalizing d first with
  | nil => simp
  | cons item items ih =>
    rw [List.zipIdx_cons, List.foldl_cons, ih, Dict.mem_keys_add, List.map_cons, List.mem_cons]
    tauto

/-- Where the names are distinct, a ranking adds its contribution to each sum. -/
theorem getD_addRanking {items : List ι} {first : ℕ} {d : Dict κ K} (k : κ)
    (hdistinct : (items.map name).Nodup) :
    ((addRanking name weight d items first).get k).getD 0 = (d.get k).getD 0 +
      if k ∈ items.map name then weight ((items.map name).idxOf k + first) else 0 := by
  unfold addRanking
  induction items generalizing d first with
  | nil => simp
  | cons item items ih =>
    rw [List.map_cons, List.nodup_cons] at hdistinct
    rw [List.zipIdx_cons, List.foldl_cons, ih hdistinct.2, Dict.getD_add, List.map_cons, add_assoc]
    congr 1
    by_cases hk : k = name item
    · simp [hk, hdistinct.1]
    · simp [hk, Ne.symm hk, Nat.add_assoc, Nat.add_comm 1]

end Accumulation

end DurableAgent.Library
