import Mathlib.Data.List.Sort
import Mathlib.Data.List.Nodup
import Mathlib.Tactic.Common

/-!
# Ranges of line numbers

Ranges that name every number once partition the numbers, in the order of their beginnings. What
is joined over the ranges is joined over the numbers.
-/

namespace DurableAgent.Library

/-- A labelled range of numbers. -/
structure LineRange (ι : Type) where
  label : ι
  first : Nat
  last : Nat
  deriving DecidableEq

namespace LineRange

variable {ι α : Type}

/-- The numbers of a range. -/
def numbers (r : LineRange ι) : List Nat := List.range' r.first (r.last + 1 - r.first)

/-- The items that the numbers of a range count, from one on. -/
def slice (items : List α) (r : LineRange ι) : List α := (items.take r.last).drop (r.first - 1)

variable {r : LineRange ι} {ranges : List (LineRange ι)} {n : Nat} {items : List α}

theorem mem_numbers {i : Nat} : i ∈ r.numbers ↔ r.first ≤ i ∧ i ≤ r.last := by
  rw [numbers, List.mem_range'_1]
  omega

theorem numbers_ne_nil (h : r.first ≤ r.last) : r.numbers ≠ [] :=
  List.ne_nil_of_mem (mem_numbers.mpr ⟨le_refl _, h⟩)

/-- Ranges in the order of their beginnings have ascending numbers, if none is named twice. -/
theorem pairwise_numbers (hle : ∀ r ∈ ranges, r.first ≤ r.last)
    (hsorted : ranges.Pairwise fun a b => a.first ≤ b.first)
    (hnodup : (ranges.flatMap numbers).Nodup) : (ranges.flatMap numbers).Pairwise (· < ·) := by
  rw [List.pairwise_flatMap]
  refine ⟨fun r _ => List.pairwise_lt_range' 1 (by decide), ?_⟩
  rw [List.nodup_flatMap] at hnodup
  apply List.Pairwise.imp_of_mem _ (hsorted.and hnodup.2)
  intro a b ha hb ⟨hfirst, hdisjoint⟩ i hi j hj
  rw [mem_numbers] at hi hj
  -- else the second range would begin within the first
  by_contra hnot
  have hwithin : b.first ∈ a.numbers := mem_numbers.mpr ⟨hfirst, by omega⟩
  exact hdisjoint hwithin (mem_numbers.mpr ⟨le_refl _, hle b hb⟩)

/-- Ranges that name all numbers once partition them. -/
theorem flatMap_numbers (hle : ∀ r ∈ ranges, r.first ≤ r.last)
    (hsorted : ranges.Pairwise fun a b => a.first ≤ b.first)
    (hperm : (ranges.flatMap numbers).Perm (List.range' 1 n)) :
    ranges.flatMap numbers = List.range' 1 n := by
  have hascending := pairwise_numbers hle hsorted (hperm.nodup_iff.mpr (List.nodup_range' 1))
  exact hperm.eq_of_pairwise (fun a b _ _ hab hba => absurd hba (lt_asymm hab)) hascending
    (List.pairwise_lt_range' 1 (by decide))

/-! ## Slices -/

/-- The items that some numbers count, from one on. -/
def counted [Inhabited α] (items : List α) (i : Nat) : α := items[i - 1]?.getD default

theorem slice_eq_map [Inhabited α] (hfirst : 1 ≤ r.first) (hlast : r.last ≤ items.length) :
    r.slice items = r.numbers.map (counted items) := by
  apply List.ext_getElem
  · simp only [slice, numbers, List.length_drop, List.length_take, List.length_map,
      List.length_range']
    omega
  · intro k hk hk'
    have hindex : r.first + 1 * k - 1 = r.first - 1 + k := by omega
    simp only [slice, numbers, counted, List.getElem_drop, List.getElem_take, List.getElem_map,
      List.getElem_range', hindex]
    rw [List.getElem?_eq_getElem, Option.getD_some]

/-- The slices of a partition are the items again. -/
theorem flatMap_slice [Inhabited α] (hfirst : ∀ r ∈ ranges, 1 ≤ r.first)
    (hlast : ∀ r ∈ ranges, r.last ≤ items.length)
    (hnumbers : ranges.flatMap numbers = List.range' 1 items.length) :
    ranges.flatMap (slice items) = items := by
  calc ranges.flatMap (slice items)
      = ranges.flatMap fun r => r.numbers.map (counted items) :=
        List.flatMap_congr fun r hr => slice_eq_map (hfirst r hr) (hlast r hr)
    _ = (ranges.flatMap numbers).map (counted items) := List.map_flatMap.symm
    _ = (List.range' 1 items.length).map (counted items) := by rw [hnumbers]
    _ = items := by
      apply List.ext_getElem
      · simp
      · intro k hk hk'
        simp only [counted, List.getElem_map, List.getElem_range']
        rw [show 1 + 1 * k - 1 = k by omega, List.getElem?_eq_getElem hk', Option.getD_some]

theorem slice_ne_nil (hfirst : 1 ≤ r.first) (hle : r.first ≤ r.last)
    (hlast : r.last ≤ items.length) : r.slice items ≠ [] := by
  rw [← List.length_pos_iff]
  simp only [slice, List.length_drop, List.length_take]
  omega

end LineRange

theorem intercalate_append {α : Type} (sep : List α) {a b : List (List α)} (ha : a ≠ [])
    (hb : b ≠ []) : sep.intercalate (a ++ b) = sep.intercalate a ++ sep ++ sep.intercalate b := by
  induction a with
  | nil => exact absurd rfl ha
  | cons x a ih =>
    by_cases hnil : a = []
    · subst hnil
      simp [List.intercalate_cons_of_ne_nil hb]
    · rw [List.cons_append, List.intercalate_cons_of_ne_nil (by simp [hnil]), ih hnil,
        List.intercalate_cons_of_ne_nil hnil]
      simp

/-- Texts joined over pieces are joined over all of them. -/
theorem intercalate_flatten {α : Type} (sep : List α) {pieces : List (List (List α))}
    (h : ∀ piece ∈ pieces, piece ≠ []) :
    sep.intercalate (pieces.map sep.intercalate) = sep.intercalate pieces.flatten := by
  induction pieces with
  | nil => rfl
  | cons piece pieces ih =>
    have hpiece := h piece List.mem_cons_self
    have hpieces (p : List (List α)) (hp : p ∈ pieces) := h p (List.mem_cons_of_mem piece hp)
    by_cases hnil : pieces = []
    · subst hnil
      simp
    · have hrest : pieces.flatten ≠ [] := by
        obtain ⟨p, hp⟩ := List.exists_mem_of_ne_nil pieces hnil
        simp only [ne_eq, List.flatten_eq_nil_iff, not_forall]
        exact ⟨p, hp, hpieces p hp⟩
      rw [List.map_cons, List.flatten_cons, intercalate_append sep hpiece hrest,
        List.intercalate_cons_of_ne_nil (by simpa using hnil), ih hpieces]

end DurableAgent.Library
