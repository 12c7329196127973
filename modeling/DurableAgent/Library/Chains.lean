import Mathlib.Data.Fintype.Card
import Mathlib.Data.List.Chain
import Mathlib.Data.Set.Finite.Basic
import Mathlib.Order.Bounds.Basic
import Mathlib.Order.WellFounded
import Mathlib.Tactic.Common

/-!
# Chains of a relation

A relation without cycles on finitely many elements has chains of bounded length, and the length of
the longest chain from an element is computed from its successors.
-/

namespace DurableAgent.Library

variable {α : Type} {r : α → α → Prop}

/-! ## Cycles -/

/-- No element leads back to itself. -/
def Acyclic (r : α → α → Prop) : Prop := ∀ a, ¬ Relation.TransGen r a a

/-- A relation along which a rank falls has no cycle. -/
theorem acyclic_of_rank {rank : α → Nat} (h : ∀ a b, r a b → rank b < rank a) : Acyclic r := by
  have hfalls : ∀ a b, Relation.TransGen r a b → rank b < rank a := by
    intro a b hab
    induction hab with
    | single hab => exact h _ _ hab
    | tail _ hbc ih => exact (h _ _ hbc).trans ih
  intro a ha
  exact lt_irrefl _ (hfalls a a ha)

/-- Among finitely many elements there is one with no successor among them. -/
theorem Acyclic.exists_last (h : Acyclic r) {s : Set α} (hs : s.Finite) (hne : s.Nonempty) :
    ∃ a ∈ s, ∀ b ∈ s, ¬ r a b := by
  let before : s → s → Prop := fun a b => Relation.TransGen r b.1 a.1
  have : Finite s := hs
  have : IsTrans s before := ⟨fun _ _ _ hab hbc => hbc.trans hab⟩
  have : Std.Irrefl before := ⟨fun a => h a.1⟩
  obtain ⟨a₀, ha₀⟩ := hne
  obtain ⟨a, -, hlast⟩ := (Finite.wellFounded_of_trans_of_irrefl before).has_min Set.univ
    ⟨⟨a₀, ha₀⟩, trivial⟩
  refine ⟨a.1, a.2, fun b hb hab => ?_⟩
  exact hlast ⟨b, hb⟩ trivial (Relation.TransGen.single hab)

/-- From elements that each lead to another of them, finitely many in all, a cycle is reached. -/
theorem exists_cycle {s : Set α} (hs : s.Finite) (hnext : ∀ a ∈ s, ∃ b ∈ s, r a b) {a : α}
    (ha : a ∈ s) : ∃ c, Relation.TransGen r a c ∧ Relation.TransGen r c c := by
  -- the search is kept to what the element leads to
  let within : α → α → Prop := fun b c => Relation.ReflTransGen r a b ∧ r b c
  have hback : ∀ b c, Relation.TransGen within b c →
      Relation.ReflTransGen r a b ∧ Relation.TransGen r b c := by
    intro b c hbc
    induction hbc with
    | single hbc => exact ⟨hbc.1, .single hbc.2⟩
    | tail _ hcd ih => exact ⟨ih.1, ih.2.tail hcd.2⟩
  let reached : Set α := {b | b ∈ s ∧ Relation.ReflTransGen r a b}
  have hfinite : reached.Finite := hs.subset fun b hb => hb.1
  by_cases hacyclic : Acyclic within
  · obtain ⟨b, ⟨hb, hab⟩, hlast⟩ := hacyclic.exists_last hfinite ⟨a, ha, .refl⟩
    obtain ⟨c, hc, hbc⟩ := hnext b hb
    exact absurd ⟨hab, hbc⟩ (hlast c ⟨hc, hab.tail hbc⟩)
  · unfold Acyclic at hacyclic
    push Not at hacyclic
    obtain ⟨c, hc⟩ := hacyclic
    obtain ⟨hac, hcc⟩ := hback c c hc
    exact ⟨c, Relation.TransGen.trans_right hac hcc, hcc⟩

/-! ## Depth -/

theorem le_foldr_max {l : List Nat} {x : Nat} (h : x ∈ l) : x ≤ l.foldr max 0 := by
  induction l with
  | nil => cases h
  | cons y l ih =>
    rw [List.foldr_cons]
    rcases List.mem_cons.mp h with rfl | h
    · exact Nat.le_max_left x _
    · exact (ih h).trans (Nat.le_max_right y _)

theorem foldr_max_mem (l : List Nat) : l.foldr max 0 = 0 ∨ l.foldr max 0 ∈ l := by
  induction l with
  | nil => exact .inl rfl
  | cons x l ih =>
    rw [List.foldr_cons]
    by_cases hx : l.foldr max 0 ≤ x
    · rw [max_eq_left hx]
      exact .inr List.mem_cons_self
    · rw [max_eq_right (by omega)]
      rcases ih with hzero | hmem
      · omega
      · exact .inr (List.mem_cons_of_mem x hmem)

/-- The depth of each of some elements is one more than the greatest among its successors. -/
def Measured (next : α → List α) (depth : α → Nat) (s : List α) : Prop :=
  ∀ a ∈ s, depth a = 1 + ((next a).map depth).foldr max 0

variable {next : α → List α} {depth : α → Nat} {s : List α}

/-- No chain from an element is longer than its depth. -/
theorem Measured.length_le (h : Measured next depth s) {a : α} {l : List α}
    (hs : ∀ b ∈ a :: l, b ∈ s) (hl : (a :: l).IsChain fun a b => b ∈ next a) :
    (a :: l).length ≤ depth a := by
  induction l generalizing a with
  | nil =>
    rw [h a (hs a List.mem_cons_self), List.length_singleton]
    omega
  | cons b l ih =>
    obtain ⟨hab, hl⟩ := List.isChain_cons_cons.mp hl
    have hrest := ih (fun c hc => hs c (List.mem_cons_of_mem a hc)) hl
    have hdepth := le_foldr_max (List.mem_map_of_mem (f := depth) hab)
    rw [h a (hs a List.mem_cons_self), List.length_cons]
    omega

/-- Some chain from an element is as long as its depth. -/
theorem Measured.exists_chain (h : Measured next depth s)
    (hclosed : ∀ a ∈ s, ∀ b ∈ next a, b ∈ s) {a : α} (ha : a ∈ s) :
    ∃ l, (∀ b ∈ a :: l, b ∈ s) ∧ (a :: l).IsChain (fun a b => b ∈ next a) ∧
      (a :: l).length = depth a := by
  induction hn : depth a using Nat.strong_induction_on generalizing a with
  | _ n ih =>
    have hdepth := h a ha
    rcases foldr_max_mem ((next a).map depth) with hzero | hmem
    · exact ⟨[], by simpa using ha, List.isChain_singleton a, by
        rw [← hn, hdepth, hzero, List.length_singleton]⟩
    · -- the chain goes on with a successor of the greatest depth
      obtain ⟨b, hb, hdeepest⟩ := List.mem_map.mp hmem
      obtain ⟨l, hl, hchain, hlength⟩ := ih (depth b) (by omega) (hclosed a ha b hb) rfl
      refine ⟨b :: l, ?_, List.isChain_cons_cons.mpr ⟨hb, hchain⟩, ?_⟩
      · intro c hc
        rcases List.mem_cons.mp hc with rfl | hc
        · exact ha
        · exact hl c hc
      · rw [List.length_cons, hlength]
        omega

/-- The greatest depth is the length of the longest chain. -/
theorem Measured.isGreatest (h : Measured next depth s)
    (hclosed : ∀ a ∈ s, ∀ b ∈ next a, b ∈ s) :
    IsGreatest {n | ∃ l : List α, (∀ a ∈ l, a ∈ s) ∧ l.IsChain (fun a b => b ∈ next a) ∧
      l.length = n} ((s.map depth).foldr max 0) := by
  constructor
  · rcases foldr_max_mem (s.map depth) with hzero | hmem
    · exact ⟨[], by simp, List.isChain_nil, by rw [hzero, List.length_nil]⟩
    · obtain ⟨a, ha, hdeepest⟩ := List.mem_map.mp hmem
      obtain ⟨l, hl, hchain, hlength⟩ := h.exists_chain hclosed ha
      exact ⟨a :: l, hl, hchain, hlength.trans hdeepest⟩
  · rintro n ⟨l, hl, hchain, rfl⟩
    cases l with
    | nil => exact Nat.zero_le _
    | cons a l =>
      calc (a :: l).length ≤ depth a := h.length_le hl hchain
        _ ≤ (s.map depth).foldr max 0 :=
          le_foldr_max (List.mem_map_of_mem (hl a List.mem_cons_self))

/-- A successor is measured below the element. -/
theorem Measured.lt (h : Measured next depth s) {a b : α} (ha : a ∈ s) (hb : b ∈ next a) :
    depth b < depth a := by
  have hle := le_foldr_max (List.mem_map_of_mem (f := depth) hb)
  rw [h a ha]
  omega

/-- What is measured above one has a successor right below it. -/
theorem Measured.exists_next (h : Measured next depth s) {a : α} (ha : a ∈ s) {n : Nat}
    (hn : depth a = n + 2) : ∃ b ∈ next a, depth b = n + 1 := by
  have hdepth := h a ha
  rcases foldr_max_mem ((next a).map depth) with hzero | hmem
  · omega
  · obtain ⟨b, hb, hdeepest⟩ := List.mem_map.mp hmem
    exact ⟨b, hb, by omega⟩

/-- Every positive number up to a depth is the depth of some element. -/
theorem Measured.exists_depth (h : Measured next depth s)
    (hclosed : ∀ a ∈ s, ∀ b ∈ next a, b ∈ s) {a : α} (ha : a ∈ s) {n : Nat} (hpos : 0 < n)
    (hle : n ≤ depth a) : ∃ b ∈ s, depth b = n := by
  induction hm : depth a using Nat.strong_induction_on generalizing a with
  | _ m ih =>
    by_cases heq : depth a = n
    · exact ⟨a, ha, heq⟩
    · obtain ⟨b, hb, hnext⟩ := h.exists_next ha (n := depth a - 2) (by omega)
      exact ih (depth b) (by omega) (hclosed a ha b hb) (by omega) rfl

/-! ## Layers -/

/-- The elements by their depth, the least first. -/
def layers (depth : α → Nat) (s : List α) : List (List α) :=
  (List.range ((s.map depth).foldr max 0)).map fun k => s.filter fun a => depth a = k + 1

theorem length_layers : (layers depth s).length = (s.map depth).foldr max 0 := by
  simp [layers]

theorem mem_layers {k : Nat} (hk : k < (layers depth s).length) {a : α} :
    a ∈ (layers depth s)[k] ↔ a ∈ s ∧ depth a = k + 1 := by
  simp [layers]

theorem Measured.lt_length_layers (h : Measured next depth s) {a : α} (ha : a ∈ s) :
    depth a - 1 < (layers depth s).length := by
  have hle := le_foldr_max (List.mem_map_of_mem (f := depth) ha)
  have hdepth := h a ha
  rw [length_layers]
  omega

/-- The layers hold each element once. -/
theorem Measured.layers_perm (h : Measured next depth s) (hs : s.Nodup) :
    (layers depth s).flatten.Perm s := by
  rw [List.perm_ext_iff_of_nodup _ hs]
  · intro a
    rw [List.mem_flatten]
    constructor
    · rintro ⟨layer, hlayer, ha⟩
      obtain ⟨k, hk, rfl⟩ := List.mem_iff_getElem.mp hlayer
      exact ((mem_layers hk).mp ha).1
    · intro ha
      have hdepth := h a ha
      refine ⟨_, List.getElem_mem (h.lt_length_layers ha), (mem_layers _).mpr ⟨ha, ?_⟩⟩
      omega
  · rw [List.nodup_flatten]
    constructor
    · intro layer hlayer
      obtain ⟨k, -, rfl⟩ := List.mem_map.mp hlayer
      exact hs.filter _
    · unfold layers
      rw [List.pairwise_map]
      apply List.nodup_range.imp
      intro j k hjk a hj hk
      simp only [List.mem_filter, decide_eq_true_eq] at hj hk
      omega

theorem Measured.layers_ne_nil (h : Measured next depth s)
    (hclosed : ∀ a ∈ s, ∀ b ∈ next a, b ∈ s) : ∀ layer ∈ layers depth s, layer ≠ [] := by
  intro layer hlayer
  obtain ⟨k, hk, rfl⟩ := List.mem_iff_getElem.mp hlayer
  have hlength := hk
  rw [length_layers] at hlength
  rcases foldr_max_mem (s.map depth) with hzero | hmem
  · omega
  · obtain ⟨a, ha, hdeepest⟩ := List.mem_map.mp hmem
    obtain ⟨b, hb, hdepth⟩ := h.exists_depth hclosed ha (n := k + 1) (by omega) (by omega)
    exact List.ne_nil_of_mem ((mem_layers hk).mpr ⟨hb, hdepth⟩)

end DurableAgent.Library
