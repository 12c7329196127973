import Mathlib.Logic.Function.Iterate
import Mathlib.Logic.Relation
import Mathlib.Tactic.Common

/-!
# Closures collected by sweeps

All that leads to an element is collected by sweeps over a list of items, each of which uses some
elements. As many sweeps as there are items suffice, in whatever order the items are listed.
-/

namespace DurableAgent.Library

variable {α β : Type}

/-- Fewer elements satisfy what an element fails that satisfies the other. -/
theorem countP_lt {p q : β → Bool} {l : List β} (h : ∀ b ∈ l, p b = true → q b = true) {b : β}
    (hb : b ∈ l) (hp : p b = false) (hq : q b = true) : l.countP p < l.countP q := by
  induction l with
  | nil => simp at hb
  | cons c l ih =>
    have hrest := fun b hb => h b (List.mem_cons_of_mem c hb)
    rw [List.countP_cons, List.countP_cons]
    rcases List.mem_cons.mp hb with rfl | hb
    · have hle := List.countP_mono_left hrest
      simp only [hp, hq, if_true, Bool.false_eq_true, if_false]
      omega
    · have hlt := ih hrest hb
      have hc := h c List.mem_cons_self
      by_cases hpc : p c = true
      · simp only [hpc, hc hpc, if_true]
        omega
      · simp only [hpc, Bool.false_eq_true, if_false]
        omega

/-- A function that changes nothing or lowers a measure has come to rest after as many turns as
the measure counts. -/
theorem iterate_fixed {f : α → α} {m : α → Nat} (h : ∀ a, f a = a ∨ m (f a) < m a) {n : Nat} {a : α}
    (hn : m a ≤ n) : f (f^[n] a) = f^[n] a := by
  induction n generalizing a with
  | zero =>
    rcases h a with hfixed | hlt
    · exact hfixed
    · omega
  | succ n ih =>
    rcases h a with hfixed | hlt
    · rw [Function.iterate_fixed hfixed, hfixed]
    · rw [Function.iterate_succ_apply]
      apply ih
      omega

section Sweep

variable [DecidableEq α] (key : β → α) (uses : β → List α)

/-- One sweep: an item that uses something known becomes known. -/
def sweep (items : List β) (known : List α) : List α :=
  items.foldl
    (fun known item =>
      if key item ∈ known then known
      else if ∃ a ∈ uses item, a ∈ known then known ++ [key item]
      else known)
    known

/-- An item of the first uses the second. -/
def Uses (items : List β) (a b : α) : Prop := ∃ item ∈ items, key item = a ∧ b ∈ uses item

/-- Whatever uses something known is known. -/
def Swept (items : List β) (known : List α) : Prop :=
  ∀ item ∈ items, (∃ a ∈ uses item, a ∈ known) → key item ∈ known

variable {key uses} {items : List β} {known : List α}

theorem mem_sweep_of_mem {a : α} (ha : a ∈ known) : a ∈ sweep key uses items known := by
  induction items generalizing known with
  | nil => exact ha
  | cons item items ih =>
    apply ih
    dsimp only
    split
    · exact ha
    · split
      · exact List.mem_append_left _ ha
      · exact ha

/-- Nothing becomes known that uses nothing known. -/
theorem sweep_induct {P : α → Prop} (hknown : ∀ a ∈ known, P a)
    (hitems : ∀ item ∈ items, ∀ a ∈ uses item, P a → P (key item)) :
    ∀ a ∈ sweep key uses items known, P a := by
  induction items generalizing known with
  | nil => exact hknown
  | cons item items ih =>
    apply ih
    · dsimp only
      split
      · exact hknown
      · split
        · next huses =>
          obtain ⟨a, ha, hmem⟩ := huses
          intro b hb
          rcases List.mem_append.mp hb with hb | hb
          · exact hknown b hb
          · rw [List.mem_singleton.mp hb]
            exact hitems item List.mem_cons_self a ha (hknown a hmem)
        · exact hknown
    · exact fun item' hitem' => hitems item' (List.mem_cons_of_mem item hitem')

/-- A sweep changes nothing where nothing is left to do, and some item becomes known elsewhere. -/
theorem sweep_cases (key : β → α) (uses : β → List α) (items : List β) (known : List α) :
    (sweep key uses items known = known ∧ Swept key uses items known) ∨
      ∃ item ∈ items, key item ∉ known ∧ key item ∈ sweep key uses items known := by
  induction items generalizing known with
  | nil => exact .inl ⟨rfl, by simp [Swept]⟩
  | cons item items ih =>
    have hlater (h : ∃ item ∈ items, key item ∉ known ∧ key item ∈ sweep key uses items known) :
        ∃ item' ∈ item :: items, key item' ∉ known ∧ key item' ∈ sweep key uses items known := by
      obtain ⟨item', hitem', h⟩ := h
      exact ⟨item', List.mem_cons_of_mem item hitem', h⟩
    change (sweep key uses items _ = known ∧ _) ∨ ∃ item' ∈ item :: items, _ ∧ _ ∈ sweep _ _ items _
    dsimp only
    by_cases hkey : key item ∈ known
    · rw [if_pos hkey]
      rcases ih known with ⟨hfixed, hswept⟩ | hnew
      · refine .inl ⟨hfixed, fun item' hitem' huses => ?_⟩
        rcases List.mem_cons.mp hitem' with rfl | hitem'
        · exact hkey
        · exact hswept item' hitem' huses
      · exact .inr (hlater hnew)
    · rw [if_neg hkey]
      by_cases huses : ∃ a ∈ uses item, a ∈ known
      · rw [if_pos huses]
        refine .inr ⟨item, List.mem_cons_self, hkey, mem_sweep_of_mem ?_⟩
        exact List.mem_append_right _ List.mem_cons_self
      · rw [if_neg huses]
        rcases ih known with ⟨hfixed, hswept⟩ | hnew
        · refine .inl ⟨hfixed, fun item' hitem' huses' => ?_⟩
          rcases List.mem_cons.mp hitem' with rfl | hitem'
          · exact absurd huses' huses
          · exact hswept item' hitem' huses'
        · exact .inr (hlater hnew)

theorem swept_of_fixed (h : sweep key uses items known = known) : Swept key uses items known := by
  rcases sweep_cases key uses items known with ⟨-, hswept⟩ | ⟨item, -, hnew, hmem⟩
  · exact hswept
  · rw [h] at hmem
    exact absurd hmem hnew

/-- As many sweeps as there are items leave nothing to do. -/
theorem swept_sweeps (items : List β) (known : List α) :
    Swept key uses items ((sweep key uses items)^[items.length] known) := by
  apply swept_of_fixed
  apply iterate_fixed (m := fun known => items.countP fun item => key item ∉ known)
  · intro known
    rcases sweep_cases key uses items known with
      ⟨hfixed, -⟩ | ⟨item, hitem, hnew, hmem⟩
    · exact .inl hfixed
    · right
      apply countP_lt (b := item) _ hitem
      · simpa using hmem
      · simpa using hnew
      · intro item' _ hmissing
        simp only [decide_eq_true_eq] at hmissing ⊢
        exact fun hknown => hmissing (mem_sweep_of_mem hknown)
  · exact List.countP_le_length

theorem sweeps_induct {P : α → Prop} (hknown : ∀ a ∈ known, P a)
    (hitems : ∀ item ∈ items, ∀ a ∈ uses item, P a → P (key item)) (n : Nat) :
    ∀ a ∈ (sweep key uses items)^[n] known, P a := by
  induction n generalizing known with
  | zero => exact hknown
  | succ n ih => exact ih (sweep_induct hknown hitems)

theorem mem_sweeps_of_mem {a : α} (ha : a ∈ known) (n : Nat) :
    a ∈ (sweep key uses items)^[n] known := by
  induction n generalizing known with
  | zero => exact ha
  | succ n ih => exact ih (mem_sweep_of_mem ha)

/-- The sweeps collect all that leads to an element. -/
theorem mem_sweeps_iff {a b : α} :
    b ∈ (sweep key uses items)^[items.length] [a] ↔
      Relation.ReflTransGen (Uses key uses items) b a := by
  constructor
  · apply sweeps_induct
    · intro c hc
      rw [List.mem_singleton.mp hc]
    · intro item hitem c hc hca
      exact .head ⟨item, hitem, rfl, hc⟩ hca
  · intro hba
    induction hba using Relation.ReflTransGen.head_induction_on with
    | refl => exact mem_sweeps_of_mem (List.mem_singleton.mpr rfl) _
    | head hbc _ ih =>
      obtain ⟨item, hitem, rfl, hc⟩ := hbc
      exact swept_sweeps items [a] item hitem ⟨_, hc, ih⟩

end Sweep

end DurableAgent.Library
