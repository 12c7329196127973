import Mathlib.Algebra.BigOperators.Group.List.Basic
import Mathlib.Data.List.Infix
import Mathlib.Tactic.Common

/-!
# Texts in lines

The lines of a text that is put together from others, and where in its parts a line begins with a
given mark.
-/

namespace DurableAgent.Library

variable {α β ι : Type}

/-! ## Infixes across a seam -/

section Seams

variable {p q a b : List α} {c : α}

theorem prefix_append_cons_of_notMem (h : c ∉ p) : p <+: a ++ c :: b ↔ p <+: a := by
  induction a generalizing p with
  | nil =>
    cases p with
    | nil => simp
    | cons x p =>
      have hne : x ≠ c := by
        rintro rfl
        exact h List.mem_cons_self
      simp [hne]
  | cons y a ih =>
    cases p with
    | nil => simp
    | cons x p =>
      rw [List.cons_append, List.cons_prefix_cons, List.cons_prefix_cons,
        ih fun hc => h (List.mem_cons_of_mem x hc)]

/-- What lacks the element at a seam lies on one side of it. -/
theorem infix_append_cons_of_notMem (h : c ∉ p) (hp : p ≠ []) :
    p <:+: a ++ c :: b ↔ p <:+: a ∨ p <:+: b := by
  induction a with
  | nil =>
    have hfirst : ¬ p <+: [] := by simpa using hp
    have hseam := prefix_append_cons_of_notMem (a := []) (b := b) h
    rw [List.nil_append, List.infix_cons_iff, List.infix_nil, ← List.nil_append (c :: b), hseam]
    simp [hp]
  | cons y a ih =>
    rw [List.cons_append, List.infix_cons_iff, List.infix_cons_iff, ih, ← List.cons_append,
      prefix_append_cons_of_notMem h, or_assoc]

theorem prefix_append_cons_last (h : c ∉ q) :
    q ++ [c] <+: a ++ c :: b ↔ q ++ [c] <+: a ++ [c] := by
  induction a generalizing q with
  | nil =>
    cases q with
    | nil => simp
    | cons x q =>
      have hne : x ≠ c := by
        rintro rfl
        exact h List.mem_cons_self
      simp [hne]
  | cons y a ih =>
    cases q with
    | nil => simp
    | cons x q =>
      rw [List.cons_append, List.cons_append, List.cons_append, List.cons_prefix_cons,
        List.cons_prefix_cons, ih fun hc => h (List.mem_cons_of_mem x hc)]

/-- What ends in the element at a seam, and has it nowhere else, ends at the seam at the latest or
lies behind it. -/
theorem infix_append_cons_last (h : c ∉ q) :
    q ++ [c] <:+: a ++ c :: b ↔ q ++ [c] <:+: a ++ [c] ∨ q ++ [c] <:+: b := by
  induction a with
  | nil =>
    have hseam := prefix_append_cons_last (a := []) (b := b) h
    rw [List.nil_append] at hseam
    rw [List.nil_append, List.infix_cons_iff, hseam, List.nil_append, List.infix_cons_iff,
      List.infix_nil]
    simp
  | cons y a ih =>
    rw [List.cons_append, List.infix_cons_iff, ih, ← List.cons_append, prefix_append_cons_last h,
      List.cons_append, List.infix_cons_iff, or_assoc]

/-- What begins with an element that a beginning lacks lies behind that beginning. -/
theorem infix_append_of_notMem (h : c ∉ a) : c :: p <:+: a ++ b ↔ c :: p <:+: b := by
  induction a with
  | nil => rfl
  | cons y a ih =>
    have hne : c ≠ y := by
      rintro rfl
      exact h List.mem_cons_self
    rw [List.cons_append, List.infix_cons_iff, ih fun hc => h (List.mem_cons_of_mem y hc)]
    simp [hne]

end Seams

/-! ## Lines -/

section Lines

variable [DecidableEq α] (sep : α)

/-- The parts of a text between its separators. -/
def lines : List α → List (List α)
  | [] => [[]]
  | c :: text =>
    if c = sep then [] :: lines text
    else (c :: (lines text).headD []) :: (lines text).tail

attribute [local simp] lines

variable {sep} {text : List α} {mark : List α}

theorem lines_eq_cons (text : List α) :
    lines sep text = (lines sep text).headD [] :: (lines sep text).tail := by
  cases text with
  | nil => rfl
  | cons c text =>
    unfold lines
    split <;> rfl

theorem lines_append_sep (a b : List α) :
    lines sep (a ++ sep :: b) = lines sep a ++ lines sep b := by
  induction a with
  | nil => simp [lines]
  | cons c a ih =>
    rw [List.cons_append, lines, lines, ih]
    split
    · rfl
    · rw [lines_eq_cons a]
      rfl

theorem lines_append_of_notMem {a : List α} (h : sep ∉ a) (text : List α) :
    lines sep (a ++ text) = (a ++ (lines sep text).headD []) :: (lines sep text).tail := by
  induction a with
  | nil => exact lines_eq_cons text
  | cons c a ih =>
    have hne : c ≠ sep := by
      rintro rfl
      exact h List.mem_cons_self
    rw [List.cons_append, lines, if_neg hne, ih fun hc => h (List.mem_cons_of_mem c hc)]
    rfl

theorem lines_of_notMem (h : sep ∉ text) : lines sep text = [text] := by
  have hlines := lines_append_of_notMem h []
  simpa [lines] using hlines

/-- The lines of texts that separators have been put between. -/
theorem lines_intercalate {texts : List (List α)} (h : texts ≠ []) :
    lines sep ([sep].intercalate texts) = texts.flatMap (lines sep) := by
  induction texts with
  | nil => exact absurd rfl h
  | cons text texts ih =>
    by_cases hrest : texts = []
    · subst hrest
      simp
    · rw [List.intercalate_cons_of_ne_nil hrest, List.append_assoc, List.singleton_append,
        lines_append_sep, ih hrest, List.flatMap_cons]

theorem mark_prefix_head (h : sep ∉ mark) :
    mark <+: (lines sep text).headD [] ↔ mark <+: text := by
  induction text generalizing mark with
  | nil => rfl
  | cons c text ih =>
    cases mark with
    | nil => simp
    | cons x mark =>
      unfold lines
      split
      · next hc =>
        have hne : x ≠ c := by
          rintro rfl
          exact h (hc ▸ List.mem_cons_self)
        simp [hne]
      · rw [List.headD_cons, List.cons_prefix_cons, List.cons_prefix_cons,
          ih fun hc => h (List.mem_cons_of_mem x hc)]

/-- A line behind the first begins with the mark where the mark stands behind a separator. -/
theorem mark_in_tail (h : sep ∉ mark) :
    (∃ line ∈ (lines sep text).tail, mark <+: line) ↔ sep :: mark <:+: text := by
  induction text with
  | nil => simp [lines]
  | cons c text ih =>
    rw [List.infix_cons_iff, ← ih, List.cons_prefix_cons, lines]
    split
    · next hc =>
      rw [List.tail_cons, ← mark_prefix_head h, lines_eq_cons text]
      simp [hc]
    · next hc =>
      rw [List.tail_cons]
      simp [Ne.symm hc]

end Lines

/-! ## Pieces -/

theorem mem_intercalate {sep : List α} {pieces : List (List α)} {c : α}
    (h : c ∈ sep.intercalate pieces) : c ∈ sep ∨ ∃ piece ∈ pieces, c ∈ piece := by
  induction pieces with
  | nil => cases h
  | cons piece pieces ih =>
    by_cases hnil : pieces = []
    · subst hnil
      rw [List.intercalate_singleton] at h
      exact .inr ⟨piece, List.mem_cons_self, h⟩
    · rw [List.intercalate_cons_of_ne_nil hnil, List.mem_append, List.mem_append] at h
      obtain (h | h) | h := h
      · exact .inr ⟨piece, List.mem_cons_self, h⟩
      · exact .inl h
      · exact (ih h).imp_right fun ⟨p, hp, hc⟩ => ⟨p, List.mem_cons_of_mem piece hp, hc⟩

/-- Pieces hold none of what a text is split at. -/
theorem of_mem_splitOnP {p : α → Bool} {text piece : List α} (h : piece ∈ text.splitOnP p) :
    ∀ c ∈ piece, p c = false := by
  induction text generalizing piece with
  | nil =>
    rw [List.splitOnP_nil, List.mem_singleton] at h
    subst h
    exact fun c hc => by cases hc
  | cons x text ih =>
    rw [List.splitOnP_cons_eq_if_modifyHead] at h
    by_cases hx : p x = true
    · rw [if_pos hx] at h
      rcases List.mem_cons.mp h with rfl | h
      · exact fun c hc => by cases hc
      · exact ih h
    · rw [if_neg hx] at h
      cases hpieces : text.splitOnP p with
      | nil => exact absurd hpieces (List.splitOnP_ne_nil p text)
      | cons first rest =>
        rw [hpieces, List.modifyHead_cons] at h
        rw [hpieces] at ih
        rcases List.mem_cons.mp h with rfl | h
        · intro c hc
          rcases List.mem_cons.mp hc with rfl | hc
          · exact Bool.not_eq_true _ ▸ hx
          · exact ih List.mem_cons_self c hc
        · exact ih (List.mem_cons_of_mem first h)

/-! ## Additions -/

/-- Where something is added to the parts of a list, the whole is as it was only if nothing is. -/
theorem flatMap_append_eq {fixed added : ι → List β} {parts : List ι} :
    (parts.flatMap fun part => fixed part ++ added part) = parts.flatMap fixed ↔
      ∀ part ∈ parts, added part = [] := by
  constructor
  · intro h
    have hlength := congrArg List.length h
    simp only [List.length_flatMap, List.length_append, List.sum_map_add] at hlength
    have hnone : (parts.map fun part => (added part).length).sum = 0 := by omega
    have hzero : ∀ n ∈ parts.map fun part => (added part).length, n = 0 :=
      List.sum_eq_zero_iff_forall_eq_nat.mp hnone
    intro part hpart
    exact List.eq_nil_of_length_eq_zero (hzero _ (List.mem_map_of_mem hpart))
  · intro h
    exact List.flatMap_congr fun part hpart => by rw [h part hpart, List.append_nil]

end DurableAgent.Library
