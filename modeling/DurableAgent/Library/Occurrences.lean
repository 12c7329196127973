import DurableAgent.Library.Lines

/-!
# Occurrences of a fragment in a text

Counting and replacing from the left, without overlaps. What is put in for a fragment separates
the text before it from the text behind it, if its ends are no part of what one looks for.
-/

namespace DurableAgent.Library

variable {α : Type} [DecidableEq α]

/-- The fragment stands at this position of the text. -/
def OccursAt (fragment text : List α) (position : Nat) : Prop := fragment <+: text.drop position

instance (fragment text : List α) (position : Nat) : Decidable (OccursAt fragment text position) :=
  inferInstanceAs (Decidable (_ <+: _))

/-- Occurrences from the left, the next one behind the end of the last one. -/
def countFrom (fragment : List α) : Nat → List α → Nat
  | _, [] => 0
  | skip + 1, _ :: rest => countFrom fragment skip rest
  | 0, c :: rest =>
    if fragment <+: c :: rest then 1 + countFrom fragment (fragment.length - 1) rest
    else countFrom fragment 0 rest

def count (fragment text : List α) : Nat := countFrom fragment 0 text

/-- The text with the leftmost occurrence replaced. -/
def replaceFirst (fragment new : List α) : List α → List α
  | [] => []
  | c :: rest =>
    if fragment <+: c :: rest then new ++ (c :: rest).drop fragment.length
    else c :: replaceFirst fragment new rest

def replaceFrom (fragment new : List α) : Nat → List α → List α
  | _, [] => []
  | skip + 1, _ :: rest => replaceFrom fragment new skip rest
  | 0, c :: rest =>
    if fragment <+: c :: rest then new ++ replaceFrom fragment new (fragment.length - 1) rest
    else c :: replaceFrom fragment new 0 rest

/-- The text with every occurrence that is counted replaced. -/
def replaceAll (fragment new text : List α) : List α := replaceFrom fragment new 0 text

variable {fragment new text p mid : List α} {position : Nat}

/-! ## Counting -/

theorem exists_occursAt_of_countFrom {skip : Nat} (h : countFrom fragment skip text ≠ 0) :
    ∃ position, OccursAt fragment text position := by
  induction text generalizing skip with
  | nil =>
    cases skip <;> exact absurd rfl h
  | cons c rest ih =>
    cases skip with
    | succ skip =>
      obtain ⟨position, hposition⟩ := ih h
      exact ⟨position + 1, hposition⟩
    | zero =>
      by_cases hhere : fragment <+: c :: rest
      · exact ⟨0, hhere⟩
      · rw [countFrom, if_neg hhere] at h
        obtain ⟨position, hposition⟩ := ih h
        exact ⟨position + 1, hposition⟩

/-- The leftmost occurrence is the one that is replaced. -/
theorem replaceFirst_eq (h : OccursAt fragment text position)
    (hfirst : ∀ i < position, ¬ OccursAt fragment text i) (hne : fragment ≠ []) :
    replaceFirst fragment new text =
      text.take position ++ new ++ text.drop (position + fragment.length) := by
  induction text generalizing position with
  | nil =>
    rw [OccursAt, List.drop_nil, List.prefix_nil] at h
    exact absurd h hne
  | cons c rest ih =>
    cases position with
    | zero =>
      have hhere : fragment <+: c :: rest := h
      rw [replaceFirst, if_pos hhere]
      simp
    | succ position =>
      have hhere : ¬ fragment <+: c :: rest := hfirst 0 (Nat.succ_pos _)
      have hrest := @ih position h fun i hi => hfirst (i + 1) (Nat.succ_lt_succ hi)
      rw [replaceFirst, if_neg hhere, hrest, Nat.succ_add]
      rfl

theorem replaceFirst_ne (h : OccursAt fragment text position) (hne : fragment ≠ [])
    (hnew : fragment ≠ new) : replaceFirst fragment new text ≠ text := by
  induction text generalizing position with
  | nil =>
    rw [OccursAt, List.drop_nil, List.prefix_nil] at h
    exact absurd h hne
  | cons c rest ih =>
    by_cases hhere : fragment <+: c :: rest
    · obtain ⟨behind, hbehind⟩ := hhere
      rw [replaceFirst, if_pos ⟨behind, hbehind⟩, ← hbehind, List.drop_left]
      exact fun heq => hnew (List.append_cancel_right heq).symm
    · rw [replaceFirst, if_neg hhere]
      cases position with
      | zero => exact absurd h hhere
      | succ position => exact fun heq => ih h (List.cons.inj heq).2

/-! ## What replacing leaves of other texts -/

section Marks

variable {first last : α}

/-- What lacks the first mark and stands at the start stood there before. -/
theorem prefix_of_replaceFrom (hfirst : first ∉ p)
    (h : p <+: replaceFrom fragment (first :: mid) 0 text) : p <+: text := by
  induction text generalizing p with
  | nil => exact h
  | cons c rest ih =>
    cases p with
    | nil => exact List.nil_prefix
    | cons x p =>
      rw [replaceFrom] at h
      by_cases hhere : fragment <+: c :: rest
      · rw [if_pos hhere, List.cons_append, List.cons_prefix_cons] at h
        exact absurd h.1 fun heq => hfirst (heq ▸ List.mem_cons_self)
      · rw [if_neg hhere, List.cons_prefix_cons] at h
        rw [List.cons_prefix_cons]
        exact ⟨h.1, ih (fun hmem => hfirst (List.mem_cons_of_mem x hmem)) h.2⟩

/-- What lacks the marks lies between them or stood in the text before. -/
theorem infix_of_replaceFrom (hfirst : first ∉ p) (hlast : last ∉ p) (hp : p ≠ []) {skip : Nat}
    (h : p <:+: replaceFrom fragment (first :: (mid ++ [last])) skip text) :
    p <:+: mid ∨ p <:+: text := by
  induction text generalizing skip with
  | nil =>
    cases skip <;> exact .inr h
  | cons c rest ih =>
    have hrest : p <:+: rest → p <:+: c :: rest := fun hinfix =>
      hinfix.trans (List.suffix_cons c rest).isInfix
    cases skip with
    | succ skip => exact (ih h).imp_right hrest
    | zero =>
      rw [replaceFrom] at h
      by_cases hhere : fragment <+: c :: rest
      · rw [if_pos hhere, List.cons_append, List.append_assoc] at h
        have hmid := (infix_append_cons_of_notMem (a := []) hfirst hp).mp h
        obtain hnil | hmid := hmid
        · exact absurd (List.infix_nil.mp hnil) hp
        · obtain hmid | hbehind := (infix_append_cons_of_notMem hlast hp).mp hmid
          · exact .inl hmid
          · exact (ih hbehind).imp_right hrest
      · rw [if_neg hhere, List.infix_cons_iff] at h
        obtain hleads | hbehind := h
        · right
          have hkept : p <+: replaceFrom fragment (first :: (mid ++ [last])) 0 (c :: rest) := by
            rwa [replaceFrom, if_neg hhere]
          exact (prefix_of_replaceFrom hfirst hkept).isInfix
        · exact (ih hbehind).imp_right hrest

/-- A fragment that lacks the marks, and does not lie between them, is nowhere after replacing. -/
theorem not_infix_replaceFrom (hfirst : first ∉ fragment) (hlast : last ∉ fragment)
    (hne : fragment ≠ []) (hmid : ¬ fragment <:+: mid) (skip : Nat) :
    ¬ fragment <:+: replaceFrom fragment (first :: (mid ++ [last])) skip text := by
  induction text generalizing skip with
  | nil =>
    cases skip <;> exact fun h => hne (List.infix_nil.mp h)
  | cons c rest ih =>
    cases skip with
    | succ skip => exact ih skip
    | zero =>
      intro h
      rw [replaceFrom] at h
      by_cases hhere : fragment <+: c :: rest
      · rw [if_pos hhere, List.cons_append, List.append_assoc] at h
        obtain hnil | h := (infix_append_cons_of_notMem (a := []) hfirst hne).mp h
        · exact hne (List.infix_nil.mp hnil)
        · obtain h | hbehind := (infix_append_cons_of_notMem hlast hne).mp h
          · exact hmid h
          · exact ih _ hbehind
      · rw [if_neg hhere, List.infix_cons_iff] at h
        obtain hleads | hbehind := h
        · have hkept : fragment <+:
              replaceFrom fragment (first :: (mid ++ [last])) 0 (c :: rest) := by
            rwa [replaceFrom, if_neg hhere]
          exact hhere (prefix_of_replaceFrom hfirst hkept)
        · exact ih _ hbehind

end Marks

end DurableAgent.Library
