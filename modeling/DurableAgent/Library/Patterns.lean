import DurableAgent.Library.Lines

/-!
# Patterns of elements

Patterns try their ways of matching in order, as backtracking does; what they match is replaced
from the left. A text that lacks the marks of what is put in was in the text before.
-/

namespace DurableAgent.Library

inductive Pattern (α : Type) where
  | empty
  | one (p : α → Bool)
  /-- Some elements of a kind: the longest way first, or the shortest. -/
  | many (greedy : Bool) (least : Nat) (most : Option Nat) (p : α → Bool)
  | seq (a b : Pattern α)
  | alt (a b : Pattern α)
  /-- Between what is in a word and what is not. -/
  | boundary
  | group (n : Nat) (a : Pattern α)

/-- One way in which a pattern matches the beginning of a text. -/
structure Match (α : Type) where
  taken : List α
  rest : List α
  groups : List (Nat × List α) := []

namespace Pattern

variable {α : Type} (isWord : α → Bool)

/-- How many elements are tried, where so many of the kind are there. -/
def lengths (greedy : Bool) (least : Nat) (most : Option Nat) (available : Nat) : List Nat :=
  let limit := match most with
    | none => available
    | some most => min most available
  let ascending := List.range' least (limit + 1 - least)
  if greedy then ascending.reverse else ascending

/-- The ways in which a pattern matches, in the order in which they are tried. `last` is the
element before the text. -/
def run : Pattern α → Option α → List α → List (Match α)
  | .empty, _, text => [⟨[], text, []⟩]
  | .one _, _, [] => []
  | .one p, _, c :: rest => if p c then [⟨[c], rest, []⟩] else []
  | .many greedy least most p, _, text =>
    (lengths greedy least most (text.takeWhile p).length).map fun n =>
      ⟨text.take n, text.drop n, []⟩
  | .seq a b, last, text =>
    (a.run last text).flatMap fun m =>
      (b.run (m.taken.getLast?.or last) m.rest).map fun m' =>
        ⟨m.taken ++ m'.taken, m'.rest, m.groups ++ m'.groups⟩
  | .alt a b, last, text => a.run last text ++ b.run last text
  | .boundary, last, text =>
    if last.any isWord ≠ text.head?.any isWord then [⟨[], text, []⟩] else []
  | .group n a, last, text =>
    (a.run last text).map fun m => { m with groups := (n, m.taken) :: m.groups }

attribute [local simp] run

/-- The pattern matches somewhere. -/
def search (p : Pattern α) : Option α → List α → Bool
  | last, [] => (p.run isWord last []).isEmpty = false
  | last, c :: rest => (p.run isWord last (c :: rest)).isEmpty = false ∨ p.search (some c) rest

/-- The text with what a pattern matches replaced, for patterns that always take something. -/
def subFrom (p : Pattern α) (template : Match α → List α) : Nat → Option α → List α → List α
  | _, _, [] => []
  | skip + 1, _, c :: rest => p.subFrom template skip (some c) rest
  | 0, last, c :: rest =>
    match (p.run isWord last (c :: rest)).head? with
    | some m => template m ++ p.subFrom template (m.taken.length - 1) (some c) rest
    | none => c :: p.subFrom template 0 (some c) rest

def sub (p : Pattern α) (template : Match α → List α) (text : List α) : List α :=
  p.subFrom isWord template 0 none text

/-- The matches from the left that begin and end where they may, for patterns that always take
something: of the ways of matching at one place the first that may end there. -/
def findFrom (p : Pattern α) (starts : Option α → Bool) (ends : Option α → Bool) :
    Nat → Option α → List α → List (Match α)
  | _, _, [] => []
  | skip + 1, _, c :: rest => p.findFrom starts ends skip (some c) rest
  | 0, last, c :: rest =>
    let ways := if starts last then p.run isWord last (c :: rest) else []
    match ways.find? fun m => ends m.rest.head? with
    | some m => m :: p.findFrom starts ends (m.taken.length - 1) (some c) rest
    | none => p.findFrom starts ends 0 (some c) rest

/-- The matches at any place. -/
def findAll (p : Pattern α) (text : List α) : List (Match α) :=
  p.findFrom isWord (fun _ => true) (fun _ => true) 0 none text

/-- How many groups there are. -/
def groups : Pattern α → Nat
  | .seq a b => a.groups + b.groups
  | .alt a b => a.groups + b.groups
  | .group _ a => a.groups + 1
  | _ => 0

variable {isWord} {p : Pattern α} {last : Option α} {text : List α} {m : Match α}

/-! ## Ways of matching -/

theorem mem_run_seq {a b : Pattern α} :
    m ∈ (seq a b).run isWord last text ↔ ∃ m₁ ∈ a.run isWord last text,
      ∃ m₂ ∈ b.run isWord (m₁.taken.getLast?.or last) m₁.rest,
        ⟨m₁.taken ++ m₂.taken, m₂.rest, m₁.groups ++ m₂.groups⟩ = m := by
  simp only [run, List.mem_flatMap, List.mem_map]

theorem mem_run_group {n : Nat} {a : Pattern α} :
    m ∈ (group n a).run isWord last text ↔ ∃ m₁ ∈ a.run isWord last text,
      { m₁ with groups := (n, m₁.taken) :: m₁.groups } = m := by
  simp only [run, List.mem_map]

/-- A match takes the beginning of the text and leaves the rest. -/
theorem taken_append_rest (h : m ∈ p.run isWord last text) : m.taken ++ m.rest = text := by
  induction p generalizing last text m with
  | empty =>
    rw [run, List.mem_singleton] at h
    rw [h, List.nil_append]
  | one p =>
    cases text with
    | nil => cases h
    | cons c rest =>
      rw [run] at h
      split at h
      · rw [List.mem_singleton.mp h]
        rfl
      · cases h
  | many greedy least most p =>
    rw [run] at h
    obtain ⟨n, -, rfl⟩ := List.mem_map.mp h
    exact List.take_append_drop n text
  | seq a b iha ihb =>
    obtain ⟨m₁, h₁, m₂, h₂, rfl⟩ := mem_run_seq.mp h
    rw [List.append_assoc, ihb h₂, iha h₁]
  | alt a b iha ihb =>
    rw [run, List.mem_append] at h
    obtain h | h := h
    · exact iha h
    · exact ihb h
  | boundary =>
    rw [run] at h
    split at h
    · rw [List.mem_singleton.mp h, List.nil_append]
    · cases h
  | group n a iha =>
    obtain ⟨m₁, h₁, rfl⟩ := mem_run_group.mp h
    exact (iha h₁ : m₁.taken ++ m₁.rest = text)

theorem groups_eq_nil (hp : p.groups = 0) (h : m ∈ p.run isWord last text) : m.groups = [] := by
  induction p generalizing last text m with
  | empty =>
    rw [run, List.mem_singleton] at h
    rw [h]
  | one p =>
    cases text with
    | nil => cases h
    | cons c rest =>
      rw [run] at h
      split at h
      · rw [List.mem_singleton.mp h]
      · cases h
  | many greedy least most p =>
    rw [run] at h
    obtain ⟨n, -, rfl⟩ := List.mem_map.mp h
    rfl
  | seq a b iha ihb =>
    rw [groups, Nat.add_eq_zero_iff] at hp
    obtain ⟨m₁, h₁, m₂, h₂, rfl⟩ := mem_run_seq.mp h
    simp [iha hp.1 h₁, ihb hp.2 h₂]
  | alt a b iha ihb =>
    rw [groups, Nat.add_eq_zero_iff] at hp
    rw [run, List.mem_append] at h
    obtain h | h := h
    · exact iha hp.1 h
    · exact ihb hp.2 h
  | boundary =>
    rw [run] at h
    split at h
    · rw [List.mem_singleton.mp h]
    · cases h
  | group n a _ => cases hp

/-- Three groups in a row take one text after the other. -/
theorem exists_of_run_groups {a b c : Pattern α} (ha : a.groups = 0) (hb : b.groups = 0)
    (hc : c.groups = 0)
    (h : m ∈ (seq (group 1 a) (seq (group 2 b) (group 3 c))).run isWord last text) :
    ∃ x y z, m.taken = x ++ (y ++ z) ∧ m.groups = [(1, x), (2, y), (3, z)] := by
  obtain ⟨m₁, h₁, m₂, h₂, rfl⟩ := mem_run_seq.mp h
  obtain ⟨x, hx, rfl⟩ := mem_run_group.mp h₁
  obtain ⟨m₃, h₃, m₄, h₄, rfl⟩ := mem_run_seq.mp h₂
  obtain ⟨y, hy, rfl⟩ := mem_run_group.mp h₃
  obtain ⟨z, hz, rfl⟩ := mem_run_group.mp h₄
  refine ⟨x.taken, y.taken, z.taken, rfl, ?_⟩
  simp [groups_eq_nil ha hx, groups_eq_nil hb hy, groups_eq_nil hc hz]

/-! ## What replacing leaves of other texts -/

section Marks

variable {first last : α} {mid q : List α} {template : Match α → List α}

/-- The replacement puts marks around something, and keeps the beginning and the end of what was
matched. -/
def Marks (first last : α) (mid : List α) (template : Match α → List α) (m : Match α) : Prop :=
  ∃ before behind, template m = before ++ first :: (mid ++ last :: behind) ∧
    before <+: m.taken ∧ behind <:+ m.taken

/-- The end of what was matched stands before what follows it. -/
theorem suffix_of_matched {c : α} {rest post : List α} (htext : m.taken ++ m.rest = c :: rest)
    (hpost : post <:+ m.taken) : post ++ rest.drop (m.taken.length - 1) <:+ c :: rest := by
  cases htaken : m.taken with
  | nil =>
    rw [htaken, List.suffix_nil] at hpost
    rw [hpost]
    exact List.suffix_cons c rest
  | cons x taken =>
    obtain ⟨t, ht⟩ := hpost
    have hparts := htext
    rw [htaken, List.cons_append] at hparts
    obtain ⟨-, rfl⟩ := List.cons.inj hparts
    refine ⟨t, ?_⟩
    rw [← List.append_assoc, ht, List.length_cons, Nat.add_sub_cancel, List.drop_left, htext]

/-- What lacks the marks lies between them or stood in the text before. The text that has been
passed since the last match is carried along. -/
theorem infix_of_subFrom (hfirst : first ∉ q) (hlast : last ∉ q) (hq : q ≠ []) {skip : Nat}
    {before : Option α} {passed : List α}
    (hmarks : ∀ before text, ∀ m ∈ p.run isWord before text, Marks first last mid template m)
    (h : q <:+: passed ++ p.subFrom isWord template skip before text) :
    q <:+: mid ∨ q <:+: passed ++ text.drop skip := by
  induction text generalizing skip before passed with
  | nil =>
    rw [List.drop_nil]
    cases skip <;> exact .inr h
  | cons c rest ih =>
    cases skip with
    | succ skip => exact ih h
    | zero =>
      rw [subFrom] at h
      rw [List.drop_zero]
      cases hrun : (p.run isWord before (c :: rest)).head? with
      | none =>
        rw [hrun] at h
        dsimp only at h
        rw [List.append_cons] at h
        have hrest := ih h
        rwa [List.drop_zero, ← List.append_cons] at hrest
      | some m =>
        rw [hrun] at h
        dsimp only at h
        have hmem := List.mem_of_head? hrun
        have htext := taken_append_rest hmem
        obtain ⟨pre, post, htemplate, ⟨t, hpre⟩, hpost⟩ := hmarks _ _ _ hmem
        rw [htemplate, List.append_assoc, List.cons_append, List.append_assoc,
          List.cons_append, ← List.append_assoc] at h
        obtain h | h := (infix_append_cons_of_notMem hfirst hq).mp h
        · right
          apply h.trans
          refine ⟨[], t ++ m.rest, ?_⟩
          rw [List.nil_append, List.append_assoc, ← List.append_assoc pre, hpre, htext]
        · obtain h | h := (infix_append_cons_of_notMem hlast hq).mp h
          · exact .inl h
          · obtain hmid | hrest := ih h
            · exact .inl hmid
            · right
              apply hrest.trans
              apply List.IsInfix.trans _ (List.suffix_append passed (c :: rest)).isInfix
              exact (suffix_of_matched htext hpost).isInfix

end Marks

end Pattern

end DurableAgent.Library
