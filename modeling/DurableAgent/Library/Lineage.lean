import Mathlib.Data.List.Basic
import Mathlib.Tactic.Common

/-!
# Lineages in a window of records

Records carry a number, a digest and the digest of their parent. A window keeps the newest of
them, newest first, some of them unreadable. A record is anchored in the window when its parents,
each time the first older record that fits, lead to the oldest record of the window or to a
record without a parent that carries the number one.
-/

namespace DurableAgent.Library

/-- How the records of a window are checked and linked. -/
structure Lineage (α H : Type) where
  valid : α → Bool
  sequence : α → Nat
  hash : α → H
  parent : α → Option H

namespace Lineage

variable {α H : Type} (L : Lineage α H)

/-- The record fits a link: it is valid, is older than the number, and has the digest. -/
def Fits (h : H) (s : Nat) (r : Option α) : Prop :=
  ∃ c, r = some c ∧ L.valid c = true ∧ L.sequence c < s ∧ h = L.hash c

/-- The first record of the window that fits a link, and the window below it. -/
def FirstFit (h : H) (s : Nat) (window : List (Option α)) (c : α) (older : List (Option α)) :
    Prop :=
  ∃ skipped, window = skipped ++ some c :: older ∧ (∀ r ∈ skipped, ¬ L.Fits h s r) ∧
    L.Fits h s (some c)

inductive Anchored : α → List (Option α) → Prop where
  | oldest {c : α} (hc : L.valid c = true) : Anchored c []
  | root {c : α} {older : List (Option α)} (hc : L.valid c = true) (hparent : L.parent c = none)
      (hseq : L.sequence c = 1) : Anchored c older
  | link {c o : α} {h : H} {older rest : List (Option α)} (hc : L.valid c = true)
      (hparent : L.parent c = some h) (hfit : L.FirstFit h (L.sequence c) older o rest)
      (ho : Anchored o rest) : Anchored c older

variable {L} {h : H} {s : Nat} {c o : α} {r : Option α} {window older rest : List (Option α)}

theorem fits_some : L.Fits h s (some c) ↔ L.valid c = true ∧ L.sequence c < s ∧ h = L.hash c := by
  simp [Fits]

theorem not_fits_none : ¬ L.Fits h s none := by
  simp [Fits]

theorem not_fits_of_invalid (hr : ∀ c, r = some c → L.valid c = false) : ¬ L.Fits h s r := by
  rintro ⟨c, hc, hvalid, -⟩
  rw [hr c hc] at hvalid
  cases hvalid

theorem firstFit_head (hfit : L.Fits h s (some c)) : L.FirstFit h s (some c :: older) c older :=
  ⟨[], rfl, by simp, hfit⟩

theorem firstFit_skip (hr : ¬ L.Fits h s r) :
    L.FirstFit h s (r :: window) c older ↔ L.FirstFit h s window c older := by
  constructor
  · rintro ⟨skipped, heq, hskip, hfit⟩
    cases skipped with
    | nil =>
      obtain ⟨rfl, rfl⟩ := List.cons.inj heq
      exact absurd hfit hr
    | cons r' skipped =>
      obtain ⟨rfl, rfl⟩ := List.cons.inj heq
      exact ⟨skipped, rfl, fun x hx => hskip x (List.mem_cons_of_mem _ hx), hfit⟩
  · rintro ⟨skipped, rfl, hskip, hfit⟩
    refine ⟨r :: skipped, rfl, fun x hx => ?_, hfit⟩
    rcases List.mem_cons.mp hx with rfl | hx
    · exact hr
    · exact hskip x hx

/-- The first record that fits is the head, when the head fits. -/
theorem firstFit_of_head (hfit : L.Fits h s (some o))
    (hfirst : L.FirstFit h s (some o :: window) c older) : c = o ∧ older = window := by
  obtain ⟨skipped, heq, hskip, -⟩ := hfirst
  cases skipped with
  | nil =>
    obtain ⟨ho, rfl⟩ := List.cons.inj heq
    exact ⟨(Option.some.inj ho).symm, rfl⟩
  | cons r skipped =>
    obtain ⟨rfl, -⟩ := List.cons.inj heq
    exact absurd hfit (hskip _ (List.mem_cons_self))

theorem not_firstFit_nil : ¬ L.FirstFit h s [] c older := by
  rintro ⟨skipped, heq, -⟩
  simp at heq

theorem Anchored.valid (hc : L.Anchored c older) : L.valid c = true := by
  cases hc with
  | oldest hc => exact hc
  | root hc => exact hc
  | link hc => exact hc

/-- The anchor of a valid record is decided by its parent. -/
theorem anchored_iff (hc : L.valid c = true) : L.Anchored c older ↔ older = [] ∨
    (L.parent c = none ∧ L.sequence c = 1) ∨
      ∃ h o rest, L.parent c = some h ∧ L.FirstFit h (L.sequence c) older o rest ∧
        L.Anchored o rest := by
  constructor
  · intro ha
    cases ha with
    | oldest => exact .inl rfl
    | root _ hparent hseq => exact .inr (.inl ⟨hparent, hseq⟩)
    | link _ hparent hfit ho => exact .inr (.inr ⟨_, _, _, hparent, hfit, ho⟩)
  · rintro (rfl | ⟨hparent, hseq⟩ | ⟨h, o, rest, hparent, hfit, ho⟩)
    · exact .oldest hc
    · exact .root hc hparent hseq
    · exact .link hc hparent hfit ho

/-! ## Unbroken chains -/

/-- Every record is valid, and is the child of the next one. -/
def Linked (L : Lineage α H) : List α → Prop
  | [] => True
  | [c] => L.valid c = true
  | c :: o :: rest => L.valid c = true ∧ L.parent c = some (L.hash o) ∧
      L.sequence o < L.sequence c ∧ Linked L (o :: rest)

theorem Linked.tail {l : List α} (hl : L.Linked (c :: l)) : L.Linked l := by
  cases l with
  | nil => trivial
  | cons o rest => exact hl.2.2.2

theorem Linked.head_valid {l : List α} (hl : L.Linked (c :: l)) : L.valid c = true := by
  cases l with
  | nil => exact hl
  | cons o rest => exact hl.1

theorem Linked.fits {l : List α} (hl : L.Linked (c :: o :: l)) :
    L.Fits (L.hash o) (L.sequence c) (some o) :=
  fits_some.mpr ⟨hl.tail.head_valid, hl.2.2.1, rfl⟩

theorem Linked.of_append {l l' : List α} (hl : L.Linked (l ++ l')) : L.Linked l' := by
  induction l with
  | nil => exact hl
  | cons c l ih => exact ih hl.tail

/-- The newest record of an unbroken chain is anchored. -/
theorem Linked.anchored {l : List α} (hl : L.Linked (c :: l)) : L.Anchored c (l.map some) := by
  induction l generalizing c with
  | nil => exact .oldest hl
  | cons o rest ih => exact .link hl.head_valid hl.2.1 (firstFit_head hl.fits) (ih hl.tail)

theorem Linked.take {l : List α} (hl : L.Linked l) (n : Nat) : L.Linked (l.take n) := by
  induction l generalizing n with
  | nil => simpa using hl
  | cons c l ih =>
    cases n with
    | zero => trivial
    | succ n =>
      cases l with
      | nil => simpa using hl
      | cons o rest =>
        cases n with
        | zero => exact hl.head_valid
        | succ n => exact ⟨hl.1, hl.2.1, hl.2.2.1, ih hl.tail (n + 1)⟩

/-- The parents of an anchored record form an unbroken chain through the window below it, down
to the oldest record of the window or to a root. -/
theorem Anchored.chain (hc : L.Anchored c older) : ∃ l last, L.Linked (c :: l) ∧
    (l.map some).Sublist older ∧ (c :: l).getLast? = some last ∧
      ((some c :: older).getLast? = some (some last) ∨
        (L.parent last = none ∧ L.sequence last = 1)) := by
  induction hc with
  | @oldest c hc => exact ⟨[], c, hc, List.Sublist.slnil, rfl, .inl rfl⟩
  | @root c older hc hparent hseq =>
    exact ⟨[], c, hc, List.nil_sublist older, rfl, .inr ⟨hparent, hseq⟩⟩
  | @link c o h older rest hc hparent hfit _ ih =>
    obtain ⟨l, last, hl, hsub, hlast, hend⟩ := ih
    obtain ⟨skipped, rfl, -, hfits⟩ := hfit
    obtain ⟨-, hlt, rfl⟩ := fits_some.mp hfits
    refine ⟨o :: l, last, ⟨hc, hparent, hlt, hl⟩, ?_, ?_, ?_⟩
    · rw [List.map_cons]
      exact (hsub.cons_cons (some o)).trans (List.sublist_append_right skipped _)
    · rw [List.getLast?_cons_cons]
      exact hlast
    · rcases hend with hend | hend
      · left
        rw [← List.cons_append, List.getLast?_append, hend]
        rfl
      · exact .inr hend

/-- A chain whose oldest record cannot be read anchors none of the others. -/
theorem Linked.not_anchored {l : List α} (hl : L.Linked (c :: (l ++ [o])))
    (hr : ∀ h s, ¬ L.Fits h s r) : ¬ L.Anchored c (l.map some ++ [r]) := by
  induction l generalizing c with
  | nil =>
    intro ha
    have hparent : L.parent c = some (L.hash o) := hl.2.1
    cases ha with
    | root _ hnone => rw [hparent] at hnone; cases hnone
    | link _ _ hfit =>
      rw [List.map_nil, List.nil_append, firstFit_skip (hr _ _)] at hfit
      exact not_firstFit_nil hfit
  | cons c' rest ih =>
    intro ha
    have hparent : L.parent c = some (L.hash c') := hl.2.1
    cases ha with
    | root _ hnone => rw [hparent] at hnone; cases hnone
    | link _ hsome hfit ho =>
      rw [hparent] at hsome
      obtain rfl := Option.some.inj hsome
      obtain ⟨rfl, rfl⟩ := firstFit_of_head hl.fits hfit
      exact ih hl.tail ho

/-! ## Deciding anchors -/

section Walk

variable [DecidableEq H] (L)

/-- Whether the head of the window is anchored; given a link, whether the first record that
fits it is. -/
def walk : Option (H × Nat) → List (Option α) → Bool
  | _, [] => false
  | none, none :: _ => false
  | some link, none :: older => walk (some link) older
  | none, some c :: older =>
    L.valid c && (older.isEmpty ||
      match L.parent c with
      | none => L.sequence c == 1
      | some h => walk (some (h, L.sequence c)) older)
  | some (h, s), some c :: older =>
    if L.valid c = true ∧ L.sequence c < s ∧ h = L.hash c then
      older.isEmpty ||
        match L.parent c with
        | none => L.sequence c == 1
        | some h' => walk (some (h', L.sequence c)) older
    else walk (some (h, s)) older

attribute [local simp] walk

variable {L}

/-- The two readings of `walk`, by one induction over the window. -/
theorem walk_iff (window : List (Option α)) :
    (∀ c older, window = some c :: older →
      (L.walk none window = true ↔ L.Anchored c older)) ∧
    (∀ h s, L.walk (some (h, s)) window = true ↔
      ∃ c older, L.FirstFit h s window c older ∧ L.Anchored c older) := by
  induction window with
  | nil =>
    refine ⟨fun c older heq => by simp at heq, fun h s => ?_⟩
    simp [walk, not_firstFit_nil]
  | cons r older ih =>
    -- what is left to check of a valid head, in both modes
    have hhead (c : α) (hc : L.valid c = true) : (older.isEmpty ||
        match L.parent c with
        | none => L.sequence c == 1
        | some h => L.walk (some (h, L.sequence c)) older) = true ↔ L.Anchored c older := by
      rw [anchored_iff hc, Bool.or_eq_true, List.isEmpty_iff]
      cases hparent : L.parent c with
      | none => simp
      | some h => simp [ih.2 h (L.sequence c)]
    refine ⟨fun c older' heq => ?_, fun h s => ?_⟩
    · obtain ⟨rfl, rfl⟩ := List.cons.inj heq
      rw [walk, Bool.and_eq_true]
      constructor
      · rintro ⟨hc, hrest⟩
        exact (hhead c hc).mp hrest
      · intro ha
        exact ⟨ha.valid, (hhead c ha.valid).mpr ha⟩
    · cases r with
      | none =>
        rw [walk, ih.2 h s]
        simp only [firstFit_skip not_fits_none]
      | some c =>
        rw [walk]
        by_cases hfit : L.valid c = true ∧ L.sequence c < s ∧ h = L.hash c
        · rw [if_pos hfit]
          have hc := fits_some.mpr hfit
          constructor
          · intro hrest
            exact ⟨c, older, firstFit_head hc, (hhead c hfit.1).mp hrest⟩
          · rintro ⟨c', older', hfirst, ha⟩
            obtain ⟨rfl, rfl⟩ := firstFit_of_head hc hfirst
            exact (hhead c' hfit.1).mpr ha
        · rw [if_neg hfit, ih.2 h s]
          simp only [firstFit_skip (fun hf => hfit (fits_some.mp hf))]

theorem walk_none_iff : L.walk none (some c :: older) = true ↔ L.Anchored c older :=
  (walk_iff (some c :: older)).1 c older rfl

theorem walk_some_iff : L.walk (some (h, s)) window = true ↔
    ∃ c older, L.FirstFit h s window c older ∧ L.Anchored c older :=
  (walk_iff window).2 h s

/-- The newest record of the window that is anchored. -/
def newest (L : Lineage α H) : List (Option α) → Option α
  | [] => none
  | r :: older => if L.walk none (r :: older) then r else L.newest older

attribute [local simp] newest

theorem newest_of_anchored (hc : L.Anchored c older) : L.newest (some c :: older) = some c := by
  rw [newest, if_pos (walk_none_iff.mpr hc)]

theorem newest_of_not_anchored (hr : ∀ c, r = some c → ¬ L.Anchored c older) :
    L.newest (r :: older) = L.newest older := by
  rw [newest]
  cases r with
  | none => cases older <;> rfl
  | some c => rw [if_neg (fun hw => hr c rfl (walk_none_iff.mp hw))]

/-- What is newest in a window is anchored at its place, and nothing above it is. -/
theorem newest_eq_some (hn : L.newest window = some c) : ∃ newer older,
    window = newer ++ some c :: older ∧ L.Anchored c older ∧
      ∀ newer' c' older', window = newer' ++ some c' :: older' →
        newer'.length < newer.length → ¬ L.Anchored c' older' := by
  induction window with
  | nil => simp [newest] at hn
  | cons r older ih =>
    by_cases hr : ∃ c', r = some c' ∧ L.Anchored c' older
    · obtain ⟨c', rfl, hc'⟩ := hr
      rw [newest_of_anchored hc'] at hn
      obtain rfl := Option.some.inj hn
      exact ⟨[], older, rfl, hc', fun _ _ _ _ hlt => absurd hlt (Nat.not_lt_zero _)⟩
    · have hskip : ∀ c', r = some c' → ¬ L.Anchored c' older := fun c' h ha => hr ⟨c', h, ha⟩
      rw [newest_of_not_anchored hskip] at hn
      obtain ⟨newer, rest, rfl, hc, habove⟩ := ih hn
      refine ⟨r :: newer, rest, rfl, hc, fun newer' c' older' heq hlt => ?_⟩
      cases newer' with
      | nil =>
        obtain ⟨hr', rfl⟩ := List.cons.inj heq
        exact hskip c' hr'
      | cons r' newer' =>
        obtain ⟨-, heq'⟩ := List.cons.inj heq
        exact habove newer' c' older' heq' (Nat.lt_of_succ_lt_succ hlt)

theorem newest_mem (hn : L.newest window = some c) : some c ∈ window := by
  obtain ⟨newer, older, rfl, -, -⟩ := newest_eq_some hn
  simp

/-- A window in which something is anchored has a newest anchored record. -/
theorem newest_ne_none {newer : List (Option α)} (hc : L.Anchored c older) :
    L.newest (newer ++ some c :: older) ≠ none := by
  induction newer with
  | nil =>
    rw [List.nil_append, newest_of_anchored hc]
    exact Option.some_ne_none c
  | cons r newer ih =>
    by_cases hr : ∃ c', r = some c' ∧ L.Anchored c' (newer ++ some c :: older)
    · obtain ⟨c', rfl, hc'⟩ := hr
      rw [List.cons_append, newest_of_anchored hc']
      exact Option.some_ne_none c'
    · rw [List.cons_append, newest_of_not_anchored fun c' h ha => hr ⟨c', h, ha⟩]
      exact ih

/-! ## One damaged record -/

section Damaged

variable {newer older : List α} {d : α}

/-- What is newest beside one invalid record is another record. -/
theorem newest_damaged_mem (hr : ∀ c, r = some c → L.valid c = false)
    (hn : L.newest (newer.map some ++ r :: older.map some) = some c) : c ∈ newer ++ older := by
  obtain ⟨newer', older', heq, hc, -⟩ := newest_eq_some hn
  have hne : some c ≠ r := by
    intro h
    have hvalid := hc.valid
    rw [hr c h.symm] at hvalid
    cases hvalid
  have hmem : some c ∈ newer.map some ++ r :: older.map some := by
    rw [heq]
    simp
  simpa [hne] using hmem

/-- Nothing is anchored in a chain whose oldest record is invalid. -/
theorem newest_damaged_oldest (hl : L.Linked (newer ++ [d]))
    (hr : ∀ c, r = some c → L.valid c = false) : L.newest (newer.map some ++ [r]) = none := by
  induction newer with
  | nil =>
    have hinvalid : ∀ c, r = some c → ¬ L.Anchored c [] := by
      intro c hc ha
      have hvalid := ha.valid
      rw [hr c hc] at hvalid
      cases hvalid
    rw [List.map_nil, List.nil_append, newest_of_not_anchored hinvalid]
    rfl
  | cons c newer ih =>
    have hc : ¬ L.Anchored c (newer.map some ++ [r]) :=
      Linked.not_anchored hl fun _ _ => not_fits_of_invalid hr
    rw [List.map_cons, List.cons_append, newest_of_not_anchored fun c' h => by
      rwa [← Option.some.inj h]]
    exact ih hl.tail

/-- A chain with one invalid record keeps an anchored one unless the oldest is the invalid one. -/
theorem newest_damaged_eq_none_iff (hl : L.Linked (newer ++ d :: older))
    (hr : ∀ c, r = some c → L.valid c = false) :
    L.newest (newer.map some ++ r :: older.map some) = none ↔ older = [] := by
  cases older with
  | nil =>
    rw [List.map_nil]
    exact iff_of_true (newest_damaged_oldest hl hr) rfl
  | cons o rest =>
    have ho : L.Anchored o (rest.map some) := hl.of_append.tail.anchored
    have hne := @newest_ne_none _ _ L _ _ _ (newer.map some ++ [r]) ho
    rw [List.append_assoc] at hne
    exact iff_of_false hne (List.cons_ne_nil o rest)

end Damaged

end Walk

end Lineage

end DurableAgent.Library
