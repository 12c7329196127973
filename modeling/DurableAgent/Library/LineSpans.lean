import Mathlib.Data.List.Sort
import Mathlib.Tactic.Common

/-!
# Lines by a set of line breaks

The lines of a text where some characters end a line, and a carriage return and a line feed end
one together. More breaks make more lines: from the first further break on, the lines of the same
numbers end earlier.
-/

namespace DurableAgent.Library

/-- The lines of a text, without the breaks. There is no line behind the last break. -/
def splitLines (breaks : Char → Bool) : List Char → List (List Char)
  | [] => []
  | '\r' :: '\n' :: rest => [] :: splitLines breaks rest
  | c :: rest =>
    if breaks c then [] :: splitLines breaks rest
    else (c :: (splitLines breaks rest).headD []) :: (splitLines breaks rest).tail

attribute [local simp] splitLines

/-- What ends no line is in one. -/
theorem mem_splitLines {breaks : Char → Bool} {text : List Char} {c : Char} (hc : c ∈ text)
    (hbreak : breaks c = false) (hreturn : c ≠ '\r') (hfeed : c ≠ '\n') :
    ∃ line ∈ splitLines breaks text, c ∈ line := by
  fun_induction splitLines breaks text with
  | case1 => cases hc
  | case2 rest ih =>
    simp only [List.mem_cons, hreturn, hfeed, false_or] at hc
    obtain ⟨line, hline, hmem⟩ := ih hc
    exact ⟨line, List.mem_cons_of_mem [] hline, hmem⟩
  | case3 d rest _ hd ih =>
    obtain rfl | hc := List.mem_cons.mp hc
    · rw [hbreak] at hd
      cases hd
    · obtain ⟨line, hline, hmem⟩ := ih hc
      exact ⟨line, List.mem_cons_of_mem [] hline, hmem⟩
  | case4 d rest _ _ ih =>
    obtain rfl | hc := List.mem_cons.mp hc
    · exact ⟨_, List.mem_cons_self, List.mem_cons_self⟩
    · obtain ⟨line, hline, hmem⟩ := ih hc
      cases hlines : splitLines breaks rest with
      | nil =>
        rw [hlines] at hline
        cases hline
      | cons first lines =>
        rw [hlines] at hline
        obtain rfl | hline := List.mem_cons.mp hline
        · exact ⟨_, List.mem_cons_self, List.mem_cons_of_mem d hmem⟩
        · exact ⟨line, List.mem_cons_of_mem _ hline, hmem⟩

/-- Where the lines of a text begin and end, when the text begins at an offset. -/
def lineSpans (breaks : Char → Bool) : Nat → List Char → List (Nat × Nat)
  | _, [] => []
  | i, '\r' :: '\n' :: rest => (i, i) :: lineSpans breaks (i + 2) rest
  | i, c :: rest =>
    if breaks c then (i, i) :: lineSpans breaks (i + 1) rest
    else
      let spans := lineSpans breaks (i + 1) rest
      (i, (spans.head?.map Prod.snd).getD (i + 1)) :: spans.tail

attribute [local simp] lineSpans

variable {breaks fine coarse : Char → Bool} {text : List Char} {i k : Nat} {span : Nat × Nat}

/-! ## One character at a time -/

section Steps

variable {c : Char} {rest : List Char}

theorem lineSpans_crlf :
    lineSpans breaks i ('\r' :: '\n' :: rest) = (i, i) :: lineSpans breaks (i + 2) rest := by
  rw [lineSpans]

theorem lineSpans_break (hcrlf : ∀ t, c = '\r' → rest = '\n' :: t → False)
    (h : breaks c = true) :
    lineSpans breaks i (c :: rest) = (i, i) :: lineSpans breaks (i + 1) rest := by
  rw [lineSpans, if_pos h]
  exact hcrlf

theorem lineSpans_char (hcrlf : ∀ t, c = '\r' → rest = '\n' :: t → False)
    (h : ¬ breaks c = true) :
    lineSpans breaks i (c :: rest) =
      (i, ((lineSpans breaks (i + 1) rest).head?.map Prod.snd).getD (i + 1)) ::
        (lineSpans breaks (i + 1) rest).tail := by
  rw [lineSpans, if_neg h]
  exact hcrlf

end Steps

/-! ## Lines in their order -/

/-- The first line begins with the text. -/
theorem first_of_head (h : (lineSpans breaks i text).head? = some span) : span.1 = i := by
  induction i, text using lineSpans.induct breaks with
  | case1 i => cases h
  | case2 i rest _ =>
    rw [lineSpans_crlf] at h
    exact congrArg Prod.fst (Option.some.inj h).symm
  | case3 i c rest hcrlf hbreak _ =>
    rw [lineSpans_break hcrlf hbreak] at h
    exact congrArg Prod.fst (Option.some.inj h).symm
  | case4 i c rest hcrlf hbreak _ =>
    rw [lineSpans_char hcrlf hbreak] at h
    exact congrArg Prod.fst (Option.some.inj h).symm

/-- A line lies behind the beginning of the text and does not end before it begins. -/
theorem mem_lineSpans (h : span ∈ lineSpans breaks i text) : i ≤ span.1 ∧ span.1 ≤ span.2 := by
  induction i, text using lineSpans.induct breaks generalizing span with
  | case1 i => cases h
  | case2 i rest ih =>
    rw [lineSpans_crlf, List.mem_cons] at h
    obtain rfl | h := h
    · exact ⟨le_refl _, le_refl _⟩
    · have hrest := ih h
      omega
  | case3 i c rest hcrlf hbreak ih =>
    rw [lineSpans_break hcrlf hbreak, List.mem_cons] at h
    obtain rfl | h := h
    · exact ⟨le_refl _, le_refl _⟩
    · have hrest := ih h
      omega
  | case4 i c rest hcrlf hbreak ih =>
    rw [lineSpans_char hcrlf hbreak, List.mem_cons] at h
    obtain rfl | h := h
    · refine ⟨le_refl _, ?_⟩
      cases hspans : lineSpans breaks (i + 1) rest with
      | nil => simp
      | cons first spans =>
        have hfirst := ih (hspans ▸ List.mem_cons_self)
        simp only [List.head?_cons, Option.map_some, Option.getD_some]
        omega
    · have hrest := ih (List.mem_of_mem_tail h)
      omega

theorem le_head_end : i ≤ ((lineSpans breaks i text).head?.map Prod.snd).getD i := by
  cases hspans : lineSpans breaks i text with
  | nil => exact le_refl _
  | cons first spans =>
    have hfirst := mem_lineSpans (hspans ▸ List.mem_cons_self)
    exact hfirst.1.trans hfirst.2

/-- A line ends before the next one begins. -/
theorem pairwise_lineSpans : (lineSpans breaks i text).Pairwise fun a b => a.2 < b.1 := by
  induction i, text using lineSpans.induct breaks with
  | case1 i => exact List.Pairwise.nil
  | case2 i rest ih =>
    rw [lineSpans_crlf]
    refine List.Pairwise.cons (fun b hb => ?_) ih
    have hrest := mem_lineSpans hb
    omega
  | case3 i c rest hcrlf hbreak ih =>
    rw [lineSpans_break hcrlf hbreak]
    refine List.Pairwise.cons (fun b hb => ?_) ih
    have hrest := mem_lineSpans hb
    omega
  | case4 i c rest hcrlf hbreak ih =>
    rw [lineSpans_char hcrlf hbreak]
    cases hspans : lineSpans breaks (i + 1) rest with
    | nil => simp
    | cons first spans =>
      rw [hspans, List.pairwise_cons] at ih
      exact List.Pairwise.cons (fun b hb => ih.1 b hb) ih.2

/-- Lines begin and end one after the other. -/
theorem getElem_lineSpans_lt {j : Nat} {a b : Nat × Nat} (hjk : j < k)
    (ha : (lineSpans breaks i text)[j]? = some a) (hb : (lineSpans breaks i text)[k]? = some b) :
    a.2 < b.1 := by
  obtain ⟨hj, rfl⟩ := List.getElem?_eq_some_iff.mp ha
  obtain ⟨hk, rfl⟩ := List.getElem?_eq_some_iff.mp hb
  exact List.pairwise_iff_getElem.mp pairwise_lineSpans j k hj hk hjk

theorem getElem_lineSpans_le {j : Nat} {a b : Nat × Nat} (hjk : j ≤ k)
    (ha : (lineSpans breaks i text)[j]? = some a) (hb : (lineSpans breaks i text)[k]? = some b) :
    a.2 ≤ b.2 := by
  obtain rfl | hlt := Nat.eq_or_lt_of_le hjk
  · rw [Option.some.inj (ha.symm.trans hb)]
  · have hbefore := getElem_lineSpans_lt hlt ha hb
    have hb := mem_lineSpans (List.mem_of_getElem? hb)
    omega

/-! ## What the lines hold -/

/-- The characters between two places. -/
def between (text : List Char) (span : Nat × Nat) : List Char :=
  (text.drop span.1).take (span.2 - span.1)

theorem drop_of_drop {whole rest : List Char} (pre : List Char) (h : whole.drop i = pre ++ rest) :
    whole.drop (i + pre.length) = rest := by
  rw [← List.drop_drop, h, List.drop_left]

theorem between_cons {whole rest : List Char} {c : Char} {e : Nat} (h : whole.drop i = c :: rest)
    (he : i + 1 ≤ e) : between whole (i, e) = c :: between whole (i + 1, e) := by
  have hrest : whole.drop (i + 1) = rest := drop_of_drop [c] h
  unfold between
  dsimp only
  rw [h, hrest, show e - i = (e - (i + 1)) + 1 by omega, List.take_succ_cons]

/-- The lines of the rest of a text, from their places. -/
theorem splitLines_drop {whole : List Char} (h : whole.drop i = text) :
    splitLines breaks text = (lineSpans breaks i text).map (between whole) := by
  induction i, text using lineSpans.induct breaks with
  | case1 i => simp [splitLines, lineSpans]
  | case2 i rest ih =>
    rw [lineSpans_crlf, splitLines, ih (drop_of_drop ['\r', '\n'] h)]
    simp [between]
  | case3 i c rest hcrlf hbreak ih =>
    have hrest := ih (drop_of_drop [c] h)
    rw [lineSpans_break hcrlf hbreak, splitLines, if_pos hbreak, hrest]
    · simp [between]
    · exact hcrlf
  | case4 i c rest hcrlf hbreak ih =>
    have hrest := ih (drop_of_drop [c] h)
    rw [lineSpans_char hcrlf hbreak, splitLines, if_neg hbreak, hrest]
    · rw [List.map_cons, between_cons h le_head_end, List.map_tail]
      congr 2
      cases hspans : lineSpans breaks (i + 1) rest with
      | nil => simp [between]
      | cons first spans =>
        have hfirst : first.1 = i + 1 := first_of_head (by rw [hspans]; rfl)
        rw [← hfirst]
        rfl
    · exact hcrlf

/-- The lines of a text are what is between their ends. -/
theorem splitLines_eq (breaks : Char → Bool) (text : List Char) :
    splitLines breaks text = (lineSpans breaks 0 text).map (between text) :=
  splitLines_drop rfl

/-! ## More breaks -/

/-- A text in which the further breaks do not occur. -/
def Agrees (fine coarse : Char → Bool) (text : List Char) : Prop :=
  ∀ c ∈ text, fine c = true → coarse c = true

theorem agrees_cons {c : Char} (h : fine c = true → coarse c = true) :
    Agrees fine coarse (c :: text) ↔ Agrees fine coarse text := by
  simp only [Agrees, List.forall_mem_cons]
  exact and_iff_right h

/-- How a line by fewer breaks is met by the line of its number by more: it is the same up to
which there is no further break, and ends earlier if there is one before its end. -/
def Meets (fine coarse : Char → Bool) (text : List Char) (i : Nat) (spans : List (Nat × Nat))
    (k : Nat) (span : Nat × Nat) : Prop :=
  ∃ other, spans[k]? = some other ∧
    (Agrees fine coarse (text.take (span.2 - i)) ∧ other = span ∨
      ¬ Agrees fine coarse (text.take (span.2 - i)) ∧ other.2 < span.2)

theorem Meets.le {spans : List (Nat × Nat)} (h : Meets fine coarse text i spans k span) :
    ∃ other, spans[k]? = some other ∧ other.2 ≤ span.2 := by
  obtain ⟨other, hother, ⟨-, rfl⟩ | ⟨-, hlt⟩⟩ := h
  · exact ⟨other, hother, le_refl _⟩
  · exact ⟨other, hother, Nat.le_of_lt hlt⟩

/-- Before the end of a line behind a beginning there is a further break if there is one behind
the beginning. -/
theorem agrees_take_append {pre : List Char} {e : Nat}
    (hpre : ∀ c ∈ pre, fine c = true → coarse c = true) (he : i + pre.length ≤ e) :
    Agrees fine coarse ((pre ++ text).take (e - i)) ↔
      Agrees fine coarse (text.take (e - (i + pre.length))) := by
  rw [List.take_append, List.take_of_length_le (by omega), Nat.sub_sub]
  simp only [Agrees, List.forall_mem_append]
  exact and_iff_right hpre

/-- What meets a line of the rest meets it in the text. -/
theorem Meets.append {spans spans' : List (Nat × Nat)} {k' : Nat} {pre : List Char}
    (hpre : ∀ c ∈ pre, fine c = true → coarse c = true) (hspan : i + pre.length ≤ span.2)
    (hsame : spans'[k']? = spans[k]?)
    (h : Meets fine coarse text (i + pre.length) spans k span) :
    Meets fine coarse (pre ++ text) i spans' k' span := by
  obtain ⟨other, hother, hcases⟩ := h
  refine ⟨other, hsame.trans hother, ?_⟩
  rwa [agrees_take_append hpre hspan]

theorem lineSpans_eq_nil : lineSpans breaks i text = [] ↔ text = [] := by
  induction i, text using lineSpans.induct breaks with
  | case1 i => simp [lineSpans]
  | case2 i rest ih => simp
  | case3 i c rest hcrlf hbreak ih => simp [lineSpans_break hcrlf hbreak]
  | case4 i c rest hcrlf hbreak ih => simp [lineSpans_char hcrlf hbreak]

/-- A further break before the end of a line is met by a line that ends earlier. -/
theorem Meets.of_further {c : Char} {spans : List (Nat × Nat)} {other : Nat × Nat}
    (hfine : fine c = true) (hcoarse : ¬ coarse c = true) (hspan : i + 1 ≤ span.2)
    (hother : spans[k]? = some other) (hlt : other.2 < span.2) :
    Meets fine coarse (c :: text) i spans k span := by
  refine ⟨other, hother, .inr ⟨fun hagrees => hcoarse (hagrees c ?_ hfine), hlt⟩⟩
  rw [show span.2 - i = (span.2 - (i + 1)) + 1 by omega, List.take_succ_cons]
  exact List.mem_cons_self

/-- Every line by fewer breaks is met. -/
theorem meets_lineSpans (hsub : ∀ c, coarse c = true → fine c = true)
    (hcr : coarse '\r' = true) (hlf : coarse '\n' = true)
    (h : (lineSpans coarse i text)[k]? = some span) :
    Meets fine coarse text i (lineSpans fine i text) k span := by
  induction i, text using lineSpans.induct coarse generalizing k span with
  | case1 i => cases h
  | case2 i rest ih =>
    rw [lineSpans_crlf] at h ⊢
    cases k with
    | zero =>
      obtain rfl := Option.some.inj h
      exact ⟨_, rfl, .inl ⟨by simp [Agrees], rfl⟩⟩
    | succ k =>
      have hmem := mem_lineSpans (List.mem_of_getElem? h)
      apply @Meets.append _ _ _ _ _ _ _ _ _ ['\r', '\n'] _ (hmem.1.trans hmem.2) rfl (ih h)
      simp [hcr, hlf]
  | case3 i c rest hcrlf hbreak ih =>
    rw [lineSpans_break hcrlf hbreak] at h
    rw [lineSpans_break hcrlf (hsub c hbreak)]
    cases k with
    | zero =>
      obtain rfl := Option.some.inj h
      exact ⟨_, rfl, .inl ⟨by simp [Agrees], rfl⟩⟩
    | succ k =>
      have hmem := mem_lineSpans (List.mem_of_getElem? h)
      apply @Meets.append _ _ _ _ _ _ _ _ _ [c] _ (hmem.1.trans hmem.2) rfl (ih h)
      simp [hbreak]
  | case4 i c rest hcrlf hbreak ih =>
    rw [lineSpans_char hcrlf hbreak] at h
    have hspan : i + 1 ≤ span.2 := by
      cases k with
      | zero =>
        obtain rfl := Option.some.inj h
        exact le_head_end
      | succ k =>
        have hmem := mem_lineSpans (List.mem_of_mem_tail (List.mem_of_getElem? h))
        exact hmem.1.trans hmem.2
    by_cases hfine : fine c = true
    · -- the line of this number ends here, or where the one before it in the rest does
      rw [lineSpans_break hcrlf hfine]
      cases k with
      | zero => exact Meets.of_further hfine hbreak hspan rfl (Nat.lt_of_succ_le hspan)
      | succ k =>
        rw [List.getElem?_cons_succ, List.getElem?_tail] at h
        obtain ⟨other, hother, hle⟩ := (ih h).le
        obtain ⟨hk, -⟩ := List.getElem?_eq_some_iff.mp hother
        have hbefore := List.getElem?_eq_getElem (Nat.lt_of_succ_lt hk)
        have hlt := getElem_lineSpans_lt (Nat.lt_succ_self k) hbefore hother
        have hother := mem_lineSpans (List.mem_of_getElem? hother)
        refine Meets.of_further hfine hbreak hspan hbefore ?_
        omega
    · rw [lineSpans_char hcrlf hfine]
      have hc (d : Char) (hd : d ∈ [c]) (hfined : fine d = true) : coarse d = true := by
        rw [List.mem_singleton.mp hd] at hfined
        exact absurd hfined hfine
      cases k with
      | zero =>
        obtain rfl := Option.some.inj h
        cases hC : lineSpans coarse (i + 1) rest with
        | nil =>
          obtain rfl := lineSpans_eq_nil.mp hC
          refine ⟨(i, i + 1), rfl, .inl ⟨fun d hd => hc d (List.mem_of_mem_take hd), rfl⟩⟩
        | cons first spans =>
          obtain ⟨other, hother, hcases⟩ := @ih 0 first (by rw [hC]; rfl)
          have hmem := mem_lineSpans (hC ▸ List.mem_cons_self)
          have htake : Agrees fine coarse ((c :: rest).take (first.2 - i)) ↔
              Agrees fine coarse (rest.take (first.2 - (i + 1))) :=
            agrees_take_append hc (hmem.1.trans hmem.2)
          rw [← htake] at hcases
          refine ⟨(i, other.2), ?_, hcases.imp (And.imp_right fun hsame => ?_) id⟩
          · rw [← List.head?_eq_getElem?] at hother
            rw [hother]
            rfl
          · rw [hsame]
            rfl
      | succ k =>
        rw [List.getElem?_cons_succ, List.getElem?_tail] at h
        apply @Meets.append _ _ _ _ _ _ _ _ _ [c] hc hspan _ (ih h)
        rw [List.getElem?_cons_succ, List.getElem?_tail]

end DurableAgent.Library
