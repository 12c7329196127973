import DurableAgent.Library.ConfinedRules

/-!
# Ignore files below the root

The patterns of a `.gitignore` below the root are read with those of the root, each behind the path
of its directory. This keeps the meaning of some patterns and changes that of others.
-/

namespace DurableAgent.Repository

open Library

def scopedIgnorePattern (directory pattern : List Char) : List Char :=
  if pattern = [] ∨ pattern.head? = some '#' then pattern
  else
    let negated : Bool := pattern.head? = some '!'
    let body := if negated then pattern.tail else pattern
    let body := if body.head? = some '/' then body.tail else body
    let placed := directory ++ '/' :: body
    if negated then '!' :: placed else placed

/-- What the walk adds to its patterns for the ignore file of a directory. -/
def nestedPatterns (d : List Name) (lines : List (List Char)) : List (List Char) :=
  lines.map (scopedIgnorePattern (join d))

example : scopedIgnorePattern "docs".toList "!/api/*.html".toList = "!docs/api/*.html".toList := by
  decide

variable {glob : Name → Name → Bool} {d names : List Name} {pattern rest body : List Char}
  {isDirectory negated slash : Bool}

/-! ## The parts of a pattern -/

/-- A line that is neither empty nor a comment, and what is written behind a directory. -/
structure Parts (pattern : List Char) (negated slash : Bool) (body : List Char) : Prop where
  eq : pattern = sign negated ++ (lead slash ++ body)
  head : slash = false → body.head? ≠ some '/'
  unsigned : negated = false → Unsigned (lead slash ++ body)
  placed : ∀ directory, scopedIgnorePattern directory pattern =
    sign negated ++ (directory ++ '/' :: body)

theorem exists_sign (h : ¬ (pattern = [] ∨ pattern.head? = some '#')) :
    ∃ negated rest, pattern = sign negated ++ rest ∧ (negated = false → Unsigned rest) ∧
      ∀ directory, scopedIgnorePattern directory pattern = sign negated ++
        (directory ++ '/' :: if rest.head? = some '/' then rest.tail else rest) := by
  by_cases hnegated : pattern.head? = some '!'
  · obtain ⟨rest, rfl⟩ := List.head?_eq_some_iff.mp hnegated
    refine ⟨true, rest, rfl, by simp, fun directory => ?_⟩
    simp [scopedIgnorePattern, sign]
  · refine ⟨false, pattern, rfl, fun _ => ⟨hnegated, fun hcomment => h (.inr hcomment)⟩,
      fun directory => ?_⟩
    unfold scopedIgnorePattern
    rw [if_neg h]
    simp [hnegated, sign]

theorem exists_parts (h : ¬ (pattern = [] ∨ pattern.head? = some '#')) :
    ∃ negated slash body, Parts pattern negated slash body := by
  obtain ⟨negated, rest, heq, hunsigned, hplaced⟩ := exists_sign h
  by_cases hslash : rest.head? = some '/'
  · obtain ⟨body, rfl⟩ := List.head?_eq_some_iff.mp hslash
    refine ⟨negated, true, body, heq, by simp, hunsigned, fun directory => ?_⟩
    rw [hplaced directory, if_pos hslash, List.tail_cons]
  · refine ⟨negated, false, rest, heq, fun _ => hslash, hunsigned, fun directory => ?_⟩
    rw [hplaced directory, if_neg hslash]

theorem Parts.parseLine_eq (h : Parts pattern negated slash body) :
    parseLine pattern = parseBody negated (lead slash ++ trimBlanks body) := by
  have htrim : trimBlanks (lead slash ++ body) = lead slash ++ trimBlanks body := by
    cases slash with
    | true => exact trimBlanks_append [] body
    | false => rfl
  rw [h.eq, parseLine_sign h.unsigned, htrim]

theorem Parts.head_trimBlanks (h : Parts pattern negated slash body) (hslash : slash = false) :
    (trimBlanks body).head? ≠ some '/' := by
  intro hhead
  obtain ⟨t, ht⟩ := List.head?_eq_some_iff.mp hhead
  obtain ⟨blanks, hbody⟩ := trimBlanks_start body
  rw [ht] at hbody
  exact h.head hslash (by rw [← hbody]; rfl)

/-! ## A directory before a pattern -/

theorem parseLine_join (hd : IsPath d) (h : negated = false → Unsigned (join d)) :
    parseLine (sign negated ++ (join d ++ '/' :: body)) =
      parseBody negated (join d ++ '/' :: trimBlanks body) := by
  rw [parseLine_sign, trimBlanks_append]
  intro hnegated
  unfold Unsigned
  rw [(head_join hd _).1]
  exact h hnegated

/-- A directory whose name begins with a sign turns its patterns into comments or negates them. -/
theorem parseLine_signed (h : ¬ Unsigned (join d)) :
    parseLine (join d ++ '/' :: body) = none ∨
      ∃ text, parseLine (join d ++ '/' :: body) =
        parseBody true (text ++ '/' :: trimBlanks body) := by
  unfold parseLine
  rw [trimBlanks_append]
  by_cases hnegated : (join d).head? = some '!'
  · obtain ⟨text, htext⟩ := List.head?_eq_some_iff.mp hnegated
    rw [htext]
    exact .inr ⟨text, rfl⟩
  · have hcomment : (join d).head? = some '#' := by
      by_contra hcomment
      exact h ⟨hnegated, hcomment⟩
    obtain ⟨text, htext⟩ := List.head?_eq_some_iff.mp hcomment
    rw [htext]
    exact .inl rfl

/-! ## When the meaning is kept -/

/-- Nothing is read from the pattern and what is written for it matches nothing either; or the
pattern matches nothing; or the directory is read literally and the pattern does not depend on the
depth. -/
def Scopes (glob : Name → Name → Bool) (d : List Name) (pattern : List Char) : Prop :=
  match parseLine pattern with
  | none => pattern = [] ∨ pattern.head? = some '#' ∨
      Silent glob (parseLine (sign (pattern.head? = some '!') ++ (join d ++ ['/'])))
  | some rule => Silent glob (some rule) ∨
      (Literal glob d ∧ (rule.negated = false → Unsigned (join d)) ∧
        (rule.anchored = true ∨ Uniform glob rule.segments))

/-- A line of blanks or a slash alone is read as nothing, and written as the directory itself. -/
theorem Parts.confines_blank_iff (h : Parts pattern negated slash body)
    (hblank : trimBlanks body = []) :
    parseLine pattern = none ∧
      (Confines glob d (parseLine (scopedIgnorePattern (join d) pattern)) none ↔
        Silent glob (parseLine (sign (pattern.head? = some '!') ++ (join d ++ ['/'])))) := by
  have hnone : parseLine pattern = none := by
    rw [h.parseLine_eq, hblank]
    cases negated <;> cases slash <;> rfl
  have hsign : sign (pattern.head? = some '!') = sign negated := by
    cases negated with
    | true => rw [h.eq]; rfl
    | false =>
      have hunsigned := (h.unsigned rfl).1
      rw [h.eq]
      simpa [sign] using hunsigned
  have hwhole : parseLine (sign negated ++ (join d ++ '/' :: body)) =
      parseLine (sign negated ++ (join d ++ ['/'])) := by
    have hbody := trimBlanks_append (sign negated ++ join d) body
    have hnothing := trimBlanks_append (sign negated ++ join d) []
    rw [List.append_assoc, hblank] at hbody
    rw [List.append_assoc] at hnothing
    unfold parseLine
    rw [hbody, hnothing]
    rfl
  refine ⟨hnone, ?_⟩
  rw [h.placed, hwhole, hsign, confines_none]

/-- A pattern that is read keeps its meaning where the directory is read as it is. -/
theorem Parts.confines_rule_iff {anchored directoryOnly : Bool} {segments : List Name}
    (h : Parts pattern negated slash body) (hd : IsPath d)
    (hbehind : Behind slash negated (trimBlanks body) anchored directoryOnly segments) :
    Confines glob d (parseLine (scopedIgnorePattern (join d) pattern))
        (some ⟨negated, anchored, directoryOnly,
          if anchored then segments else doubleStar :: segments⟩) ↔
      Silent glob (some ⟨negated, anchored, directoryOnly,
          if anchored then segments else doubleStar :: segments⟩) ∨
        (Literal glob d ∧ (negated = false → Unsigned (join d)) ∧
          (anchored = true ∨ Uniform glob segments)) := by
  rw [h.placed]
  by_cases hsigned : negated = false → Unsigned (join d)
  · rw [parseLine_join hd hsigned, hbehind.behind d hd,
      confines_append_iff hd hbehind.nonempty hbehind.single]
    rw [and_iff_right hsigned]
  · obtain ⟨hnegated, hunsigned⟩ := Classical.not_imp.mp hsigned
    subst hnegated
    have hline := @parseLine_signed d body hunsigned
    constructor
    · intro hconfines
      refine .inl (hconfines.silent hd fun other hother => ?_)
      obtain hnone | ⟨text, htext⟩ := hline
      · cases hnone.symm.trans hother
      · obtain ⟨above, habove⟩ := hbehind.elsewhere true text
        rw [habove] at htext
        cases htext.symm.trans hother
        simp
    · rintro (hsilent | ⟨-, hno, -⟩)
      · refine confines_of_silent ?_ hsilent
        change Silent glob (parseLine (join d ++ '/' :: body))
        obtain hnone | ⟨text, htext⟩ := hline
        · rw [hnone]
          exact fun _ _ _ => rfl
        · obtain ⟨above, habove⟩ := hbehind.elsewhere true text
          rw [htext, habove]
          exact hsilent.elsewhere hbehind.nonempty true above
      · exact absurd (hno rfl) hunsigned

theorem confines_of_comment (h : pattern = [] ∨ pattern.head? = some '#') :
    parseLine pattern = none ∧
      Confines glob d (parseLine (scopedIgnorePattern (join d) pattern)) none := by
  have hnone : parseLine pattern = none := by
    obtain rfl | hcomment := h
    · rfl
    · obtain ⟨rest, rfl⟩ := List.head?_eq_some_iff.mp hcomment
      unfold parseLine
      rw [trimBlanks_cons (by decide)]
      simp
  refine ⟨hnone, ?_⟩
  unfold scopedIgnorePattern
  rw [if_pos h, hnone, confines_none]
  exact fun _ _ _ => rfl

theorem confines_iff_scopes (hd : IsPath d) (pattern : List Char) :
    Confines glob d (parseLine (scopedIgnorePattern (join d) pattern)) (parseLine pattern) ↔
      Scopes glob d pattern := by
  unfold Scopes
  by_cases hcomment : pattern = [] ∨ pattern.head? = some '#'
  · obtain ⟨hnone, hconfines⟩ := @confines_of_comment glob d pattern hcomment
    rw [hnone]
    exact iff_of_true hconfines (or_assoc.mp (.inl hcomment))
  · obtain ⟨negated, slash, body, hparts⟩ := exists_parts hcomment
    by_cases hblank : trimBlanks body = []
    · obtain ⟨hnone, hiff⟩ := @Parts.confines_blank_iff glob d _ _ _ _ hparts hblank
      rw [hnone, hiff]
      dsimp only
      rw [← or_assoc, or_iff_right hcomment]
    · obtain ⟨anchored, directoryOnly, segments, hbehind⟩ :=
        exists_behind slash negated hblank hparts.head_trimBlanks
      have hrule := hparts.parseLine_eq.trans hbehind.alone
      rw [hrule, hparts.confines_rule_iff hd hbehind]
      dsimp only
      rw [uniform_segments]

/-! ## A whole ignore file -/

/-- The last pattern that says something of a path decides. -/
def matchFile (glob : Name → Name → Bool) (patterns : List (List Char)) (names : List Name)
    (isDirectory : Bool) : Option Bool :=
  patterns.foldl
    (fun said pattern => (verdict glob (parseLine pattern) names isDirectory).or said) none

theorem foldl_silent {lines : List (List Char)} (said : Option Bool)
    (h : ∀ pattern ∈ lines, verdict glob (parseLine pattern) names isDirectory = none) :
    lines.foldl (fun said pattern =>
      (verdict glob (parseLine pattern) names isDirectory).or said) said = said := by
  induction lines with
  | nil => rfl
  | cons pattern lines ih =>
    rw [List.foldl_cons, h pattern List.mem_cons_self]
    exact ih fun other hother => h other (List.mem_cons_of_mem pattern hother)

/-- Where every line keeps its meaning, the file decides as it would at a root of its own. -/
theorem matchFile_nestedPatterns {lines : List (List Char)} (hd : IsPath d)
    (hscopes : ∀ pattern ∈ lines, Scopes glob d pattern) (hnames : IsPath names) :
    matchFile glob (nestedPatterns d lines) names isDirectory =
      if d <+: names ∧ names ≠ d then matchFile glob lines (names.drop d.length) isDirectory
      else none := by
  have hlines : ∀ pattern ∈ lines, verdict glob (parseLine (scopedIgnorePattern (join d) pattern))
      names isDirectory = if d <+: names ∧ names ≠ d then
        verdict glob (parseLine pattern) (names.drop d.length) isDirectory else none :=
    fun pattern hpattern =>
      (confines_iff_scopes hd pattern).mpr (hscopes pattern hpattern) names isDirectory hnames
  unfold matchFile nestedPatterns
  by_cases hbelow : d <+: names ∧ names ≠ d
  · rw [if_pos hbelow, List.foldl_map]
    apply List.foldl_ext
    intro said pattern hpattern
    rw [hlines pattern hpattern, if_pos hbelow]
  · rw [if_neg hbelow, foldl_silent]
    intro pattern hpattern
    obtain ⟨line, hline, rfl⟩ := List.mem_map.mp hpattern
    rw [hlines line hline, if_neg hbelow]

/-! ## One pattern -/

/-- A nested pattern says below its directory what it says relative to it, and nothing elsewhere,
exactly in these cases. -/
theorem scopedIgnorePattern_verdict_iff (glob : Name → Name → Bool) {d : List Name} (hd : IsPath d)
    (pattern : List Char) :
    (∀ names isDirectory, IsPath names →
        verdict glob (parseLine (scopedIgnorePattern (join d) pattern)) names isDirectory =
          if d <+: names ∧ names ≠ d then
            verdict glob (parseLine pattern) (names.drop d.length) isDirectory
          else none) ↔
      Scopes glob d pattern :=
  confines_iff_scopes hd pattern

theorem scopedIgnorePattern_verdict_slash :
    IsPath ["sample_service".toList] ∧
      ((∀ names isDirectory, IsPath names →
          verdict (fun segment name => segment = name)
              (parseLine (scopedIgnorePattern (join ["sample_service".toList])
                "/private.py".toList))
              names isDirectory =
            if ["sample_service".toList] <+: names ∧ names ≠ ["sample_service".toList] then
              verdict (fun segment name => segment = name) (parseLine "/private.py".toList)
                (names.drop ["sample_service".toList].length) isDirectory
            else none) ↔
        Scopes (fun segment name => segment = name) ["sample_service".toList]
          "/private.py".toList) :=
  ⟨by decide, scopedIgnorePattern_verdict_iff _ (by decide) _⟩

/-- A file two levels below an ignore file that names it without a slash is not ignored. -/
theorem scopedIgnorePattern_verdict_nested :
    ¬ ∀ names isDirectory, IsPath names →
        verdict (fun segment name => segment = name)
            (parseLine (scopedIgnorePattern (join ["sample_service".toList]) "private.py".toList))
            names isDirectory =
          if ["sample_service".toList] <+: names ∧ names ≠ ["sample_service".toList] then
            verdict (fun segment name => segment = name) (parseLine "private.py".toList)
              (names.drop ["sample_service".toList].length) isDirectory
          else none := by
  intro h
  have hnested := h ["sample_service".toList, "sub".toList, "private.py".toList] false (by decide)
  exact absurd hnested (by decide)

end DurableAgent.Repository
