import Mathlib.Data.List.Infix
import Mathlib.Data.List.Forall2
import Mathlib.Tactic.Common

/-!
# Ignore rules of directory trees

Lines with patterns for the paths below a directory, as `git` reads them: a slash at the beginning
or in the middle ties a pattern to the directory, one at the end restricts it to directories, `**`
stands for any number of names. How a single name is matched is left open: everything here holds of
every matcher of names.
-/

namespace DurableAgent.Library

/-- A name of a path, or what a pattern has in its place. -/
abbrev Name := List Char

def doubleStar : Name := ['*', '*']

/-- A name that a file can have. -/
def IsName (name : Name) : Prop := name ≠ [] ∧ '/' ∉ name

instance (name : Name) : Decidable (IsName name) := inferInstanceAs (Decidable (_ ∧ _))

/-- A path below some directory. -/
def IsPath (names : List Name) : Prop := names ≠ [] ∧ ∀ name ∈ names, IsName name

instance (names : List Name) : Decidable (IsPath names) := inferInstanceAs (Decidable (_ ∧ _))

/-- Names that are matched one after the other. At the end `**` stands for at least one name. -/
def matchNames (glob : Name → Name → Bool) : List Name → List Name → Bool
  | [], names => names.isEmpty
  | segment :: rest, names =>
    if segment = doubleStar then
      if rest = [] then ¬ names.isEmpty else names.tails.any (matchNames glob rest)
    else
      match names with
      | [] => false
      | name :: names => glob segment name && matchNames glob rest names

attribute [local grind =] matchNames

/-- A line with a pattern. One that is not anchored begins with `**` and has one more segment. -/
structure IgnoreRule where
  negated : Bool
  anchored : Bool
  directoryOnly : Bool
  segments : List Name
  deriving DecidableEq

namespace IgnoreRule

/-- A rule applies to what it matches and to everything below it. -/
def applies (glob : Name → Name → Bool) (rule : IgnoreRule) (names : List Name)
    (isDirectory : Bool) : Bool :=
  names.inits.any fun above =>
    above ≠ [] ∧ (rule.directoryOnly = true → above ≠ names ∨ isDirectory = true) ∧
      matchNames glob rule.segments above = true

end IgnoreRule

/-- What a rule says of a path: nothing, that it is ignored or, if it is negated, that it is not. -/
def verdict (glob : Name → Name → Bool) (rule : Option IgnoreRule) (names : List Name)
    (isDirectory : Bool) : Option Bool :=
  match rule with
  | none => none
  | some rule => if rule.applies glob names isDirectory then some (!rule.negated) else none

/-! ## Lines -/

/-- A line without the blanks at its end, but for an escaped one. -/
def trimBlanks : List Char → List Char
  | [] => []
  | '\\' :: c :: rest => '\\' :: c :: trimBlanks rest
  | c :: rest => if c = ' ' ∧ trimBlanks rest = [] then [] else c :: trimBlanks rest

attribute [local grind =] trimBlanks

/-- A slash at the end restricts a pattern to directories. -/
def endsInSlash (body : List Char) : Bool := body.getLast? = some '/'

def withoutLastSlash (body : List Char) : List Char :=
  if endsInSlash body then body.dropLast else body

/-- A pattern without its sign. An empty one matches nothing. -/
def parseBody (negated : Bool) (body : List Char) : Option IgnoreRule :=
  let pattern := withoutLastSlash body
  if pattern = [] then none
  else if '/' ∈ pattern then
    let relative := if pattern.head? = some '/' then pattern.tail else pattern
    some ⟨negated, true, endsInSlash body, relative.splitOn '/'⟩
  else some ⟨negated, false, endsInSlash body, [doubleStar, pattern]⟩

/-- The rule of a line, if it is no comment. -/
def parseLine (line : List Char) : Option IgnoreRule :=
  match trimBlanks line with
  | '#' :: _ => none
  | '!' :: body => parseBody true body
  | body => parseBody false body

example : parseLine "!build/".toList = some ⟨true, false, true, [doubleStar, "build".toList]⟩ := by
  decide

variable {glob : Name → Name → Bool} {rule : IgnoreRule} {segments before after : List Name}
  {names x y : List Name} {isDirectory negated : Bool} {line body : List Char}

/-! ## Matching -/

theorem matchNames_star_last :
    matchNames glob [doubleStar] names = true ↔ names ≠ [] := by
  cases names <;> simp [matchNames]

theorem matchNames_star {rest : List Name} (hrest : rest ≠ []) :
    matchNames glob (doubleStar :: rest) names = true ↔
      ∃ x y, names = x ++ y ∧ matchNames glob rest y = true := by
  have hany : matchNames glob (doubleStar :: rest) names =
      names.tails.any (matchNames glob rest) := by
    cases names <;> simp [matchNames, hrest]
  simp only [hany, List.any_eq_true, List.mem_tails]
  constructor
  · rintro ⟨y, ⟨x, rfl⟩, hy⟩
    exact ⟨x, y, rfl, hy⟩
  · rintro ⟨x, y, rfl, hy⟩
    exact ⟨y, List.suffix_append x y, hy⟩

theorem matchNames_cons {segment : Name} (h : segment ≠ doubleStar) (rest : List Name)
    (name : Name) (names : List Name) :
    matchNames glob (segment :: rest) (name :: names) =
      (glob segment name && matchNames glob rest names) := by
  simp [matchNames, h]

theorem matchNames_cons_nil {segment : Name} (h : segment ≠ doubleStar) (rest : List Name) :
    matchNames glob (segment :: rest) [] = false := by
  simp [matchNames, h]

theorem matchNames_ne_nil (hsegments : segments ≠ []) (h : matchNames glob segments names = true) :
    names ≠ [] := by
  induction segments generalizing names with
  | nil => exact absurd rfl hsegments
  | cons segment rest ih =>
    rintro rfl
    by_cases hstar : segment = doubleStar
    · subst hstar
      by_cases hrest : rest = []
      · rw [hrest, matchNames_star_last] at h
        exact h rfl
      · obtain ⟨x, y, hnil, hy⟩ := (matchNames_star hrest).mp h
        exact ih hrest hy (List.append_eq_nil_iff.mp hnil.symm).2
    · rw [matchNames_cons_nil hstar] at h
      cases h

/-- Names are matched by a list of segments without `**` one by one. -/
theorem matchNames_append (hbefore : doubleStar ∉ before) :
    matchNames glob (before ++ after) names = true ↔
      ∃ x y, names = x ++ y ∧ List.Forall₂ (fun segment name => glob segment name = true) before x ∧
        matchNames glob after y = true := by
  induction before generalizing names with
  | nil => simp
  | cons segment before ih =>
    rw [List.mem_cons, not_or] at hbefore
    rw [List.cons_append]
    cases names with
    | nil => simp [matchNames_cons_nil (Ne.symm hbefore.1)]
    | cons name names =>
      rw [matchNames_cons (Ne.symm hbefore.1), Bool.and_eq_true, ih hbefore.2]
      constructor
      · rintro ⟨hname, x, y, rfl, hx, hy⟩
        exact ⟨name :: x, y, rfl, .cons hname hx, hy⟩
      · rintro ⟨x, y, hnames, hx, hy⟩
        cases hx with
        | cons hname hx =>
          obtain ⟨rfl, rfl⟩ := List.cons.inj hnames
          exact ⟨hname, _, y, rfl, hx, hy⟩

theorem matchNames_of_append (hsegments : segments ≠ [])
    (h : matchNames glob (before ++ segments) names = true) :
    ∃ x y, names = x ++ y ∧ matchNames glob segments y = true := by
  induction before generalizing names with
  | nil => exact ⟨[], names, rfl, h⟩
  | cons segment before ih =>
    rw [List.cons_append] at h
    by_cases hstar : segment = doubleStar
    · subst hstar
      obtain ⟨x, rest, rfl, hrest⟩ := (matchNames_star (by simp [hsegments])).mp h
      obtain ⟨x', y, rfl, hy⟩ := ih hrest
      exact ⟨x ++ x', y, (List.append_assoc x x' y).symm, hy⟩
    · cases names with
      | nil =>
        rw [matchNames_cons_nil hstar] at h
        cases h
      | cons name names =>
        rw [matchNames_cons hstar, Bool.and_eq_true] at h
        obtain ⟨x, y, rfl, hy⟩ := ih h.2
        exact ⟨name :: x, y, rfl, hy⟩

theorem applies_iff : rule.applies glob names isDirectory = true ↔
    ∃ above below, names = above ++ below ∧ above ≠ [] ∧
      (rule.directoryOnly = true → below ≠ [] ∨ isDirectory = true) ∧
      matchNames glob rule.segments above = true := by
  simp only [IgnoreRule.applies, List.any_eq_true, List.mem_inits, decide_eq_true_eq]
  constructor
  · rintro ⟨above, ⟨below, rfl⟩, hne, hdirectory, hmatch⟩
    refine ⟨above, below, rfl, hne, fun honly => ?_, hmatch⟩
    exact (hdirectory honly).imp_left fun hproper hnil => hproper (by rw [hnil, List.append_nil])
  · rintro ⟨above, below, rfl, hne, hdirectory, hmatch⟩
    refine ⟨above, List.prefix_append above below, hne, fun honly => ?_, hmatch⟩
    exact (hdirectory honly).imp_left fun hbelow heq => hbelow (List.self_eq_append_right.mp heq)

/-! ## Lines with a beginning -/

theorem endsInSlash_append (x : List Char) (h : body ≠ []) :
    endsInSlash (x ++ body) = endsInSlash body := by
  unfold endsInSlash
  rw [List.getLast?_append_of_ne_nil x h]

theorem withoutLastSlash_append (x : List Char) (h : body ≠ []) :
    withoutLastSlash (x ++ body) = x ++ withoutLastSlash body := by
  unfold withoutLastSlash
  rw [endsInSlash_append x h, List.dropLast_append_of_ne_nil h]
  split <;> rfl

theorem trimBlanks_cons {c : Char} (h : c ≠ '\\') (rest : List Char) : trimBlanks (c :: rest) =
    if c = ' ' ∧ trimBlanks rest = [] then [] else c :: trimBlanks rest := by
  cases rest <;> simp [trimBlanks, h]

/-- What is before a slash stays as it is. -/
theorem trimBlanks_append : ∀ line rest : List Char,
    trimBlanks (line ++ '/' :: rest) = line ++ '/' :: trimBlanks rest
  | [], rest => by simp [trimBlanks_cons]
  | [c], rest => by
    by_cases hescape : c = '\\'
    · subst hescape
      rfl
    · have hslash := trimBlanks_append [] rest
      rw [List.nil_append] at hslash
      rw [List.cons_append, List.nil_append, trimBlanks_cons hescape, hslash]
      simp
  | c :: d :: line, rest => by
    by_cases hescape : c = '\\'
    · subst hescape
      have hline := trimBlanks_append line rest
      rw [List.cons_append, List.cons_append, trimBlanks, hline]
      rfl
    · have hline := trimBlanks_append (d :: line) rest
      rw [List.cons_append, trimBlanks_cons hescape, hline]
      simp

/-- Blanks are taken from the end. -/
theorem trimBlanks_start : ∀ line : List Char, trimBlanks line <+: line
  | [] => List.prefix_refl []
  | [c] => by
    by_cases hescape : c = '\\'
    · subst hescape
      exact List.prefix_refl _
    · rw [trimBlanks_cons hescape]
      split
      · exact List.nil_prefix
      · exact List.prefix_refl _
  | c :: d :: line => by
    by_cases hescape : c = '\\'
    · subst hescape
      rw [trimBlanks]
      exact List.cons_prefix_cons.mpr ⟨rfl,
        List.cons_prefix_cons.mpr ⟨rfl, trimBlanks_start line⟩⟩
    · rw [trimBlanks_cons hescape]
      split
      · exact List.nil_prefix
      · exact List.cons_prefix_cons.mpr ⟨rfl, trimBlanks_start (d :: line)⟩

/-! ## Lines by their parts -/

def sign (negated : Bool) : List Char := if negated then ['!'] else []

def lead (slash : Bool) : List Char := if slash then ['/'] else []

def join (names : List Name) : List Char := ['/'].intercalate names

/-- The first character of a line that has no sign is none that is read as something else. -/
def Unsigned (line : List Char) : Prop := line.head? ≠ some '!' ∧ line.head? ≠ some '#'

instance (line : List Char) : Decidable (Unsigned line) := inferInstanceAs (Decidable (_ ∧ _))

theorem parseLine_sign (h : negated = false → Unsigned line) :
    parseLine (sign negated ++ line) = parseBody negated (trimBlanks line) := by
  cases negated with
  | true =>
    have htrim : trimBlanks ('!' :: line) = '!' :: trimBlanks line := by
      rw [trimBlanks_cons (by decide)]
      simp
    change parseLine ('!' :: line) = _
    rw [parseLine, htrim]
    rfl
  | false =>
    have hfirst : Unsigned (trimBlanks line) := by
      cases htrim : trimBlanks line with
      | nil => simp [Unsigned]
      | cons c rest =>
        obtain ⟨blanks, hline⟩ := trimBlanks_start line
        rw [htrim] at hline
        rw [← hline] at h
        exact h rfl
    change parseLine line = _
    unfold parseLine
    split
    · next rest htrim =>
      rw [htrim] at hfirst
      exact absurd rfl hfirst.2
    · next rest htrim =>
      rw [htrim] at hfirst
      exact absurd rfl hfirst.1
    · rfl

theorem head_join {d : List Name} (h : IsPath d) (rest : List Char) :
    (join d ++ rest).head? = (join d).head? ∧ (join d).head? ≠ some '/' := by
  obtain ⟨hne, hnames⟩ := h
  cases d with
  | nil => exact absurd rfl hne
  | cons name names =>
    obtain ⟨hname, hslash⟩ := hnames name List.mem_cons_self
    cases name with
    | nil => exact absurd rfl hname
    | cons c name =>
      have hjoin : ∃ t, join ((c :: name) :: names) = c :: t := by
        by_cases hnil : names = []
        · subst hnil
          exact ⟨name, List.intercalate_singleton⟩
        · unfold join
          rw [List.intercalate_cons_of_ne_nil hnil]
          exact ⟨_, rfl⟩
      obtain ⟨t, hjoin⟩ := hjoin
      rw [hjoin]
      refine ⟨rfl, fun hhead => ?_⟩
      rw [List.mem_cons, not_or] at hslash
      exact hslash.1 (Option.some.inj hhead).symm

theorem splitOn_join {d : List Name} (h : IsPath d) (rest : List Char) :
    (join d ++ '/' :: rest).splitOn '/' = d ++ rest.splitOn '/' := by
  rw [List.splitOn_append_cons_self, join, List.splitOn_intercalate]
  · exact fun name hname => (h.2 name hname).2
  · exact h.1

/-- A pattern read on its own, behind a directory and behind anything else with a slash. -/
structure Behind (slash negated : Bool) (line : List Char) (anchored directoryOnly : Bool)
    (segments : List Name) : Prop where
  nonempty : segments ≠ []
  single : anchored = false → ∃ segment, segments = [segment]
  alone : parseBody negated (lead slash ++ line) =
    some ⟨negated, anchored, directoryOnly, if anchored then segments else doubleStar :: segments⟩
  behind : ∀ d, IsPath d → parseBody negated (join d ++ '/' :: line) =
    some ⟨negated, true, directoryOnly, d ++ segments⟩
  elsewhere : ∀ other text, ∃ above, parseBody other (text ++ '/' :: line) =
    some ⟨other, true, directoryOnly, above ++ segments⟩

theorem parseBody_slash (text : List Char) (h : line ≠ []) :
    parseBody negated (text ++ '/' :: line) = some ⟨negated, true, endsInSlash line,
      (if (text ++ '/' :: withoutLastSlash line).head? = some '/'
        then (text ++ '/' :: withoutLastSlash line).tail
        else text ++ '/' :: withoutLastSlash line).splitOn '/'⟩ := by
  have hends : endsInSlash (text ++ '/' :: line) = endsInSlash line := by
    rw [List.append_cons, endsInSlash_append _ h]
  have hwithout : withoutLastSlash (text ++ '/' :: line) =
      text ++ '/' :: withoutLastSlash line := by
    rw [List.append_cons, withoutLastSlash_append _ h, ← List.append_cons]
  unfold parseBody
  dsimp only
  rw [hwithout, hends, if_neg (by simp), if_pos (by simp)]

theorem parseBody_join {d : List Name} (hd : IsPath d) (h : line ≠ []) :
    parseBody negated (join d ++ '/' :: line) =
      some ⟨negated, true, endsInSlash line, d ++ (withoutLastSlash line).splitOn '/'⟩ := by
  obtain ⟨hhead, hslash⟩ := head_join hd ('/' :: withoutLastSlash line)
  rw [parseBody_slash _ h, if_neg (by rwa [hhead]), splitOn_join hd]

theorem exists_parseBody (text : List Char) (h : line ≠ []) :
    ∃ above, parseBody negated (text ++ '/' :: line) =
      some ⟨negated, true, endsInSlash line, above ++ (withoutLastSlash line).splitOn '/'⟩ := by
  rw [parseBody_slash _ h]
  cases text with
  | nil => exact ⟨[], rfl⟩
  | cons c text =>
    by_cases hslash : c = '/'
    · subst hslash
      refine ⟨text.splitOn '/', ?_⟩
      rw [if_pos (by rfl), List.cons_append, List.tail_cons, List.splitOn_append_cons_self]
    · refine ⟨(c :: text).splitOn '/', ?_⟩
      rw [if_neg (by simpa using hslash), List.splitOn_append_cons_self]

theorem withoutLastSlash_of_head (h : line ≠ []) (hhead : line.head? ≠ some '/') :
    withoutLastSlash line ≠ [] ∧ (withoutLastSlash line).head? ≠ some '/' := by
  unfold withoutLastSlash
  by_cases hends : endsInSlash line = true
  · rw [if_pos hends]
    match line with
    | [] => exact absurd rfl h
    | [c] => exact absurd (of_decide_eq_true hends) hhead
    | c :: d :: rest => exact ⟨by simp, hhead⟩
  · rw [if_neg hends]
    exact ⟨h, hhead⟩

/-- Every pattern that is not empty is read in one of these ways. -/
theorem exists_behind (slash negated : Bool) (h : line ≠ [])
    (hslash : slash = false → line.head? ≠ some '/') :
    ∃ anchored directoryOnly segments,
      Behind slash negated line anchored directoryOnly segments := by
  have hsegments : (withoutLastSlash line).splitOn '/' ≠ [] := List.splitOn_ne_nil _ _
  have hbehind : ∀ d, IsPath d → parseBody negated (join d ++ '/' :: line) =
      some ⟨negated, true, endsInSlash line, d ++ (withoutLastSlash line).splitOn '/'⟩ :=
    fun d hd => parseBody_join hd h
  have helsewhere : ∀ other text, ∃ above, parseBody other (text ++ '/' :: line) =
      some ⟨other, true, endsInSlash line, above ++ (withoutLastSlash line).splitOn '/'⟩ :=
    fun other text => exists_parseBody text h
  cases slash with
  | true =>
    refine ⟨true, _, _, hsegments, by simp, ?_, hbehind, helsewhere⟩
    unfold parseBody
    dsimp only
    rw [withoutLastSlash_append _ h, endsInSlash_append _ h, if_neg (by simp [lead]),
      if_pos (by simp [lead])]
    rfl
  | false =>
    have hpattern := withoutLastSlash_of_head h (hslash rfl)
    by_cases hmem : '/' ∈ withoutLastSlash line
    · refine ⟨true, _, _, hsegments, by simp, ?_, hbehind, helsewhere⟩
      change parseBody negated line = _
      unfold parseBody
      dsimp only
      rw [if_neg hpattern.1, if_pos hmem, if_neg hpattern.2]
      rfl
    · have hsingle : (withoutLastSlash line).splitOn '/' = [withoutLastSlash line] :=
        List.splitOn_eq_singleton hmem
      refine ⟨false, _, _, hsegments, fun _ => ⟨_, hsingle⟩, ?_, hbehind, helsewhere⟩
      change parseBody negated line = _
      unfold parseBody
      dsimp only
      rw [if_neg hpattern.1, if_neg hmem, hsingle]
      rfl

end DurableAgent.Library
