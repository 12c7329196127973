import DurableAgent.Library.IgnoreRules

/-!
# Ignore rules confined to a directory

When a pattern that is written behind the names of a directory says of the paths below the directory
what the pattern itself says of them relative to it, and nothing of any other path. The names of the
directory are then read as patterns too.
-/

namespace DurableAgent.Library

/-- Names that, read as patterns, match themselves and nothing else. -/
def Literal (glob : Name → Name → Bool) (d : List Name) : Prop :=
  ∀ segment ∈ d, segment ≠ doubleStar ∧
    ∀ name, IsName name → (glob segment name = true ↔ name = segment)

/-- Segments that match every name. -/
def Uniform (glob : Name → Name → Bool) (segments : List Name) : Prop :=
  ∀ segment ∈ segments, ∀ name, IsName name → segment = doubleStar ∨ glob segment name = true

/-- A rule that says nothing of any path. -/
def Silent (glob : Name → Name → Bool) (rule : Option IgnoreRule) : Prop :=
  ∀ names isDirectory, IsPath names → verdict glob rule names isDirectory = none

variable {glob : Name → Name → Bool} {rule : IgnoreRule} {segments before : List Name}
  {d names x y z : List Name} {isDirectory negated anchored directoryOnly : Bool}

theorem Literal.nostar (h : Literal glob d) : doubleStar ∉ d := fun hmem => (h _ hmem).1 rfl

theorem Literal.forall₂_iff (h : Literal glob d) (hx : ∀ name ∈ x, IsName name) :
    List.Forall₂ (fun segment name => glob segment name = true) d x ↔ x = d := by
  induction d generalizing x with
  | nil => simp
  | cons segment d ih =>
    cases x with
    | nil => simp
    | cons name x =>
      rw [List.forall₂_cons, (h segment List.mem_cons_self).2 name (hx name List.mem_cons_self),
        ih (fun other hother => h other (List.mem_cons_of_mem segment hother))
          (fun other hother => hx other (List.mem_cons_of_mem name hother)), List.cons.injEq]

theorem IsPath.of_append_left (h : IsPath (x ++ y)) (hx : x ≠ []) : IsPath x :=
  ⟨hx, fun name hname => h.2 name (List.mem_append_left y hname)⟩

theorem IsPath.of_append_right (h : IsPath (x ++ y)) (hy : y ≠ []) : IsPath y :=
  ⟨hy, fun name hname => h.2 name (List.mem_append_right x hname)⟩

theorem IsPath.append (hx : IsPath x) (hy : IsPath y) : IsPath (x ++ y) := by
  refine ⟨List.append_ne_nil_of_left_ne_nil hx.1 y, fun name hname => ?_⟩
  obtain hname | hname := List.mem_append.mp hname
  · exact hx.2 name hname
  · exact hy.2 name hname

/-- Behind a directory whose names match only themselves, a rule applies to what is below it. -/
theorem Literal.applies_iff (h : Literal glob d) (hsegments : segments ≠ []) (hnames : IsPath names)
    (anchored' : Bool) :
    (IgnoreRule.mk negated anchored directoryOnly (d ++ segments)).applies glob names
        isDirectory = true ↔
      ∃ r, names = d ++ r ∧ r ≠ [] ∧
        (IgnoreRule.mk negated anchored' directoryOnly segments).applies glob r isDirectory =
          true := by
  simp only [Library.applies_iff]
  constructor
  · rintro ⟨above, below, rfl, -, hdirectory, hmatch⟩
    obtain ⟨x, y, rfl, hx, hy⟩ := (matchNames_append h.nostar).mp hmatch
    rw [h.forall₂_iff fun name hname => hnames.2 name (by simp [hname])] at hx
    subst hx
    have hyne := matchNames_ne_nil hsegments hy
    refine ⟨y ++ below, List.append_assoc _ _ _, by simp [hyne], ?_⟩
    exact ⟨y, below, rfl, hyne, hdirectory, hy⟩
  · rintro ⟨r, rfl, -, above, below, rfl, hne, hdirectory, hmatch⟩
    refine ⟨d ++ above, below, (List.append_assoc _ _ _).symm, by simp [hne], hdirectory, ?_⟩
    rw [matchNames_append h.nostar]
    refine ⟨d, above, rfl, ?_, hmatch⟩
    rw [h.forall₂_iff fun name hname => hnames.2 name (by simp [hname])]

/-- A pattern that matches every name applies to everything, wherever it is tied to. -/
theorem Uniform.applies_iff {segment : Name} (h : Uniform glob [segment]) (hnames : IsPath names)
    (hsegments : segments = [segment] ∨ segments = [doubleStar, segment]) :
    (IgnoreRule.mk negated anchored directoryOnly segments).applies glob names isDirectory = true ↔
      (directoryOnly = true → names.tail ≠ [] ∨ isDirectory = true) := by
  rw [Library.applies_iff]
  dsimp only
  constructor
  · rintro ⟨above, below, rfl, hne, hdirectory, -⟩ honly
    refine (hdirectory honly).imp_left fun hbelow => ?_
    rw [List.tail_append_of_ne_nil hne]
    simp [hbelow]
  · intro hdirectory
    cases names with
    | nil => exact absurd rfl hnames.1
    | cons name names =>
      have hname := h segment List.mem_cons_self name (hnames.2 name List.mem_cons_self)
      have hsingle : matchNames glob [segment] [name] = true := by
        by_cases hstar : segment = doubleStar
        · subst hstar
          exact matchNames_star_last.mpr (by simp)
        · rw [matchNames_cons hstar, hname.resolve_left hstar]
          rfl
      refine ⟨[name], names, rfl, by simp, hdirectory, ?_⟩
      obtain rfl | rfl := hsegments
      · exact hsingle
      · exact (matchNames_star (by simp)).mpr ⟨[], [name], rfl, hsingle⟩

/-- A rule says below a directory what another one says relative to it, and nothing elsewhere. -/
def Confines (glob : Name → Name → Bool) (d : List Name) (whole rule : Option IgnoreRule) : Prop :=
  ∀ names isDirectory, IsPath names → verdict glob whole names isDirectory =
    if d <+: names ∧ names ≠ d then verdict glob rule (names.drop d.length) isDirectory else none

theorem verdict_eq (rule : IgnoreRule) : verdict glob (some rule) names isDirectory =
    if rule.applies glob names isDirectory then some (!rule.negated) else none := rfl

theorem verdict_some : verdict glob (some rule) names isDirectory ≠ none ↔
    rule.applies glob names isDirectory = true := by
  cases happlies : rule.applies glob names isDirectory <;> simp [verdict, happlies]

theorem confines_iff {whole : IgnoreRule} (hnegated : whole.negated = rule.negated) :
    Confines glob d (some whole) (some rule) ↔
      ∀ names isDirectory, IsPath names → (whole.applies glob names isDirectory = true ↔
        ∃ r, names = d ++ r ∧ r ≠ [] ∧ rule.applies glob r isDirectory = true) := by
  unfold Confines
  refine forall₃_congr fun names isDirectory hnames => ?_
  by_cases hbelow : d <+: names ∧ names ≠ d
  · obtain ⟨⟨r, rfl⟩, hne⟩ := hbelow
    have hr : r ≠ [] := fun hnil => hne (by rw [hnil, List.append_nil])
    have hiff : (∃ r', d ++ r = d ++ r' ∧ r' ≠ [] ∧ rule.applies glob r' isDirectory = true) ↔
        rule.applies glob r isDirectory = true := by
      constructor
      · rintro ⟨r', heq, -, happlies⟩
        rwa [List.append_cancel_left heq]
      · exact fun happlies => ⟨r, rfl, hr, happlies⟩
    rw [if_pos ⟨List.prefix_append d r, hne⟩, List.drop_left, hiff]
    rw [verdict_eq, verdict_eq, hnegated]
    cases whole.applies glob (d ++ r) isDirectory <;> cases rule.applies glob r isDirectory <;> simp
  · have hiff : ¬ ∃ r, names = d ++ r ∧ r ≠ [] ∧ rule.applies glob r isDirectory = true := by
      rintro ⟨r, rfl, hr, -⟩
      exact hbelow ⟨List.prefix_append d r, fun heq => hr (List.append_right_eq_self.mp heq)⟩
    rw [if_neg hbelow, iff_false_intro hiff, ← verdict_some, iff_false, not_not]

/-- A rule that is tied to a directory of literal names, or matches every name, is confined. -/
theorem confines_of_literal (h : Literal glob d) (hsegments : segments ≠ [])
    (hsingle : anchored = false → ∃ segment, segments = [segment])
    (huniform : anchored = true ∨ Uniform glob segments) :
    Confines glob d (some ⟨negated, true, directoryOnly, d ++ segments⟩)
      (some ⟨negated, anchored, directoryOnly,
        if anchored then segments else doubleStar :: segments⟩) := by
  refine (confines_iff (by rfl)).mpr fun names isDirectory hnames => ?_
  rw [h.applies_iff hsegments hnames anchored]
  cases anchored with
  | true => rfl
  | false =>
    obtain ⟨segment, rfl⟩ := hsingle rfl
    have hall := huniform.resolve_left (by decide)
    refine exists_congr fun r => and_congr_right fun hr => and_congr_right fun hne => ?_
    subst hr
    have hpath := hnames.of_append_right hne
    rw [hall.applies_iff hpath (.inl rfl)]
    exact (hall.applies_iff hpath (.inr rfl)).symm

/-- Something that is matched by a rule that is not silent is matched by its segments alone. -/
theorem exists_matched
    (h : ¬ Silent glob (some ⟨negated, anchored, directoryOnly,
      if anchored then segments else doubleStar :: segments⟩)) (hsegments : segments ≠ []) :
    ∃ z, IsPath z ∧ matchNames glob segments z = true := by
  unfold Silent at h
  simp only [not_forall] at h
  obtain ⟨names, isDirectory, hnames, hverdict⟩ := h
  obtain ⟨above, below, rfl, hne, -, hmatch⟩ := Library.applies_iff.mp (verdict_some.mp hverdict)
  have habove := hnames.of_append_left hne
  cases anchored with
  | true => exact ⟨above, habove, hmatch⟩
  | false =>
    obtain ⟨x, z, rfl, hz⟩ := (matchNames_star hsegments).mp hmatch
    exact ⟨z, habove.of_append_right (matchNames_ne_nil hsegments hz), hz⟩

/-- What is matched by the segments is matched by the rule, with anything before it if the rule is
not anchored. -/
theorem applies_matched {z : List Name} (hsegments : segments ≠ [])
    (hz : matchNames glob segments z = true) (hx : anchored = false ∨ x = []) :
    (IgnoreRule.mk negated anchored directoryOnly
        (if anchored then segments else doubleStar :: segments)).applies glob (x ++ z) true =
      true := by
  have hne := matchNames_ne_nil hsegments hz
  refine Library.applies_iff.mpr ⟨x ++ z, [], by simp, by simp [hne], by simp, ?_⟩
  cases anchored with
  | true =>
    rw [hx.resolve_left (by decide)]
    exact hz
  | false => exact (matchNames_star hsegments).mpr ⟨x, z, rfl, hz⟩

theorem isName_letter : IsName ['a'] := by decide

/-- Behind a confined rule, what the rule matches is matched behind the directory. -/
theorem Confines.behind {z : List Name} (hd : IsPath d) (hsegments : segments ≠ [])
    (h : Confines glob d (some ⟨negated, true, directoryOnly, d ++ segments⟩)
      (some ⟨negated, anchored, directoryOnly,
        if anchored then segments else doubleStar :: segments⟩))
    (hz : matchNames glob segments z = true) (hx : anchored = false ∨ x = [])
    (hxz : IsPath (x ++ z)) :
    ∃ above below, d ++ (x ++ z) = above ++ below ∧
      matchNames glob (d ++ segments) above = true := by
  have happlies := ((confines_iff (by rfl)).mp h (d ++ (x ++ z)) true (hd.append hxz)).mpr
    ⟨x ++ z, rfl, hxz.1, applies_matched hsegments hz hx⟩
  obtain ⟨above, below, heq, -, -, hmatch⟩ := Library.applies_iff.mp happlies
  exact ⟨above, below, heq, hmatch⟩

/-- What is matched by the directory and the segments begins with the directory. -/
theorem Confines.within {other : IgnoreRule} (hother : other.negated = negated)
    (h : Confines glob d (some ⟨negated, true, directoryOnly, d ++ segments⟩) (some other))
    (hnames : IsPath names) (hmatch : matchNames glob (d ++ segments) names = true) :
    ∃ r, names = d ++ r := by
  have happlies : (IgnoreRule.mk negated true directoryOnly (d ++ segments)).applies glob names
      true = true :=
    Library.applies_iff.mpr ⟨names, [], by simp, hnames.1, by simp, hmatch⟩
  obtain ⟨r, hr, -⟩ := ((confines_iff hother.symm).mp h names true hnames).mp happlies
  exact ⟨r, hr⟩

/-- In the place of `**` there could be another name. -/
theorem Confines.nostar {z : List Name} {other : IgnoreRule} (hother : other.negated = negated)
    (h : Confines glob d (some ⟨negated, true, directoryOnly, d ++ segments⟩) (some other))
    (hsegments : segments ≠ []) (hz : IsPath z) {below : List Name}
    (hmatch : matchNames glob (d ++ segments) z = true) (hbelow : IsPath (z ++ below)) :
    doubleStar ∉ d := by
  intro hstar
  obtain ⟨d₁, d₂, rfl, hnot⟩ := List.eq_append_cons_of_mem hstar
  rw [List.append_assoc, matchNames_append hnot] at hmatch
  obtain ⟨x₁, x₂, rfl, hx₁, hx₂⟩ := hmatch
  have hrest : d₂ ++ segments ≠ [] := by simp [hsegments]
  rw [List.cons_append] at hx₂
  obtain ⟨u, v, rfl, hv⟩ := (matchNames_star hrest).mp hx₂
  have hpath : IsPath (x₁ ++ ['a'] :: v) := by
    refine ⟨by simp, fun name hname => ?_⟩
    simp only [List.mem_append, List.mem_cons] at hname
    obtain hname | rfl | hname := hname
    · exact hz.2 name (List.mem_append_left _ hname)
    · exact isName_letter
    · exact hz.2 name (List.mem_append_right _ (List.mem_append_right _ hname))
  have hmatch' : matchNames glob (d₁ ++ doubleStar :: d₂ ++ segments) (x₁ ++ ['a'] :: v) =
      true := by
    rw [List.append_assoc, matchNames_append hnot]
    refine ⟨x₁, ['a'] :: v, rfl, hx₁, ?_⟩
    rw [List.cons_append]
    exact (matchNames_star hrest).mpr ⟨[['a']], v, rfl, hv⟩
  obtain ⟨r, hr⟩ := h.within hother hpath hmatch'
  rw [List.append_assoc] at hr
  obtain ⟨-, hname⟩ := List.append_inj hr hx₁.length_eq.symm
  exact absurd (List.cons.inj hname).1 (by decide)

theorem Confines.literal {z : List Name} (hd : IsPath d) (hsegments : segments ≠ [])
    (h : Confines glob d (some ⟨negated, true, directoryOnly, d ++ segments⟩)
      (some ⟨negated, anchored, directoryOnly,
        if anchored then segments else doubleStar :: segments⟩))
    (hz : IsPath z) (hmatch : matchNames glob segments z = true) : Literal glob d := by
  obtain ⟨above, below, heq, habove⟩ := h.behind hd hsegments hmatch (.inr rfl) hz
  rw [List.nil_append] at heq
  have hwhole : IsPath (above ++ below) := heq ▸ hd.append hz
  have habovePath := hwhole.of_append_left (matchNames_ne_nil (by simp [hsegments]) habove)
  have hnostar : doubleStar ∉ d := Confines.nostar (by rfl) h hsegments habovePath habove hwhole
  obtain ⟨x, y, rfl, hx, -⟩ := (matchNames_append hnostar).mp habove
  rw [List.append_assoc] at heq
  obtain ⟨rfl, -⟩ := List.append_inj heq hx.length_eq
  have hself := List.forall₂_same.mp hx
  intro segment hsegment
  refine ⟨fun hstar => hnostar (hstar ▸ hsegment), fun name hname => ⟨fun hglob => ?_, ?_⟩⟩
  · obtain ⟨a, b, rfl⟩ := List.append_of_mem hsegment
    have hother : List.Forall₂ (fun segment name => glob segment name = true) (a ++ segment :: b)
        (a ++ name :: b) :=
      List.rel_append (List.forall₂_same.mpr fun s hs => hself s (by simp [hs]))
        (.cons hglob (List.forall₂_same.mpr fun s hs => hself s (by simp [hs])))
    have hpath : IsPath ((a ++ name :: b) ++ z) := by
      refine ⟨by simp, fun n hn => ?_⟩
      simp only [List.mem_append, List.mem_cons] at hn
      obtain (hn | rfl | hn) | hn := hn
      · exact hd.2 n (by simp [hn])
      · exact hname
      · exact hd.2 n (by simp [hn])
      · exact hz.2 n hn
    obtain ⟨r, hr⟩ := Confines.within (by rfl) h hpath
      ((matchNames_append hnostar).mpr ⟨a ++ name :: b, z, rfl, hother, hmatch⟩)
    obtain ⟨hnames, -⟩ := List.append_inj hr (by simp)
    exact (List.cons.inj (List.append_cancel_left hnames)).1
  · rintro rfl
    exact hself name hsegment

theorem Confines.uniform {z : List Name} {segment : Name} (hd : IsPath d)
    (hliteral : Literal glob d)
    (h : Confines glob d (some ⟨negated, true, directoryOnly, d ++ [segment]⟩)
      (some ⟨negated, false, directoryOnly, [doubleStar, segment]⟩))
    (hz : IsPath z) (hmatch : matchNames glob [segment] z = true) : Uniform glob [segment] := by
  intro other hother name hname
  obtain rfl := List.mem_singleton.mp hother
  by_cases hstar : other = doubleStar
  · exact .inl hstar
  right
  have hpath : IsPath ([name] ++ z) :=
    IsPath.append ⟨by simp, fun n hn => by rwa [List.mem_singleton.mp hn]⟩ hz
  obtain ⟨above, below, heq, habove⟩ : ∃ above below, d ++ ([name] ++ z) = above ++ below ∧
      matchNames glob (d ++ [other]) above = true :=
    Confines.behind hd (by simp) h hmatch (.inl rfl) hpath
  obtain ⟨x, y, rfl, hx, hy⟩ := (matchNames_append hliteral.nostar).mp habove
  have hwhole : IsPath (x ++ y ++ below) := heq ▸ hd.append hpath
  rw [hliteral.forall₂_iff fun n hn => hwhole.2 n (by simp [hn])] at hx
  subst hx
  rw [List.append_assoc, List.append_cancel_left_eq] at heq
  cases y with
  | nil => exact absurd rfl (matchNames_ne_nil (by simp) hy)
  | cons n y =>
    rw [matchNames_cons hstar, Bool.and_eq_true] at hy
    rw [(List.cons.inj heq).1]
    exact hy.1

/-! ## When a rule is confined -/

theorem confines_none {whole : Option IgnoreRule} :
    Confines glob d whole none ↔ Silent glob whole := by
  simp [Confines, Silent, verdict]

theorem confines_of_silent {whole other : Option IgnoreRule} (hwhole : Silent glob whole)
    (hother : Silent glob other) : Confines glob d whole other := by
  intro names isDirectory hnames
  rw [hwhole names isDirectory hnames]
  by_cases hbelow : d <+: names ∧ names ≠ d
  · obtain ⟨⟨r, rfl⟩, hne⟩ := hbelow
    have hr : IsPath r := hnames.of_append_right fun hnil => hne (by rw [hnil, List.append_nil])
    rw [if_pos ⟨List.prefix_append d r, hne⟩, List.drop_left, hother r isDirectory hr]
  · rw [if_neg hbelow]

/-- A rule that is silent stays so with anything before its segments. -/
theorem Silent.elsewhere (hsegments : segments ≠ [])
    (h : Silent glob (some ⟨negated, anchored, directoryOnly,
      if anchored then segments else doubleStar :: segments⟩)) (other : Bool) (above : List Name) :
    Silent glob (some ⟨other, true, directoryOnly, above ++ segments⟩) := by
  by_contra hsome
  obtain ⟨z, hz, hmatch⟩ : ∃ z, IsPath z ∧ matchNames glob (above ++ segments) z = true :=
    @exists_matched _ _ _ true _ hsome (by simp [hsegments])
  obtain ⟨x, y, rfl, hy⟩ := matchNames_of_append hsegments hmatch
  have happlies := @applies_matched _ _ [] negated anchored directoryOnly y hsegments hy (.inr rfl)
  exact verdict_some.mpr happlies (h _ true (hz.of_append_right (matchNames_ne_nil hsegments hy)))

/-- A line that is read as a comment, or with another sign, can only stand for a silent rule. -/
theorem Confines.silent {whole : Option IgnoreRule} (hd : IsPath d)
    (h : Confines glob d whole (some rule))
    (hwhole : ∀ other, whole = some other → other.negated ≠ rule.negated) :
    Silent glob (some rule) := by
  intro names isDirectory hnames
  by_contra hverdict
  have happlies := verdict_some.mp hverdict
  have hbelow : d <+: d ++ names ∧ d ++ names ≠ d :=
    ⟨List.prefix_append d names, fun heq => hnames.1 (List.append_right_eq_self.mp heq)⟩
  have hsame := h (d ++ names) isDirectory (hd.append hnames)
  rw [if_pos hbelow, List.drop_left, verdict_eq rule, if_pos happlies] at hsame
  cases whole with
  | none => cases hsame
  | some other =>
    rw [verdict_eq] at hsame
    split at hsame
    · exact hwhole other rfl (Bool.not_inj (Option.some.inj hsame))
    · cases hsame

theorem uniform_segments : Uniform glob (if anchored then segments else doubleStar :: segments) ↔
    Uniform glob segments := by
  cases anchored <;> simp [Uniform]

theorem confines_append_iff (hd : IsPath d) (hsegments : segments ≠ [])
    (hsingle : anchored = false → ∃ segment, segments = [segment]) :
    Confines glob d (some ⟨negated, true, directoryOnly, d ++ segments⟩)
        (some ⟨negated, anchored, directoryOnly,
          if anchored then segments else doubleStar :: segments⟩) ↔
      Silent glob (some ⟨negated, anchored, directoryOnly,
          if anchored then segments else doubleStar :: segments⟩) ∨
        (Literal glob d ∧ (anchored = true ∨ Uniform glob segments)) := by
  constructor
  · intro h
    by_cases hsilent : Silent glob (some ⟨negated, anchored, directoryOnly,
        if anchored then segments else doubleStar :: segments⟩)
    · exact .inl hsilent
    · obtain ⟨z, hz, hmatch⟩ := exists_matched hsilent hsegments
      have hliteral := h.literal hd hsegments hz hmatch
      refine .inr ⟨hliteral, ?_⟩
      cases anchored with
      | true => exact .inl rfl
      | false =>
        obtain ⟨segment, rfl⟩ := hsingle rfl
        exact .inr (Confines.uniform hd hliteral h hz hmatch)
  · rintro (hsilent | ⟨hliteral, huniform⟩)
    · exact confines_of_silent (hsilent.elsewhere hsegments negated d) hsilent
    · exact confines_of_literal hliteral hsegments hsingle huniform

end DurableAgent.Library
