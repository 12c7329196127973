import DurableAgent.Library.Lines
import DurableAgent.Domain.CanonicalJson
import DurableAgent.Reporting.Generator

/-!
# The headings of a report

The renderer puts free text into the lines of a document as it is. A text that has a line break
before the mark of a heading adds a heading, and nothing else does: the headings are those of the
sections exactly where no text does that.
-/

namespace DurableAgent.Reporting

open Library Evidence

/-! ## Headings -/

/-- How a heading of a level begins: `## ` for a section. -/
def marker (level : Nat) : List Char := List.replicate level '#' ++ [' ']

/-- The lines of a text that are headings of a level. -/
def headings (level : Nat) (text : String) : List String :=
  ((lines '\n' text.toList).filter fun line => marker level <+: line).map String.ofList

/-- A line break, and behind it the mark of a heading. -/
def Breaks (level : Nat) (text : String) : Prop := '\n' :: marker level <:+: text.toList

instance (level : Nat) (text : String) : Decidable (Breaks level text) :=
  inferInstanceAs (Decidable (_ <:+: _))

theorem newline_notMem_marker (level : Nat) : '\n' ∉ marker level := by
  simp [marker]

/-- Whether a text begins with a mark is settled by its first character that is no `#`. -/
theorem marker_prefix_append {level : Nat} {start : List Char} (h : ∃ c ∈ start, c ≠ '#')
    (rest : List Char) : marker level <+: start ++ rest ↔ marker level <+: start := by
  induction start generalizing level with
  | nil => simp at h
  | cons d start ih =>
    cases level with
    | zero => simp [marker]
    | succ level =>
      have hmarker : marker (level + 1) = '#' :: marker level := rfl
      rw [hmarker, List.cons_append, List.cons_prefix_cons, List.cons_prefix_cons]
      by_cases hd : '#' = d
      · obtain ⟨c, hc, hne⟩ := h
        have hc : c ∈ start := (List.mem_cons.mp hc).resolve_left fun heq => hne (heq.trans hd.symm)
        rw [ih ⟨c, hc, hne⟩]
      · simp [hd]

/-! ## Parts of a document -/

/-- A line with what it begins with, which the renderer chooses, and the text behind it; or a text
alone. -/
inductive Part where
  | item (start text : String)
  | free (text : String)

def Part.render : Part → String
  | .item start text => start ++ text
  | .free text => text

/-- The heading that the renderer chooses. -/
def Part.chosen (level : Nat) : Part → List String
  | .item start text =>
    if marker level <+: start.toList then
      [start ++ String.ofList ((lines '\n' text.toList).headD [])]
    else []
  | .free _ => []

/-- What a text adds. -/
def Part.added (level : Nat) : Part → List String
  | .item _ text =>
    ((lines '\n' text.toList).tail.filter fun line => marker level <+: line).map String.ofList
  | .free text => headings level text

/-- The text has a heading in one of its lines. -/
def Part.Breaks (level : Nat) : Part → Prop
  | .item _ text => Reporting.Breaks level text
  | .free text => Reporting.Breaks level ("\n" ++ text)

/-- The beginning is part of one line, and settles whether that is a heading. -/
def Part.Sound : Part → Prop
  | .item start text => '\n' ∉ start.toList ∧ (text = "" ∨ ∃ c ∈ start.toList, c ≠ '#')
  | .free _ => True

theorem Part.headings_render {part : Part} (h : part.Sound) (level : Nat) :
    headings level part.render = part.chosen level ++ part.added level := by
  cases part with
  | free text => rfl
  | item start text =>
    obtain ⟨hstart, hsettled⟩ := h
    have hstarts : marker level <+: start.toList ++ (lines '\n' text.toList).headD [] ↔
        marker level <+: start.toList := by
      rcases hsettled with rfl | hsettled
      · simp [lines]
      · exact marker_prefix_append hsettled _
    unfold headings Part.render Part.chosen Part.added
    rw [String.toList_append, lines_append_of_notMem hstart, List.filter_cons]
    simp only [hstarts, decide_eq_true_eq]
    split
    · rw [List.map_cons, List.singleton_append]
      congr 1
      simp [String.ofList_append]
    · rfl

theorem Part.added_eq_nil {part : Part} {level : Nat} :
    part.added level = [] ↔ ¬ part.Breaks level := by
  have htail : ∀ text : List Char,
      ((lines '\n' text).tail.filter fun line => marker level <+: line) = [] ↔
        ¬ '\n' :: marker level <:+: text := by
    intro text
    rw [← mark_in_tail (newline_notMem_marker level), List.filter_eq_nil_iff]
    simp
  cases part with
  | item start text =>
    unfold Part.added Part.Breaks Reporting.Breaks
    rw [List.map_eq_nil_iff, htail]
  | free text =>
    change (List.map _ _ = []) ↔ ¬ '\n' :: marker level <:+: ("\n" ++ text).toList
    rw [List.map_eq_nil_iff, String.toList_append, ← htail]
    rfl

/-- The headings of a document are those that the renderer chooses where no text adds one. -/
theorem headings_join {parts : List Part} (hne : parts ≠ []) (hsound : ∀ part ∈ parts, part.Sound)
    (level : Nat) : headings level ("\n".intercalate (parts.map Part.render)) =
      parts.flatMap (Part.chosen level) ↔ ∀ part ∈ parts, ¬ part.Breaks level := by
  have hlines : headings level ("\n".intercalate (parts.map Part.render)) =
      parts.flatMap fun part => part.chosen level ++ part.added level := by
    unfold headings
    rw [String.toList_intercalate, show "\n".toList = ['\n'] from rfl,
      lines_intercalate (by simpa using hne), List.filter_flatMap, List.map_flatMap,
      List.map_map, List.flatMap_map]
    exact List.flatMap_congr fun part hpart => Part.headings_render (hsound part hpart) level
  rw [hlines, flatMap_append_eq]
  exact forall₂_congr fun part _ => Part.added_eq_nil

/-! ## Breaks in texts that are put together -/

section Seams

variable {level : Nat} {a b : String}

/-- What is put before a text in the same line breaks nothing. -/
theorem breaks_append (h : '\n' ∉ a.toList) : Breaks level (a ++ b) ↔ Breaks level b := by
  unfold Breaks
  rw [String.toList_append, infix_append_of_notMem h]

theorem not_breaks (h : '\n' ∉ a.toList) : ¬ Breaks level a := by
  rintro hbreaks
  exact h (hbreaks.subset List.mem_cons_self)

/-- A character that no mark has keeps apart what stands on its two sides. -/
theorem breaks_append_fence {c : Char} {rest : List Char} (hb : b.toList = c :: rest)
    (hc : c ≠ '\n' ∧ c ≠ '#' ∧ c ≠ ' ') :
    Breaks level (a ++ b) ↔ Breaks level a ∨ Breaks level b := by
  have hmark : c ∉ '\n' :: marker level := by simp [marker, hc]
  unfold Breaks
  rw [String.toList_append, hb, infix_append_cons_of_notMem hmark (List.cons_ne_nil _ _),
    List.infix_cons_iff, List.cons_prefix_cons]
  simp [Ne.symm hc.1]

/-- A blank may be the last character of a mark that begins before it. -/
theorem breaks_append_blank {rest : List Char} (hb : b.toList = ' ' :: rest) :
    Breaks level (a ++ b) ↔ Breaks level (a ++ " ") ∨ Breaks level b := by
  have hmark : ' ' ∉ '\n' :: List.replicate level '#' := by simp
  have hall : '\n' :: marker level = ('\n' :: List.replicate level '#') ++ [' '] := rfl
  unfold Breaks
  rw [String.toList_append, String.toList_append, hb, hall, infix_append_cons_last hmark,
    List.infix_cons_iff, List.cons_append, List.cons_prefix_cons]
  simp

theorem breaks_citation (item : String) : Breaks level (s!"[{item}]" ++ a) ↔
    Breaks level item ∨ Breaks level a := by
  have hparts : s!"[{item}]" ++ a = "[" ++ (item ++ ("]" ++ a)) := by
    change "[" ++ item ++ "]" ++ a = _
    rw [String.append_assoc, String.append_assoc]
  rw [hparts, breaks_append (by decide), breaks_append_fence (String.toList_append) (by decide),
    breaks_append (by decide)]

theorem breaks_citations {items : List String} :
    Breaks level (citations items) ↔ ∃ item ∈ items, Breaks level item := by
  unfold citations
  induction items with
  | nil => simp [not_breaks]
  | cons item items ih =>
    by_cases hrest : items = []
    · subst hrest
      have hcitation := @breaks_citation level "" item
      rw [String.append_empty] at hcitation
      simpa [not_breaks] using hcitation
    · rw [List.map_cons, String.intercalate_cons_of_ne_nil (by simpa using hrest),
        String.append_assoc, breaks_citation, breaks_append (by decide), ih]
      simp

theorem breaks_dependencies {items : List String} :
    Breaks level (", ".intercalate items) ↔ ∃ item ∈ items, Breaks level item := by
  induction items with
  | nil => simp [not_breaks]
  | cons item items ih =>
    by_cases hrest : items = []
    · subst hrest
      simp
    · rw [String.intercalate_cons_of_ne_nil hrest, String.append_assoc,
        breaks_append_fence (String.toList_append) (by decide), breaks_append (by decide), ih]
      simp

theorem toDigits_line {n : Nat} : '\n' ∉ Nat.toDigits 10 n := by
  intro hmem
  exact absurd (Nat.isDigit_of_mem_toDigits (by decide) (by decide) hmem) (by decide)

theorem nat_line (n : Nat) : '\n' ∉ (toString n).toList := by
  rw [Nat.toString_eq_repr, Nat.toList_repr]
  exact toDigits_line

theorem int_line (n : Int) : '\n' ∉ (toString n).toList := by
  cases n with
  | ofNat n =>
    rw [Json.toString_ofNat_toList]
    exact toDigits_line
  | negSucc n =>
    rw [Json.toString_negSucc_toList, List.mem_cons, not_or]
    exact ⟨by decide, toDigits_line⟩

end Seams

/-! ## The lines of the renderer -/

section RenderedLines

variable {level : Nat}

theorem breaks_claimLine (claim : Claim) : Breaks level (claimLine claim) ↔
    Breaks level (claim.text ++ " ") ∨ ∃ item ∈ claim.evidenceIds, Breaks level item := by
  have hkind : '\n' ∉ claim.kind.value.toList := by
    cases claim.kind <;> decide
  have hparts : claimLine claim = "**" ++ (claim.kind.value ++ ("** — " ++ (claim.text ++
      (" " ++ citations claim.evidenceIds)))) := by
    unfold claimLine
    change "**" ++ claim.kind.value ++ "** — " ++ claim.text ++ " " ++ _ = _
    simp only [String.append_assoc]
  rw [hparts, breaks_append (by decide), breaks_append hkind, breaks_append (by decide),
    breaks_append_blank String.toList_append, breaks_append (a := " ") (by decide),
    breaks_citations]

theorem breaks_conflictLine (conflict : EvidenceConflict) : Breaks level (conflictLine conflict) ↔
    Breaks level (conflict.description ++ " ") ∨
      ∃ item ∈ conflict.evidenceIds, Breaks level item := by
  have hparts : conflictLine conflict =
      conflict.description ++ (" " ++ citations conflict.evidenceIds) := by
    unfold conflictLine
    change conflict.description ++ " " ++ _ = _
    rw [String.append_assoc]
  rw [hparts, breaks_append_blank String.toList_append, breaks_append (a := " ") (by decide),
    breaks_citations]

theorem breaks_verificationLine (entry : VerificationEntry) :
    Breaks level (verificationLine entry) ↔ Breaks level entry.command ∨
      Breaks level (entry.outcome ++ " ") ∨ ∃ item ∈ entry.evidenceIds, Breaks level item := by
  obtain ⟨command, exitCode, outcome, evidenceIds⟩ := entry
  obtain ⟨code, hcode, hparts⟩ : ∃ code : String, '\n' ∉ code.toList ∧
      verificationLine ⟨command, exitCode, outcome, evidenceIds⟩ = "`" ++ (command ++ ("`: " ++
        (outcome ++ (" (exit " ++ (code ++ (") " ++ citations evidenceIds)))))) := by
    cases exitCode with
    | some code =>
      refine ⟨toString code, int_line code, ?_⟩
      unfold verificationLine
      change "`" ++ command ++ "`: " ++ outcome ++ " (exit " ++ toString code ++ ") " ++ _ = _
      simp only [String.append_assoc]
    | none =>
      refine ⟨"None", by decide, ?_⟩
      unfold verificationLine
      change "`" ++ command ++ "`: " ++ outcome ++ " (exit " ++ "None" ++ ") " ++ _ = _
      simp only [String.append_assoc]
  rw [hparts, breaks_append (by decide), breaks_append_fence String.toList_append (by decide),
    breaks_append (by decide), breaks_append_blank String.toList_append,
    breaks_append (a := " (exit ") (by decide), breaks_append hcode,
    breaks_append (a := ") ") (by decide), breaks_citations]

theorem breaks_planLine (task : TaskSpec) : Breaks level (planLine task) ↔
    Breaks level task.taskId ∨ Breaks level (task.title ++ " ") ∨
      ∃ d ∈ task.dependencies, Breaks level d := by
  obtain ⟨named, hnamed, hparts⟩ : ∃ named : String,
      (Breaks level named ↔ Breaks level (", ".intercalate task.dependencies)) ∧
      planLine task = task.taskId ++ (": " ++ (task.title ++ (" (depends on " ++
        (named ++ ")")))) := by
    refine ⟨if ", ".intercalate task.dependencies = "" then "nothing"
      else ", ".intercalate task.dependencies, ?_, ?_⟩
    · split
      · next hempty =>
        rw [hempty]
        exact iff_of_false (not_breaks (by decide)) (not_breaks (by decide))
      · rfl
    · unfold planLine
      dsimp only
      change task.taskId ++ ": " ++ task.title ++ " (depends on " ++ (if _ then _ else _) ++ ")" = _
      simp only [String.append_assoc]
  rw [hparts, breaks_append_fence String.toList_append (by decide), breaks_append (by decide),
    breaks_append_blank String.toList_append, breaks_append (a := " (depends on ") (by decide),
    breaks_append_fence (b := ")") (c := ')') rfl (by decide), hnamed, breaks_dependencies]
  simp [not_breaks]

theorem breaks_workLine (task : TaskRecord) :
    Breaks level (workLine task) ↔ Breaks level task.spec.title := by
  have hstate : '\n' ∉ task.state.value.toList := by
    cases task.state <;> decide
  have hparts : workLine task = task.spec.title ++ (": " ++ (task.state.value ++ (" after " ++
      (toString task.attemptCount ++ " attempt(s)")))) := by
    unfold workLine
    change task.spec.title ++ ": " ++ task.state.value ++ " after " ++
      toString task.attemptCount ++ " attempt(s)" = _
    simp only [String.append_assoc]
  rw [hparts, breaks_append_fence String.toList_append (by decide), breaks_append (by decide),
    breaks_append hstate, breaks_append (by decide), breaks_append (nat_line _)]
  simp [not_breaks]

theorem id_line {start id : String} (hstart : '\n' ∉ start.toList)
    (h : hasIdForm start id = true) : '\n' ∉ id.toList := by
  unfold hasIdForm at h
  simp only [Bool.and_eq_true] at h
  obtain ⟨⟨hstarts, -⟩, hrest⟩ := h
  have hsplit := List.prefix_iff_eq_append.mp (List.isPrefixOf_iff_prefix.mp hstarts)
  rw [← hsplit, List.mem_append, not_or, String.length_toList]
  refine ⟨hstart, fun hmem => ?_⟩
  exact absurd (List.all_eq_true.mp hrest _ hmem) (by decide)

theorem hash_line {hash : String} (h : isHash hash = true) : '\n' ∉ hash.toList := by
  unfold isHash at h
  rw [Bool.and_eq_true] at h
  intro hmem
  exact absurd (List.all_eq_true.mp h.2 _ hmem) (by decide)

/-- The source as it stands before what follows it. -/
def sourceText (evidence : EvidenceRecord) : String :=
  if location evidence = "" then evidence.source else evidence.source ++ " "

theorem location_cases (evidence : EvidenceRecord) :
    (location evidence = "" ∧ ∀ place ∈ evidence.sourceLocation, place = "") ∨
      ∃ place, evidence.sourceLocation = some place ∧ location evidence = " at " ++ place := by
  unfold location
  cases evidence.sourceLocation with
  | none => simp
  | some place =>
    by_cases hplace : place = ""
    · simp [hplace]
    · exact .inr ⟨place, rfl, if_neg hplace⟩

/-- The line of a record behind its mark. -/
def evidenceTail (evidence : EvidenceRecord) : String :=
  evidence.evidenceId ++ ("** — " ++ (evidence.evidenceType.value ++ (": " ++ (evidence.source ++
    (location evidence ++ ("; " ++ (evidence.verificationStatus.value ++ ("; " ++ ("hash `" ++
      (evidence.contentHash.getD "not-applicable" ++ "`"))))))))))

theorem evidenceLine_eq (evidence : EvidenceRecord) :
    evidenceLine evidence = "- **" ++ evidenceTail evidence := by
  unfold evidenceLine evidenceTail
  change "- **" ++ evidence.evidenceId ++ "** — " ++ evidence.evidenceType.value ++ ": " ++
    (evidence.source ++ location evidence ++ "; " ++ evidence.verificationStatus.value ++
      "; ") ++ ("hash `" ++ evidence.contentHash.getD "not-applicable" ++ "`") = _
  simp only [String.append_assoc]

theorem breaks_evidenceTail (evidence : EvidenceRecord) : Breaks level (evidenceTail evidence) ↔
    Breaks level (sourceText evidence) ∨
      ∃ place ∈ evidence.sourceLocation, Breaks level place := by
  have hid := @id_line "EVID-" _ (by decide) evidence.valid.evidence_id
  have htype : '\n' ∉ evidence.evidenceType.value.toList := by
    cases evidence.evidenceType <;> decide
  have hstatus : '\n' ∉ evidence.verificationStatus.value.toList := by
    cases evidence.verificationStatus <;> decide
  have hhash : '\n' ∉ (evidence.contentHash.getD "not-applicable").toList := by
    cases hfound : evidence.contentHash with
    | none => decide
    | some hash => exact hash_line (evidence.valid.content_hash hash hfound)
  have hclosed : ¬ Breaks level ("; " ++ (evidence.verificationStatus.value ++ ("; " ++
      ("hash `" ++ (evidence.contentHash.getD "not-applicable" ++ "`"))))) := by
    rw [breaks_append (by decide), breaks_append hstatus, breaks_append (by decide),
      breaks_append (by decide), breaks_append hhash]
    exact not_breaks (by decide)
  unfold evidenceTail
  rw [breaks_append hid, breaks_append (by decide), breaks_append htype, breaks_append (by decide)]
  unfold sourceText
  rcases location_cases evidence with ⟨hnone, hplaces⟩ | ⟨place, hplace, hat⟩
  · have hplace : ¬ ∃ place ∈ evidence.sourceLocation, Breaks level place := by
      rintro ⟨place, hmem, hbreaks⟩
      rw [hplaces place hmem] at hbreaks
      exact not_breaks (by decide) hbreaks
    rw [if_pos hnone, hnone, String.empty_append,
      breaks_append_fence String.toList_append (by decide)]
    simp only [hclosed, hplace]
  · have hne : " at " ++ place ≠ "" := by
      intro heq
      have hlength := congrArg String.length heq
      rw [String.length_append] at hlength
      simp at hlength
    rw [hat, if_neg hne, hplace, String.append_assoc,
      breaks_append_blank String.toList_append, breaks_append (a := " at ") (by decide),
      breaks_append_fence (a := place) String.toList_append (by decide)]
    simp [hclosed]

theorem padded_line (width n : Nat) : '\n' ∉ (Timestamp.padded width n).toList := by
  unfold Timestamp.padded
  dsimp only
  rw [String.toList_append, List.mem_append, not_or, String.toList_ofList]
  exact ⟨by simp, nat_line n⟩

theorem toString_text (text : String) : toString text = text := rfl

theorem isoformat_line (t : Timestamp) : '\n' ∉ t.isoformat.toList := by
  unfold Timestamp.isoformat Timestamp.dateTime
  dsimp only
  have hpadded := padded_line
  split
  · simp [toString_text, hpadded]
  · simp [toString_text, hpadded]

end RenderedLines

/-! ## Sections -/

section Sections

variable {level : Nat}

theorem marker_hashes {n : Nat} {rest : List Char} :
    marker level <+: List.replicate n '#' ++ ' ' :: rest ↔ level = n := by
  induction n generalizing level with
  | zero =>
    cases level with
    | zero => simp [marker]
    | succ level => simp [marker, List.replicate_succ]
  | succ n ih =>
    cases level with
    | zero => simp [marker, List.replicate_succ]
    | succ level =>
      have hmarker : marker (level + 1) = '#' :: marker level := rfl
      rw [hmarker, List.replicate_succ, List.cons_append, List.cons_prefix_cons, ih]
      simp

/-- A line that begins otherwise is no heading. -/
theorem not_marker {c : Char} {rest : List Char} (h : c ≠ '#' ∧ c ≠ ' ') :
    ¬ marker level <+: c :: rest := by
  cases level with
  | zero => simp [marker, Ne.symm h.2]
  | succ level => simp [marker, List.replicate_succ, Ne.symm h.1]

def sectionParts (title : String) (values : List String) (ordered : Bool) : List Part :=
  [.item "" "", .item ("## " ++ title) "", .item "" ""] ++
    if values = [] then [.item "- None recorded." ""]
    else values.mapIdx fun index value =>
      .item ((if ordered then s!"{index + 1}." else "-") ++ " ") value

theorem sectionLines_eq (title : String) (values : List String) (ordered : Bool) :
    sectionLines title values ordered = (sectionParts title values ordered).map Part.render := by
  unfold sectionLines sectionParts
  rw [List.map_append]
  congr 1
  · simp [Part.render, toString_text]
  · split
    · simp [Part.render]
    · rw [List.mapIdx_eq_zipIdx_map, List.mapIdx_eq_zipIdx_map, List.map_map]
      refine List.map_congr_left fun entry _ => ?_
      simp [Part.render, toString_text, String.append_assoc]

/-- How an item of a section begins. -/
theorem item_start (index : Nat) (ordered : Bool) : ∃ c rest,
    ((if ordered then s!"{index + 1}." else "-") ++ " ").toList = c :: rest ∧ c ≠ '#' ∧ c ≠ ' ' ∧
      '\n' ∉ c :: rest := by
  cases ordered with
  | false => exact ⟨'-', [' '], by simp, by decide, by decide, by decide⟩
  | true =>
    have hline := nat_line (index + 1)
    have hdigits : (toString (index + 1)).toList = Nat.toDigits 10 (index + 1) := by
      rw [Nat.toString_eq_repr, Nat.toList_repr]
    obtain ⟨c, rest, hc, hdigit⟩ := Json.digits_head (index + 1)
    have hall : (s!"{index + 1}." ++ " ").toList = c :: (rest ++ ['.', ' ']) := by
      change (toString (index + 1) ++ "." ++ " ").toList = _
      rw [String.toList_append, String.toList_append, hdigits, hc]
      simp
    refine ⟨c, _, hall, ?_, ?_, ?_⟩
    · rintro rfl
      exact absurd hdigit (by decide)
    · rintro rfl
      exact absurd hdigit (by decide)
    · rw [hdigits, hc] at hline
      rw [← List.cons_append, List.mem_append, not_or]
      exact ⟨hline, by decide⟩

theorem sectionParts_sound {title : String} (h : '\n' ∉ title.toList) (values : List String)
    (ordered : Bool) : ∀ part ∈ sectionParts title values ordered, part.Sound := by
  have hitem : ∀ start, '\n' ∉ start.toList → (Part.item start "").Sound :=
    fun start hstart => ⟨hstart, .inl rfl⟩
  have htitle : '\n' ∉ ("## " ++ title).toList := by
    rw [String.toList_append, List.mem_append, not_or]
    exact ⟨by decide, h⟩
  unfold sectionParts
  rw [List.forall_mem_append]
  constructor
  · simp only [List.forall_mem_cons]
    exact ⟨hitem _ (by decide), hitem _ htitle, hitem _ (by decide), by simp⟩
  · split
    · simpa using hitem _ (by decide)
    · intro part hpart
      obtain ⟨index, hindex, rfl⟩ := List.mem_mapIdx.mp hpart
      obtain ⟨c, rest, hstart, hne, -, hline⟩ := item_start index ordered
      refine ⟨?_, .inr ⟨c, ?_, hne⟩⟩
      · rw [hstart]
        exact hline
      · rw [hstart]
        exact List.mem_cons_self

theorem sectionParts_breaks {title : String} {values : List String} {ordered : Bool} :
    (∀ part ∈ sectionParts title values ordered, ¬ part.Breaks level) ↔
      ∀ value ∈ values, ¬ Breaks level value := by
  have hitem : ∀ start, ¬ (Part.item start "").Breaks level := fun _ => not_breaks (by decide)
  unfold sectionParts
  rw [List.forall_mem_append]
  simp only [List.forall_mem_cons, hitem, not_false_iff, true_and, List.not_mem_nil,
    IsEmpty.forall_iff, implies_true]
  split
  · next hnone => simp [hnone, hitem]
  · simp only [List.mem_mapIdx]
    constructor
    · intro h value hvalue
      obtain ⟨index, hindex, rfl⟩ := List.mem_iff_getElem.mp hvalue
      exact h _ ⟨index, hindex, rfl⟩
    · rintro h part ⟨index, hindex, rfl⟩
      exact h _ (List.getElem_mem hindex)

/-- A section has its one heading. -/
theorem sectionParts_chosen (title : String) (values : List String) (ordered : Bool) :
    (sectionParts title values ordered).flatMap (Part.chosen level) =
      if level = 2 then ["## " ++ title] else [] := by
  have hempty : ¬ marker level <+: ("" : String).toList := by simp [marker]
  have htitle : marker level <+: ("## " ++ title).toList ↔ level = 2 := by
    rw [String.toList_append]
    exact marker_hashes (n := 2)
  have hitems : (if values = [] then [Part.item "- None recorded." ""]
      else values.mapIdx fun index value =>
        Part.item ((if ordered then s!"{index + 1}." else "-") ++ " ") value).flatMap
          (Part.chosen level) = [] := by
    rw [List.flatMap_eq_nil_iff]
    intro part hpart
    split at hpart
    · rw [List.mem_singleton.mp hpart]
      exact if_neg (not_marker (by decide))
    · obtain ⟨index, hindex, rfl⟩ := List.mem_mapIdx.mp hpart
      obtain ⟨c, rest, hstart, hne, hblank, -⟩ := item_start index ordered
      refine if_neg ?_
      rw [hstart]
      exact not_marker ⟨hne, hblank⟩
  unfold sectionParts
  rw [List.flatMap_append, hitems, List.append_nil]
  simp only [List.flatMap_cons, List.flatMap_nil, Part.chosen, if_neg hempty, htitle]
  split
  · simp [lines]
  · rfl

end Sections

end DurableAgent.Reporting
