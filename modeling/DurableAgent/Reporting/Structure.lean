import DurableAgent.Reporting.Headings

/-!
# The structure of a report

The sections of a report, in their order, and the condition on the inputs under which the document
has their headings and no others.
-/

namespace DurableAgent.Reporting

open Library Evidence

variable {level : Nat}

/-- The titles of the sections behind the summary, with their items and whether these are
numbered. -/
def sections (report : ReportDocument) : List (String × List String × Bool) :=
  [("Original objective", [report.originalObjective], false),
    ("Scope", report.scope, false),
    ("Assumptions", report.assumptions, false),
    ("Plan summary", report.planSummary, false),
    ("Work completed", report.workCompleted, false),
    ("Files or artifacts changed", report.changedArtifacts, false),
    ("Research findings", report.researchFindings, false),
    ("Verification performed", report.verificationPerformed.map verificationLine, false),
    ("Test results", report.testResults, false),
    ("Claim-to-evidence mapping", report.claims.map claimLine, false),
    ("Conflicting evidence", report.conflicts.map conflictLine, false),
    ("Failures and recoveries", report.failuresAndRecoveries, false),
    ("Remaining risks", report.remainingRisks, false),
    ("Limitations", report.limitations, false),
    ("Recommended next actions", report.recommendedNextActions, false),
    ("Reproduction instructions", report.reproductionInstructions, true)]

def sectionTitles : List String :=
  ["Original objective", "Scope", "Assumptions", "Plan summary", "Work completed",
    "Files or artifacts changed", "Research findings", "Verification performed", "Test results",
    "Claim-to-evidence mapping", "Conflicting evidence", "Failures and recoveries",
    "Remaining risks", "Limitations", "Recommended next actions", "Reproduction instructions"]

/-- The headings of all sections. -/
def sectionHeadings : List String :=
  ["## Executive summary"] ++ sectionTitles.map (fun title => "## " ++ title) ++
    ["## Evidence ledger"]

/-- The beginning of the title. -/
def titleStart (report : ReportDocument) : String :=
  if report.isPartial then "# Partial report: " else "# Final report: "

/-- The headings of a level that belong to a report: its title and its sections. -/
def fixedHeadings (level : Nat) (report : ReportDocument) : List String :=
  if level = 1 then [titleStart report ++ String.ofList ((lines '\n' report.runId.toList).headD [])]
  else if level = 2 then sectionHeadings
  else []

/-! ## Parts -/

def reportParts (report : ReportDocument) : List Part :=
  [.item (titleStart report) report.runId, .item "" "", .item "## Executive summary" "",
      .item "" "", .free report.executiveSummary] ++
    (sections report).flatMap (fun part => sectionParts part.1 part.2.1 part.2.2) ++
    [.item "" "", .item "## Evidence ledger" "", .item "" ""] ++
    report.evidence.map (fun evidence => .item "- **" (evidenceTail evidence)) ++
    [.item "" "", .item "Generated: " report.createdAt.isoformat, .item "" ""]

theorem reportLines_eq (report : ReportDocument) :
    reportLines report = (reportParts report).map Part.render := by
  have hsections : ((sections report).flatMap fun part =>
      sectionParts part.1 part.2.1 part.2.2).map Part.render =
        (sections report).flatMap fun part => sectionLines part.1 part.2.1 part.2.2 := by
    rw [List.map_flatMap]
    exact List.flatMap_congr fun part _ => (sectionLines_eq _ _ _).symm
  have hevidence : (report.evidence.map fun evidence =>
      Part.item "- **" (evidenceTail evidence)).map Part.render =
        report.evidence.map evidenceLine := by
    rw [List.map_map]
    exact List.map_congr_left fun evidence _ => (evidenceLine_eq evidence).symm
  unfold reportParts reportLines
  rw [List.map_append, List.map_append, List.map_append, List.map_append, hsections, hevidence]
  simp [sections, Part.render, reportTitle, titleStart, toString_text]

theorem title_start (report : ReportDocument) : '\n' ∉ (titleStart report).toList ∧
    (∃ c ∈ (titleStart report).toList, c ≠ '#') ∧
      (marker level <+: (titleStart report).toList ↔ level = 1) := by
  unfold titleStart
  split
  · exact ⟨by decide, by simp, marker_hashes (n := 1)⟩
  · exact ⟨by decide, by simp, marker_hashes (n := 1)⟩

theorem title_lines (report : ReportDocument) :
    ∀ part ∈ sections report, '\n' ∉ part.1.toList := by
  have htitles : (sections report).map Prod.fst = sectionTitles := rfl
  have hlines : ∀ title ∈ sectionTitles, '\n' ∉ title.toList := by decide
  intro part hpart
  exact hlines part.1 (htitles ▸ List.mem_map_of_mem hpart)

theorem reportParts_sound (report : ReportDocument) : ∀ part ∈ reportParts report, part.Sound := by
  have hitem : ∀ start, '\n' ∉ start.toList → (Part.item start "").Sound :=
    fun start hstart => ⟨hstart, .inl rfl⟩
  have hempty := hitem "" (by decide)
  obtain ⟨hline, hmark, -⟩ := @title_start 0 report
  unfold reportParts
  simp only [List.forall_mem_append, List.forall_mem_cons]
  refine ⟨⟨⟨⟨⟨⟨hline, .inr hmark⟩, hempty, hitem _ (by decide), hempty, trivial, by simp⟩, ?_⟩,
    hempty, hitem _ (by decide), hempty, by simp⟩, ?_⟩,
    hempty, ⟨by decide, .inr (by simp)⟩, hempty, by simp⟩
  · intro part hpart
    obtain ⟨entry, hentry, hpart⟩ := List.mem_flatMap.mp hpart
    exact sectionParts_sound (title_lines report entry hentry) _ _ part hpart
  · intro part hpart
    obtain ⟨evidence, -, rfl⟩ := List.mem_map.mp hpart
    exact ⟨by decide, .inr (by simp)⟩

/-- The headings that the renderer chooses are the fixed ones. -/
theorem reportParts_chosen (report : ReportDocument) :
    (reportParts report).flatMap (Part.chosen level) = fixedHeadings level report := by
  have hempty : Part.chosen level (.item "" "") = [] := if_neg (by simp [marker])
  have htitle : Part.chosen level (.item (titleStart report) report.runId) =
      if level = 1 then
        [titleStart report ++ String.ofList ((lines '\n' report.runId.toList).headD [])]
      else [] := by
    unfold Part.chosen
    simp only [(title_start report).2.2]
  have hheading : ∀ title, Part.chosen level (.item ("## " ++ title) "") =
      if level = 2 then ["## " ++ title] else [] := by
    intro title
    have hmarker : marker level <+: ("## " ++ title).toList ↔ level = 2 := by
      rw [String.toList_append]
      exact marker_hashes (n := 2)
    unfold Part.chosen
    simp only [hmarker]
    split
    · simp [lines]
    · rfl
  have hsections : ((sections report).flatMap fun part =>
      sectionParts part.1 part.2.1 part.2.2).flatMap (Part.chosen level) =
        if level = 2 then sectionTitles.map (fun title => "## " ++ title) else [] := by
    rw [List.flatMap_assoc]
    simp only [sectionParts_chosen]
    split
    · rw [← List.map_eq_flatMap]
      rfl
    · simp
  have hevidence : (report.evidence.map fun evidence =>
      Part.item "- **" (evidenceTail evidence)).flatMap (Part.chosen level) = [] := by
    rw [List.flatMap_eq_nil_iff]
    intro part hpart
    obtain ⟨evidence, -, rfl⟩ := List.mem_map.mp hpart
    exact if_neg (not_marker (by decide))
  have hgenerated : Part.chosen level (.item "Generated: " report.createdAt.isoformat) = [] :=
    if_neg (not_marker (by decide))
  have hfree : Part.chosen level (.free report.executiveSummary) = [] := rfl
  have hsummary : Part.chosen level (.item "## Executive summary" "") =
      if level = 2 then ["## Executive summary"] else [] := hheading "Executive summary"
  have hledger : Part.chosen level (.item "## Evidence ledger" "") =
      if level = 2 then ["## Evidence ledger"] else [] := hheading "Evidence ledger"
  unfold reportParts fixedHeadings sectionHeadings
  simp only [List.flatMap_append, List.flatMap_cons, List.flatMap_nil, hempty, htitle, hfree,
    hsections, hevidence, hgenerated, hsummary, hledger]
  by_cases hone : level = 1
  · simp [hone]
  · by_cases htwo : level = 2
    · simp [htwo]
    · simp [hone, htwo]

/-! ## The condition -/

/-- No text of a report has a line break before the mark of a heading of the level. -/
structure Inert (level : Nat) (data : ReportInput) : Prop where
  run : ¬ Breaks level data.run.runId ∧ ¬ Breaks level data.run.objective
  summary : ¬ Breaks level ("\n" ++ data.executiveSummary)
  plan : (∀ text ∈ data.plan.scope ++ data.plan.assumptions, ¬ Breaks level text) ∧
    ∀ task ∈ data.plan.tasks, ¬ Breaks level task.taskId ∧ ¬ Breaks level (task.title ++ " ") ∧
      ∀ d ∈ task.dependencies, ¬ Breaks level d
  tasks : ∀ task ∈ data.tasks, ¬ Breaks level task.spec.title
  findings : ∀ text ∈ data.changedArtifacts ++ data.researchFindings ++ data.testResults ++
    data.failuresAndRecoveries ++ data.remainingRisks ++ data.limitations ++
    data.recommendedNextActions ++ data.reproductionInstructions, ¬ Breaks level text
  verification : ∀ entry ∈ data.verificationPerformed, ¬ Breaks level entry.command ∧
    ¬ Breaks level (entry.outcome ++ " ") ∧ ∀ item ∈ entry.evidenceIds, ¬ Breaks level item
  claims : ∀ claim ∈ data.claims, ¬ Breaks level (claim.text ++ " ") ∧
    ∀ item ∈ claim.evidenceIds, ¬ Breaks level item
  conflicts : ∀ conflict ∈ data.conflicts, ¬ Breaks level (conflict.description ++ " ") ∧
    ∀ item ∈ conflict.evidenceIds, ¬ Breaks level item
  evidence : ∀ evidence ∈ data.evidence, ¬ Breaks level (sourceText evidence) ∧
    ∀ place ∈ evidence.sourceLocation, ¬ Breaks level place

/-- The texts of a document break where those of its title, its summary, its sections or its
evidence do. -/
theorem reportParts_breaks (report : ReportDocument) :
    (∀ part ∈ reportParts report, ¬ part.Breaks level) ↔
      (¬ Breaks level report.runId ∧ ¬ Breaks level ("\n" ++ report.executiveSummary)) ∧
        (∀ entry ∈ sections report, ∀ value ∈ entry.2.1, ¬ Breaks level value) ∧
        ∀ evidence ∈ report.evidence, ¬ Breaks level (evidenceTail evidence) := by
  have hempty : ∀ start, ¬ (Part.item start "").Breaks level := fun _ => not_breaks (by decide)
  have hgenerated : ¬ (Part.item "Generated: " report.createdAt.isoformat).Breaks level :=
    not_breaks (isoformat_line report.createdAt)
  have hhead : (∀ part ∈ [Part.item (titleStart report) report.runId, .item "" "",
      .item "## Executive summary" "", .item "" "", .free report.executiveSummary],
        ¬ part.Breaks level) ↔
          ¬ Breaks level report.runId ∧ ¬ Breaks level ("\n" ++ report.executiveSummary) := by
    simp only [List.forall_mem_cons, hempty]
    simp [Part.Breaks]
  have hledger : ∀ part ∈ [Part.item "" "", .item "## Evidence ledger" "", .item "" ""],
      ¬ part.Breaks level := by
    simp only [List.forall_mem_cons, hempty]
    simp
  have hlast : ∀ part ∈ [Part.item "" "", .item "Generated: " report.createdAt.isoformat,
      .item "" ""], ¬ part.Breaks level := by
    simp only [List.forall_mem_cons, hempty, hgenerated]
    simp
  have hsections : (∀ part ∈ (sections report).flatMap fun part =>
      sectionParts part.1 part.2.1 part.2.2, ¬ part.Breaks level) ↔
        ∀ entry ∈ sections report, ∀ value ∈ entry.2.1, ¬ Breaks level value := by
    rw [List.forall_mem_flatMap]
    exact forall₂_congr fun entry _ => sectionParts_breaks
  have hevidence : (∀ part ∈ report.evidence.map fun evidence =>
      Part.item "- **" (evidenceTail evidence), ¬ part.Breaks level) ↔
        ∀ evidence ∈ report.evidence, ¬ Breaks level (evidenceTail evidence) := by
    rw [List.forall_mem_map]
    rfl
  unfold reportParts
  rw [List.forall_mem_append, List.forall_mem_append, List.forall_mem_append,
    List.forall_mem_append, hhead, hsections, hevidence, eq_true hledger, eq_true hlast]
  simp only [and_true, and_assoc]

/-- The texts of the sections, from the inputs that they are made of. -/
theorem sections_breaks (data : ReportInput) (reportId : String) (now : Timestamp) :
    (∀ entry ∈ sections (document data reportId now), ∀ value ∈ entry.2.1,
      ¬ Breaks level value) ↔ ¬ Breaks level data.run.objective ∧
        (∀ text ∈ data.plan.scope ++ data.plan.assumptions, ¬ Breaks level text) ∧
        (∀ task ∈ data.plan.tasks, ¬ Breaks level (planLine task)) ∧
        (∀ task ∈ data.tasks, ¬ Breaks level (workLine task)) ∧
        (∀ text ∈ data.changedArtifacts ++ data.researchFindings ++ data.testResults ++
          data.failuresAndRecoveries ++ data.remainingRisks ++ data.limitations ++
          data.recommendedNextActions ++ data.reproductionInstructions, ¬ Breaks level text) ∧
        (∀ entry ∈ data.verificationPerformed, ¬ Breaks level (verificationLine entry)) ∧
        (∀ claim ∈ data.claims, ¬ Breaks level (claimLine claim)) ∧
        ∀ conflict ∈ data.conflicts, ¬ Breaks level (conflictLine conflict) := by
  simp only [sections, document, List.forall_mem_cons, List.forall_mem_append,
    List.forall_mem_map, List.not_mem_nil, IsEmpty.forall_iff, implies_true, and_true]
  tauto

theorem document_inert (data : ReportInput) (reportId : String) (now : Timestamp) :
    (∀ part ∈ reportParts (document data reportId now), ¬ part.Breaks level) ↔
      Inert level data := by
  rw [reportParts_breaks, sections_breaks]
  simp only [breaks_planLine, breaks_workLine, breaks_verificationLine, breaks_claimLine,
    breaks_conflictLine, breaks_evidenceTail, not_or, not_exists, not_and]
  constructor
  · rintro ⟨⟨hrun, hsummary⟩, ⟨hobjective, htexts, hplan, htasks, hfindings, hverification, hclaims,
      hconflicts⟩, hevidence⟩
    exact ⟨⟨hrun, hobjective⟩, hsummary, ⟨htexts, hplan⟩, htasks, hfindings, hverification, hclaims,
      hconflicts, hevidence⟩
  · rintro ⟨⟨hrun, hobjective⟩, hsummary, ⟨htexts, hplan⟩, htasks, hfindings, hverification,
      hclaims, hconflicts, hevidence⟩
    exact ⟨⟨hrun, hsummary⟩, ⟨hobjective, htexts, hplan, htasks, hfindings, hverification, hclaims,
      hconflicts⟩, hevidence⟩

/-! ## The headings of a generated report -/

theorem markdown_headings (data : ReportInput) (reportId : String) (now : Timestamp)
    (level : Nat) : headings level (markdown (document data reportId now)) =
      fixedHeadings level (document data reportId now) ↔ Inert level data := by
  rw [markdown, reportLines_eq, ← reportParts_chosen, ← document_inert data reportId now]
  apply headings_join
  · simp [reportParts]
  · exact reportParts_sound _

/-- What a generator returns is the rendering of the document of its inputs. -/
theorem generate_markdown {G : ReportGenerator} {data : ReportInput} {reportId : String}
    {now : Timestamp} {bundle : ReportBundle} (h : G.generate data reportId now = .ok bundle) :
    bundle.report = document data reportId now ∧ bundle.markdown = markdown bundle.report := by
  unfold ReportGenerator.generate at h
  obtain ⟨_, _, h⟩ := of_bind_ok h
  obtain ⟨_, _, h⟩ := of_bind_ok h
  have hbundle := Except.ok.inj h
  rw [← hbundle]
  simp only [and_self]

/-- For each level, the headings of a generated document are its title or its sections, in their
order and each once, exactly where no text of the inputs has a line break before the mark of such
a heading. -/
theorem generated_headings {G : ReportGenerator} {data : ReportInput} {reportId : String}
    {now : Timestamp} {bundle : ReportBundle} (h : G.generate data reportId now = .ok bundle)
    (level : Nat) : headings level bundle.markdown = fixedHeadings level bundle.report ↔
      Inert level data := by
  obtain ⟨hreport, hmarkdown⟩ := generate_markdown h
  rw [hmarkdown, hreport]
  exact markdown_headings data reportId now level

/-! ## A report without findings -/

def emptyReport (objective : String) : ReportInput where
  run := { runId := "run-1", ownerId := "owner", objective := objective,
           configurationFingerprint := "f", createdAt := 0, updatedAt := 0 }
  plan := { planId := "plan-1", runId := "run-1", version := 1, tasks := [], scope := []
            version_pos := PlanSpec.first_version }
  tasks := []
  evidence := []
  claims := []
  executiveSummary := "Done."
  reproductionInstructions := ["Run the tests."]

/-- The dump of a report that has texts only. -/
def dumpTexts (report : ReportDocument) : Json :=
  let texts (values : List String) : Json := .arr (values.map .str)
  .obj [("report_id", .str report.reportId), ("run_id", .str report.runId),
    ("partial", .bool report.isPartial), ("executive_summary", .str report.executiveSummary),
    ("original_objective", .str report.originalObjective), ("scope", texts report.scope),
    ("assumptions", texts report.assumptions), ("plan_summary", texts report.planSummary),
    ("work_completed", texts report.workCompleted),
    ("changed_artifacts", texts report.changedArtifacts),
    ("research_findings", texts report.researchFindings), ("verification_performed", .arr []),
    ("test_results", texts report.testResults), ("claims", .arr []), ("evidence", .arr []),
    ("conflicts", .arr []), ("failures_and_recoveries", texts report.failuresAndRecoveries),
    ("remaining_risks", texts report.remainingRisks), ("limitations", texts report.limitations),
    ("recommended_next_actions", texts report.recommendedNextActions),
    ("reproduction_instructions", texts report.reproductionInstructions),
    ("created_at", .str report.createdAt.isoformat)]

/-- A generator whose texts are read back as the dump of this report. -/
def textGenerator (report : ReportDocument) : ReportGenerator where
  sha256Digest text := toString text.length
  modelDump := dumpTexts
  dumps := canonicalJson
  loads _ := .ok (dumpTexts report)

/-- Without claims and conflicts a generator accepts its own document. -/
theorem generate_ok {G : ReportGenerator} {data : ReportInput} {reportId : String}
    {now : Timestamp} (hclaims : data.claims = []) (hconflicts : data.conflicts = [])
    (hloads : ∀ text, G.loads text = .ok (G.modelDump (document data reportId now)))
    (hid : member (G.modelDump (document data reportId now)) "report_id" =
      .ok (.str reportId)) : ∃ bundle, G.generate data reportId now = .ok bundle := by
  have hreport : (document data reportId now).claims = [] ∧
      (document data reportId now).conflicts = [] ∧
      (document data reportId now).reportId = reportId := ⟨hclaims, hconflicts, rfl⟩
  unfold ReportGenerator.generate ReportGenerator.verify
  generalize document data reportId now = report at *
  simp only [hclaims, hloads, hid, hreport, ne_eq, not_true_eq_false, if_false, bind,
    Except.bind, pure, Except.pure]
  exact ⟨_, rfl⟩

/-- The generator accepts every objective. -/
theorem generate_emptyReport (objective : String) :
    ∃ bundle, (textGenerator (document (emptyReport objective) "report-1" 0)).generate
      (emptyReport objective) "report-1" 0 = .ok bundle :=
  generate_ok rfl rfl (fun _ => rfl) rfl

theorem inert_emptyReport {objective : String} (h : ¬ Breaks 2 objective) :
    Inert 2 (emptyReport objective) := by
  have hrun : ¬ Breaks 2 "run-1" := by decide
  have hsummary : ¬ Breaks 2 ("\n" ++ "Done.") := by decide
  have hsteps : ¬ Breaks 2 "Run the tests." := by decide
  constructor
  · exact ⟨hrun, h⟩
  · exact hsummary
  all_goals simp [emptyReport]
  exact hsteps

theorem generated_headings_plain : ∃ bundle,
    (textGenerator (document (emptyReport "Fix it") "report-1" 0)).generate
      (emptyReport "Fix it") "report-1" 0 = .ok bundle ∧
        headings 2 bundle.markdown = fixedHeadings 2 bundle.report := by
  obtain ⟨bundle, h⟩ := generate_emptyReport "Fix it"
  exact ⟨bundle, h, (generated_headings h 2).mpr (inert_emptyReport (by decide))⟩

/-- An objective of two lines forges the heading of the evidence ledger. -/
theorem objective_forges_heading : ∃ bundle,
    (textGenerator (document (emptyReport "Fix it\n## Evidence ledger") "report-1" 0)).generate
      (emptyReport "Fix it\n## Evidence ledger") "report-1" 0 = .ok bundle ∧
        headings 2 bundle.markdown ≠ fixedHeadings 2 bundle.report := by
  obtain ⟨bundle, h⟩ := generate_emptyReport "Fix it\n## Evidence ledger"
  have hbreaks : Breaks 2 "Fix it\n## Evidence ledger" := by decide
  obtain ⟨hreport, hmarkdown⟩ := generate_markdown h
  refine ⟨bundle, h, ?_⟩
  rw [hmarkdown, hreport, ne_eq, markdown_headings]
  intro hinert
  exact hinert.run.2 hbreaks

end DurableAgent.Reporting
