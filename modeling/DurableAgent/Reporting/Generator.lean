import Mathlib.Data.List.Infix
import DurableAgent.Domain.StateMachine
import DurableAgent.Evidence.Ledger

/-!
# The report generator

The rendering of a report as Markdown, and the checks around it. The dump of a document, its JSON
text and the digest are given from outside.
-/

namespace DurableAgent.Reporting

open Evidence

/-! ## Documents -/

structure VerificationEntry where
  command : String
  exitCode : Option Int
  outcome : String
  evidenceIds : List String

/-- A plan with the descriptive fields that a report shows. -/
structure ReportPlan extends PlanSpec where
  scope : List String
  assumptions : List String := []

/-- Explicit inputs for every required report section. -/
structure ReportInput where
  run : RunRecord
  plan : ReportPlan
  tasks : List TaskRecord
  evidence : List EvidenceRecord
  claims : List Claim
  executiveSummary : String
  changedArtifacts : List String := []
  researchFindings : List String := []
  verificationPerformed : List VerificationEntry := []
  testResults : List String := []
  conflicts : List EvidenceConflict := []
  failuresAndRecoveries : List String := []
  remainingRisks : List String := []
  limitations : List String := []
  recommendedNextActions : List String := []
  reproductionInstructions : List String
  isPartial : Bool := false
  reproducible : reproductionInstructions ≠ [] := by decide

structure ReportDocument where
  reportId : String
  runId : String
  isPartial : Bool
  executiveSummary : String
  originalObjective : String
  scope : List String
  assumptions : List String
  planSummary : List String
  workCompleted : List String
  changedArtifacts : List String
  researchFindings : List String
  verificationPerformed : List VerificationEntry
  testResults : List String
  claims : List Claim
  evidence : List EvidenceRecord
  conflicts : List EvidenceConflict
  failuresAndRecoveries : List String
  remainingRisks : List String
  limitations : List String
  recommendedNextActions : List String
  reproductionInstructions : List String
  createdAt : Timestamp

structure ReportBundle where
  report : ReportDocument
  markdown : String
  jsonText : String
  markdownHash : String
  jsonHash : String

/-! ## Rendering -/

/-- `f"[{item}]"` of every item, separated by blanks -/
def citations (items : List String) : String :=
  " ".intercalate (items.map fun item => s!"[{item}]")

/-- `_section` -/
def sectionLines (title : String) (values : List String) (ordered : Bool) : List String :=
  ["", s!"## {title}", ""] ++
    if values = [] then ["- None recorded."]
    else values.mapIdx fun index value =>
      (if ordered then s!"{index + 1}." else "-") ++ s!" {value}"

def verificationLine (entry : VerificationEntry) : String :=
  let exitCode := match entry.exitCode with
    | some code => toString code
    | none => "None"
  s!"`{entry.command}`: {entry.outcome} (exit {exitCode}) " ++ citations entry.evidenceIds

def claimLine (claim : Claim) : String :=
  s!"**{claim.kind.value}** — {claim.text} " ++ citations claim.evidenceIds

def conflictLine (conflict : EvidenceConflict) : String :=
  s!"{conflict.description} " ++ citations conflict.evidenceIds

/-- `f" at {evidence.source_location}" if evidence.source_location else ""` -/
def location (evidence : EvidenceRecord) : String :=
  match evidence.sourceLocation with
  | some place => if place = "" then "" else s!" at {place}"
  | none => ""

def evidenceLine (evidence : EvidenceRecord) : String :=
  let hash := evidence.contentHash.getD "not-applicable"
  s!"- **{evidence.evidenceId}** — {evidence.evidenceType.value}: " ++
    s!"{evidence.source}{location evidence}; {evidence.verificationStatus.value}; " ++
    s!"hash `{hash}`"

def reportTitle (report : ReportDocument) : String :=
  (if report.isPartial then "# Partial report: " else "# Final report: ") ++ report.runId

/-- The list that `_markdown` joins. -/
def reportLines (report : ReportDocument) : List String :=
  [reportTitle report, "", "## Executive summary", "", report.executiveSummary] ++
    sectionLines "Original objective" [report.originalObjective] false ++
    sectionLines "Scope" report.scope false ++
    sectionLines "Assumptions" report.assumptions false ++
    sectionLines "Plan summary" report.planSummary false ++
    sectionLines "Work completed" report.workCompleted false ++
    sectionLines "Files or artifacts changed" report.changedArtifacts false ++
    sectionLines "Research findings" report.researchFindings false ++
    sectionLines "Verification performed" (report.verificationPerformed.map verificationLine)
      false ++
    sectionLines "Test results" report.testResults false ++
    sectionLines "Claim-to-evidence mapping" (report.claims.map claimLine) false ++
    sectionLines "Conflicting evidence" (report.conflicts.map conflictLine) false ++
    sectionLines "Failures and recoveries" report.failuresAndRecoveries false ++
    sectionLines "Remaining risks" report.remainingRisks false ++
    sectionLines "Limitations" report.limitations false ++
    sectionLines "Recommended next actions" report.recommendedNextActions false ++
    sectionLines "Reproduction instructions" report.reproductionInstructions true ++
    ["", "## Evidence ledger", ""] ++ report.evidence.map evidenceLine ++
    ["", s!"Generated: {report.createdAt.isoformat}", ""]

/-- `_markdown` -/
def markdown (report : ReportDocument) : String := "\n".intercalate (reportLines report)

/-! ## Generation -/

def planLine (task : TaskSpec) : String :=
  let dependencies := ", ".intercalate task.dependencies
  let named := if dependencies = "" then "nothing" else dependencies
  s!"{task.taskId}: {task.title} (depends on {named})"

def workLine (task : TaskRecord) : String :=
  s!"{task.spec.title}: {task.state.value} after {task.attemptCount} attempt(s)"

/-- The document of the given inputs. -/
def document (data : ReportInput) (reportId : String) (now : Timestamp) : ReportDocument where
  reportId := reportId
  runId := data.run.runId
  isPartial := data.isPartial
  executiveSummary := data.executiveSummary
  originalObjective := data.run.objective
  scope := data.plan.scope
  assumptions := data.plan.assumptions
  planSummary := data.plan.tasks.map planLine
  workCompleted := data.tasks.map workLine
  changedArtifacts := data.changedArtifacts
  researchFindings := data.researchFindings
  verificationPerformed := data.verificationPerformed
  testResults := data.testResults
  claims := data.claims
  evidence := data.evidence
  conflicts := data.conflicts
  failuresAndRecoveries := data.failuresAndRecoveries
  remainingRisks := data.remainingRisks
  limitations := data.limitations
  recommendedNextActions := data.recommendedNextActions
  reproductionInstructions := data.reproductionInstructions
  createdAt := now

/-- What a generator is given from outside. -/
structure ReportGenerator where
  sha256Digest : String → String
  modelDump : ReportDocument → Json
  dumps : Json → String
  loads : String → Except Exn Json

/-- `value[key]` -/
def member (value : Json) (key : String) : Except Exn Json :=
  match value with
  | .obj fields =>
    match fields.find? fun field => field.1 = key with
    | some field => .ok field.2
    | none => .error (.other s!"KeyError: {key}")
  | _ => .error (.other "TypeError")

/-- Some citation is missing from the text. -/
def uncited (text : String) (evidenceIds : List String) : Option String :=
  evidenceIds.find? fun evidenceId => ¬ s!"[{evidenceId}]".toList <:+: text.toList

abbrev invalidReport (message : String) : Exn := .of .domainValidation message

/-- The checks of one claim of a bundle. -/
def verifyCited (bundle : ReportBundle) (claim : Claim) : Except Exn Unit := do
  verifyClaim claim (byId bundle.report.evidence)
  match uncited bundle.markdown claim.evidenceIds with
  | some evidenceId => .error (invalidReport s!"Markdown is missing citation [{evidenceId}]")
  | none => .ok ()

/-- The checks of one conflict of a bundle. -/
def verifyConflict (bundle : ReportBundle) (conflict : EvidenceConflict) : Except Exn Unit :=
  let missing := conflict.evidenceIds.filter fun evidenceId =>
    (byId bundle.report.evidence evidenceId).isNone
  if conflict.runId ≠ bundle.report.runId then
    .error (invalidReport "conflict belongs to another run")
  else if missing ≠ [] then
    .error (invalidReport
      s!"conflict references missing evidence: {listText (missing.dedup.insertionSort (· ≤ ·))}")
  else
    match uncited bundle.markdown conflict.evidenceIds with
    | some evidenceId =>
      .error (invalidReport s!"Markdown is missing conflict citation [{evidenceId}]")
    | none => .ok ()

namespace ReportGenerator

variable (G : ReportGenerator)

/-- `ReportGenerator.verify` -/
def verify (bundle : ReportBundle) : Except Exn Unit := do
  if G.sha256Digest bundle.markdown ≠ bundle.markdownHash then
    .error (invalidReport "Markdown report hash mismatch")
  else if G.sha256Digest bundle.jsonText ≠ bundle.jsonHash then
    .error (invalidReport "JSON report hash mismatch")
  else
    let parsed ← G.loads bundle.jsonText
    let reportId ← member parsed "report_id"
    if reportId.canonical ≠ (Json.str bundle.report.reportId).canonical then
      .error (invalidReport "JSON report identity mismatch")
    else if parsed.canonical ≠ (G.modelDump bundle.report).canonical then
      .error (invalidReport "JSON report content does not match report document")
    else
      bundle.report.claims.forM (verifyCited bundle)
      bundle.report.conflicts.forM (verifyConflict bundle)

/-- `ReportGenerator.generate` -/
def generate (data : ReportInput) (reportId : String) (now : Timestamp) :
    Except Exn ReportBundle := do
  data.claims.forM fun claim => verifyClaim claim (byId data.evidence)
  let report := document data reportId now
  let text := markdown report
  let jsonText := G.dumps (G.modelDump report) ++ "\n"
  let bundle : ReportBundle :=
    ⟨report, text, jsonText, G.sha256Digest text, G.sha256Digest jsonText⟩
  G.verify bundle
  pure bundle

end ReportGenerator

end DurableAgent.Reporting
