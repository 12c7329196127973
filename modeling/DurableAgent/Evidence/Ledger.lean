import DurableAgent.Library.Session
import DurableAgent.Library.Table
import DurableAgent.Domain.Plan
import DurableAgent.Evidence.Records

/-!
# The evidence ledger

The evidence and claim calls of the SQL store, each one transaction, and `EvidenceLedger` as
programs over them. The digest is given from outside.
-/

namespace DurableAgent.Evidence

open Library Library.Prog

/-! ## The tables -/

/-- A row of the table `claims`. -/
structure ClaimRow where
  claimId : String
  runId : String
  text : String
  kind : ClaimKind
  relatedTaskId : Option String
  deriving DecidableEq

/-- The tables `evidence`, `claims` and `claim_evidence_links`, and the keys of `runs` that they
refer to. -/
structure EvidenceTables where
  runIds : List String
  evidence : Table fun record : EvidenceRecord => record.evidenceId
  claims : Table ClaimRow.claimId
  links : Table fun link : String × String => link
  /-- The foreign key of a link. -/
  linked : ∀ link ∈ links.rows, ∃ row ∈ claims.rows, row.claimId = link.1

def Claim.row (claim : Claim) : ClaimRow where
  claimId := claim.claimId
  runId := claim.runId
  text := claim.text
  kind := claim.kind
  relatedTaskId := claim.relatedTaskId

/-- The evidence of a claim as its links. -/
def Claim.links (claim : Claim) : List (String × String) :=
  claim.evidenceIds.map fun evidenceId => (claim.claimId, evidenceId)

namespace EvidenceTables

/-- `SqlStore.add_evidence` -/
def addEvidence (record : EvidenceRecord) (s : EvidenceTables) : Except Exn EvidenceTables :=
  match s.evidence.find record.evidenceId with
  | some existing =>
    if existing ≠ record then
      .error (.of .idempotencyConflict "evidence ID already stores different data")
    else .ok s
  | none =>
    if record.runId ∉ s.runIds then .error (.of .database "failed to add evidence")
    else
      match s.evidence.insert record with
      | some evidence => .ok { s with evidence := evidence }
      | none => .error (.of .database "failed to add evidence")

/-- `SqlStore.get_evidence` -/
def getEvidence (runId : String) (s : EvidenceTables) : List EvidenceRecord :=
  (s.evidence.rows.filter fun record => record.runId = runId).insertionSort
    fun a b => a.evidenceId ≤ b.evidenceId

/-- The claim and its links are inserted in one transaction. -/
def insertClaim (claim : Claim) (s : EvidenceTables) : Except Exn EvidenceTables :=
  match hclaims : s.claims.insert claim.row, hlinks : s.links.insertAll claim.links with
  | some claims, some links => .ok { s with
      claims := claims
      links := links
      linked := by
        intro link hlink
        rw [Table.insert_rows hclaims]
        rcases (Table.mem_insertAll hlinks link).mp hlink with hnew | hold
        · obtain ⟨evidenceId, -, rfl⟩ := List.mem_map.mp hnew
          exact ⟨claim.row, List.mem_cons_self, rfl⟩
        · obtain ⟨row, hrow, hid⟩ := s.linked link hold
          exact ⟨row, List.mem_cons_of_mem _ hrow, hid⟩ }
  | _, _ => .error (.of .database "failed to add claim")

/-- `SqlStore.add_claim` -/
def addClaim (claim : Claim) (s : EvidenceTables) : Except Exn EvidenceTables :=
  let evidence := s.evidence.rows.filter fun record => record.evidenceId ∈ claim.evidenceIds
  if (s.claims.find claim.claimId).isSome then
    .error (.of .idempotencyConflict s!"claim already exists: {claim.claimId}")
  else if ¬ ∀ evidenceId ∈ claim.evidenceIds, ∃ record ∈ evidence, record.evidenceId = evidenceId
  then .error (invalidPlan "claim references missing evidence")
  else if ∃ record ∈ evidence, record.runId ≠ claim.runId then
    .error (invalidPlan "claim cannot reference evidence from another run")
  else if claim.runId ∉ s.runIds then .error (.of .database "failed to add claim")
  else s.insertClaim claim

/-- The evidence that is linked to a claim. -/
def linksOf (claimId : String) (s : EvidenceTables) : List String :=
  (s.links.rows.filter fun link => link.1 = claimId).map Prod.snd

/-- A claim as it is read back from its row and its links. -/
def readClaim (s : EvidenceTables) (row : ClaimRow) : Except Exn Claim :=
  ClaimFields.validated {
    claimId := row.claimId
    runId := row.runId
    text := row.text
    kind := row.kind
    evidenceIds := (s.linksOf row.claimId).insertionSort (· ≤ ·)
    relatedTaskId := row.relatedTaskId }

/-- `SqlStore.get_claims` -/
def getClaims (runId : String) (s : EvidenceTables) : Except Exn (List Claim) :=
  ((s.claims.rows.filter fun row => row.runId = runId).insertionSort
    fun a b => a.claimId ≤ b.claimId).mapM s.readClaim

end EvidenceTables

/-! ## Calls -/

inductive EvidenceOp : Type → Type where
  | newId (kind : String) : EvidenceOp String
  | now : EvidenceOp Timestamp
  | createRun (runId : String) : EvidenceOp Unit
  | addEvidence (record : EvidenceRecord) : EvidenceOp Unit
  | getEvidence (runId : String) : EvidenceOp (List EvidenceRecord)
  | addClaim (claim : Claim) : EvidenceOp Unit
  | getClaims (runId : String) : EvidenceOp (List Claim)

/-- What a call takes from outside. -/
structure Supply where
  freshId : String := ""
  now : Timestamp := 0

/-- The effect of a write that may be refused. -/
def commit (written : Except Exn EvidenceTables) (s : EvidenceTables) :
    Except Exn Unit × EvidenceTables :=
  match written with
  | .ok s' => (.ok (), s')
  | .error e => (.error e, s)

/-- The effect of each call on the tables. -/
def handle : Handler EvidenceOp Exn Supply EvidenceTables
  | _, .newId kind, t, s => (.ok s!"{kind}-{t.freshId}", s)
  | _, .now, t, s => (.ok t.now, s)
  | _, .createRun runId, _, s => (.ok (), { s with runIds := runId :: s.runIds })
  | _, .addEvidence record, _, s => commit (s.addEvidence record) s
  | _, .getEvidence runId, _, s => (.ok (s.getEvidence runId), s)
  | _, .addClaim claim, _, s => commit (s.addClaim claim) s
  | _, .getClaims runId, _, s => (s.getClaims runId, s)

abbrev EvidenceProg := Prog EvidenceOp Exn

/-! ## `EvidenceLedger` -/

/-- What a digest is taken of. -/
inductive Content where
  | text (content : String)
  | data (content : Json)

def Content.serialized : Content → String
  | .text content => content
  | .data content => canonicalJson content

/-- The arguments of `record` -/
structure RecordRequest where
  runId : String
  evidenceType : EvidenceType
  source : String
  excerpt : String
  content : Option Content := none
  sourceLocation : Option String := none
  snapshotId : Option String := none
  taskId : Option String := none
  reliability : ℚ := 1 / 2
  status : VerificationStatus := .UNVERIFIED
  metadata : List (String × MetadataValue) := []

/-- `EvidenceLedger.record` -/
def record (sha256Digest : String → String) (request : RecordRequest) :
    EvidenceProg EvidenceRecord := do
  let fresh ← perform (.newId "evidence")
  let now ← perform .now
  let record ← ofExcept (EvidenceFields.validated {
    evidenceId := s!"EVID-{lastSegment fresh}"
    runId := request.runId
    evidenceType := request.evidenceType
    source := request.source
    sourceLocation := request.sourceLocation
    contentHash := request.content.map fun content => sha256Digest content.serialized
    snapshotId := request.snapshotId
    relatedTaskId := request.taskId
    reliability := request.reliability
    excerpt := request.excerpt
    verificationStatus := request.status
    metadata := request.metadata
    createdAt := now })
  perform (.addEvidence record)
  pure record

/-- The arguments of `claim` -/
structure ClaimRequest where
  runId : String
  text : String
  kind : ClaimKind
  evidenceIds : List String := []
  taskId : Option String := none

/-- `{item.evidence_id: item for item in records}` -/
def byId (records : List EvidenceRecord) (evidenceId : String) : Option EvidenceRecord :=
  (records.filter fun record => record.evidenceId = evidenceId).getLast?

/-- `EvidenceLedger.verify_claim` -/
def verifyClaim (claim : Claim) (evidence : String → Option EvidenceRecord) : Except Exn Unit :=
  let missing := claim.evidenceIds.filter fun evidenceId => (evidence evidenceId).isNone
  let records := claim.evidenceIds.filterMap evidence
  if missing ≠ [] then
    .error (.of .domainValidation
      s!"claim references missing evidence: {listText (missing.insertionSort (· ≤ ·))}")
  else if ∃ record ∈ records, record.runId ≠ claim.runId then
    .error (.of .domainValidation "claim references evidence from another run")
  else if ∃ record ∈ records, record.verificationStatus = .INVALID then
    .error (.of .domainValidation "claim references invalid evidence")
  else if (claim.kind = .VERIFIED_FACT ∨ claim.kind = .TEST_SUPPORTED) ∧
      ∃ record ∈ records, record.verificationStatus ≠ .VERIFIED then
    .error (.of .domainValidation "supported claim requires verified, non-conflicting evidence")
  else .ok ()

/-- `EvidenceLedger.claim` -/
def claim (request : ClaimRequest) : EvidenceProg Claim := do
  let fresh ← perform (.newId "claim")
  let claim ← ofExcept (ClaimFields.validated {
    claimId := s!"CLAIM-{lastSegment fresh}"
    runId := request.runId
    text := request.text
    kind := request.kind
    evidenceIds := request.evidenceIds
    relatedTaskId := request.taskId })
  let evidence ← perform (.getEvidence request.runId)
  ofExcept (verifyClaim claim (byId evidence))
  perform (.addClaim claim)
  pure claim

/-- `EvidenceLedger.verify_run` -/
def verifyRun (runId : String) : EvidenceProg (List String) := do
  let evidence ← perform (.getEvidence runId)
  let claims ← perform (.getClaims runId)
  ofExcept (claims.forM fun claim => verifyClaim claim (byId evidence))
  pure [s!"verified {(evidence.map fun record => record.evidenceId).dedup.length} evidence records",
    s!"verified {claims.length} claim mappings"]

/-! ## Callers -/

/-- A call of the ledger, or of the store beneath it. -/
inductive LedgerCall where
  | record (request : RecordRequest)
  | claim (request : ClaimRequest)
  | verifyRun (runId : String)
  | createRun (runId : String)
  | addEvidence (record : EvidenceRecord)
  | getEvidence (runId : String)
  | addClaim (claim : Claim)
  | getClaims (runId : String)

inductive LedgerAnswer where
  | record (record : EvidenceRecord)
  | claim (claim : Claim)
  | messages (messages : List String)
  | records (records : List EvidenceRecord)
  | claims (claims : List Claim)
  | done
  deriving DecidableEq

def LedgerCall.program (sha256Digest : String → String) :
    LedgerCall → EvidenceProg LedgerAnswer
  | .record request => do return .record (← Evidence.record sha256Digest request)
  | .claim request => do return .claim (← Evidence.claim request)
  | .verifyRun runId => do return .messages (← Evidence.verifyRun runId)
  | .createRun runId => do perform (.createRun runId); return .done
  | .addEvidence stored => do perform (.addEvidence stored); return .done
  | .getEvidence runId => do return .records (← perform (.getEvidence runId))
  | .addClaim stored => do perform (.addClaim stored); return .done
  | .getClaims runId => do return .claims (← perform (.getClaims runId))

/-- Callers of any runs over the tables, at the start. -/
def callers {ι : Type} (sha256Digest : String → String) (calls : ι → LedgerCall)
    (s : EvidenceTables) : Session EvidenceOp Exn LedgerAnswer EvidenceTables ι :=
  ⟨fun i => (calls i).program sha256Digest, s⟩

end DurableAgent.Evidence
