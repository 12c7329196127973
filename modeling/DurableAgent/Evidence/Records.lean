import Mathlib.Algebra.Order.Field.Rat
import DurableAgent.Domain.Base
import DurableAgent.Domain.Errors

/-!
# Evidence and claims

The immutable evidence and claim schemas, with the checks that run whenever one is built.
-/

namespace DurableAgent.Evidence

inductive EvidenceType where
  | REPOSITORY_FILE | REPOSITORY_SNAPSHOT | TEST_RESULT | COMMAND_RESULT | ARTIFACT
  | DATABASE_RECORD | EXTERNAL_SOURCE | USER_FACT | AGENT_INFERENCE
  deriving DecidableEq, Repr

inductive VerificationStatus where
  | UNVERIFIED | VERIFIED | CONFLICTING | INVALID
  deriving DecidableEq, Repr

inductive ClaimKind where
  | VERIFIED_FACT | TEST_SUPPORTED | INFERENCE | ASSUMPTION | UNRESOLVED | LIMITATION
  deriving DecidableEq, Repr

def EvidenceType.value : EvidenceType → String
  | .REPOSITORY_FILE => "REPOSITORY_FILE"
  | .REPOSITORY_SNAPSHOT => "REPOSITORY_SNAPSHOT"
  | .TEST_RESULT => "TEST_RESULT"
  | .COMMAND_RESULT => "COMMAND_RESULT"
  | .ARTIFACT => "ARTIFACT"
  | .DATABASE_RECORD => "DATABASE_RECORD"
  | .EXTERNAL_SOURCE => "EXTERNAL_SOURCE"
  | .USER_FACT => "USER_FACT"
  | .AGENT_INFERENCE => "AGENT_INFERENCE"

def VerificationStatus.value : VerificationStatus → String
  | .UNVERIFIED => "UNVERIFIED"
  | .VERIFIED => "VERIFIED"
  | .CONFLICTING => "CONFLICTING"
  | .INVALID => "INVALID"

def ClaimKind.value : ClaimKind → String
  | .VERIFIED_FACT => "VERIFIED_FACT"
  | .TEST_SUPPORTED => "TEST_SUPPORTED"
  | .INFERENCE => "INFERENCE"
  | .ASSUMPTION => "ASSUMPTION"
  | .UNRESOLVED => "UNRESOLVED"
  | .LIMITATION => "LIMITATION"

/-- The types of `primary_evidence_has_hash` -/
def EvidenceType.primary : EvidenceType → Bool
  | .REPOSITORY_FILE | .REPOSITORY_SNAPSHOT | .TEST_RESULT | .COMMAND_RESULT | .ARTIFACT
  | .EXTERNAL_SOURCE => true
  | .DATABASE_RECORD | .USER_FACT | .AGENT_INFERENCE => false

/-! ## Identifiers -/

/-- `[A-Za-z0-9_-]` -/
def idChar (c : Char) : Bool := c.isAlphanum || c = '_' || c = '-'

/-- A fixed beginning, then one or more of the characters of identifiers. -/
def hasIdForm (start id : String) : Bool :=
  let rest := id.toList.drop start.length
  start.toList.isPrefixOf id.toList && ! rest.isEmpty && rest.all idChar

/-- `^[0-9a-f]{64}$` -/
def isHash (text : String) : Bool :=
  text.length = 64 && text.toList.all fun c => c.isDigit || ('a' ≤ c && c ≤ 'f')

/-- `text.split('-')[-1]` -/
def lastSegment (text : String) : String :=
  String.ofList ((text.toList.splitOn '-').getLastD [])

/-! ## Evidence -/

/-- A scalar of the metadata. -/
inductive MetadataValue where
  | null | bool (b : Bool) | int (n : Int) | float (x : ℚ) | str (s : String)
  deriving DecidableEq

/-- What an evidence record is built from. -/
structure EvidenceFields where
  evidenceId : String
  runId : String
  evidenceType : EvidenceType
  source : String
  sourceLocation : Option String := none
  contentHash : Option String := none
  snapshotId : Option String := none
  relatedTaskId : Option String := none
  reliability : ℚ := 1 / 2
  excerpt : String
  verificationStatus : VerificationStatus := .UNVERIFIED
  metadata : List (String × MetadataValue) := []
  createdAt : Timestamp
  deriving DecidableEq

/-- The checks of the fields, and `primary_evidence_has_hash`. -/
structure EvidenceFields.Valid (fields : EvidenceFields) : Prop where
  evidence_id : hasIdForm "EVID-" fields.evidenceId = true
  content_hash : ∀ hash ∈ fields.contentHash, isHash hash = true
  reliability : 0 ≤ fields.reliability ∧ fields.reliability ≤ 1
  excerpt : fields.excerpt.length ≤ 4000
  primary_evidence_has_hash : fields.evidenceType.primary = true → fields.contentHash ≠ none

instance (fields : EvidenceFields) : Decidable fields.Valid :=
  decidable_of_iff (hasIdForm "EVID-" fields.evidenceId = true ∧
      (∀ hash ∈ fields.contentHash, isHash hash = true) ∧
      (0 ≤ fields.reliability ∧ fields.reliability ≤ 1) ∧ fields.excerpt.length ≤ 4000 ∧
      (fields.evidenceType.primary = true → fields.contentHash ≠ none))
    ⟨fun ⟨h₁, h₂, h₃, h₄, h₅⟩ => ⟨h₁, h₂, h₃, h₄, h₅⟩,
      fun ⟨h₁, h₂, h₃, h₄, h₅⟩ => ⟨h₁, h₂, h₃, h₄, h₅⟩⟩

/-- One primary or explicitly inferred unit of support. -/
structure EvidenceRecord extends EvidenceFields where
  valid : toEvidenceFields.Valid
  deriving DecidableEq

/-- The exception of a model whose fields do not pass their checks. -/
abbrev validationError (model : String) : Exn := .other s!"ValidationError: {model}"

def EvidenceFields.validated (fields : EvidenceFields) : Except Exn EvidenceRecord :=
  if h : fields.Valid then .ok ⟨fields, h⟩ else .error (validationError "EvidenceRecord")

/-! ## Claims -/

structure ClaimFields where
  claimId : String
  runId : String
  text : String
  kind : ClaimKind
  evidenceIds : List String
  relatedTaskId : Option String := none
  deriving DecidableEq

/-- The checks of the fields, and `evidence_required_for_supported_kinds`. -/
structure ClaimFields.Valid (fields : ClaimFields) : Prop where
  claim_id : hasIdForm "CLAIM-" fields.claimId = true
  text : 1 ≤ fields.text.length ∧ fields.text.length ≤ 10000
  evidence_ids : fields.evidenceIds ≠ []
  unique : fields.evidenceIds.Nodup

instance (fields : ClaimFields) : Decidable fields.Valid :=
  decidable_of_iff (hasIdForm "CLAIM-" fields.claimId = true ∧
      (1 ≤ fields.text.length ∧ fields.text.length ≤ 10000) ∧ fields.evidenceIds ≠ [] ∧
      fields.evidenceIds.Nodup)
    ⟨fun ⟨h₁, h₂, h₃, h₄⟩ => ⟨h₁, h₂, h₃, h₄⟩, fun ⟨h₁, h₂, h₃, h₄⟩ => ⟨h₁, h₂, h₃, h₄⟩⟩

/-- Report claim with explicit epistemic status and evidence links. -/
structure Claim extends ClaimFields where
  valid : toClaimFields.Valid
  deriving DecidableEq

def ClaimFields.validated (fields : ClaimFields) : Except Exn Claim :=
  if h : fields.Valid then .ok ⟨fields, h⟩ else .error (validationError "Claim")

/-- Two or more records supporting incompatible assertions. -/
structure EvidenceConflict where
  conflictId : String
  runId : String
  description : String
  evidenceIds : List String
  resolved : Bool := false
  resolution : Option String := none
  two_records : 2 ≤ evidenceIds.length := by decide
  deriving DecidableEq

theorem EvidenceFields.validated_eq_ok {fields : EvidenceFields} {record : EvidenceRecord} :
    fields.validated = .ok record ↔ record.toEvidenceFields = fields := by
  unfold EvidenceFields.validated
  constructor
  · intro h
    split at h
    · rw [← Except.ok.inj h]
    · cases h
  · rintro rfl
    rw [dif_pos record.valid]

theorem ClaimFields.validated_eq_ok {fields : ClaimFields} {claim : Claim} :
    fields.validated = .ok claim ↔ claim.toClaimFields = fields := by
  unfold ClaimFields.validated
  constructor
  · intro h
    split at h
    · rw [← Except.ok.inj h]
    · cases h
  · rintro rfl
    rw [dif_pos claim.valid]

end DurableAgent.Evidence
