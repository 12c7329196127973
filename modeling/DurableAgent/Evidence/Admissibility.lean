import DurableAgent.Evidence.Standing

/-!
# What a claim may rest on

The documented contract of a claim kind speaks of the types of the evidence. `verify_claim` looks
at the statuses alone, so what a stored claim rests on is what its caller has chosen.
-/

namespace DurableAgent.Evidence

open Library Library.Prog EvidenceTables

/-- A test-supported claim cites the result of a test or of a command, and a verified fact cites
primary evidence only. -/
def Admissible (claim : Claim) (s : EvidenceTables) : Prop :=
  (claim.kind = .TEST_SUPPORTED → ∃ record ∈ s.evidence.rows,
    record.evidenceId ∈ claim.evidenceIds ∧
    (record.evidenceType = .TEST_RESULT ∨ record.evidenceType = .COMMAND_RESULT)) ∧
  (claim.kind = .VERIFIED_FACT → ∀ record ∈ s.evidence.rows,
    record.evidenceId ∈ claim.evidenceIds → record.evidenceType.primary = true)

/-- Among the evidence of its run the claim cites no result that it calls itself supported by, or
cites a statement of the user, of the agent or of the database for a fact. -/
def Laundered (claim : Claim) (s : EvidenceTables) : Prop :=
  (claim.kind = .TEST_SUPPORTED ∧ ∀ record ∈ s.getEvidence claim.runId,
    record.evidenceId ∈ claim.evidenceIds →
    record.evidenceType ≠ .TEST_RESULT ∧ record.evidenceType ≠ .COMMAND_RESULT) ∨
  (claim.kind = .VERIFIED_FACT ∧ ∃ record ∈ s.getEvidence claim.runId,
    record.evidenceId ∈ claim.evidenceIds ∧ (record.evidenceType = .USER_FACT ∨
    record.evidenceType = .AGENT_INFERENCE ∨ record.evidenceType = .DATABASE_RECORD))

variable {claim : Claim} {s s' : EvidenceTables}

theorem not_primary {evidenceType : EvidenceType} : evidenceType.primary ≠ true ↔
    evidenceType = .USER_FACT ∨ evidenceType = .AGENT_INFERENCE ∨
      evidenceType = .DATABASE_RECORD := by
  cases evidenceType <;> simp [EvidenceType.primary]

/-- The evidence that a supported claim cites is the same in tables that have grown. -/
theorem Supported.cited (h : Supported claim (byId (s.getEvidence claim.runId)))
    (hs : Extends s s') (record : EvidenceRecord) :
    record ∈ s'.evidence.rows ∧ record.evidenceId ∈ claim.evidenceIds ↔
      record ∈ s.getEvidence claim.runId ∧ record.evidenceId ∈ claim.evidenceIds := by
  constructor
  · rintro ⟨hrow, hid⟩
    obtain ⟨found, hfound, hrun, -⟩ := h record.evidenceId hid
    obtain ⟨hfoundRow, -, hkey⟩ := byId_getEvidence.mp hfound
    obtain rfl := s'.evidence.row_unique (hs.evidence found hfoundRow) hrow hkey
    refine ⟨?_, hid⟩
    rw [getEvidence, List.mem_insertionSort, List.mem_filter, decide_eq_true_eq]
    exact ⟨hfoundRow, hrun⟩
  · rintro ⟨hread, hid⟩
    rw [getEvidence, List.mem_insertionSort, List.mem_filter] at hread
    exact ⟨hs.evidence record hread.1, hid⟩

theorem Supported.admissible_iff (h : Supported claim (byId (s.getEvidence claim.runId)))
    (hs : Extends s s') : Admissible claim s' ↔ ¬ Laundered claim s := by
  have hcited := h.cited hs
  unfold Admissible Laundered
  rw [not_or]
  refine and_congr ?_ ?_
  · rw [not_and]
    refine imp_congr_right fun _ => ?_
    push Not
    constructor
    · rintro ⟨record, hrow, hid, htype⟩
      refine ⟨record, ((hcited record).mp ⟨hrow, hid⟩).1, hid, fun htest => ?_⟩
      exact htype.resolve_left htest
    · rintro ⟨record, hread, hid, htype⟩
      refine ⟨record, ((hcited record).mpr ⟨hread, hid⟩).1, hid, ?_⟩
      by_cases htest : record.evidenceType = .TEST_RESULT
      · exact .inl htest
      · exact .inr (htype htest)
  · rw [not_and]
    refine imp_congr_right fun _ => ?_
    constructor
    · rintro hall ⟨record, hread, hid, htype⟩
      exact not_primary.mpr htype (hall record ((hcited record).mpr ⟨hread, hid⟩).1 hid)
    · intro hnone record hrow hid
      by_contra hprimary
      exact hnone ⟨record, ((hcited record).mp ⟨hrow, hid⟩).1, hid, not_primary.mp hprimary⟩

section Runs

variable {ι : Type} [DecidableEq ι]

/-- In every run of any calls of the ledger and of the store: a claim that the ledger stores is
admissible from then on unless it was laundered when it was stored, and only then. -/
theorem claims_admissible_iff (sha256Digest : String → String) (calls : ι → LedgerCall)
    (s₀ : EvidenceTables) {S : Session EvidenceOp Exn LedgerAnswer EvidenceTables ι}
    (hrun : SessionRuns handle.exec.withFaults (callers sha256Digest calls s₀) S) {i : ι}
    {request : ClaimRequest} (hi : calls i = .claim request) {claim : Claim}
    {k : Except Exn Unit → EvidenceProg LedgerAnswer}
    (hcall : S.callers i = .call (.addClaim claim) k) {s : EvidenceTables}
    (hstored : handle.exec _ (.addClaim claim) S.shared (.ok ()) s) :
    (∀ S', SessionRuns handle.exec.withFaults
        ⟨Function.update S.callers i (k (.ok ())), s⟩ S' → Admissible claim S'.shared) ↔
      ¬ Laundered claim S.shared := by
  have hcaller := callers_meet hrun i
  rw [hi, hcall] at hcaller
  have hsupported : Supported claim (byId (S.shared.getEvidence claim.runId)) :=
    hcaller.pre trivial
  have hgrown : Extends S.shared s := handle_extends (.inl hstored)
  constructor
  · intro hall
    exact (hsupported.admissible_iff hgrown).mp (hall _ .refl)
  · intro hclean S' hrun'
    exact (hsupported.admissible_iff (hgrown.trans (runs_extends hrun'))).mpr hclean

end Runs

/-- A record of what the agent has inferred, marked as verified. -/
def inferredRecord : EvidenceRecord where
  evidenceId := "EVID-1"
  runId := "r"
  evidenceType := .AGENT_INFERENCE
  source := "agent"
  excerpt := ""
  verificationStatus := .VERIFIED
  createdAt := 0
  valid := by decide +kernel

/-- A run that is created, an inference that is recorded for it, and a claim that rests on it. -/
def inferredClaim (kind : ClaimKind) : Nat → LedgerCall
  | 0 => .createRun "r"
  | 1 => .addEvidence inferredRecord
  | _ => .claim { runId := "r", text := "t", kind := kind, evidenceIds := ["EVID-1"] }

def restingClaim (kind : ClaimKind) : Claim where
  claimId := "CLAIM-2"
  runId := "r"
  text := "t"
  kind := kind
  evidenceIds := ["EVID-1"]
  valid := by cases kind <;> decide

def inferredRun (kind : ClaimKind) (turns : Nat) :
    Session EvidenceOp Exn LedgerAnswer EvidenceTables Nat :=
  (callers zeroDigest (inferredClaim kind) noEvidence).play handle
    (List.take turns [(0, {}), (1, {}), (2, { freshId := "2" }), (2, {}), (2, {})])

/-- An inference of the agent is stored as a verified fact, and as supported by a test. -/
theorem ledger_stores_inference :
    (∃ S, SessionRuns handle.exec.withFaults
        (callers zeroDigest (inferredClaim .VERIFIED_FACT) noEvidence) S ∧
      S.callers 2 = .done (.ok (.claim (restingClaim .VERIFIED_FACT))) ∧
      (restingClaim .VERIFIED_FACT).row ∈ S.shared.claims.rows ∧
      ¬ Admissible (restingClaim .VERIFIED_FACT) S.shared) ∧
    ∃ S, SessionRuns handle.exec.withFaults
        (callers zeroDigest (inferredClaim .TEST_SUPPORTED) noEvidence) S ∧
      S.callers 2 = .done (.ok (.claim (restingClaim .TEST_SUPPORTED))) ∧
      (restingClaim .TEST_SUPPORTED).row ∈ S.shared.claims.rows ∧
      ¬ Admissible (restingClaim .TEST_SUPPORTED) S.shared := by
  constructor
  · refine ⟨inferredRun .VERIFIED_FACT 5, (Session.play_guarded handle (fun _ _ _ => True) _ _
      (by decide +kernel)).mono fun _ _ _ _ _ hop => .inl hop.2, rfl, by decide +kernel, ?_⟩
    rintro ⟨-, hprimary⟩
    exact absurd (hprimary rfl inferredRecord (by decide +kernel) (by decide)) (by decide)
  · refine ⟨inferredRun .TEST_SUPPORTED 5, (Session.play_guarded handle (fun _ _ _ => True) _ _
      (by decide +kernel)).mono fun _ _ _ _ _ hop => .inl hop.2, rfl, by decide +kernel, ?_⟩
    rintro ⟨htested, -⟩
    obtain ⟨record, hrow, -, htype⟩ := htested rfl
    have honly : (inferredRun .TEST_SUPPORTED 5).shared.evidence.rows = [inferredRecord] := by
      decide +kernel
    rw [honly, List.mem_singleton] at hrow
    rw [hrow] at htype
    exact absurd htype (by decide)

/-- The same call for a limitation, which may rest on an inference. -/
theorem claims_admissible_iff_limitation : Admissible (restingClaim .LIMITATION)
    (inferredRun .LIMITATION 5).shared := by
  have hrun : SessionRuns handle.exec.withFaults
      (callers zeroDigest (inferredClaim .LIMITATION) noEvidence) (inferredRun .LIMITATION 4) :=
    (Session.play_guarded handle (fun _ _ _ => True) _ _ (by decide +kernel)).mono
      fun _ _ _ _ _ hop => .inl hop.2
  refine (@claims_admissible_iff _ _ zeroDigest _ noEvidence _ hrun 2 _ rfl
    (restingClaim .LIMITATION) _ rfl _ ⟨{}, rfl⟩).mpr ?_ _ .refl
  rintro (⟨hkind, -⟩ | ⟨hkind, -⟩)
  · cases hkind
  · cases hkind

end DurableAgent.Evidence
