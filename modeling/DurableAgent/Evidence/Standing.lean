import DurableAgent.Evidence.Ledger

/-!
# Claims that stand

Evidence is never rewritten, and a claim keeps its row and its links. What `verify_claim` asks of
the evidence at one moment it therefore finds at every later one, whatever the other callers add.
-/

namespace DurableAgent.Evidence

open Library Library.Prog EvidenceTables

/-! ## What `verify_claim` accepts -/

/-- The evidence of a claim is there, belongs to its run and has the status its kind demands. -/
def Supported (claim : Claim) (evidence : String → Option EvidenceRecord) : Prop :=
  ∀ evidenceId ∈ claim.evidenceIds, ∃ record, evidence evidenceId = some record ∧
    record.runId = claim.runId ∧ record.verificationStatus ≠ .INVALID ∧
    (claim.kind = .VERIFIED_FACT ∨ claim.kind = .TEST_SUPPORTED →
      record.verificationStatus = .VERIFIED)

theorem verifyClaim_eq_ok {claim : Claim} {evidence : String → Option EvidenceRecord} :
    verifyClaim claim evidence = .ok () ↔ Supported claim evidence := by
  unfold verifyClaim
  dsimp only
  constructor
  · intro h
    split at h
    · cases h
    · next hmissing =>
      split at h
      · cases h
      · next hforeign =>
        split at h
        · cases h
        · next hinvalid =>
          split at h
          · cases h
          · next hunverified =>
            rw [not_not, List.filter_eq_nil_iff] at hmissing
            intro evidenceId hid
            have hfound : (evidence evidenceId).isSome := by
              simpa [Option.isSome_iff_ne_none] using hmissing evidenceId hid
            obtain ⟨record, hrecord⟩ := Option.isSome_iff_exists.mp hfound
            have hmem : record ∈ claim.evidenceIds.filterMap evidence :=
              List.mem_filterMap.mpr ⟨evidenceId, hid, hrecord⟩
            refine ⟨record, hrecord, ?_, ?_, fun hkind => ?_⟩
            · by_contra hne
              exact hforeign ⟨record, hmem, hne⟩
            · exact fun heq => hinvalid ⟨record, hmem, heq⟩
            · by_contra hne
              exact hunverified ⟨hkind, record, hmem, hne⟩
  · intro h
    have hrecord : ∀ record ∈ claim.evidenceIds.filterMap evidence,
        record.runId = claim.runId ∧ record.verificationStatus ≠ .INVALID ∧
          (claim.kind = .VERIFIED_FACT ∨ claim.kind = .TEST_SUPPORTED →
            record.verificationStatus = .VERIFIED) := by
      intro record hmem
      obtain ⟨evidenceId, hid, hfound⟩ := List.mem_filterMap.mp hmem
      obtain ⟨found, hfound', hrest⟩ := h evidenceId hid
      obtain rfl := Option.some.inj (hfound.symm.trans hfound')
      exact hrest
    have hmissing : (claim.evidenceIds.filter fun evidenceId => (evidence evidenceId).isNone) =
        [] := by
      rw [List.filter_eq_nil_iff]
      intro evidenceId hid
      obtain ⟨record, hfound, -⟩ := h evidenceId hid
      simp [hfound]
    rw [if_neg (not_not.mpr hmissing), if_neg, if_neg, if_neg]
    · rintro ⟨hkind, record, hmem, hne⟩
      exact hne ((hrecord record hmem).2.2 hkind)
    · rintro ⟨record, hmem, heq⟩
      exact (hrecord record hmem).2.1 heq
    · rintro ⟨record, hmem, hne⟩
      exact hne (hrecord record hmem).1

/-! ## Tables that grow -/

/-- Nothing of the evidence or of a claim is lost or rewritten. -/
structure Extends (s s' : EvidenceTables) : Prop where
  evidence : ∀ record ∈ s.evidence.rows, record ∈ s'.evidence.rows
  claims : ∀ row ∈ s.claims.rows, row ∈ s'.claims.rows
  links : ∀ row ∈ s.claims.rows, s'.linksOf row.claimId = s.linksOf row.claimId

variable {s s' s'' : EvidenceTables} {claim : Claim}

theorem Extends.refl (s : EvidenceTables) : Extends s s :=
  ⟨fun _ h => h, fun _ h => h, fun _ _ => rfl⟩

theorem Extends.trans (h : Extends s s') (h' : Extends s' s'') : Extends s s'' where
  evidence record hrecord := h'.evidence record (h.evidence record hrecord)
  claims row hrow := h'.claims row (h.claims row hrow)
  links row hrow := (h'.links row (h.claims row hrow)).trans (h.links row hrow)

theorem extends_addEvidence {record : EvidenceRecord} (h : s.addEvidence record = .ok s') :
    Extends s s' ∧ record ∈ s'.evidence.rows := by
  unfold addEvidence at h
  split at h
  · next existing hexisting =>
    split at h
    · cases h
    · next hsame =>
      obtain rfl := Except.ok.inj h
      obtain rfl := not_not.mp hsame
      exact ⟨.refl s, (Table.find_eq_some.mp hexisting).1⟩
  · split at h
    · cases h
    · split at h
      · next evidence hinsert =>
        obtain rfl := Except.ok.inj h
        have hrows := Table.insert_rows hinsert
        refine ⟨⟨fun other hother => ?_, fun _ hrow => hrow, fun _ _ => rfl⟩, ?_⟩
        · change other ∈ evidence.rows
          rw [hrows]
          exact List.mem_cons_of_mem record hother
        · change record ∈ evidence.rows
          rw [hrows]
          exact List.mem_cons_self
      · cases h

/-- What an accepted claim has found, and what it leaves. -/
theorem addClaim_eq_ok (h : s.addClaim claim = .ok s') :
    (∀ row ∈ s.claims.rows, row.claimId ≠ claim.claimId) ∧ s'.evidence = s.evidence ∧
      s'.claims.rows = claim.row :: s.claims.rows ∧
      s'.links.rows = claim.links.reverse ++ s.links.rows := by
  unfold addClaim at h
  dsimp only at h
  split at h
  · cases h
  · next hfree =>
    have hfresh : ∀ row ∈ s.claims.rows, row.claimId ≠ claim.claimId := by
      intro row hrow hid
      exact hfree (Option.isSome_iff_exists.mpr ⟨row, Table.find_eq_some.mpr ⟨hrow, hid⟩⟩)
    split at h
    · cases h
    · split at h
      · cases h
      · split at h
        · cases h
        · unfold insertClaim at h
          split at h
          · next claims links hclaims hlinks =>
            obtain rfl := Except.ok.inj h
            exact ⟨hfresh, rfl, Table.insert_rows hclaims, Table.insertAll_rows hlinks⟩
          · cases h

/-- The links of each claim once another is stored. -/
theorem linksOf_of_append (h : s'.links.rows = claim.links.reverse ++ s.links.rows)
    (claimId : String) : s'.linksOf claimId =
      (if claimId = claim.claimId then claim.evidenceIds.reverse else []) ++
        s.linksOf claimId := by
  unfold linksOf
  rw [h, List.filter_append, List.map_append]
  congr 1
  unfold Claim.links
  split
  · next heq =>
    rw [List.filter_eq_self.mpr]
    · simp [Function.comp_def]
    · intro link hlink
      obtain ⟨evidenceId, -, rfl⟩ := List.mem_map.mp (List.mem_reverse.mp hlink)
      simp [heq]
  · next hne =>
    rw [List.filter_eq_nil_iff.mpr, List.map_nil]
    intro link hlink
    obtain ⟨evidenceId, -, rfl⟩ := List.mem_map.mp (List.mem_reverse.mp hlink)
    simpa using Ne.symm hne

theorem extends_addClaim (h : s.addClaim claim = .ok s') : Extends s s' := by
  obtain ⟨hfresh, hevidence, hclaims, hlinks⟩ := addClaim_eq_ok h
  refine ⟨fun record hrecord => ?_, fun row hrow => ?_, fun row hrow => ?_⟩
  · rw [hevidence]
    exact hrecord
  · rw [hclaims]
    exact List.mem_cons_of_mem _ hrow
  · rw [linksOf_of_append hlinks, if_neg (hfresh row hrow), List.nil_append]

/-- No call shrinks the tables. -/
theorem handle_extends {β : Type} {op : EvidenceOp β} {x : Except Exn β}
    (h : handle.exec.withFaults β op s x s') : Extends s s' := by
  rcases h with ⟨t, h⟩ | ⟨e, -, rfl⟩
  · have hcommit : ∀ written : Except Exn EvidenceTables,
        (∀ s₁, written = .ok s₁ → Extends s s₁) → Extends s (commit written s).2 := by
      intro written hwritten
      cases written with
      | ok s₁ => exact hwritten s₁ rfl
      | error e => exact .refl s
    obtain rfl : (handle β op t s).2 = s' := congrArg Prod.snd h
    cases op with
    | newId kind => exact .refl s
    | now => exact .refl s
    | createRun runId => exact ⟨fun _ h => h, fun _ h => h, fun _ _ => rfl⟩
    | addEvidence record => exact hcommit _ fun s₁ hs₁ => (extends_addEvidence hs₁).1
    | getEvidence runId => exact .refl s
    | addClaim claim => exact hcommit _ fun s₁ hs₁ => extends_addClaim hs₁
    | getClaims runId => exact .refl s
  · exact .refl _

/-! ## Lookups -/

theorem byId_getEvidence {runId evidenceId : String} {record : EvidenceRecord} :
    byId (s.getEvidence runId) evidenceId = some record ↔
      record ∈ s.evidence.rows ∧ record.runId = runId ∧ record.evidenceId = evidenceId := by
  have hmem : ∀ r, r ∈ (s.getEvidence runId).filter (fun r => r.evidenceId = evidenceId) ↔
      r ∈ s.evidence.rows ∧ r.runId = runId ∧ r.evidenceId = evidenceId := by
    intro r
    simp [getEvidence, and_assoc]
  unfold byId
  constructor
  · intro h
    exact (hmem record).mp (List.mem_of_getLast? h)
  · intro h
    have hne := List.ne_nil_of_mem ((hmem record).mpr h)
    obtain ⟨found, hfound⟩ := Option.isSome_iff_exists.mp (List.getLast?_isSome.mpr hne)
    obtain ⟨hrow, -, hid⟩ := (hmem found).mp (List.mem_of_getLast? hfound)
    rw [hfound, s.evidence.row_unique hrow h.1 (hid.trans h.2.2.symm)]

/-- What supports a claim supports it in tables that have grown. -/
theorem Supported.grow (h : Supported claim (byId (s.getEvidence claim.runId)))
    (hs : Extends s s') : Supported claim (byId (s'.getEvidence claim.runId)) := by
  intro evidenceId hid
  obtain ⟨record, hfound, hrest⟩ := h evidenceId hid
  obtain ⟨hrow, hrun, hkey⟩ := byId_getEvidence.mp hfound
  exact ⟨record, byId_getEvidence.mpr ⟨hs.evidence record hrow, hrun, hkey⟩, hrest⟩

/-! ## Stored claims -/

/-- The claim is stored with its links, and its evidence supports it. -/
structure Stands (claim : Claim) (s : EvidenceTables) : Prop where
  stored : claim.row ∈ s.claims.rows
  linked : (s.linksOf claim.claimId).Perm claim.evidenceIds
  supported : Supported claim (byId (s.getEvidence claim.runId))

theorem Stands.grow (h : Stands claim s) (hs : Extends s s') : Stands claim s' where
  stored := hs.claims _ h.stored
  linked := by
    have hlinks := hs.links _ h.stored
    change s'.linksOf claim.claimId = s.linksOf claim.claimId at hlinks
    rw [hlinks]
    exact h.linked
  supported := h.supported.grow hs

/-- A claim that is accepted while its evidence supports it stands. -/
theorem stands_addClaim (h : s.addClaim claim = .ok s')
    (hsupported : Supported claim (byId (s.getEvidence claim.runId))) : Stands claim s' := by
  obtain ⟨hfresh, -, hclaims, hlinks⟩ := addClaim_eq_ok h
  refine ⟨?_, ?_, hsupported.grow (extends_addClaim h)⟩
  · rw [hclaims]
    exact List.mem_cons_self
  · have hnone : s.linksOf claim.claimId = [] := by
      unfold linksOf
      rw [List.map_eq_nil_iff, List.filter_eq_nil_iff]
      intro link hlink heq
      obtain ⟨row, hrow, hid⟩ := s.linked link hlink
      exact hfresh row hrow (hid.trans (by simpa using heq))
    rw [linksOf_of_append hlinks, if_pos rfl, hnone, List.append_nil]
    exact List.reverse_perm _

/-- The order of the evidence aside, the claim is what was stored. -/
def ReadsAs (read claim : Claim) : Prop :=
  read.toClaimFields = { claim.toClaimFields with evidenceIds := read.evidenceIds } ∧
    read.evidenceIds.Perm claim.evidenceIds

theorem Stands.read (h : Stands claim s) : ∃ read, s.readClaim claim.row = .ok read ∧
    ReadsAs read claim := by
  have hperm : ((s.linksOf claim.claimId).insertionSort (· ≤ ·)).Perm claim.evidenceIds :=
    (List.perm_insertionSort _ _).trans h.linked
  have hvalid : ClaimFields.Valid { claim.toClaimFields with
      evidenceIds := (s.linksOf claim.claimId).insertionSort (· ≤ ·) } := by
    refine ⟨claim.valid.claim_id, claim.valid.text, fun hnil => ?_, ?_⟩
    · have hnone := hperm
      rw [show (s.linksOf claim.claimId).insertionSort (· ≤ ·) = [] from hnil] at hnone
      exact claim.valid.evidence_ids hnone.nil_eq.symm
    · exact hperm.nodup_iff.mpr claim.valid.unique
  exact ⟨⟨_, hvalid⟩, ClaimFields.validated_eq_ok.mpr rfl, rfl, hperm⟩

theorem ReadsAs.supported {read : Claim} {evidence : String → Option EvidenceRecord}
    (h : ReadsAs read claim) (hclaim : Supported claim evidence) : Supported read evidence := by
  obtain ⟨hfields, hperm⟩ := h
  have hrun : read.runId = claim.runId := by rw [hfields]
  have hkind : read.kind = claim.kind := by rw [hfields]
  intro evidenceId hid
  rw [hrun, hkind]
  exact hclaim evidenceId (hperm.mem_iff.mp hid)

/-! ## `EvidenceLedger.claim` beside other callers -/

/-- Nobody shrinks the tables; the condition says when a caller may issue a call. -/
def growing (pre : (β : Type) → EvidenceOp β → EvidenceTables → Prop) :
    Contract EvidenceOp EvidenceTables where
  inv _ := True
  rely := Extends
  guar := Extends
  pre := pre
  refl := .refl
  trans := .trans

/-- A claim is stored only while its evidence supports it. -/
def SupportedFirst : (β : Type) → EvidenceOp β → EvidenceTables → Prop
  | _, .addClaim claim, s => Supported claim (byId (s.getEvidence claim.runId))
  | _, _, _ => True

section Growing

variable {pre : (β : Type) → EvidenceOp β → EvidenceTables → Prop} {α β : Type}

/-- A fact that growth does not destroy. -/
theorem growing_keeps {K : EvidenceTables → Prop} (h : ∀ s s', Extends s s' → K s → K s') :
    (growing pre).Keeps K := by
  rintro s s' (hs | hs) - hK
  · exact h s s' hs hK
  · exact h s s' hs hK

/-- A single call, with what its answer says of the tables that it was given in. -/
theorem growing_perform {op : EvidenceOp β} {K : β → EvidenceTables → Prop}
    (hK : ∀ a s s', Extends s s' → K a s → K a s')
    (hpre : ∀ s₁, Extends s s₁ → pre β op s₁)
    (h : ∀ s₁ a s₂, Extends s s₁ → handle.exec β op s₁ (.ok a) s₂ → K a s₂) :
    (growing pre).Meets handle.exec.withFaults (perform op) (onOk K) s := by
  intro s₁ hs₁ _
  refine ⟨hpre s₁ hs₁, fun x s₂ hop => ⟨handle_extends hop, trivial, fun s₃ hs₃ _ => ?_⟩⟩
  cases x with
  | error e => trivial
  | ok a =>
    rcases hop with hop | ⟨e, he, -⟩
    · exact hK a s₂ s₃ hs₃ (h s₁ a s₂ hs₁ hop)
    · cases he

/-- A program of which nothing is asked but its results, whatever it is answered. -/
theorem growing_ends {E : α → Prop} {p : EvidenceProg α} (hp : p.Ends E) :
    (growing fun _ _ _ => True).Meets handle.exec.withFaults p (onOk fun a _ => E a) s := by
  have hquiet : (growing fun _ _ _ => True).Meets handle.exec.withFaults p
      (onOk fun _ _ => True) s :=
    Contract.Meets.kept (fun _ _ _ _ h => h) (calls_true p) trivial
      fun _ _ _ _ _ _ => ⟨trivial, fun _ _ hop => ⟨handle_extends hop, trivial, trivial⟩⟩
  refine (hquiet.ends hp).mono fun r s' _ hr => ?_
  cases r with
  | ok a => exact hr.2
  | error e => trivial

end Growing

/-- The ledger stores a claim only while its evidence supports it, and returns it only when it
stands. -/
theorem meets_claim (request : ClaimRequest) (s : EvidenceTables) :
    (growing SupportedFirst).Meets handle.exec.withFaults (Evidence.claim request)
      (onOk Stands) s := by
  unfold Evidence.claim
  refine Contract.Meets.next (R := fun _ _ => True) (growing_perform (fun _ _ _ _ h => h)
    (fun _ _ => trivial) fun _ _ _ _ _ => trivial) fun fresh s₁ _ _ => ?_
  refine Contract.Meets.ofExcept (K := fun _ => True) (growing_keeps fun _ _ _ h => h) trivial
    fun claim s₂ hclaim _ _ => ?_
  have hrun : claim.runId = request.runId := by
    rw [ClaimFields.validated_eq_ok.mp hclaim]
  -- the evidence that is read is still there when the claim is stored
  refine Contract.Meets.next (R := fun evidence s => Supported claim (byId evidence) →
    Supported claim (byId (s.getEvidence claim.runId))) (growing_perform
      (fun _ _ _ hs h hsupported => (h hsupported).grow hs) (fun _ _ => trivial)
      fun s₃ evidence s₄ _ hop => ?_) fun evidence s₃ _ hread => ?_
  · obtain ⟨t, hop⟩ := hop
    obtain ⟨hanswer, rfl⟩ := Prod.ext_iff.mp hop
    obtain rfl := Except.ok.inj hanswer
    rw [hrun]
    exact id
  · refine Contract.Meets.ofExcept (K := fun s => Supported claim (byId evidence) →
      Supported claim (byId (s.getEvidence claim.runId))) (growing_keeps fun _ _ hs h hsupported =>
      (h hsupported).grow hs) hread fun _ s₄ hverified _ hread => ?_
    have hsupported := hread (verifyClaim_eq_ok.mp hverified)
    refine Contract.Meets.next (R := fun _ s => Stands claim s) (growing_perform
      (fun _ _ _ hs h => h.grow hs) (fun _ hs => hsupported.grow hs)
      fun s₅ _ s₆ hs₅ hop => ?_) fun _ s₅ _ hstands => ?_
    · obtain ⟨t, hop⟩ := hop
      change commit (s₅.addClaim claim) s₅ = _ at hop
      cases hwritten : s₅.addClaim claim with
      | error e =>
        rw [hwritten] at hop
        cases hop
      | ok written =>
        rw [hwritten] at hop
        cases hop
        exact stands_addClaim hwritten (hsupported.grow hs₅)
    · exact Contract.Meets.pure (growing_keeps fun _ _ hs h => h.grow hs) hstands

/-- When a caller may issue a call. -/
def condition : LedgerCall → (β : Type) → EvidenceOp β → EvidenceTables → Prop
  | .claim _ => SupportedFirst
  | _ => fun _ _ _ => True

/-- Whoever is answered a claim is answered one that stands. -/
theorem meets_program (sha256Digest : String → String) (call : LedgerCall) (s : EvidenceTables) :
    (growing (condition call)).Meets handle.exec.withFaults (call.program sha256Digest)
      (onOk fun answer s => ∀ claim, answer = .claim claim → Stands claim s) s := by
  have hnone : ∀ {α : Type} (p : EvidenceProg α) (f : α → LedgerAnswer),
      (∀ a claim, f a ≠ .claim claim) → (growing fun _ _ _ => True).Meets
        handle.exec.withFaults (do return f (← p))
        (onOk fun answer s => ∀ claim, answer = .claim claim → Stands claim s) s := by
    intro α p f hf
    have hends : Prog.Ends (fun answer => ∀ claim, answer ≠ LedgerAnswer.claim claim)
        (do return f (← p)) := (ends_true p).bind fun a _ claim => hf a claim
    refine (growing_ends hends).mono fun r s' _ hr => ?_
    cases r with
    | ok answer => exact fun claim h => absurd h (hr claim)
    | error e => trivial
  cases call with
  | record request => exact hnone (Evidence.record sha256Digest request) .record (fun _ _ => by simp)
  | claim request =>
    refine Contract.Meets.next (meets_claim request s) fun claim s' _ hstands => ?_
    refine Contract.Meets.pure (Contract.Keeps.forall fun other =>
      (growing_keeps fun _ _ hs h => h.grow hs).imp) fun other hother => ?_
    obtain rfl := LedgerAnswer.claim.inj hother
    exact hstands
  | verifyRun runId => exact hnone (Evidence.verifyRun runId) .messages (fun _ _ => by simp)
  | createRun runId => exact hnone (perform (.createRun runId)) (fun _ => .done) (fun _ _ => by simp)
  | addEvidence stored => exact hnone (perform (.addEvidence stored)) (fun _ => .done) (fun _ _ => by simp)
  | getEvidence runId => exact hnone (perform (.getEvidence runId)) .records (fun _ _ => by simp)
  | addClaim stored => exact hnone (perform (.addClaim stored)) (fun _ => .done) (fun _ _ => by simp)
  | getClaims runId => exact hnone (perform (.getClaims runId)) .claims (fun _ _ => by simp)

/-! ## Every run -/

/-- Nothing of the state that a run starts in is lost. -/
theorem runs_extends {ι : Type} [DecidableEq ι]
    {S S' : Session EvidenceOp Exn LedgerAnswer EvidenceTables ι}
    (h : SessionRuns handle.exec.withFaults S S') : Extends S.shared S'.shared := by
  induction h with
  | refl => exact .refl _
  | tail _ hlast ih =>
    obtain @⟨_, _, i, op, k, x, s', hi, hop⟩ := hlast
    exact ih.trans (handle_extends hop)

theorem mem_of_mapM {α β : Type} {f : α → Except Exn β} {l : List α} {bs : List β}
    (h : l.mapM f = .ok bs) {b : β} (hb : b ∈ bs) : ∃ a ∈ l, f a = .ok b := by
  induction l generalizing bs with
  | nil =>
    rw [List.mapM_nil] at h
    obtain rfl := Except.ok.inj h
    cases hb
  | cons a l ih =>
    rw [List.mapM_cons] at h
    obtain ⟨b', ha, h⟩ := of_bind_ok h
    obtain ⟨rest, hrest, h⟩ := of_bind_ok h
    obtain rfl := Except.ok.inj h
    rcases List.mem_cons.mp hb with rfl | hb
    · exact ⟨a, List.mem_cons_self, ha⟩
    · obtain ⟨a', ha', hb'⟩ := ih hrest hb
      exact ⟨a', List.mem_cons_of_mem a ha', hb'⟩

/-- The elements that pass a check leave no trace in the outcome of the loop. -/
theorem forM_filter {α : Type} {check : α → Except Exn Unit} {p : α → Bool} {l : List α}
    (h : ∀ a ∈ l, p a = false → check a = .ok ()) : l.forM check = (l.filter p).forM check := by
  induction l with
  | nil => rfl
  | cons a l ih =>
    have hrest := ih fun b hb => h b (List.mem_cons_of_mem a hb)
    change (check a >>= fun _ => l.forM check) = _
    by_cases hp : p a = true
    · rw [List.filter_cons_of_pos hp, hrest]
      rfl
    · rw [List.filter_cons_of_neg hp, h a List.mem_cons_self (by simpa using hp), ← hrest]
      rfl

/-- A stored claim changes nothing of what `verify_run` comes to, not even where the tables grow
between its two reads. -/
theorem Stands.verifyRun (h : Stands claim s) (hs : Extends s s') {claims : List Claim}
    (hread : s'.getClaims claim.runId = .ok claims) :
    claims.forM (fun other => verifyClaim other (byId (s.getEvidence claim.runId))) =
      (claims.filter fun other => other.claimId ≠ claim.claimId).forM
        fun other => verifyClaim other (byId (s.getEvidence claim.runId)) := by
  refine forM_filter fun other hother hid => ?_
  obtain ⟨row, hrow, hfound⟩ := mem_of_mapM hread hother
  have hrow : row ∈ s'.claims.rows := by
    rw [List.mem_insertionSort, List.mem_filter] at hrow
    exact hrow.1
  have hfields := ClaimFields.validated_eq_ok.mp hfound
  have hsame : row = claim.row := by
    refine s'.claims.row_unique hrow (hs.claims _ h.stored) ?_
    have hkey : other.claimId = row.claimId := by rw [hfields]
    have hid : other.claimId = claim.claimId := by simpa using hid
    exact hkey.symm.trans hid
  obtain ⟨read, hread, hreads⟩ := (h.grow hs).read
  rw [hsame, hread] at hfound
  obtain rfl := Except.ok.inj hfound
  exact verifyClaim_eq_ok.mpr (hreads.supported h.supported)

section Runs

variable {ι : Type} [DecidableEq ι]

/-- Every caller meets its contract wherever a run has come to. -/
theorem callers_meet {sha256Digest : String → String} {calls : ι → LedgerCall}
    {s₀ : EvidenceTables} {S : Session EvidenceOp Exn LedgerAnswer EvidenceTables ι}
    (hrun : SessionRuns handle.exec.withFaults (callers sha256Digest calls s₀) S) (i : ι) :
    (growing (condition (calls i))).Meets handle.exec.withFaults (S.callers i)
      (onOk fun answer s => ∀ claim, answer = .claim claim → Stands claim s) S.shared := by
  obtain ⟨-, hmeets⟩ := hrun.meets_each (C := fun i => growing (condition (calls i)))
    (fun _ _ => Iff.rfl : ∀ _ _, True ↔ _) (fun _ _ _ _ h _ => h) trivial
    fun i => meets_program sha256Digest (calls i) s₀
  exact hmeets i

/-- In every run of any calls of the ledger and of the store: a claim of the ledger is stored only
while its links pass verification; and once it is accepted, in every later state its evidence is
there, belongs to its run and has the status its kind demands, the claim passes as it is read back,
and `verify_run` comes to what it would come to without the claim. -/
theorem claims_stay_verifiable (sha256Digest : String → String) (calls : ι → LedgerCall)
    (s₀ : EvidenceTables) {S : Session EvidenceOp Exn LedgerAnswer EvidenceTables ι}
    (hrun : SessionRuns handle.exec.withFaults (callers sha256Digest calls s₀) S) {i : ι}
    {request : ClaimRequest} (hi : calls i = .claim request) (claim : Claim) :
    (∀ k, S.callers i = .call (.addClaim claim) k →
      verifyClaim claim (byId (S.shared.getEvidence claim.runId)) = .ok ()) ∧
    (S.callers i = .done (.ok (.claim claim)) →
      ∀ S', SessionRuns handle.exec.withFaults S S' →
        (∀ evidenceId ∈ claim.evidenceIds, ∃ record ∈ S'.shared.evidence.rows,
          record.evidenceId = evidenceId ∧ record.runId = claim.runId ∧
          record.verificationStatus ≠ .INVALID ∧
          (claim.kind = .VERIFIED_FACT ∨ claim.kind = .TEST_SUPPORTED →
            record.verificationStatus = .VERIFIED)) ∧
        (claim.row ∈ S'.shared.claims.rows ∧ ∃ read, S'.shared.readClaim claim.row = .ok read ∧
          ReadsAs read claim ∧
          verifyClaim read (byId (S'.shared.getEvidence claim.runId)) = .ok ()) ∧
        ∀ claims, S'.shared.getClaims claim.runId = .ok claims →
          claims.forM (fun other => verifyClaim other (byId (S.shared.getEvidence claim.runId))) =
            (claims.filter fun other => other.claimId ≠ claim.claimId).forM
              fun other => verifyClaim other (byId (S.shared.getEvidence claim.runId))) := by
  have hcaller := callers_meet hrun i
  rw [hi] at hcaller
  constructor
  · intro k hk
    rw [hk] at hcaller
    exact verifyClaim_eq_ok.mpr (hcaller.pre trivial)
  · intro hdone S' hrun'
    rw [hdone] at hcaller
    have hstands : Stands claim S.shared := hcaller.ended trivial claim rfl
    have hlater := hstands.grow (runs_extends hrun')
    refine ⟨fun evidenceId hid => ?_, ⟨hlater.stored, ?_⟩, fun claims hread => ?_⟩
    · obtain ⟨record, hfound, hrest⟩ := hlater.supported evidenceId hid
      obtain ⟨hrow, -, hkey⟩ := byId_getEvidence.mp hfound
      exact ⟨record, hrow, hkey, hrest⟩
    · obtain ⟨read, hread, hreads⟩ := hlater.read
      exact ⟨read, hread, hreads, verifyClaim_eq_ok.mpr (hreads.supported hlater.supported)⟩
    · exact hstands.verifyRun (runs_extends hrun') hread

end Runs

/-- A run that is created, a result that is recorded for it, and a claim that rests on it. -/
def testedClaim : Nat → LedgerCall
  | 0 => .createRun "r"
  | 1 => .record {
      runId := "r", evidenceType := .TEST_RESULT, source := "pytest", excerpt := "passed",
      content := some (.text ""), status := .VERIFIED }
  | _ => .claim { runId := "r", text := "t", kind := .TEST_SUPPORTED, evidenceIds := ["EVID-1"] }

def noEvidence : EvidenceTables where
  runIds := []
  evidence := .empty
  claims := .empty
  links := .empty
  linked := by simp [Table.empty]

/-- A digest of the right form. -/
def zeroDigest : String → String := fun _ => String.ofList (List.replicate 64 '0')

def testedTurns : List (Nat × Supply) :=
  [(0, {}), (1, { freshId := "1" }), (1, {}), (1, {}), (2, { freshId := "2" }), (2, {}), (2, {})]

def acceptedClaim : Claim where
  claimId := "CLAIM-2"
  runId := "r"
  text := "t"
  kind := .TEST_SUPPORTED
  evidenceIds := ["EVID-1"]
  valid := by decide

def testedRun : Session EvidenceOp Exn LedgerAnswer EvidenceTables Nat :=
  (callers zeroDigest testedClaim noEvidence).play handle testedTurns

theorem testedRun_runs :
    SessionRuns handle.exec.withFaults (callers zeroDigest testedClaim noEvidence) testedRun :=
  (Session.play_guarded handle (fun _ _ _ => True) testedTurns _ (by decide +kernel)).mono
    fun _ _ _ _ _ hop => .inl hop.2

theorem testedRun_done : testedRun.callers 2 = .done (.ok (.claim acceptedClaim)) :=
  outcome_eq_some.mp (by decide +kernel)

/-- The claim of the tested run passes where it has been accepted. -/
theorem claims_stay_verifiable_tested : acceptedClaim.row ∈ testedRun.shared.claims.rows ∧
    ∃ read, testedRun.shared.readClaim acceptedClaim.row = .ok read ∧
      ReadsAs read acceptedClaim ∧
      verifyClaim read (byId (testedRun.shared.getEvidence acceptedClaim.runId)) = .ok () :=
  ((claims_stay_verifiable zeroDigest testedClaim noEvidence testedRun_runs (i := 2) rfl
    acceptedClaim).2 testedRun_done testedRun .refl).2.1

end DurableAgent.Evidence
