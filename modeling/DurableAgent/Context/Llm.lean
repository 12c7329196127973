import DurableAgent.Context.Budgeting

/-!
# Compression by a language model

`LLMContextCompressor` checks what a provider drafts before it makes a summary of it. The draft may
be anything: invented identifiers and lost constraints are refused, lost questions and decisions
are not looked for.
-/

namespace DurableAgent.Context

open Library

/-- What the provider returns. -/
structure CompressionDraft where
  content : String
  sourceItemIds : List String
  evidenceIds : List String
  retainedConstraints : List String := []
  retainedQuestions : List String := []
  retainedDecisions : List String := []
  content_nonempty : content ≠ "" := by decide

structure LLMContextCompressor where
  sha256Digest : String → String
  /-- `complete_structured`, of the instructions and the untrusted content -/
  completeStructured : String → String → Except Exn CompressionDraft

/-- The contents of the items of some categories. -/
def contentsIn (categories : List String) (items : List ContextItem) : List String :=
  (items.filter fun item => item.category ∈ categories).map ContextItem.content

namespace LLMContextCompressor

variable (C : LLMContextCompressor)

def instructions : String :=
  "Summarize only supplied untrusted items. Preserve negative requirements, questions, " ++
    "decisions, source IDs, and evidence IDs. Do not add claims."

def untrustedContent (items : List ContextItem) : String :=
  "\n".intercalate (items.map fun item => s!"[{item.itemId}] {item.category}: {item.content}")

/-- The draft that the provider returns for some items. -/
def draftOf (items : List ContextItem) : Except Exn CompressionDraft :=
  C.completeStructured instructions (untrustedContent items)

/-- The record that is made of a draft, before it is validated. -/
def summaryFields (stamp : Stamp) (runId : String) (items : List ContextItem)
    (maximumTokens : Nat) (level : SummaryLevel) (generation : Nat) (draft : CompressionDraft) :
    SummaryFields :=
  let content := String.ofList (draft.content.toList.take (maximumTokens * 4))
  { summaryId := stamp.id, runId, level, content
    estimatedTokens := min (max ((content.utf8ByteSize + 3) / 4) 1) maximumTokens
    sourceItemIds := draft.sourceItemIds
    sourceHashes := sourceHashes C.sha256Digest items
    retainedConstraints := draft.retainedConstraints
    retainedQuestions := draft.retainedQuestions
    retainedDecisions := draft.retainedDecisions
    evidenceIds := draft.evidenceIds
    removedItemIds := items.map ContextItem.itemId
    generation, createdAt := stamp.time }

/-- `compress` -/
def compress (stamp : Stamp) (runId : String) (items : List ContextItem) (maximumTokens : Nat)
    (level : SummaryLevel) (generation : Nat) : Except Exn SummaryRecord :=
  if maximumTokens < 16 then .error (.of .domainValidation "LLM summary budget is too small")
  else do
    let draft ← C.draftOf items
    if ¬ draft.sourceItemIds ⊆ items.map ContextItem.itemId then
      .error (.of .domainValidation "LLM summary invented a source item ID")
    else if ¬ draft.evidenceIds ⊆ items.flatMap ContextItem.evidenceIds then
      .error (.of .domainValidation "LLM summary invented an evidence ID")
    else if ¬ contentsIn ["constraint", "negative_requirement"] items ⊆
        draft.retainedConstraints then
      .error (.of .domainValidation "LLM summary lost a required constraint")
    else (C.summaryFields stamp runId items maximumTokens level generation draft).validate

/-- What the checks ask of a draft. -/
structure Admits (items : List ContextItem) (maximumTokens generation : Nat)
    (draft : CompressionDraft) : Prop where
  room : 16 ≤ maximumTokens
  sources : draft.sourceItemIds ⊆ items.map ContextItem.itemId
  evidence : draft.evidenceIds ⊆ items.flatMap ContextItem.evidenceIds
  constraints : contentsIn ["constraint", "negative_requirement"] items ⊆ draft.retainedConstraints
  nonempty : draft.sourceItemIds ≠ []
  complete : items.map ContextItem.itemId ⊆ draft.sourceItemIds
  generation_bounds : 1 ≤ generation ∧ generation ≤ 3
  repeated : 1 < generation → draft.retainedConstraints ≠ []

variable {C} {stamp : Stamp} {runId : String} {items : List ContextItem}
  {maximumTokens generation : Nat} {level : SummaryLevel} {draft : CompressionDraft}
  {record : SummaryRecord}

theorem mem_sourceHashes {id : String} :
    id ∈ (sourceHashes C.sha256Digest items).keys ↔ id ∈ items.map ContextItem.itemId := by
  rw [sourceHashes, Dict.mem_keys_ofPairs, List.map_map]
  rfl

theorem wellformed_summaryFields_iff :
    (C.summaryFields stamp runId items maximumTokens level generation draft).Wellformed ↔
      draft.sourceItemIds ≠ [] ∧ (1 ≤ generation ∧ generation ≤ 3) ∧
      draft.sourceItemIds ⊆ items.map ContextItem.itemId ∧
      items.map ContextItem.itemId ⊆ draft.sourceItemIds ∧
      (1 < generation → draft.retainedConstraints ≠ []) := by
  constructor
  · intro h
    refine ⟨h.sources, ⟨h.generation_pos, h.generation_le⟩, ?_, ?_, h.retained⟩
    · exact fun id hid => mem_sourceHashes.mp (h.covered id hid)
    · exact fun id hid => h.declared id (mem_sourceHashes.mpr hid)
  · rintro ⟨hnonempty, ⟨hpos, hle⟩, hsources, hcomplete, hrepeated⟩
    refine ⟨hnonempty, hpos, hle, ?_, ?_, hrepeated⟩
    · exact fun id hid => mem_sourceHashes.mpr (hsources hid)
    · exact fun id hid => hcomplete (mem_sourceHashes.mp hid)

/-- A summary is returned exactly of a draft that the checks admit. -/
theorem compress_ok_iff :
    C.compress stamp runId items maximumTokens level generation = .ok record ↔
      ∃ draft, C.draftOf items = .ok draft ∧ Admits items maximumTokens generation draft ∧
        record.toSummaryFields =
          C.summaryFields stamp runId items maximumTokens level generation draft := by
  constructor
  · intro h
    unfold compress at h
    split at h
    · cases h
    next hroom =>
      obtain ⟨draft, hdraft, h⟩ := of_bind_ok h
      split at h
      · cases h
      next hsources =>
        split at h
        · cases h
        next hevidence =>
          split at h
          · cases h
          next hconstraints =>
            unfold SummaryFields.validate at h
            split at h
            · next hwellformed =>
              obtain ⟨hnonempty, hbounds, -, hcomplete, hrepeated⟩ :=
                wellformed_summaryFields_iff.mp hwellformed
              rw [← Except.ok.inj h]
              exact ⟨draft, hdraft, ⟨Nat.not_lt.mp hroom, not_not.mp hsources,
                not_not.mp hevidence, not_not.mp hconstraints, hnonempty, hcomplete, hbounds,
                hrepeated⟩, rfl⟩
            · cases h
  · rintro ⟨draft, hdraft, hadmits, hrecord⟩
    have hwellformed :
        (C.summaryFields stamp runId items maximumTokens level generation draft).Wellformed :=
      wellformed_summaryFields_iff.mpr ⟨hadmits.nonempty, hadmits.generation_bounds,
        hadmits.sources, hadmits.complete, hadmits.repeated⟩
    unfold compress
    rw [if_neg (Nat.not_lt.mpr hadmits.room), hdraft]
    dsimp only [bind, Except.bind]
    rw [if_neg (not_not.mpr hadmits.sources), if_neg (not_not.mpr hadmits.evidence),
      if_neg (not_not.mpr hadmits.constraints), SummaryFields.validate, dif_pos hwellformed]
    congr 1
    cases record
    congr 1
    exact hrecord.symm

/-! ## Obligations -/

/-- A summary that invents nothing and keeps what must be kept. -/
structure Retains (items : List ContextItem) (record : SummaryRecord) : Prop where
  sources : record.sourceItemIds ⊆ items.map ContextItem.itemId
  evidence : record.evidenceIds ⊆ items.flatMap ContextItem.evidenceIds
  constraints : contentsIn ["constraint", "negative_requirement"] items ⊆
    record.retainedConstraints
  questions : contentsIn ["question"] items ⊆ record.retainedQuestions
  decisions : contentsIn ["decision"] items ⊆ record.retainedDecisions

/-- The questions and the decisions of the items are in the draft. -/
structure Answers (items : List ContextItem) (draft : CompressionDraft) : Prop where
  questions : contentsIn ["question"] items ⊆ draft.retainedQuestions
  decisions : contentsIn ["decision"] items ⊆ draft.retainedDecisions

/-- Every summary that is returned retains all obligations exactly if a draft that the checks admit
has the questions and the decisions. -/
theorem compress_retains_iff (C : LLMContextCompressor) (stamp : Stamp) (runId : String)
    (items : List ContextItem) (maximumTokens : Nat) (level : SummaryLevel) (generation : Nat) :
    (∀ record, C.compress stamp runId items maximumTokens level generation = .ok record →
      Retains items record) ↔
    ∀ draft, C.draftOf items = .ok draft → Admits items maximumTokens generation draft →
      Answers items draft := by
  constructor
  · intro h draft hdraft hadmits
    have hwellformed :
        (C.summaryFields stamp runId items maximumTokens level generation draft).Wellformed :=
      wellformed_summaryFields_iff.mpr ⟨hadmits.nonempty, hadmits.generation_bounds,
        hadmits.sources, hadmits.complete, hadmits.repeated⟩
    have hretains := h ⟨_, hwellformed⟩ (compress_ok_iff.mpr ⟨draft, hdraft, hadmits, rfl⟩)
    exact ⟨hretains.questions, hretains.decisions⟩
  · intro h record hrecord
    obtain ⟨draft, hdraft, hadmits, hfields⟩ := compress_ok_iff.mp hrecord
    have hanswers := h draft hdraft hadmits
    constructor
    · rw [hfields]
      exact hadmits.sources
    · rw [hfields]
      exact hadmits.evidence
    · rw [hfields]
      exact hadmits.constraints
    · rw [hfields]
      exact hanswers.questions
    · rw [hfields]
      exact hanswers.decisions

/-- A provider that drafts only the sources of one item. -/
def forgetfulCompressor : LLMContextCompressor where
  sha256Digest := id
  completeStructured _ _ :=
    .ok { content := "Nothing is open.", sourceItemIds := ["item-0"], evidenceIds := [] }

def questionItem : ContextItem :=
  createItem ⟨"item-0", 0⟩ "question" "Which port does the service use?" 100 [] [] false
    ordinary_priority

/-- The question is gone. -/
theorem question_lost : ∃ record,
    forgetfulCompressor.compress ⟨"summary-0", 0⟩ "run" [questionItem] 16 .TASK 1 = .ok record ∧
      ¬ Retains [questionItem] record := by
  cases h : forgetfulCompressor.compress ⟨"summary-0", 0⟩ "run" [questionItem] 16 .TASK 1 with
  | error e =>
    have hok : (forgetfulCompressor.compress ⟨"summary-0", 0⟩ "run" [questionItem] 16 .TASK
        1).toOption.isSome = true := by decide +kernel
    rw [h] at hok
    cases hok
  | ok record =>
    refine ⟨record, rfl, fun hretains => ?_⟩
    obtain ⟨draft, hdraft, -, hfields⟩ := compress_ok_iff.mp h
    have hquestion := hretains.questions (List.mem_singleton_self questionItem.content)
    rw [hfields, ← Except.ok.inj hdraft] at hquestion
    cases hquestion

end LLMContextCompressor

end DurableAgent.Context
