import DurableAgent.Context.Llm
import DurableAgent.Context.Provenance

/-!
# What the estimates of summaries say

A summary is cut to a number of characters and estimated by its bytes, and the estimate is capped at
what is left of the budget. So it is too low exactly where the characters that stay take more bytes
than the cut allows for.
-/

namespace DurableAgent.Context

variable {manager : ContextManager} {items : List ContextItem} {stamps : BuildStamps}
  {runId : String} {taskId : Option String} {level : SummaryLevel} {generation : Nat}
  {snapshot : ContextSnapshot} {record : SummaryRecord} {maximumTokens : Nat}

theorem estimateTokens_le_iff {content : String} (h : 1 ≤ maximumTokens) :
    estimateTokens content ≤ maximumTokens ↔ content.utf8ByteSize ≤ maximumTokens * 4 := by
  unfold estimateTokens
  by_cases hempty : content = ""
  · subst hempty
    simp
  · rw [if_neg hempty]
    omega

/-- The text of a summary, before it is cut. -/
def navigation (removed : List ContextItem) : String :=
  "\n".intercalate
    ("Compressed navigation summary; verify conclusions against source/evidence IDs:" ::
      removed.map fun item => s!"- [{item.itemId}] {compact item.content}")

/-- The bytes of the first characters of a text. -/
def bytesOfTake (count : Nat) (text : String) : Nat :=
  (String.ofList (text.toList.take count)).utf8ByteSize

/-- What stays of a text takes the bytes that the cut allows for: a byte a character, with five more
of the twenty characters that are left out, as the mark takes fifteen bytes. -/
def FitsCut (text : String) (maximumTokens : Nat) : Prop :=
  if text.length ≤ maximumTokens * 4 then text.utf8ByteSize ≤ maximumTokens * 4
  else bytesOfTake (maximumTokens * 4 - 20) text ≤ maximumTokens * 4 - 15

theorem utf8ByteSize_truncated_iff {text : String} (h : 16 ≤ maximumTokens) :
    (truncated text (maximumTokens * 4)).utf8ByteSize ≤ maximumTokens * 4 ↔
      FitsCut text maximumTokens := by
  have hmark : "… [truncated]".utf8ByteSize = 15 := by decide
  have hcut : max (maximumTokens * 4 - 20) 1 = maximumTokens * 4 - 20 := by omega
  unfold truncated FitsCut bytesOfTake
  by_cases hlong : text.length ≤ maximumTokens * 4
  · rw [if_neg (Nat.not_lt.mpr hlong), if_pos hlong]
  · rw [if_pos (Nat.lt_of_not_le hlong), if_neg hlong, hcut, String.utf8ByteSize_append, hmark]
    omega

/-! ## Summaries of the manager -/

/-- The estimate of the summary is that of its content, and the estimates of everything that the
snapshot refers to are within the budget. -/
structure Honest (manager : ContextManager) (items : List ContextItem)
    (snapshot : ContextSnapshot) (record : SummaryRecord) : Prop where
  estimate : record.estimatedTokens = estimateTokens record.content
  within : ((items.filter fun item => item.itemId ∈ snapshot.itemIds).map fun item =>
    estimateTokens item.content).sum + estimateTokens record.content ≤ manager.budget.available

theorem summary_of_build
    (h : manager.build stamps runId taskId items level generation = .ok (snapshot, some record)) :
    16 ≤ manager.budget.available - tokens (manager.budget.select items).selected ∧
      Names manager (manager.budget.select items).removed
        (manager.budget.available - tokens (manager.budget.select items).selected) record := by
  obtain ⟨hids, -, hbuilt⟩ := built_of_build h
  cases hbuilt with
  | selected hthreshold hover hcompress hsnapshot =>
    refine ⟨?_, compress_names (removed_nodup hids) hcompress⟩
    by_contra hcrowded
    cases compress_crowded hcompress (Nat.lt_of_not_le hcrowded)

theorem honest_iff (hcreated : ∀ item ∈ items, item.estimatedTokens = estimateTokens item.content)
    (h : manager.build stamps runId taskId items level generation = .ok (snapshot, some record)) :
    Honest manager items snapshot record ↔
      FitsCut (navigation (manager.budget.select items).removed)
        (manager.budget.available - tokens (manager.budget.select items).selected) := by
  obtain ⟨hroom, hnames⟩ := summary_of_build h
  obtain ⟨hids, -, hbuilt⟩ := built_of_build h
  have haccounts := hbuilt.accounts hids
  have hestimate : record.estimatedTokens = estimateTokens record.content ↔
      FitsCut (navigation (manager.budget.select items).removed)
        (manager.budget.available - tokens (manager.budget.select items).selected) := by
    rw [hnames.tokens, hnames.content, min_eq_left_iff, estimateTokens_le_iff (by omega)]
    exact utf8ByteSize_truncated_iff hroom
  rw [← hestimate]
  constructor
  · exact fun hhonest => hhonest.estimate
  · intro heq
    refine ⟨heq, ?_⟩
    have hselected : ((items.filter fun item => item.itemId ∈ snapshot.itemIds).map fun item =>
        estimateTokens item.content) = (items.filter fun item =>
          item.itemId ∈ snapshot.itemIds).map ContextItem.estimatedTokens := by
      apply List.map_congr_left
      intro item hitem
      exact (hcreated item (List.mem_of_mem_filter hitem)).symm
    have hused := haccounts.used
    have hwithin := haccounts.within
    rw [hselected, ← heq]
    simp only [summaryTokens, tokens] at hused
    omega

/-! ## Summaries of a language model -/

theorem llm_honest_iff {C : LLMContextCompressor} {stamp : Stamp} {draft : CompressionDraft}
    (hdraft : C.draftOf items = .ok draft)
    (h : C.compress stamp runId items maximumTokens level generation = .ok record) :
    (record.estimatedTokens = estimateTokens record.content ∧
        estimateTokens record.content ≤ maximumTokens) ↔
      bytesOfTake (maximumTokens * 4) draft.content ≤ maximumTokens * 4 := by
  obtain ⟨draft', hdraft', hadmits, hfields⟩ := LLMContextCompressor.compress_ok_iff.mp h
  obtain rfl := Except.ok.inj (hdraft.symm.trans hdraft')
  have hroom := hadmits.room
  have hcontent : record.content =
      String.ofList (draft.content.toList.take (maximumTokens * 4)) := by
    rw [hfields]
    rfl
  have hnonempty : record.content ≠ "" := by
    rw [hcontent]
    intro hempty
    have hlist := congrArg String.toList hempty
    rw [String.toList_ofList] at hlist
    obtain hzero | hnil := List.take_eq_nil_iff.mp hlist
    · omega
    · exact draft.content_nonempty (String.toList_injective hnil)
  have hestimate : record.estimatedTokens = min (estimateTokens record.content) maximumTokens := by
    rw [estimateTokens, if_neg hnonempty, hcontent, hfields]
    rfl
  rw [hestimate, min_eq_left_iff, and_self, estimateTokens_le_iff (by omega), hcontent]
  rfl

/-- In both compressors the estimates are honest exactly if the characters that stay take the bytes
that the cut allows for. -/
theorem accounting_honest_iff (manager : ContextManager) (C : LLMContextCompressor) :
    (∀ (stamps : BuildStamps) (runId : String) (taskId : Option String)
      (items : List ContextItem) (level : SummaryLevel) (generation : Nat)
      (snapshot : ContextSnapshot) (record : SummaryRecord),
      (∀ item ∈ items, item.estimatedTokens = estimateTokens item.content) →
      manager.build stamps runId taskId items level generation = .ok (snapshot, some record) →
      (Honest manager items snapshot record ↔
        FitsCut (navigation (manager.budget.select items).removed)
          (manager.budget.available - tokens (manager.budget.select items).selected))) ∧
    ∀ (stamp : Stamp) (runId : String) (items : List ContextItem)
      (maximumTokens : Nat) (level : SummaryLevel) (generation : Nat) (draft : CompressionDraft)
      (record : SummaryRecord), C.draftOf items = .ok draft →
      C.compress stamp runId items maximumTokens level generation = .ok record →
      ((record.estimatedTokens = estimateTokens record.content ∧
          estimateTokens record.content ≤ maximumTokens) ↔
        bytesOfTake (maximumTokens * 4) draft.content ≤ maximumTokens * 4) :=
  ⟨fun _ _ _ _ _ _ _ _ hcreated h => honest_iff hcreated h,
    fun _ _ _ _ _ _ _ _ hdraft h => llm_honest_iff hdraft h⟩

/-! ## Signs of three bytes -/

/-- A window that leaves thirty tokens to the context. -/
def shortManager : ContextManager := ⟨budgetOf 1762 (4 / 5) (by decide) four_fifths, id⟩

def findingOf (content : String) : ContextItem :=
  createItem ⟨"item-0", 0⟩ "finding" content 100 [] [] false ordinary_priority

theorem findingOf_created (content : String) :
    (findingOf content).estimatedTokens = estimateTokens (findingOf content).content := rfl

/-- Forty signs that take three bytes each. -/
def prices : String := String.ofList (List.replicate 40 '€')

theorem prices_nonempty : prices ≠ "" := by decide +kernel

/-- A provider that repeats a text, whatever the items are. -/
def repeatingCompressor (content : String) (h : content ≠ "") : LLMContextCompressor where
  sha256Digest := id
  completeStructured _ _ :=
    .ok { content, sourceItemIds := ["item-0"], evidenceIds := [], content_nonempty := h }

/-- The summaries are estimated at all that is left, and take more. -/
theorem estimate_too_low :
    (∃ snapshot record,
      shortManager.build firstStamps.build "run" none [findingOf prices] .TASK 1 =
        .ok (snapshot, some record) ∧
      record.estimatedTokens = 30 ∧ estimateTokens record.content = 34 ∧
      shortManager.budget.available = 30) ∧
    ∃ record,
      (repeatingCompressor prices prices_nonempty).compress ⟨"summary-0", 0⟩ "run"
        [findingOf prices] 16 .TASK 1 = .ok record ∧
      record.estimatedTokens = 16 ∧ estimateTokens record.content = 30 := by
  constructor
  · have h : (shortManager.build firstStamps.build "run" none [findingOf prices] .TASK
        1).toOption.any (fun built => built.2.any fun record =>
          record.estimatedTokens = 30 ∧ estimateTokens record.content = 34) = true := by
      decide +kernel
    cases hbuild : shortManager.build firstStamps.build "run" none [findingOf prices] .TASK 1 with
    | error e =>
      rw [hbuild] at h
      cases h
    | ok built =>
      obtain ⟨snapshot, summary⟩ := built
      rw [hbuild] at h
      cases summary with
      | none => cases h
      | some record =>
        obtain ⟨hcapped, hestimate⟩ := of_decide_eq_true h
        exact ⟨snapshot, record, rfl, hcapped, hestimate, by decide⟩
  · have h : ((repeatingCompressor prices prices_nonempty).compress ⟨"summary-0", 0⟩ "run"
        [findingOf prices] 16 .TASK 1).toOption.any (fun record =>
          record.estimatedTokens = 16 ∧ estimateTokens record.content = 30) = true := by
      decide +kernel
    cases hcompress : (repeatingCompressor prices prices_nonempty).compress ⟨"summary-0", 0⟩ "run"
        [findingOf prices] 16 .TASK 1 with
    | error e =>
      rw [hcompress] at h
      cases h
    | ok record =>
      rw [hcompress] at h
      obtain ⟨hcapped, hestimate⟩ := of_decide_eq_true h
      exact ⟨record, rfl, hcapped, hestimate⟩

/-- A hundred letters are estimated honestly. -/
def letters : String := String.ofList (List.replicate 100 'a')

theorem letters_nonempty : letters ≠ "" := by
  intro h
  have hlength : letters.length = 100 := by
    unfold letters
    rw [String.length_ofList, List.length_replicate]
  rw [h] at hlength
  simp at hlength

theorem accounting_honest_letters :
    (∃ snapshot record,
      shortManager.build firstStamps.build "run" none [findingOf letters] .TASK 1 =
        .ok (snapshot, some record) ∧
      Honest shortManager [findingOf letters] snapshot record) ∧
    ∃ record,
      (repeatingCompressor letters letters_nonempty).compress ⟨"summary-0", 0⟩ "run"
        [findingOf letters] 16 .TASK 1 = .ok record ∧
      record.estimatedTokens = estimateTokens record.content ∧
      estimateTokens record.content ≤ 16 := by
  constructor
  · have h : (shortManager.build firstStamps.build "run" none [findingOf letters] .TASK
        1).toOption.any (fun built => built.2.isSome) = true := by
      decide +kernel
    cases hbuild : shortManager.build firstStamps.build "run" none [findingOf letters] .TASK 1 with
    | error e =>
      rw [hbuild] at h
      cases h
    | ok built =>
      obtain ⟨snapshot, summary⟩ := built
      rw [hbuild] at h
      cases summary with
      | none => cases h
      | some record =>
        refine ⟨snapshot, record, rfl, ?_⟩
        apply ((accounting_honest_iff shortManager (repeatingCompressor letters
          letters_nonempty)).1 _ _ _ _ _ _ _ _ (fun item hitem => ?_) hbuild).mpr
        · unfold FitsCut
          decide +kernel
        · rw [List.mem_singleton.mp hitem]
          exact findingOf_created letters
  · have h : ((repeatingCompressor letters letters_nonempty).compress ⟨"summary-0", 0⟩ "run"
        [findingOf letters] 16 .TASK 1).toOption.isSome = true := by
      decide +kernel
    cases hcompress : (repeatingCompressor letters letters_nonempty).compress ⟨"summary-0", 0⟩
        "run" [findingOf letters] 16 .TASK 1 with
    | error e =>
      rw [hcompress] at h
      cases h
    | ok record =>
      refine ⟨record, rfl, ?_⟩
      apply ((accounting_honest_iff shortManager (repeatingCompressor letters
        letters_nonempty)).2 _ _ _ _ _ _ _ _ rfl hcompress).mpr
      decide +kernel

end DurableAgent.Context
