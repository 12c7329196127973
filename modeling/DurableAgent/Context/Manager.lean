import DurableAgent.Domain.Errors
import DurableAgent.Domain.Base
import DurableAgent.Library.Dict
import DurableAgent.Library.Binary64
import Mathlib.Data.List.Sort

/-!
# The context manager

The context items, the snapshots and the summaries, and `ContextManager`, which selects what fits
the budget and compresses the rest. The identifiers and the readings of the clock that a call
draws are its arguments; metrics and spans are left out.
-/

namespace DurableAgent.Context

open Library

/-- A new identifier and the reading of the clock that goes with it. -/
structure Stamp where
  id : String
  time : Timestamp

inductive SummaryLevel where
  | TASK | TASK_GROUP | RUN
  deriving DecidableEq, Repr

structure ContextItem where
  itemId : String
  category : String
  content : String
  estimatedTokens : Nat
  priority : Nat := 100
  sourceRefs : List String := []
  evidenceIds : List String := []
  mandatory : Bool := false
  createdAt : Timestamp
  priority_le : priority ≤ 1000
  deriving DecidableEq

/-- The fields of a summary, before they are validated. -/
structure SummaryFields where
  summaryId : String
  runId : String
  level : SummaryLevel
  content : String
  estimatedTokens : Nat
  sourceItemIds : List String
  sourceHashes : Dict String String
  sourceSummaryIds : List String := []
  retainedConstraints : List String := []
  retainedQuestions : List String := []
  retainedDecisions : List String := []
  evidenceIds : List String := []
  removedItemIds : List String := []
  generation : Nat := 1
  valid : Bool := true
  invalidatedReason : Option String := none
  createdAt : Timestamp
  deriving DecidableEq

/-- `source_manifest_complete`, with the bounds of the fields -/
structure SummaryFields.Wellformed (s : SummaryFields) : Prop where
  sources : s.sourceItemIds ≠ []
  generation_pos : 1 ≤ s.generation
  generation_le : s.generation ≤ 3
  covered : ∀ id ∈ s.sourceItemIds, id ∈ s.sourceHashes.keys
  declared : ∀ id ∈ s.sourceHashes.keys, id ∈ s.sourceItemIds
  retained : 1 < s.generation → s.retainedConstraints ≠ []

instance (s : SummaryFields) : Decidable s.Wellformed :=
  decidable_of_iff
    ((s.sourceItemIds ≠ [] ∧ 1 ≤ s.generation ∧ s.generation ≤ 3) ∧
      (∀ id ∈ s.sourceItemIds, id ∈ s.sourceHashes.keys) ∧
      (∀ id ∈ s.sourceHashes.keys, id ∈ s.sourceItemIds) ∧
      (1 < s.generation → s.retainedConstraints ≠ []))
    ⟨fun ⟨⟨h₁, h₂, h₃⟩, h₄, h₅, h₆⟩ => ⟨h₁, h₂, h₃, h₄, h₅, h₆⟩,
      fun ⟨h₁, h₂, h₃, h₄, h₅, h₆⟩ => ⟨⟨h₁, h₂, h₃⟩, h₄, h₅, h₆⟩⟩

structure SummaryRecord extends SummaryFields where
  wellformed : toSummaryFields.Wellformed
  deriving DecidableEq

def SummaryFields.validate (s : SummaryFields) : Except Exn SummaryRecord :=
  if h : s.Wellformed then .ok ⟨s, h⟩ else .error (.other "validation error for SummaryRecord")

/-- The copy of a summary that `invalidate_summaries_for_run` stores. -/
def SummaryRecord.invalidated (s : SummaryRecord) (reason : String) : SummaryRecord where
  toSummaryFields := { s.toSummaryFields with valid := false, invalidatedReason := some reason }
  wellformed := ⟨s.wellformed.sources, s.wellformed.generation_pos, s.wellformed.generation_le,
    s.wellformed.covered, s.wellformed.declared, s.wellformed.retained⟩

/-- The fields of a snapshot, before they are validated. -/
structure SnapshotFields where
  contextId : String
  runId : String
  taskId : Option String := none
  budgetTokens : Nat
  usedTokens : Nat
  itemIds : List String
  summaryIds : List String := []
  removedItemIds : List String := []
  createdAt : Timestamp
  deriving DecidableEq

structure ContextSnapshot extends SnapshotFields where
  budget_pos : 0 < budgetTokens
  within_budget : usedTokens ≤ budgetTokens
  deriving DecidableEq

def SnapshotFields.validate (s : SnapshotFields) : Except Exn ContextSnapshot :=
  if h : 0 < s.budgetTokens ∧ s.usedTokens ≤ s.budgetTokens then .ok ⟨s, h.1, h.2⟩
  else .error (.other "context snapshot exceeds its budget")

theorem least_reservation : 128 ≤ 128 := Nat.le_refl 128

theorem four_fifths : (1 : ℚ) / 5 < 4 / 5 ∧ (4 : ℚ) / 5 ≤ 19 / 20 := by norm_num

/-- Fixed reservations and what they leave to the context. -/
structure ContextBudget where
  contextLimit : Nat
  reservedOutput : Nat
  systemInstructions : Nat
  userRequest : Nat
  compressionThreshold : ℚ := 4 / 5
  contextLimit_min : 2048 ≤ contextLimit
  reservedOutput_min : 128 ≤ reservedOutput
  systemInstructions_min : 128 ≤ systemInstructions
  userRequest_min : 128 ≤ userRequest
  compressionThreshold_bounds : 1 / 5 < compressionThreshold ∧ compressionThreshold ≤ 19 / 20
  reservations_fit : reservedOutput + systemInstructions + userRequest < contextLimit

namespace ContextBudget

variable (budget : ContextBudget)

def available : Nat :=
  budget.contextLimit - budget.reservedOutput - budget.systemInstructions - budget.userRequest

theorem available_pos : 0 < budget.available := by
  have hfit := budget.reservations_fit
  unfold available
  omega

/-- The floor of a product of floats, to which the capacity is converted first. -/
def compressionAt : Except Exn Nat :=
  match Binary64.ofNat budget.available with
  | none => .error (.other "int too large to convert to float")
  | some capacity => .ok ⌊Binary64.nearest (capacity * budget.compressionThreshold)⌋₊

theorem compressionAt_le {threshold : Nat} (h : budget.compressionAt = .ok threshold) :
    threshold ≤ budget.available := by
  unfold compressionAt at h
  cases hfloat : Binary64.ofNat budget.available with
  | none => simp [hfloat] at h
  | some capacity =>
    have hle := Binary64.nearest_share_le budget.available_pos
      budget.compressionThreshold_bounds.1 budget.compressionThreshold_bounds.2 hfloat
    simp only [hfloat, Except.ok.injEq] at h
    rw [← h]
    exact Nat.floor_le_of_le hle

end ContextBudget

/-! ## Texts -/

/-- `ContextManager.estimate_tokens` -/
def estimateTokens (content : String) : Nat :=
  if content = "" then 0 else max ((content.utf8ByteSize + 3) / 4) 1

/-- A character takes a byte at least. -/
theorem length_le_utf8ByteSize (s : String) : s.length ≤ s.utf8ByteSize := by
  rw [← String.length_toList]
  conv_rhs => rw [← String.ofList_toList (s := s)]
  induction s.toList with
  | nil => simp
  | cons c l ih =>
    have hpos := c.utf8Size_pos
    rw [String.ofList_cons, String.utf8ByteSize_append, String.utf8ByteSize_singleton,
      List.length_cons]
    omega

/-- The characters at which `str.split` splits. -/
def isSpace (c : Char) : Bool :=
  (0x9 ≤ c.toNat ∧ c.toNat ≤ 0xd) ∨ (0x1c ≤ c.toNat ∧ c.toNat ≤ 0x20) ∨ c.toNat = 0x85 ∨
    c.toNat = 0xa0 ∨ c.toNat = 0x1680 ∨ (0x2000 ≤ c.toNat ∧ c.toNat ≤ 0x200a) ∨
    c.toNat = 0x2028 ∨ c.toNat = 0x2029 ∨ c.toNat = 0x202f ∨ c.toNat = 0x205f ∨ c.toNat = 0x3000

/-- The words of a text, joined by single blanks. -/
def compact (content : String) : String :=
  " ".intercalate
    (((content.toList.splitOnP isSpace).filter fun word => word ≠ []).map String.ofList)

/-- A text cut to a number of characters, with a mark where it was cut. -/
def truncated (content : String) (maximumCharacters : Nat) : String :=
  if maximumCharacters < content.length then
    String.ofList (content.toList.take (max (maximumCharacters - 20) 1)) ++ "… [truncated]"
  else content

/-! ## Selection -/

def preservedCategories : List String :=
  ["constraint", "negative_requirement", "decision", "question", "task_state"]

theorem ordinary_priority : 100 ≤ 1000 := by decide

/-- `create_item` -/
def createItem (stamp : Stamp) (category content : String) (priority : Nat)
    (sourceRefs evidenceIds : List String) (mandatory : Bool) (h : priority ≤ 1000) :
    ContextItem where
  itemId := stamp.id
  category := category
  content := content
  estimatedTokens := estimateTokens content
  priority := priority
  sourceRefs := sourceRefs
  evidenceIds := evidenceIds
  mandatory := mandatory
  createdAt := stamp.time
  priority_le := h

/-- An item that the selection keeps whatever its size. -/
def ContextItem.Preserved (item : ContextItem) : Prop :=
  item.mandatory = true ∨ item.category ∈ preservedCategories

instance (item : ContextItem) : Decidable item.Preserved :=
  inferInstanceAs (Decidable (_ ∨ _))

/-- The order of the selection. -/
def SelectedBefore (a b : ContextItem) : Prop :=
  a.priority < b.priority ∨ a.priority = b.priority ∧ a.itemId ≤ b.itemId

instance (a b : ContextItem) : Decidable (SelectedBefore a b) :=
  inferInstanceAs (Decidable (_ ∨ _))

def mandatoryItems (items : List ContextItem) : List ContextItem :=
  (items.filter fun item => item.Preserved).insertionSort SelectedBefore

def optionalItems (items : List ContextItem) : List ContextItem :=
  (items.filter fun item => item ∉ mandatoryItems items).insertionSort SelectedBefore

def tokens (items : List ContextItem) : Nat := (items.map ContextItem.estimatedTokens).sum

/-- The optional items that fit below a limit, each taken if it fits beside those before it. -/
def fitting (limit : Nat) : List ContextItem → Nat → List ContextItem
  | [], _ => []
  | item :: rest, used =>
    if used + item.estimatedTokens ≤ limit then
      item :: fitting limit rest (used + item.estimatedTokens)
    else fitting limit rest used

/-- `_summary_references` -/
def summaryReferences (items : List ContextItem) : List String :=
  ((items.filter fun item => item.category = "summary").flatMap ContextItem.sourceRefs).eraseDups

/-! ## Compression -/

/-- The content of a summary of the removed items. -/
def summaryContent (removed : List ContextItem) (maximumTokens : Nat) : String :=
  truncated
    ("\n".intercalate
      ("Compressed navigation summary; verify conclusions against source/evidence IDs:" ::
        removed.map fun item => s!"- [{item.itemId}] {compact item.content}"))
    (maximumTokens * 4)

/-- The constraints that a summary declares, which a repeated summary never leaves empty. -/
def retainedConstraints (removed : List ContextItem) (generation : Nat) : List String :=
  let constraints := (removed.filter fun item =>
    item.category = "constraint" ∨ item.category = "negative_requirement").map ContextItem.content
  if 1 < generation ∧ constraints = [] then
    ["No removed constraint; raw constraints remain in active context."]
  else constraints

/-- The hash of every removed item, by its identifier. -/
def sourceHashes (sha256Digest : String → String) (removed : List ContextItem) :
    Dict String String :=
  .ofPairs (removed.map fun item => (item.itemId, sha256Digest item.content))

structure ContextManager where
  budget : ContextBudget
  sha256Digest : String → String

/-- `_compress`: a summary, where there is room for one -/
def ContextManager.compress (manager : ContextManager) (stamp : Stamp) (runId : String)
    (removed : List ContextItem) (level : SummaryLevel) (generation maximumTokens : Nat) :
    Except Exn (Option SummaryRecord) :=
  if removed = [] ∨ maximumTokens < 16 then .ok none
  else do
    let content := summaryContent removed maximumTokens
    let summary ← SummaryFields.validate
      { summaryId := stamp.id
        runId := runId
        level := level
        content := content
        estimatedTokens := min (estimateTokens content) maximumTokens
        sourceItemIds := removed.map ContextItem.itemId
        sourceHashes := sourceHashes manager.sha256Digest removed
        sourceSummaryIds := summaryReferences removed
        retainedConstraints := retainedConstraints removed generation
        retainedQuestions :=
          (removed.filter fun item => item.category = "question").map ContextItem.content
        retainedDecisions :=
          (removed.filter fun item => item.category = "decision").map ContextItem.content
        evidenceIds := (removed.flatMap ContextItem.evidenceIds).dedup.insertionSort (· ≤ ·)
        removedItemIds := removed.map ContextItem.itemId
        generation := generation
        createdAt := stamp.time }
    .ok (some summary)

/-- What `build` selects under pressure. -/
structure Selection where
  selected : List ContextItem
  removed : List ContextItem

/-- The selection of `build` once the threshold is crossed. -/
def ContextBudget.select (budget : ContextBudget) (items : List ContextItem) : Selection :=
  let mandatory := mandatoryItems items
  let used := tokens mandatory
  let summaryReserve := min (max (budget.available / 5) 64) 1024
  let optionalLimit := max (budget.available - summaryReserve) used
  let selected := mandatory ++ fitting optionalLimit (optionalItems items) used
  { selected := selected
    removed := (optionalItems items).filter fun item =>
      item.itemId ∉ selected.map ContextItem.itemId }

/-- The stamps that one call of `build` draws. -/
structure BuildStamps where
  summary : Stamp
  context : Stamp

/-- The snapshot of everything, below the threshold. -/
def ContextBudget.wholeSnapshot (budget : ContextBudget) (stamps : BuildStamps) (runId : String)
    (taskId : Option String) (items : List ContextItem) : SnapshotFields :=
  let active := mandatoryItems items ++ optionalItems items
  { contextId := stamps.context.id, runId := runId, taskId := taskId
    budgetTokens := budget.available, usedTokens := tokens active
    itemIds := active.map ContextItem.itemId, summaryIds := summaryReferences active
    createdAt := stamps.context.time }

/-- The snapshot of a selection, with the summary of what it removed. -/
def ContextBudget.selectedSnapshot (budget : ContextBudget) (stamps : BuildStamps)
    (runId : String) (taskId : Option String) (s : Selection) (summary : Option SummaryRecord) :
    SnapshotFields where
  contextId := stamps.context.id
  runId := runId
  taskId := taskId
  budgetTokens := budget.available
  usedTokens := tokens s.selected +
    match summary with
    | some summary => summary.estimatedTokens
    | none => 0
  itemIds := s.selected.map ContextItem.itemId
  summaryIds := match summary with
    | some summary => summaryReferences s.selected ++ [summary.summaryId]
    | none => summaryReferences s.selected
  removedItemIds := s.removed.map ContextItem.itemId
  createdAt := stamps.context.time

/-- `build` -/
def ContextManager.build (manager : ContextManager) (stamps : BuildStamps) (runId : String)
    (taskId : Option String) (items : List ContextItem) (level : SummaryLevel)
    (generation : Nat) : Except Exn (ContextSnapshot × Option SummaryRecord) :=
  let budget := manager.budget
  if ¬ (items.map ContextItem.itemId).Nodup then
    .error (.of .domainValidation "context item IDs must be unique")
  else if budget.available < tokens (mandatoryItems items) then
    .error (.of .domainValidation "mandatory constraints and active state exceed the context budget")
  else do
    let threshold ← budget.compressionAt
    if tokens (mandatoryItems items) + tokens (optionalItems items) ≤ threshold then do
      let snapshot ← (budget.wholeSnapshot stamps runId taskId items).validate
      .ok (snapshot, none)
    else do
      let s := budget.select items
      let summary ← manager.compress stamps.summary runId s.removed level generation
        (budget.available - tokens s.selected)
      let snapshot ← (budget.selectedSnapshot stamps runId taskId s summary).validate
      .ok (snapshot, summary)

end DurableAgent.Context
