import DurableAgent.Domain.CanonicalJson
import DurableAgent.Domain.Checkpoint

/-!
# What a chain hash commits to

Envelopes of one chain hash hold the same values in every field, when no two texts share a
digest. A dictionary counts as the set of its entries, and a time as the text it is stored as.
-/

namespace DurableAgent

open Library

/-! ## Fields of a dump -/

theorem Json.ofOption_sorted (o : Option String) : (ofOption o).sorted = ofOption o := by
  cases o <;> rfl

theorem Json.ofOption_injective {o o' : Option String} (h : ofOption o = ofOption o') : o = o' := by
  cases o <;> cases o' <;> cases h <;> rfl

theorem Json.sortedItems_eq (items : List Json) : sortedItems items = items.map sorted := by
  induction items with
  | nil => rfl
  | cons item items ih => rw [sortedItems, ih, List.map_cons]

theorem Json.sortedFields_eq (fields : List (String × Json)) :
    sortedFields fields = fields.map fun field => (field.1, field.2.sorted) := by
  induction fields with
  | nil => rfl
  | cons field fields ih =>
    obtain ⟨key, value⟩ := field
    rw [sortedFields, ih, List.map_cons]

theorem Json.ofStrings_injective {l l' : List String}
    (h : (ofStrings l).sorted = (ofStrings l').sorted) : l = l' := by
  simp only [ofStrings, sorted, sortedItems_eq, List.map_map, Json.arr.injEq] at h
  refine List.map_injective_iff.mpr (fun a b hab => ?_) h
  simpa [sorted] using hab

/-- Two dumped lists are equal when their items are told apart by their dumps. -/
theorem Json.arr_injective {α : Type} {f : α → Json}
    (hf : ∀ a b, (f a).sorted = (f b).sorted → a = b) {l l' : List α}
    (h : (Json.arr (l.map f)).sorted = (Json.arr (l'.map f)).sorted) : l = l' := by
  simp only [sorted, sortedItems_eq, List.map_map, Json.arr.injEq] at h
  exact List.map_injective_iff.mpr (fun a b hab => hf a b hab) h

/-- Two dumped dictionaries have the same entries when their values are told apart by their
dumps. -/
theorem Json.obj_perm {α : Type} {f : α → Json} (hf : ∀ a b, (f a).sorted = (f b).sorted → a = b)
    {l l' : List (String × α)} (h : (Json.obj (l.map fun e => (e.1, f e.2))).sorted =
      (Json.obj (l'.map fun e => (e.1, f e.2))).sorted) : l.Perm l' := by
  simp only [sorted, sortedFields_eq, List.map_map, Json.obj.injEq] at h
  have hsorted := List.perm_insertionSort (fun a b : String × Json => a.1 ≤ b.1)
    (l.map ((fun field => (field.1, field.2.sorted)) ∘ fun e => (e.1, f e.2)))
  rw [h] at hsorted
  have hperm := hsorted.symm.trans (List.perm_insertionSort _ _)
  refine (List.map_perm_map_iff fun a b hab => ?_).mp hperm
  simp only [Function.comp, Prod.mk.injEq] at hab
  exact Prod.ext hab.1 (hf _ _ hab.2)

theorem RunState.value_injective : ∀ s t : RunState, s.value = t.value → s = t := by
  intro s t
  cases s <;> cases t <;> simp [value]

theorem TaskState.value_injective : ∀ s t : TaskState, s.value = t.value → s = t := by
  intro s t
  cases s <;> cases t <;> simp [value]

theorem ToolCallStatus.value_injective : ∀ s t : ToolCallStatus, s.value = t.value → s = t := by
  intro s t
  cases s <;> cases t <;> simp [value]

theorem ToolCallCheckpoint.dump_injective (a b : ToolCallCheckpoint)
    (h : a.modelDump.sorted = b.modelDump.sorted) : a = b := by
  simp [modelDump, Json.sorted, Json.sortedFields, List.insertionSort, List.orderedInsert] at h
  obtain ⟨hkey, hclass, hstatus, hid⟩ := h
  have hstatus' := ToolCallStatus.value_injective _ _ hstatus
  cases a
  cases b
  simp_all

theorem ErrorCheckpoint.dump_injective (a b : ErrorCheckpoint)
    (h : a.modelDump.sorted = b.modelDump.sorted) : a = b := by
  simp [modelDump, Json.sorted, Json.sortedFields, List.insertionSort, List.orderedInsert] at h
  obtain ⟨hcategory, hid, hmessage, hretryable⟩ := h
  cases a
  cases b
  simp_all

theorem ErrorCheckpoint.option_injective {a b : Option ErrorCheckpoint}
    (h : ((a.map modelDump).getD .null).sorted = ((b.map modelDump).getD .null).sorted) :
    a = b := by
  cases a with
  | none =>
    cases b with
    | none => rfl
    | some b => simp [modelDump, Json.sorted] at h
  | some a =>
    cases b with
    | none => simp [modelDump, Json.sorted] at h
    | some b => rw [dump_injective a b h]

/-! ## Payloads and envelopes -/

/-- The payloads hold the same values. -/
structure SamePayload (a b : CheckpointPayload) : Prop where
  runId : a.runId = b.runId
  runState : a.runState = b.runState
  activeTaskId : a.activeTaskId = b.activeTaskId
  taskStates : a.taskStates.entries.Perm b.taskStates.entries
  completedTaskIds : a.completedTaskIds = b.completedTaskIds
  pendingTaskIds : a.pendingTaskIds = b.pendingTaskIds
  planId : a.planId = b.planId
  planVersion : a.planVersion = b.planVersion
  contextIds : a.contextIds = b.contextIds
  summaryIds : a.summaryIds = b.summaryIds
  toolCalls : a.toolCalls = b.toolCalls
  artifactIds : a.artifactIds = b.artifactIds
  evidenceIds : a.evidenceIds = b.evidenceIds
  retryCounters : a.retryCounters.entries.Perm b.retryCounters.entries
  error : a.error = b.error
  repositorySnapshotId : a.repositorySnapshotId = b.repositorySnapshotId
  repositoryManifestHash : a.repositoryManifestHash = b.repositoryManifestHash
  configurationFingerprint : a.configurationFingerprint = b.configurationFingerprint

/-- The envelopes hold the same values, the schema version included, of which there is one. -/
structure SameEnvelope (a b : CheckpointEnvelope) : Prop where
  checkpointId : a.checkpointId = b.checkpointId
  runId : a.runId = b.runId
  sequence : a.sequence = b.sequence
  parentHash : a.parentHash = b.parentHash
  payload : SamePayload a.payload b.payload
  payloadHash : a.payloadHash = b.payloadHash
  createdAt : a.createdAt.jsonFormat = b.createdAt.jsonFormat

theorem Json.optional {o o' : Option String} (h : (ofOption o).sorted = (ofOption o').sorted) :
    o = o' := by
  rw [ofOption_sorted, ofOption_sorted] at h
  exact ofOption_injective h

theorem CheckpointPayload.same_of_dump {a b : CheckpointPayload}
    (h : a.modelDump.sorted = b.modelDump.sorted) : SamePayload a b := by
  simp [modelDump, Json.sorted, Json.sortedFields, List.insertionSort, List.orderedInsert] at h
  obtain ⟨hactive, hartifacts, hcompleted, hconfiguration, hcontexts, herror, hevidence, hpending,
    hplan, hversion, hmanifest, hsnapshot, hretries, hrun, hstate, hsummaries, hstates,
    htools⟩ := h
  have hretries' : (Json.obj (a.retryCounters.entries.map fun e => (e.1, Json.int e.2))).sorted =
      (Json.obj (b.retryCounters.entries.map fun e => (e.1, Json.int e.2))).sorted :=
    congrArg Json.obj hretries
  have hstates' : (Json.obj (a.taskStates.entries.map fun e => (e.1, Json.str e.2.value))).sorted =
      (Json.obj (b.taskStates.entries.map fun e => (e.1, Json.str e.2.value))).sorted :=
    congrArg Json.obj hstates
  exact
    { runId := hrun
      runState := RunState.value_injective _ _ hstate
      activeTaskId := Json.optional hactive
      taskStates := Json.obj_perm (f := fun s : TaskState => .str s.value)
        (fun s t hst => TaskState.value_injective s t (Json.str.inj hst)) hstates'
      completedTaskIds := Json.ofStrings_injective hcompleted
      pendingTaskIds := Json.ofStrings_injective hpending
      planId := hplan
      planVersion := by omega
      contextIds := Json.ofStrings_injective hcontexts
      summaryIds := Json.ofStrings_injective hsummaries
      toolCalls := Json.arr_injective ToolCallCheckpoint.dump_injective (congrArg Json.arr htools)
      artifactIds := Json.ofStrings_injective hartifacts
      evidenceIds := Json.ofStrings_injective hevidence
      retryCounters := Json.obj_perm (f := fun n : Nat => .int n)
        (fun n m hnm => Int.ofNat.inj (Json.int.inj hnm)) hretries'
      error := ErrorCheckpoint.option_injective herror
      repositorySnapshotId := Json.optional hsnapshot
      repositoryManifestHash := Json.optional hmanifest
      configurationFingerprint := hconfiguration }

theorem CheckpointEnvelope.same_of_dump {a b : CheckpointEnvelope}
    (h : a.modelDump.sorted = b.modelDump.sorted) : SameEnvelope a b := by
  simp only [modelDump, Json.sorted, Json.sortedFields] at h
  simp [List.insertionSort, List.orderedInsert] at h
  obtain ⟨hid, hcreated, hparent, hpayload, hhash, hrun, -, hsequence⟩ := h
  exact
    { checkpointId := hid
      runId := hrun
      sequence := by omega
      parentHash := Json.optional hparent
      payload := CheckpointPayload.same_of_dump hpayload
      payloadHash := hhash
      createdAt := hcreated }

/-- Without colliding digests the chain hash of an envelope determines what it holds. -/
theorem CheckpointEnvelope.same_of_chainHash {sha256Digest : String → String}
    (hinj : Function.Injective sha256Digest) {a b : CheckpointEnvelope}
    (h : a.chainHash sha256Digest = b.chainHash sha256Digest) : SameEnvelope a b :=
  same_of_dump (sorted_eq_of_canonicalJson_eq (hinj h))

end DurableAgent
