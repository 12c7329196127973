import DurableAgent.Domain.Commitment
import DurableAgent.Domain.JsonReading
import DurableAgent.Domain.Timestamps

/-!
# Envelopes read from their texts

What the schemas accept of a document, field by field, and that they accept what they have written.
How a text is read as a document and a time from its text is given from outside. Values of other
types, which the schemas may convert, are refused here.
-/

namespace DurableAgent

open Library

/-! ## Fields of a document -/

namespace Json

/-- The value of a field; of members with one key the last one counts. -/
def fieldOf : List (String × Json) → String → Option Json
  | [], _ => none
  | (key, v) :: fields, name => (fieldOf fields name).or (if key = name then some v else none)

/-- `DomainModel.reject_nul_strings` -/
def checked : Json → Option Json
  | .str s => if '\x00' ∈ s.toList then none else some (.str s)
  | v => some v

section Readers

variable {α : Type} (reader : Json → Option α)

/-- A field that has to be there. -/
def required (fields : List (String × Json)) (name : String) : Option α :=
  ((fieldOf fields name).bind checked).bind reader

/-- A field that has a default. -/
def defaulted (fields : List (String × Json)) (name : String) (default : α) : Option α :=
  match fieldOf fields name with
  | none => some default
  | some v => (checked v).bind reader

/-- `extra="forbid"` -/
def hasOnly (fields : List (String × Json)) (names : List String) : Bool :=
  fields.all fun field => field.1 ∈ names

def asString : Json → Option String
  | .str s => some s
  | _ => none

def asBool : Json → Option Bool
  | .bool b => some b
  | _ => none

/-- A number from a lower bound on. -/
def asNat (least : Nat) : Json → Option Nat
  | .int n => if (least : Int) ≤ n then some n.toNat else none
  | _ => none

def asOptional : Json → Option (Option α)
  | .null => some none
  | v => (reader v).map some

def asItems : Json → Option (List α)
  | .arr items => items.mapM reader
  | _ => none

def asDict : Json → Option (Dict String α)
  | .obj fields =>
    (fields.mapM fun field => (reader field.2).map fun v => (field.1, v)).map Dict.ofPairs
  | _ => none

/-- A member of an enumeration, by its value. -/
def asEnum (members : List α) (value : α → String) : Json → Option α
  | .str s => members.find? fun a => value a = s
  | _ => none

end Readers

/-! ## Fields as they are written -/

section Written

variable {α : Type} {reader : Json → Option α} {dump : α → Json}

theorem asNat_natCast {least n : Nat} (h : least ≤ n) : asNat least (.int n) = some n := by
  change (if (least : Int) ≤ n then some (n : Int).toNat else none) = some n
  rw [if_pos (Int.ofNat_le.mpr h), Int.toNat_natCast]

theorem asOptional_ofOption (o : Option String) : asOptional asString (ofOption o) = some o := by
  cases o <;> rfl

theorem mapM_map {β : Type} {f : β → Option α} {g : α → β} {l : List α}
    (h : ∀ a ∈ l, f (g a) = some a) : (l.map g).mapM f = some l := by
  induction l with
  | nil => rfl
  | cons a l ih =>
    rw [List.map_cons, List.mapM_cons, h a List.mem_cons_self,
      ih fun b hb => h b (List.mem_cons_of_mem a hb)]
    rfl

theorem asItems_map {l : List α} (h : ∀ a ∈ l, reader (dump a) = some a) :
    asItems reader (.arr (l.map dump)) = some l := mapM_map h

theorem asItems_ofStrings (l : List String) : asItems asString (ofStrings l) = some l :=
  asItems_map fun _ _ => rfl

theorem asDict_entries {d : Dict String α} (h : ∀ a, reader (dump a) = some a) :
    asDict reader (.obj (d.entries.map fun e => (e.1, dump e.2))) = some d := by
  have hentries : (d.entries.map fun e => (e.1, dump e.2)).mapM
      (fun field => (reader field.2).map fun v => (field.1, v)) = some d.entries := by
    apply mapM_map
    intro e _
    rw [h e.2]
    rfl
  change (List.mapM (fun field : String × Json => (reader field.2).map fun v => (field.1, v))
    (d.entries.map fun e => (e.1, dump e.2))).map Dict.ofPairs = some d
  rw [hentries, Option.map_some, Dict.ofPairs_self]

theorem asEnum_value {members : List α} {value : α → String} {a : α} (hmem : a ∈ members)
    (hinj : ∀ a b, value a = value b → a = b) : asEnum members value (.str (value a)) = some a := by
  change (members.find? fun b => value b = value a) = some a
  cases hfind : members.find? fun b => value b = value a with
  | none => simpa using List.find?_eq_none.mp hfind a hmem
  | some b =>
    have hvalue : value b = value a := by simpa using List.find?_some hfind
    rw [hinj b a hvalue]

@[simp] theorem checked_bool (b : Bool) : checked (.bool b) = some (.bool b) := rfl

@[simp] theorem checked_int (n : Int) : checked (.int n) = some (.int n) := rfl

@[simp] theorem checked_arr (items : List Json) : checked (.arr items) = some (.arr items) := rfl

@[simp] theorem checked_obj (fields : List (String × Json)) :
    checked (.obj fields) = some (.obj fields) := rfl

@[simp] theorem checked_ofStrings (l : List String) :
    checked (ofStrings l) = some (ofStrings l) := rfl

theorem checked_str {s : String} (h : '\x00' ∉ s.toList) : checked (.str s) = some (.str s) :=
  if_neg h

theorem checked_ofOption {o : Option String} (h : ∀ s ∈ o, '\x00' ∉ s.toList) :
    checked (ofOption o) = some (ofOption o) := by
  cases o with
  | none => rfl
  | some s => exact checked_str (h s rfl)

end Written

end Json

/-! ## Schemas -/

section Schemas

open Json

def ToolCallStatus.members : List ToolCallStatus :=
  [.INTENT_RECORDED, .RUNNING, .SUCCEEDED, .FAILED, .UNCERTAIN, .NEEDS_REVIEW]

def RunState.members : List RunState :=
  [.CREATED, .PLANNING, .RUNNING, .PAUSE_REQUESTED, .PAUSED, .RECOVERING, .COMPLETED, .FAILED,
    .CANCELLED]

def TaskState.members : List TaskState :=
  [.PENDING, .READY, .RUNNING, .WAITING, .PAUSE_REQUESTED, .PAUSED, .SUCCEEDED, .FAILED_RETRYABLE,
    .FAILED_TERMINAL, .CANCELLED, .SKIPPED]

/-- The pattern of a digest: 64 hexadecimal digits in lower case. -/
def IsDigest (s : String) : Prop :=
  s.toList.length = 64 ∧ ∀ c ∈ s.toList, c ∈ "0123456789abcdef".toList

instance (s : String) : Decidable (IsDigest s) := inferInstanceAs (Decidable (_ ∧ _))

def asDigest : Json → Option String
  | .str s => if IsDigest s then some s else none
  | _ => none

def ToolCallCheckpoint.modelValidate : Json → Option ToolCallCheckpoint
  | .obj fields =>
    if hasOnly fields ["tool_call_id", "idempotency_key", "status", "side_effect_class"] then do
      let toolCallId ← required asString fields "tool_call_id"
      let idempotencyKey ← required asString fields "idempotency_key"
      let status ← required (asEnum ToolCallStatus.members ToolCallStatus.value) fields "status"
      let sideEffectClass ← required asString fields "side_effect_class"
      some { toolCallId, idempotencyKey, status, sideEffectClass }
    else none
  | _ => none

def ErrorCheckpoint.modelValidate : Json → Option ErrorCheckpoint
  | .obj fields =>
    if hasOnly fields ["error_id", "category", "message", "retryable"] then do
      let errorId ← required asString fields "error_id"
      let category ← required asString fields "category"
      let message ← required asString fields "message"
      let retryable ← required asBool fields "retryable"
      some { errorId, category, message, retryable }
    else none
  | _ => none

/-- `CheckpointPayload.task_sets_are_consistent` -/
def Consistent (taskStates : Dict String TaskState) (completed pending : List String) : Prop :=
  (∀ t ∈ completed, t ∉ pending) ∧ (∀ t ∈ pending, t ∈ taskStates.keys) ∧
    (∀ t ∈ completed, (t, TaskState.SUCCEEDED) ∈ taskStates.entries) ∧
      ∀ entry ∈ taskStates.entries, entry.2 = .SUCCEEDED → entry.1 ∈ completed

instance (taskStates : Dict String TaskState) (completed pending : List String) :
    Decidable (Consistent taskStates completed pending) :=
  inferInstanceAs (Decidable (_ ∧ _ ∧ _ ∧ _))

theorem Consistent.completed_iff {taskStates : Dict String TaskState}
    {completed pending : List String} (h : Consistent taskStates completed pending) (t : String) :
    t ∈ completed ↔ (t, TaskState.SUCCEEDED) ∈ taskStates.entries :=
  ⟨h.2.2.1 t, fun hentry => h.2.2.2 _ hentry rfl⟩

theorem CheckpointPayload.consistent (p : CheckpointPayload) :
    Consistent p.taskStates p.completedTaskIds p.pendingTaskIds := by
  refine ⟨p.completed_not_pending, p.pending_known, fun t => (p.completed_iff t).mp, ?_⟩
  rintro ⟨t, state⟩ hentry rfl
  exact (p.completed_iff t).mpr hentry

def CheckpointPayload.fieldNames : List String :=
  ["run_id", "run_state", "active_task_id", "task_states", "completed_task_ids",
    "pending_task_ids", "plan_id", "plan_version", "context_ids", "summary_ids", "tool_calls",
    "artifact_ids", "evidence_ids", "retry_counters", "error", "repository_snapshot_id",
    "repository_manifest_hash", "configuration_fingerprint"]

def CheckpointPayload.modelValidate : Json → Option CheckpointPayload
  | .obj fields =>
    if hasOnly fields fieldNames then do
      let runId ← required asString fields "run_id"
      let runState ← required (asEnum RunState.members RunState.value) fields "run_state"
      let activeTaskId ← required (asOptional asString) fields "active_task_id"
      let taskStates ← required (asDict (asEnum TaskState.members TaskState.value)) fields
        "task_states"
      let completedTaskIds ← required (asItems asString) fields "completed_task_ids"
      let pendingTaskIds ← required (asItems asString) fields "pending_task_ids"
      let planId ← required asString fields "plan_id"
      let planVersion ← required (asNat 1) fields "plan_version"
      let contextIds ← defaulted (asItems asString) fields "context_ids" []
      let summaryIds ← defaulted (asItems asString) fields "summary_ids" []
      let toolCalls ← defaulted (asItems ToolCallCheckpoint.modelValidate) fields "tool_calls" []
      let artifactIds ← defaulted (asItems asString) fields "artifact_ids" []
      let evidenceIds ← defaulted (asItems asString) fields "evidence_ids" []
      let retryCounters ← defaulted (asDict (asNat 0)) fields "retry_counters" .empty
      let error ← defaulted (asOptional ErrorCheckpoint.modelValidate) fields "error" none
      let repositorySnapshotId ← defaulted (asOptional asString) fields "repository_snapshot_id"
        none
      let repositoryManifestHash ← defaulted (asOptional asString) fields
        "repository_manifest_hash" none
      let configurationFingerprint ← required asString fields "configuration_fingerprint"
      if h : 1 ≤ planVersion ∧ Consistent taskStates completedTaskIds pendingTaskIds then
        some
          { runId, runState, activeTaskId, taskStates, completedTaskIds, pendingTaskIds, planId
            planVersion, contextIds, summaryIds, toolCalls, artifactIds, evidenceIds, retryCounters
            error, repositorySnapshotId, repositoryManifestHash, configurationFingerprint
            planVersion_pos := h.1
            completed_not_pending := h.2.1
            pending_known := h.2.2.1
            completed_iff := h.2.completed_iff }
      else none
    else none
  | _ => none

def CheckpointEnvelope.fieldNames : List String :=
  ["checkpoint_id", "run_id", "schema_version", "sequence", "parent_hash", "payload",
    "payload_hash", "created_at"]

/-- `CheckpointEnvelope.model_validate`; `readTime` is how a time is read from its text, and
`now` what stands for one that is missing. -/
def CheckpointEnvelope.modelValidate (readTime : String → Option Timestamp) (now : Timestamp) :
    Json → Option CheckpointEnvelope
  | .obj fields =>
    if hasOnly fields fieldNames then do
      let checkpointId ← required asString fields "checkpoint_id"
      let runId ← required asString fields "run_id"
      let schemaVersion ← defaulted (asNat 0) fields "schema_version"
        currentCheckpointSchemaVersion
      let sequence ← required (asNat 1) fields "sequence"
      let parentHash ← defaulted (asOptional asDigest) fields "parent_hash" none
      let payload ← required CheckpointPayload.modelValidate fields "payload"
      let payloadHash ← required asDigest fields "payload_hash"
      let createdAt ← defaulted (fun v => (asString v).bind readTime) fields "created_at" now
      if h : schemaVersion = currentCheckpointSchemaVersion ∧ 1 ≤ sequence ∧
          runId = payload.runId then
        some
          { checkpointId, runId, schemaVersion, sequence, parentHash, payload, payloadHash
            createdAt
            schemaVersion_current := h.1
            sequence_pos := h.2.1
            identifiers_agree := h.2.2 }
      else none
    else none
  | _ => none

end Schemas

/-! ## What is written is accepted -/

section Accepted

open Json

/-- A text without NUL. -/
def NulFree (s : String) : Prop := '\x00' ∉ s.toList

instance (s : String) : Decidable (NulFree s) := inferInstanceAs (Decidable (¬ _))

/-- The strings of the fields are accepted. -/
structure ToolCallCheckpoint.Accepted (c : ToolCallCheckpoint) : Prop where
  toolCallId : NulFree c.toolCallId
  idempotencyKey : NulFree c.idempotencyKey
  sideEffectClass : NulFree c.sideEffectClass

structure ErrorCheckpoint.Accepted (e : ErrorCheckpoint) : Prop where
  errorId : NulFree e.errorId
  category : NulFree e.category
  message : NulFree e.message

/-- What the schema checks of a payload beside what its type says. -/
structure CheckpointPayload.Accepted (p : CheckpointPayload) : Prop where
  runId : NulFree p.runId
  activeTaskId : ∀ s ∈ p.activeTaskId, NulFree s
  planId : NulFree p.planId
  toolCalls : ∀ c ∈ p.toolCalls, c.Accepted
  error : ∀ e ∈ p.error, e.Accepted
  repositorySnapshotId : ∀ s ∈ p.repositorySnapshotId, NulFree s
  repositoryManifestHash : ∀ s ∈ p.repositoryManifestHash, NulFree s
  configurationFingerprint : NulFree p.configurationFingerprint

/-- What the schema checks of an envelope beside what its type says. -/
structure CheckpointEnvelope.Accepted (e : CheckpointEnvelope) : Prop where
  checkpointId : NulFree e.checkpointId
  parentHash : ∀ s ∈ e.parentHash, IsDigest s
  payload : e.payload.Accepted
  payloadHash : IsDigest e.payloadHash
  createdAt : e.createdAt.Representable

theorem value_nulFree (s : RunState) : NulFree s.value := by cases s <;> decide

theorem status_nulFree (s : ToolCallStatus) : NulFree s.value := by cases s <;> decide

theorem IsDigest.nulFree {s : String} (h : IsDigest s) : NulFree s :=
  fun hmem => absurd (h.2 _ hmem) (by decide)

theorem ToolCallCheckpoint.modelValidate_modelDump {c : ToolCallCheckpoint} (h : c.Accepted) :
    modelValidate c.modelDump = some c := by
  have hstatus : asEnum ToolCallStatus.members ToolCallStatus.value (.str c.status.value) =
      some c.status := asEnum_value (by cases c.status <;> decide) ToolCallStatus.value_injective
  simp [modelValidate, modelDump, required, hasOnly, fieldOf, asString, checked_str h.toolCallId,
    checked_str h.idempotencyKey, checked_str h.sideEffectClass,
    checked_str (status_nulFree c.status), hstatus]

theorem ErrorCheckpoint.modelValidate_modelDump {e : ErrorCheckpoint} (h : e.Accepted) :
    modelValidate e.modelDump = some e := by
  simp [modelValidate, modelDump, required, hasOnly, fieldOf, asString, asBool,
    checked_str h.errorId, checked_str h.category, checked_str h.message]

/-- An error is written as an object, and its absence as null. -/
theorem ErrorCheckpoint.asOptional_modelDump {error : Option ErrorCheckpoint}
    (h : ∀ e ∈ error, e.Accepted) :
    (checked ((error.map ErrorCheckpoint.modelDump).getD .null)).bind
      (asOptional ErrorCheckpoint.modelValidate) = some error := by
  cases error with
  | none => rfl
  | some e =>
    change (ErrorCheckpoint.modelValidate e.modelDump).map some = some (some e)
    rw [modelValidate_modelDump (h e rfl), Option.map_some]

theorem CheckpointPayload.modelValidate_modelDump {p : CheckpointPayload} (h : p.Accepted) :
    modelValidate p.modelDump = some p := by
  have hstates : asDict (asEnum TaskState.members TaskState.value)
      (.obj (p.taskStates.entries.map fun e => (e.1, .str e.2.value))) = some p.taskStates :=
    asDict_entries fun s => asEnum_value (by cases s <;> decide) TaskState.value_injective
  have hcounters : asDict (asNat 0)
      (.obj (p.retryCounters.entries.map fun e => (e.1, .int e.2))) = some p.retryCounters :=
    asDict_entries fun n => asNat_natCast (Nat.zero_le n)
  have htools : asItems ToolCallCheckpoint.modelValidate
      (.arr (p.toolCalls.map ToolCallCheckpoint.modelDump)) = some p.toolCalls :=
    asItems_map fun c hc => ToolCallCheckpoint.modelValidate_modelDump (h.toolCalls c hc)
  have hstate : asEnum RunState.members RunState.value (.str p.runState.value) = some p.runState :=
    asEnum_value (by cases p.runState <;> decide) RunState.value_injective
  have herror := ErrorCheckpoint.asOptional_modelDump h.error
  simp [modelValidate, modelDump, required, defaulted, hasOnly, fieldNames, fieldOf, asString,
    checked_str h.runId, checked_str (value_nulFree p.runState), checked_str h.planId,
    checked_str h.configurationFingerprint, checked_ofOption h.activeTaskId,
    checked_ofOption h.repositorySnapshotId, checked_ofOption h.repositoryManifestHash,
    asOptional_ofOption, asItems_ofStrings, asNat_natCast p.planVersion_pos, hstates, hcounters,
    htools, hstate, herror, p.planVersion_pos, p.consistent]

theorem asDigest_str {s : String} (h : IsDigest s) : asDigest (.str s) = some s := if_pos h

theorem asOptional_asDigest {o : Option String} (h : ∀ s ∈ o, IsDigest s) :
    asOptional asDigest (ofOption o) = some o := by
  cases o with
  | none => rfl
  | some s =>
    change (asDigest (.str s)).map some = _
    rw [asDigest_str (h s rfl), Option.map_some]

/-- An envelope is read again from its dump, when times are read from their texts. -/
theorem CheckpointEnvelope.modelValidate_modelDump {readTime : String → Option Timestamp}
    {e : CheckpointEnvelope} (h : e.Accepted)
    (hread : readTime e.createdAt.jsonFormat = some e.createdAt) (now : Timestamp) :
    modelValidate readTime now e.modelDump = some e := by
  have hparent : ∀ s ∈ e.parentHash, NulFree s := fun s hs => (h.parentHash s hs).nulFree
  have hchecked : checked e.payload.modelDump = some e.payload.modelDump := rfl
  simp [modelValidate, modelDump, required, defaulted, hasOnly, fieldNames, fieldOf, asString,
    checked_str h.checkpointId, checked_str h.payload.runId, checked_str h.payloadHash.nulFree,
    checked_str e.createdAt.nul_notMem_jsonFormat, checked_ofOption hparent, hchecked,
    CheckpointPayload.modelValidate_modelDump h.payload, asOptional_asDigest h.parentHash,
    asDigest_str h.payloadHash, asNat_natCast e.sequence_pos, asNat_natCast (Nat.zero_le _), hread,
    e.schemaVersion_current, e.sequence_pos, e.identifiers_agree]
  obtain ⟨_, runId, version, _, _, payload, _, _, hversion, _, hrun⟩ := e
  obtain rfl : version = currentCheckpointSchemaVersion := hversion
  obtain rfl : runId = payload.runId := hrun
  rfl

end Accepted

/-! ## Texts of envelopes -/

namespace CheckpointEnvelope

/-- `CheckpointEnvelope.model_dump_json` -/
def modelDumpJson (e : CheckpointEnvelope) : String := e.modelDump.toText

section Texts

variable (parse : String → Option Json) (readTime : String → Option Timestamp) (now : Timestamp)
  (sha256Digest : String → String)

/-- `CheckpointEnvelope.from_untrusted_json` of a text -/
def fromUntrustedJson (text : String) : Except Exn CheckpointEnvelope :=
  match (parse text).bind (modelValidate readTime now) with
  | none => .error (.other "ValidationError")
  | some e =>
    match e.verify sha256Digest with
    | .error error => .error error
    | .ok () => .ok e

variable {parse readTime sha256Digest}

theorem fromUntrustedJson_modelDumpJson {e : CheckpointEnvelope}
    (hparse : parse e.modelDumpJson = some e.modelDump)
    (hread : readTime e.createdAt.jsonFormat = some e.createdAt) (h : e.Accepted)
    (hverified : e.Verified sha256Digest) :
    fromUntrustedJson parse readTime now sha256Digest e.modelDumpJson = .ok e := by
  unfold fromUntrustedJson
  rw [hparse, Option.bind_some, modelValidate_modelDump h hread]
  dsimp only
  rw [verify_eq_ok.mpr hverified]

theorem create_accepted {checkpointId : String} {sequence : Nat} {hseq : 1 ≤ sequence}
    {payload : CheckpointPayload} {parentHash : Option String} {createdAt : Timestamp}
    (hdigest : ∀ text, IsDigest (sha256Digest text)) (hpayload : payload.Accepted)
    (hid : NulFree checkpointId) (hparent : ∀ s ∈ parentHash, IsDigest s)
    (htime : createdAt.Representable) :
    (create sha256Digest checkpointId sequence hseq payload parentHash createdAt).Accepted :=
  ⟨hid, hparent, hpayload, hdigest _, htime⟩

/-- Verified payloads of one hash hold the same values. -/
theorem same_of_payloadHash (hinj : Function.Injective sha256Digest) {a b : CheckpointEnvelope}
    (ha : a.Verified sha256Digest) (hb : b.Verified sha256Digest)
    (h : a.payloadHash = b.payloadHash) : SamePayload a.payload b.payload := by
  have hdigest : a.payload.digest sha256Digest = b.payload.digest sha256Digest :=
    (ha.trans h).trans hb.symm
  exact CheckpointPayload.same_of_dump (sorted_eq_of_canonicalJson_eq (hinj hdigest))

/-- An envelope that was created is read from its text as it was, and what two verified envelopes
with one hash hold is the same: of their payloads, or of all. -/
theorem envelope_integrity (now : Timestamp) (hparse : ∀ v : Json, parse v.toText = some v)
    (hread : ∀ t : Timestamp, t.Representable → readTime t.jsonFormat = some t) :
    (∀ sha256Digest : String → String, (∀ text, IsDigest (sha256Digest text)) →
      ∀ checkpointId sequence hseq payload parentHash createdAt, payload.Accepted →
        NulFree checkpointId → (∀ s ∈ parentHash, IsDigest s) → createdAt.Representable →
        ∃ e, fromUntrustedJson parse readTime now sha256Digest
              (create sha256Digest checkpointId sequence hseq payload parentHash
                createdAt).modelDumpJson = .ok e ∧
            e = create sha256Digest checkpointId sequence hseq payload parentHash createdAt ∧
            e.chainHash sha256Digest = (create sha256Digest checkpointId sequence hseq payload
              parentHash createdAt).chainHash sha256Digest) ∧
    (∀ sha256Digest : String → String, Function.Injective sha256Digest →
      ∀ a b : CheckpointEnvelope, a.Verified sha256Digest → b.Verified sha256Digest →
        a.createdAt.Representable → b.createdAt.Representable →
        (a.payloadHash = b.payloadHash → SamePayload a.payload b.payload) ∧
        (a.chainHash sha256Digest = b.chainHash sha256Digest →
          SameEnvelope a b ∧ a.createdAt = b.createdAt)) := by
  constructor
  · intro sha256Digest hdigest checkpointId sequence hseq payload parentHash createdAt hpayload hid
      hparent htime
    have haccepted := @create_accepted sha256Digest checkpointId sequence hseq payload parentHash
      createdAt hdigest hpayload hid hparent htime
    refine ⟨_, fromUntrustedJson_modelDumpJson now (hparse _) (hread _ htime) haccepted ?_, rfl,
      rfl⟩
    exact create_verified
  · intro sha256Digest hinj a b ha hb hta htb
    refine ⟨same_of_payloadHash hinj ha hb, fun h => ?_⟩
    have hsame := same_of_chainHash hinj h
    exact ⟨hsame, Timestamp.jsonFormat_injective hta htb hsame.createdAt⟩

/-- A payload before anything has been done. -/
def freshPayload : CheckpointPayload where
  runId := "run"
  runState := .RUNNING
  activeTaskId := none
  taskStates := .ofPairs [("task", .PENDING)]
  completedTaskIds := []
  pendingTaskIds := ["task"]
  planId := "plan"
  planVersion := 1
  configurationFingerprint := "fingerprint"
  planVersion_pos := PlanSpec.first_version
  completed_not_pending := by decide
  pending_known := by decide
  completed_iff := by simp [Dict.ofPairs_entries]

/-- A digest function that always answers with one digest. -/
def zeroDigest (_ : String) : String := String.ofList (List.replicate 64 '0')

theorem envelope_integrity_fresh :
    (∃ e, fromUntrustedJson Json.ofText Timestamp.ofJsonFormat 0 zeroDigest
        (create zeroDigest "checkpoint" 1 le_rfl freshPayload none 1709210096000007).modelDumpJson =
          .ok e ∧
      e = create zeroDigest "checkpoint" 1 le_rfl freshPayload none 1709210096000007 ∧
      e.chainHash zeroDigest =
        (create zeroDigest "checkpoint" 1 le_rfl freshPayload none 1709210096000007).chainHash
          zeroDigest) ∧
    SamePayload (create id "first" 1 le_rfl freshPayload none 0).payload
      (create id "second" 2 (by decide) freshPayload none 1).payload := by
  have hzero : IsDigest (zeroDigest "") := by
    unfold IsDigest zeroDigest
    rw [String.toList_ofList, List.length_replicate]
    refine ⟨rfl, fun c hc => ?_⟩
    rw [List.eq_of_mem_replicate hc]
    decide
  have hfresh : freshPayload.Accepted := by
    constructor <;> first | decide | simp [freshPayload]
  have h := @envelope_integrity Json.ofText Timestamp.ofJsonFormat 0 Json.ofText_toText
    fun t => Timestamp.ofJsonFormat_jsonFormat
  refine ⟨h.1 zeroDigest (fun _ => hzero) "checkpoint" 1 le_rfl freshPayload none
    1709210096000007 hfresh (by decide) (by simp) (by decide), ?_⟩
  exact (h.2 id Function.injective_id (create id "first" 1 le_rfl freshPayload none 0)
    (create id "second" 2 (by decide) freshPayload none 1) create_verified create_verified
    (by decide) (by decide)).1 rfl

end Texts

end CheckpointEnvelope

end DurableAgent
