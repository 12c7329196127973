import DurableAgent.Domain.PlanBatches

/-!
# Progress of a validated plan

Over the records of a validated plan `ready_tasks` looks up no unknown task, selects exactly what
may be scheduled and waits for nothing, and gives it in one order whatever the order of the
records. Along the ranks of the plan there is always something to select until all has succeeded.
-/

namespace DurableAgent

variable {records records' ready : List TaskRecord}

/-- A record that may be scheduled, and all of whose dependencies have succeeded. -/
def Waitless (records : List TaskRecord) (record : TaskRecord) : Prop :=
  Schedulable record.state ∧ ∀ d ∈ record.spec.dependencies, ∃ other ∈ records,
    other.spec.taskId = d ∧ other.state = .SUCCEEDED

/-- The records of some tasks, each with known dependencies. -/
structure Catalogued (records : List TaskRecord) : Prop where
  unique : (records.map fun record => record.spec.taskId).Nodup
  known : ∀ record ∈ records, ∀ d ∈ record.spec.dependencies, ∃ other ∈ records,
    other.spec.taskId = d

/-! ## No lookup fails -/

theorem exists_recordById {d : String} (h : ∃ record ∈ records, record.spec.taskId = d) :
    ∃ record, recordById records d = some record := by
  obtain ⟨record, hrecord, rfl⟩ := h
  unfold recordById
  rw [← Option.isSome_iff_exists, List.getLast?_isSome]
  apply List.ne_nil_of_mem (a := record)
  simpa using hrecord

theorem exists_dependenciesSucceeded {ds : List String}
    (h : ∀ d ∈ ds, ∃ record ∈ records, record.spec.taskId = d) :
    ∃ answer, dependenciesSucceeded records ds = .ok answer := by
  induction ds with
  | nil => exact ⟨true, rfl⟩
  | cons d ds ih =>
    obtain ⟨record, hrecord⟩ := exists_recordById (h d List.mem_cons_self)
    rw [dependenciesSucceeded, hrecord]
    dsimp only
    split
    · exact ih fun d' hd' => h d' (List.mem_cons_of_mem d hd')
    · exact ⟨false, rfl⟩

theorem exists_isReady (h : Catalogued records) {record : TaskRecord} (hrecord : record ∈ records) :
    ∃ answer, isReady records record = .ok answer := by
  unfold isReady
  split
  · exact exists_dependenciesSucceeded (h.known record hrecord)
  · exact ⟨false, rfl⟩

theorem exists_selectReady (h : Catalogued records) {candidates : List TaskRecord}
    (hcandidates : ∀ record ∈ candidates, record ∈ records) :
    ∃ ready, selectReady records candidates = .ok ready := by
  induction candidates with
  | nil => exact ⟨[], rfl⟩
  | cons record rest ih =>
    obtain ⟨answer, hanswer⟩ := exists_isReady h (hcandidates record List.mem_cons_self)
    obtain ⟨others, hothers⟩ :=
      ih fun other hother => hcandidates other (List.mem_cons_of_mem record hother)
    rw [selectReady, hanswer]
    simp only [bind, Except.bind]
    rw [hothers]
    exact ⟨_, rfl⟩

theorem exists_readyTasks (h : Catalogued records) : ∃ ready, readyTasks records = .ok ready := by
  obtain ⟨selected, hselected⟩ := exists_selectReady h fun _ hrecord => hrecord
  unfold readyTasks
  rw [hselected]
  exact ⟨_, rfl⟩

/-! ## One selection in one order -/

theorem mem_readyTasks_iff (h : Catalogued records) (hready : readyTasks records = .ok ready)
    {record : TaskRecord} : record ∈ ready ↔ record ∈ records ∧ Waitless records record := by
  constructor
  · intro hrecord
    exact readyTasks_spec hready record hrecord
  · rintro ⟨hrecord, hstate, hdone⟩
    exact mem_readyTasks hready h.unique hrecord hstate hdone

/-- Records of one plan that come before each other are the same. -/
theorem scheduledBefore_antisymm (h : Catalogued records) {a b : TaskRecord} (ha : a ∈ records)
    (hb : b ∈ records) (hab : ScheduledBefore a b) (hba : ScheduledBefore b a) : a = b := by
  apply List.inj_on_of_nodup_map h.unique ha hb
  rcases hab with hab | ⟨hab, hid⟩ <;> rcases hba with hba | ⟨hba, hid'⟩
  · omega
  · omega
  · omega
  · exact le_antisymm hid hid'

theorem Catalogued.perm (h : Catalogued records) (hperm : records'.Perm records) :
    Catalogued records' where
  unique := (hperm.map _).nodup_iff.mpr h.unique
  known record hrecord d hd := by
    obtain ⟨other, hother, hid⟩ := h.known record (hperm.mem_iff.mp hrecord) d hd
    exact ⟨other, hperm.mem_iff.mpr hother, hid⟩

theorem waitless_congr (hperm : records'.Perm records) (record : TaskRecord) :
    Waitless records' record ↔ Waitless records record := by
  simp only [Waitless, hperm.mem_iff]

theorem readyTasks_congr (h : Catalogued records) (hready : readyTasks records = .ok ready)
    (hperm : records'.Perm records) : readyTasks records' = .ok ready := by
  have h' := h.perm hperm
  obtain ⟨ready', hready'⟩ := exists_readyTasks h'
  have hmem : ∀ record, record ∈ ready' ↔ record ∈ ready := by
    intro record
    rw [mem_readyTasks_iff h' hready', mem_readyTasks_iff h hready, hperm.mem_iff,
      waitless_congr hperm]
  have hsame : ready'.Perm ready := by
    rw [List.perm_ext_iff_of_nodup (readyTasks_nodup hready' h'.unique).of_map
      (readyTasks_nodup hready h.unique).of_map]
    exact hmem
  rw [hready', hsame.eq_of_pairwise _ (readyTasks_pairwise hready') (readyTasks_pairwise hready)]
  intro a b ha hb
  exact scheduledBefore_antisymm h ((mem_readyTasks_iff h hready).mp ((hmem a).mp ha)).1
    ((mem_readyTasks_iff h hready).mp hb).1

/-! ## The records of a plan -/

theorem recorded_of_validatePlan {plan checked : PlanSpec} {maximumDepth : Int}
    (h : validatePlan plan maximumDepth = .ok checked)
    (hrecords : (records.map TaskRecord.spec).Perm plan.tasks) : Catalogued records where
  unique := by
    have hids := (hrecords.map TaskSpec.taskId).nodup_iff.mpr (validatePlan_eq_ok h).2.1
    rwa [List.map_map] at hids
  known record hrecord d hd := by
    have hspec := hrecords.mem_iff.mp (List.mem_map_of_mem hrecord)
    have hknown := (validatePlan_eq_ok h).2.2 record.spec hspec d hd
    rw [← (hrecords.map TaskSpec.taskId).mem_iff, List.map_map] at hknown
    obtain ⟨other, hother, hid⟩ := List.mem_map.mp hknown
    exact ⟨other, hother, hid⟩

/-- Where every record may be scheduled or has succeeded, and not all have, something is ready. -/
theorem readyTasks_ne_nil {plan checked : PlanSpec} {maximumDepth : Int}
    (h : validatePlan plan maximumDepth = .ok checked)
    (hrecords : (records.map TaskRecord.spec).Perm plan.tasks)
    (hready : readyTasks records = .ok ready)
    (hstates : ∀ record ∈ records, Schedulable record.state ∨ record.state = .SUCCEEDED)
    (hunfinished : ∃ record ∈ records, record.state ≠ .SUCCEEDED) : ready ≠ [] := by
  have hrecorded := recorded_of_validatePlan h hrecords
  obtain ⟨rank, hrank⟩ := validatePlan_ranked h
  rintro rfl
  obtain ⟨record, hrecord, hunfinished, hfixed⟩ :=
    exists_unschedulable hready hrecorded.unique hrecorded.known
      (fun record hrecord => hrank record.spec (hrecords.mem_iff.mp (List.mem_map_of_mem hrecord)))
      hunfinished
  rcases hstates record hrecord with hstate | hstate
  · exact hfixed hstate
  · exact hunfinished hstate

/-- Over the records of a validated plan, in any states: what is ready is exactly what may be
scheduled and waits for nothing, once each and by priority and identifier, whatever the order of
the records. It is not empty where each record may be scheduled or has succeeded, and not all
have. -/
theorem readyTasks_progress {plan checked : PlanSpec} {maximumDepth : Int}
    (h : validatePlan plan maximumDepth = .ok checked) (records : List TaskRecord)
    (hrecords : (records.map TaskRecord.spec).Perm plan.tasks) :
    ∃ ready, readyTasks records = .ok ready ∧
      (∀ record, record ∈ ready ↔ record ∈ records ∧ Waitless records record) ∧
      (ready.map fun record => record.spec.taskId).Nodup ∧ ready.Pairwise ScheduledBefore ∧
      (∀ records' : List TaskRecord, records'.Perm records → readyTasks records' = .ok ready) ∧
      ((∀ record ∈ records, Schedulable record.state ∨ record.state = .SUCCEEDED) →
        (∃ record ∈ records, record.state ≠ .SUCCEEDED) → ready ≠ []) := by
  have hrecorded := recorded_of_validatePlan h hrecords
  obtain ⟨ready, hready⟩ := exists_readyTasks hrecorded
  refine ⟨ready, hready, fun _ => mem_readyTasks_iff hrecorded hready,
    readyTasks_nodup hready hrecorded.unique, readyTasks_pairwise hready, ?_, ?_⟩
  · intro records' hperm
    exact readyTasks_congr hrecorded hready hperm
  · exact readyTasks_ne_nil h hrecords hready

/-- A plan of two tasks, of which the second waits for the first. -/
def pairPlan : PlanSpec := { planId := "plan", runId := "run", version := 1, tasks := pairTasks }

theorem validatePlan_pairPlan : validatePlan pairPlan 20 = .ok pairPlan := by
  decide +kernel

/-- The records of the two tasks, the first of them in a state of its own. -/
def pairRecords (first : TaskState) : List TaskRecord :=
  [{ runId := "run", planId := "plan", spec := pairTasks[0] },
    { runId := "run", planId := "plan", spec := pairTasks[1], state := first }]

theorem readyTasks_progress_pair :
    ∃ ready, readyTasks (pairRecords .PENDING) = .ok ready ∧ ready ≠ [] := by
  obtain ⟨ready, hready, -, -, -, -, hprogress⟩ :=
    readyTasks_progress validatePlan_pairPlan (pairRecords .PENDING) (.refl _)
  refine ⟨ready, hready, hprogress ?_ ?_⟩
  · decide
  · decide

end DurableAgent
