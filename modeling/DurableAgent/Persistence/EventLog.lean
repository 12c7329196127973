import Mathlib.Algebra.GroupWithZero.Nat
import DurableAgent.Persistence.Compaction

/-!
# The event log under any interleaving

Publications and compactions, interleaved transaction by transaction with each other and with the
runs they are about. What one transaction does is known; here it is followed through whole
compactions and whole runs.
-/

namespace DurableAgent.Events

open Library Library.Prog

variable {ι : Type} [DecidableEq ι] {sha256Digest : String → String} {s s' : EventStore}
  {h h' : History} {row tombstone : EventRow} {runId id : String} {olderThan : Timestamp}
  {dryRun : Bool}

/-! ## A whole compaction -/

theorem Compacted.eligible_iff
    (hc : Compacted sha256Digest olderThan runId tombstone s s') :
    Eligible s' olderThan row ↔ Eligible s olderThan row := by
  unfold Eligible
  rw [hc.runs]

/-- The other runs have the eligible events that they had. -/
theorem Compacted.eligibleOf_of_ne
    (hc : Compacted sha256Digest olderThan runId tombstone s s') (hne : id ≠ runId) :
    eligibleOf s' olderThan id = eligibleOf s olderThan id := by
  unfold eligibleOf
  simp only [hc.eligible_iff]
  rw [hc.events, List.filter_append, List.filter_filter]
  have htombstone : [tombstone].filter
      (fun row => row.runId = id ∧ Eligible s olderThan row) = [] := by
    rw [List.filter_singleton]
    simp [hc.summarizes.run, hne.symm]
  rw [htombstone, List.append_nil]
  apply List.filter_congr
  intro row _
  by_cases hid : row.runId = id
  · simp [hid, hne]
  · simp [hid]

/-- The rows and tombstones that a compaction of the listed runs leaves. -/
structure Pruned (sha256Digest : String → String) (olderThan : Timestamp) (runIds : List String)
    (tombstones : List EventRow) (h h' : History) : Prop where
  runs : h'.store.runs = h.store.runs
  events : h'.store.events = (h.store.events.filter fun row =>
    ¬ (row.runId ∈ runIds ∧ Eligible h.store olderThan row)) ++ tombstones
  committed : h'.committed = h.committed ++ tombstones
  summarized : List.Forall₂ (fun id => Summarizes sha256Digest olderThan id
    (eligibleOf h.store olderThan id))
    (runIds.filter fun id => eligibleOf h.store olderThan id ≠ []) tombstones

theorem Pruned.nil : Pruned sha256Digest olderThan [] [] h h :=
  ⟨rfl, by simp, by simp, .nil⟩

/-- A run without eligible events is passed over. -/
theorem Pruned.skip {runIds : List String} {tombstones : List EventRow}
    (hnil : eligibleOf h.store olderThan id = [])
    (hp : Pruned sha256Digest olderThan runIds tombstones h h') :
    Pruned sha256Digest olderThan (id :: runIds) tombstones h h' := by
  refine ⟨hp.runs, ?_, hp.committed, ?_⟩
  · rw [hp.events]
    congr 1
    apply List.filter_congr
    intro row hrow
    have hnot : ¬ (row.runId = id ∧ Eligible h.store olderThan row) := by
      intro heligible
      have hmem : row ∈ eligibleOf h.store olderThan id :=
        List.mem_filter.mpr ⟨hrow, by simpa using heligible⟩
      rw [hnil] at hmem
      cases hmem
    by_cases hid : row.runId = id
    · have hineligible : ¬ Eligible h.store olderThan row := fun he => hnot ⟨hid, he⟩
      simp [hineligible]
    · simp [hid]
  · simpa [hnil] using hp.summarized

theorem forall₂_of_mem {α β : Type} {R S : α → β → Prop} {l : List α} {bs : List β}
    (hl : List.Forall₂ R l bs) (hRS : ∀ a ∈ l, ∀ b, R a b → S a b) : List.Forall₂ S l bs := by
  induction hl with
  | nil => exact .nil
  | cons hab _ ih =>
    exact .cons (hRS _ List.mem_cons_self _ hab) (ih fun a ha => hRS a (List.mem_cons_of_mem _ ha))

/-- The first run is compacted, then the others. -/
theorem Pruned.cons {h₁ : History} {runIds : List String} {tombstones : List EventRow}
    (hnew : id ∉ runIds) (hc : Compacted sha256Digest olderThan id tombstone h.store h₁.store)
    (hcommitted : h₁.committed = h.committed ++ [tombstone])
    (hp : Pruned sha256Digest olderThan runIds tombstones h₁ h') :
    Pruned sha256Digest olderThan (id :: runIds) (tombstone :: tombstones) h h' := by
  have hothers (other : String) (hother : other ∈ runIds) :
      eligibleOf h₁.store olderThan other = eligibleOf h.store olderThan other := by
    apply hc.eligibleOf_of_ne
    rintro rfl
    exact hnew hother
  constructor
  · rw [hp.runs, hc.runs]
  · rw [hp.events]
    simp only [hc.eligible_iff]
    rw [hc.events, List.filter_append, List.filter_filter]
    have htombstone : [tombstone].filter (fun row =>
        ¬ (row.runId ∈ runIds ∧ Eligible h.store olderThan row)) = [tombstone] := by
      rw [List.filter_singleton]
      simp [hc.summarizes.not_eligible]
    rw [htombstone, List.append_assoc]
    congr 1
    apply List.filter_congr
    intro row _
    by_cases hid : row.runId = id
    · simp [hid, hnew]
    · simp [hid]
  · rw [hp.committed, hcommitted, List.append_assoc]
    rfl
  · have hlist : (runIds.filter fun other => eligibleOf h₁.store olderThan other ≠ []) =
        runIds.filter fun other => eligibleOf h.store olderThan other ≠ [] := by
      apply List.filter_congr
      intro other hother
      rw [hothers other hother]
    have hrest := hp.summarized
    rw [hlist] at hrest
    rw [List.filter_cons_of_pos (by simpa using hc.removes)]
    refine .cons hc.summarizes (forall₂_of_mem hrest fun other hother row hrow => ?_)
    rwa [hothers other (List.mem_of_mem_filter hother)] at hrow

/-- What a compaction of the listed runs answers. -/
def tally (s : EventStore) (olderThan : Timestamp) (runIds : List String) : Nat × List String :=
  ((runIds.map fun id => (eligibleOf s olderThan id).length).sum,
    runIds.filter fun id => eligibleOf s olderThan id ≠ [])

/-- The loop over runs with distinct identifiers, from any counts it has come to. -/
theorem compactRuns_wp {runIds : List String} (hnodup : runIds.Nodup) (hsound : Sound h)
    (eligible : Nat) (compacted : List String) :
    (compactRuns olderThan dryRun runIds eligible compacted).wp (transact sha256Digest)
      (fun r h' => r = .ok (eligible + (tally h.store olderThan runIds).1,
          compacted ++ (tally h.store olderThan runIds).2) ∧
        if dryRun then h' = h
        else Sound h' ∧ ∃ tombstones, Pruned sha256Digest olderThan runIds tombstones h h') h := by
  induction runIds generalizing h eligible compacted with
  | nil =>
    constructor
    · simp [tally]
    · cases dryRun with
      | true => rfl
      | false => exact ⟨hsound, [], Pruned.nil⟩
  | cons id rest ih =>
    obtain ⟨hnew, hrest⟩ := List.nodup_cons.mp hnodup
    intro x h₁ hop
    have hdoes := transact_does hsound hop
    obtain ⟨hsound₁, -⟩ := hdoes.keeps hsound
    obtain ⟨rfl, hcases⟩ := hdoes
    change Prog.wp _ (if (eligibleOf h.store olderThan id).length = 0 then _ else _) _ h₁
    by_cases hnil : eligibleOf h.store olderThan id = []
    · rw [if_pos (by rw [hnil]; rfl)]
      rcases hcases with ⟨rfl, -⟩ | ⟨-, tombstone, hc, -⟩
      · refine (ih hrest hsound eligible compacted).mono fun r h' hr => ?_
        have htally : tally h₁.store olderThan (id :: rest) = tally h₁.store olderThan rest := by
          simp [tally, hnil]
        rw [htally]
        refine ⟨hr.1, ?_⟩
        cases dryRun with
        | true => exact hr.2
        | false =>
          obtain ⟨hsound', tombstones, hp⟩ := hr.2
          exact ⟨hsound', tombstones, hp.skip hnil⟩
      · exact absurd hnil hc.removes
    · rw [if_neg (by simpa using hnil)]
      have htally : tally h.store olderThan (id :: rest) =
          ((eligibleOf h.store olderThan id).length + (tally h.store olderThan rest).1,
            id :: (tally h.store olderThan rest).2) := by
        simp [tally, hnil]
      refine (ih hrest hsound₁ _ _).mono fun r h' hr => ?_
      rw [htally]
      rcases hcases with ⟨rfl, hdry⟩ | ⟨rfl, tombstone, hc, hcommitted⟩
      · obtain rfl := hdry.resolve_left hnil
        refine ⟨?_, hr.2⟩
        rw [hr.1]
        simp [Nat.add_assoc]
      · have hsame : tally h₁.store olderThan rest = tally h.store olderThan rest := by
          have hothers (other : String) (hother : other ∈ rest) :
              eligibleOf h₁.store olderThan other = eligibleOf h.store olderThan other := by
            apply hc.eligibleOf_of_ne
            rintro rfl
            exact hnew hother
          unfold tally
          congr 1
          · congr 1
            exact List.map_congr_left fun other hother => by rw [hothers other hother]
          · exact List.filter_congr fun other hother => by rw [hothers other hother]
        rw [hsame] at hr
        obtain ⟨hr, hsound', tombstones, hp⟩ := hr
        refine ⟨?_, hsound', tombstone :: tombstones, hp.cons hnew hc hcommitted⟩
        rw [hr]
        simp [Nat.add_assoc]

theorem mem_terminalRunIds :
    id ∈ s.terminalRunIds ↔ ∃ run ∈ s.runs.rows, run.runId = id ∧ run.state ∈ terminalRunStates := by
  unfold EventStore.terminalRunIds
  rw [List.mem_insertionSort, List.mem_map]
  constructor
  · rintro ⟨run, hrun, rfl⟩
    rw [List.mem_filter, decide_eq_true_eq] at hrun
    exact ⟨run, hrun.1, rfl, hrun.2⟩
  · rintro ⟨run, hrun, rfl, hstate⟩
    exact ⟨run, List.mem_filter.mpr ⟨hrun, by simpa using hstate⟩, rfl⟩

theorem nodup_terminalRunIds : s.terminalRunIds.Nodup := by
  unfold EventStore.terminalRunIds
  rw [(List.perm_insertionSort _ _).nodup_iff]
  exact s.runs.nodup_keys.sublist (List.filter_sublist.map _)

theorem countP_or {rows : List EventRow} {p q : EventRow → Bool}
    (hpq : ∀ a ∈ rows, ¬ (p a = true ∧ q a = true)) :
    rows.countP (fun a => p a || q a) = rows.countP p + rows.countP q := by
  induction rows with
  | nil => rfl
  | cons a rest ih =>
    have hhead := hpq a List.mem_cons_self
    have hrest := ih fun b hb => hpq b (List.mem_cons_of_mem a hb)
    rw [List.countP_cons, List.countP_cons, List.countP_cons, hrest]
    cases hp : p a <;> cases hq : q a <;> simp [hp, hq] at hhead ⊢ <;> omega

/-- The counts of the runs add up to the number of the eligible events of these runs. -/
theorem tally_count {runIds : List String} (hnodup : runIds.Nodup) :
    (tally s olderThan runIds).1 =
      s.events.countP fun row => row.runId ∈ runIds ∧ Eligible s olderThan row := by
  induction runIds with
  | nil => simp [tally]
  | cons id rest ih =>
    obtain ⟨hnew, hrest⟩ := List.nodup_cons.mp hnodup
    have hsplit : (s.events.countP fun row => row.runId ∈ id :: rest ∧ Eligible s olderThan row) =
        s.events.countP fun row => decide (row.runId = id ∧ Eligible s olderThan row) ||
          decide (row.runId ∈ rest ∧ Eligible s olderThan row) := by
      apply List.countP_congr
      intro row _
      simp only [List.mem_cons, decide_eq_true_eq, Bool.or_eq_true]
      tauto
    rw [hsplit, countP_or, ← ih hrest]
    · unfold tally eligibleOf
      rw [List.map_cons, List.sum_cons, List.countP_eq_length_filter]
    · rintro row - ⟨hrow, hother⟩
      rw [decide_eq_true_eq] at hrow hother
      exact hnew (hrow.1 ▸ hother.1)

/-- The runs that a compaction names: the terminal ones with eligible events, in order. -/
def compactable (s : EventStore) (olderThan : Timestamp) : List String :=
  s.terminalRunIds.filter fun id => eligibleOf s olderThan id ≠ []

/-- The number of eligible events, and the runs that have some. -/
theorem tally_terminal : tally s olderThan s.terminalRunIds =
    (s.events.countP fun row => Eligible s olderThan row, compactable s olderThan) := by
  apply Prod.ext
  · rw [tally_count nodup_terminalRunIds]
    apply List.countP_congr
    intro row _
    simp only [decide_eq_true_eq]
    exact ⟨fun h => h.2, fun h => ⟨mem_terminalRunIds.mpr h.1, h⟩⟩
  · rfl

/-- What a compaction leaves: the eligible events are gone, and for each run that had some there
is one row that summarizes them. -/
structure PrunedAll (sha256Digest : String → String) (olderThan : Timestamp)
    (tombstones : List EventRow) (h h' : History) : Prop where
  runs : h'.store.runs = h.store.runs
  events : h'.store.events =
    (h.store.events.filter fun row => ¬ Eligible h.store olderThan row) ++ tombstones
  committed : h'.committed = h.committed ++ tombstones
  summarized : List.Forall₂ (fun id => Summarizes sha256Digest olderThan id
    (eligibleOf h.store olderThan id)) (compactable h.store olderThan) tombstones

theorem Pruned.all {tombstones : List EventRow}
    (hp : Pruned sha256Digest olderThan h.store.terminalRunIds tombstones h h') :
    PrunedAll sha256Digest olderThan tombstones h h' := by
  refine ⟨hp.runs, ?_, hp.committed, hp.summarized⟩
  rw [hp.events]
  congr 1
  apply List.filter_congr
  intro row _
  have hiff : (row.runId ∈ h.store.terminalRunIds ∧ Eligible h.store olderThan row) ↔
      Eligible h.store olderThan row :=
    ⟨fun h => h.2, fun h => ⟨mem_terminalRunIds.mpr h.1, h⟩⟩
  simp only [hiff]

theorem PrunedAll.mem {tombstones : List EventRow}
    (hp : PrunedAll sha256Digest olderThan tombstones h h') (hrow : row ∈ tombstones) :
    ∃ id, Summarizes sha256Digest olderThan id (eligibleOf h.store olderThan id) row := by
  obtain ⟨i, hi, rfl⟩ := List.getElem_of_mem hrow
  have hlength := hp.summarized.length_eq
  exact ⟨_, hp.summarized.get (by omega) hi⟩

/-- Nothing is eligible any more. -/
theorem PrunedAll.nothing {tombstones : List EventRow}
    (hp : PrunedAll sha256Digest olderThan tombstones h h') :
    ∀ row ∈ h'.store.events, ¬ Eligible h'.store olderThan row := by
  intro row hrow heligible
  have hbefore : Eligible h.store olderThan row := by
    unfold Eligible at heligible ⊢
    rwa [hp.runs] at heligible
  rw [hp.events] at hrow
  rcases List.mem_append.mp hrow with hold | hnew
  · rw [List.mem_filter, decide_eq_true_eq] at hold
    exact hold.2 hbefore
  · obtain ⟨id, hsummary⟩ := hp.mem hnew
    exact hsummary.not_eligible hbefore

theorem eligibleOf_of_nothing (hnone : ∀ row ∈ s.events, ¬ Eligible s olderThan row) :
    eligibleOf s olderThan id = [] := by
  unfold eligibleOf
  rw [List.filter_eq_nil_iff]
  intro row hrow heligible
  exact hnone row hrow (of_decide_eq_true heligible).2

theorem compactable_of_nothing (hnone : ∀ row ∈ s.events, ¬ Eligible s olderThan row) :
    compactable s olderThan = [] := by
  unfold compactable
  rw [List.filter_eq_nil_iff]
  intro id _
  simp [eligibleOf_of_nothing hnone]

/-- The entries of the reports are those that they were. -/
theorem PrunedAll.reports {str : Json → String} {tombstones : List EventRow} (hsound : Sound h)
    (hsound' : Sound h') (hp : PrunedAll sha256Digest olderThan tombstones h h') :
    auditHistory str h'.store.events runId = auditHistory str h.store.events runId := by
  apply auditHistory_eq hsound.issued.rows_increasing hsound'.issued.rows_increasing hp.events
  · intro a _ hkeep
    simp only [decide_eq_false_iff_not, not_not] at hkeep
    exact removable_unreported hkeep.2.2
  · intro a ha
    obtain ⟨id, hsummary⟩ := hp.mem ha
    exact hsummary.unreported

/-- What a compaction that nobody interrupts answers and leaves. -/
structure Compacts (sha256Digest : String → String) (olderThan : Cutoff) (dryRun : Bool)
    (h : History) (r : Except Exn (Nat × List String)) (h' : History) : Prop where
  answer : r = .ok (h.store.events.countP (fun row => Eligible h.store olderThan.time row),
    compactable h.store olderThan.time)
  dry : dryRun = true → h' = h
  prunes : dryRun = false → ∃ tombstones, PrunedAll sha256Digest olderThan.time tombstones h h'
  reports : ∀ str runId,
    auditHistory str h'.store.events runId = auditHistory str h.store.events runId

theorem compacts_of_runs {cutoff : Cutoff} {r : Except Exn (Nat × List String)}
    (hsound : Sound h) (haware : cutoff.timezoneAware = true)
    (hrun : Runs (transact sha256Digest) (compactTerminalEvents cutoff dryRun) h r h') :
    Compacts sha256Digest cutoff dryRun h r h' ∧ Sound h' := by
  unfold compactTerminalEvents at hrun
  rw [if_neg (by rw [haware]; decide)] at hrun
  obtain ⟨x, h₁, hop, hrest⟩ := runs_call.mp hrun
  obtain ⟨rfl, rfl⟩ := transact_does hsound hop
  obtain ⟨hanswer, hstate⟩ :=
    (compactRuns_wp nodup_terminalRunIds hsound 0 []).runs hrest
  rw [tally_terminal, Nat.zero_add, List.nil_append] at hanswer
  cases dryRun with
  | true =>
    obtain rfl : h' = h₁ := hstate
    exact ⟨⟨hanswer, fun _ => rfl, fun hdry => (by cases hdry), fun _ _ => rfl⟩, hsound⟩
  | false =>
    obtain ⟨hsound', tombstones, hp⟩ := hstate
    exact ⟨⟨hanswer, fun hdry => (by cases hdry), fun _ => ⟨tombstones, hp.all⟩,
      fun str runId => hp.all.reports hsound hsound'⟩, hsound'⟩

/-- After a compaction, the next one finds nothing. -/
theorem compacts_again {cutoff : Cutoff} {again : Bool} {r r' : Except Exn (Nat × List String)}
    {h'' : History} (hsound : Sound h) (haware : cutoff.timezoneAware = true)
    (hrun : Runs (transact sha256Digest) (compactTerminalEvents cutoff false) h r h')
    (hnext : Runs (transact sha256Digest) (compactTerminalEvents cutoff again) h' r' h'') :
    r' = .ok (0, []) ∧ h''.store.events = h'.store.events := by
  obtain ⟨hcompacts, hsound'⟩ := compacts_of_runs hsound haware hrun
  obtain ⟨tombstones, hp⟩ := hcompacts.prunes rfl
  obtain ⟨hcompacts', -⟩ := compacts_of_runs hsound' haware hnext
  have hnone := hp.nothing
  constructor
  · rw [hcompacts'.answer]
    congr 1
    apply Prod.ext
    · rw [List.countP_eq_zero]
      intro row hrow
      simpa using hnone row hrow
    · exact compactable_of_nothing hnone
  · cases again with
    | true => rw [hcompacts'.dry rfl]
    | false =>
      obtain ⟨tombstones', hp'⟩ := hcompacts'.prunes rfl
      have hnil : tombstones' = [] := by
        have hsummarized := hp'.summarized
        rw [compactable_of_nothing hnone] at hsummarized
        exact List.forall₂_nil_left_iff.mp hsummarized
      rw [hp'.events, hnil, List.append_nil, List.filter_eq_self]
      intro row hrow
      simpa using hnone row hrow

/-! ## Interleavings -/

/-- Callers of the operations, on runs without events. -/
def eventPool (calls : ι → EventCall) (runs : Table RunRecord.runId) :
    Pool EventOp Exn History ι := ⟨fun i => (calls i).program, ⟨⟨runs, []⟩, []⟩⟩

omit [DecidableEq ι] in
theorem sound_eventPool {calls : ι → EventCall} {runs : Table RunRecord.runId} :
    Sound (eventPool calls runs).shared := ⟨.nil, List.nodup_nil⟩

/-- The transactions of a call. -/
def Issues (call : EventCall) : (β : Type) → EventOp β → Prop
  | _, .now | _, .newEventId => True
  | _, .appendEvent draft => call = .publish draft.runId draft.eventType draft.taskId draft.payload
  | _, .terminalRunIds => True
  | _, .compactRun _ olderThan dryRun =>
    ∃ cutoff, cutoff.time = olderThan ∧ call = .compact cutoff dryRun
  | _, .insertRun run => call = .insertRun run
  | _, .moveRun runId target => call = .moveRun runId target

theorem appendAttempts_issues {call : EventCall} {draft : Draft}
    (hcall : call = .publish draft.runId draft.eventType draft.taskId draft.payload)
    (attempts : Nat) : (appendAttempts draft attempts).Calls (Issues call) := by
  induction attempts with
  | zero => trivial
  | succ attempts ih =>
    apply Calls.tryCatch
    · exact Calls.bind (calls_perform.mpr hcall) fun _ => trivial
    · intro e
      split
      · exact ih
      · trivial

theorem compactRuns_issues {call : EventCall} {cutoff : Cutoff} (hcall : call = .compact cutoff dryRun)
    (runIds : List String) (eligible : Nat) (compacted : List String) :
    (compactRuns cutoff.time dryRun runIds eligible compacted).Calls (Issues call) := by
  induction runIds generalizing eligible compacted with
  | nil => trivial
  | cons id rest ih =>
    apply Calls.bind (calls_perform.mpr ⟨cutoff, rfl, hcall⟩)
    intro candidates
    split
    · exact ih _ _
    · exact ih _ _

theorem program_issues (call : EventCall) : call.program.Calls (Issues call) := by
  cases call with
  | publish runId eventType taskId payload =>
    refine Calls.bind ?_ fun _ => trivial
    apply Calls.bind (calls_perform.mpr trivial)
    intro eventId
    apply Calls.bind (calls_perform.mpr trivial)
    intro createdAt
    apply appendAttempts_issues
    rfl
  | compact cutoff dryRun =>
    refine Calls.bind ?_ fun _ => trivial
    unfold compactTerminalEvents
    split
    · trivial
    · exact Calls.bind (calls_perform.mpr trivial) fun runIds => compactRuns_issues rfl runIds 0 []
  | insertRun run => exact calls_perform.mpr rfl
  | moveRun runId target => exact calls_perform.mpr rfl

/-- What one transaction of a call may do to the events. -/
def Writes (sha256Digest : String → String) : EventCall → History → History → Prop
  | .publish runId eventType taskId payload, h, h' => h' = h ∨ ∃ row,
    row.runId = runId ∧ row.eventType = eventType ∧ row.taskId = taskId ∧ row.payload = payload ∧
      h'.store.events = h.store.events ++ [row] ∧ h'.committed = h.committed ++ [row]
  | .compact olderThan dryRun, h, h' =>
    (h' = h ∨ (dryRun = false ∧ ∃ runId tombstone,
      Compacted sha256Digest olderThan.time runId tombstone h.store h'.store ∧
      h'.committed = h.committed ++ [tombstone])) ∧
    ∀ str runId, auditHistory str h'.store.events runId = auditHistory str h.store.events runId
  | .insertRun _, h, h' | .moveRun _ _, h, h' =>
    h'.store.events = h.store.events ∧ h'.committed = h.committed

theorem Compacted.reports {str : Json → String} (hsound : Sound h) (hsound' : Sound h')
    (hc : Compacted sha256Digest olderThan id tombstone h.store h'.store) :
    auditHistory str h'.store.events runId = auditHistory str h.store.events runId := by
  apply auditHistory_eq hsound.issued.rows_increasing hsound'.issued.rows_increasing hc.events
  · intro a _ hkeep
    simp only [decide_eq_false_iff_not, not_not] at hkeep
    exact removable_unreported hkeep.2.2.2
  · intro a ha
    rw [List.mem_singleton.mp ha]
    exact hc.summarizes.unreported

theorem writes_refl (call : EventCall) : Writes sha256Digest call h h := by
  cases call with
  | publish runId eventType taskId payload => exact .inl rfl
  | compact olderThan dryRun => exact ⟨.inl rfl, fun _ _ => rfl⟩
  | insertRun run => exact ⟨rfl, rfl⟩
  | moveRun runId target => exact ⟨rfl, rfl⟩

theorem Does.writes {call : EventCall} {β : Type} {op : EventOp β} {x : Except Exn β}
    (hsound : Sound h) (hissues : Issues call β op) (hdoes : Does sha256Digest β op h x h') :
    Writes sha256Digest call h h' := by
  have hsound' := (hdoes.keeps hsound).1
  cases op with
  | now =>
    obtain rfl : h' = h := hdoes
    exact writes_refl call
  | newEventId =>
    obtain rfl : h' = h := hdoes
    exact writes_refl call
  | appendEvent draft =>
    obtain rfl : call = _ := hissues
    rcases hdoes with rfl | ⟨row, rfl, -, -, hevents, hcommitted⟩
    · exact .inl rfl
    · exact .inr ⟨_, rfl, rfl, rfl, rfl, hevents, hcommitted⟩
  | terminalRunIds =>
    obtain ⟨-, rfl⟩ := hdoes
    exact writes_refl call
  | compactRun runId olderThan dryRun =>
    obtain ⟨cutoff, rfl, rfl⟩ := hissues
    obtain ⟨-, ⟨rfl, -⟩ | ⟨hdry, tombstone, hc, hcommitted⟩⟩ := hdoes
    · exact writes_refl _
    · exact ⟨.inr ⟨hdry, runId, tombstone, hc, hcommitted⟩, fun str id => hc.reports hsound hsound'⟩
  | insertRun run =>
    obtain rfl : call = _ := hissues
    exact ⟨hdoes.1, hdoes.2.1⟩
  | moveRun runId target =>
    obtain rfl : call = _ := hissues
    exact ⟨hdoes.1, hdoes.2.1⟩

/-- A thread that only issues transactions of a kind, and relies on what all of them leave. -/
def issuing (kind : (β : Type) → EventOp β → Prop) : Contract EventOp History where
  inv := Sound
  rely := Later
  guar _ _ := True
  pre β op _ := kind β op
  refl := .refl
  trans := .trans

variable {calls : ι → EventCall} {runs : Table RunRecord.runId} {P P' : Pool EventOp Exn History ι}

/-- Along every run the events are sound, and every thread is at some transaction of its call. -/
theorem reached_issuing (hrun : PoolRuns (unreliable sha256Digest) (eventPool calls runs) P) (i : ι) :
    Sound P.shared ∧ (issuing (Issues (calls i))).Meets (unreliable sha256Digest) (P.threads i)
      (fun _ _ => True) P.shared := by
  apply ThreadRuns.watched (C := issuing (Issues (calls i)))
    (fun _ _ _ _ _ _ _ hop hsound => (unreliable_keeps hsound hop).symm)
    (threadRuns_of_poolRuns hrun) sound_eventPool
  refine Contract.Meets.of_kept (K := fun _ => True) (fun _ _ _ _ h => h) (program_issues (calls i))
    trivial fun β op h hissues hsound _ => ⟨hissues, fun x h' hop => ?_⟩
  exact ⟨trivial, (unreliable_keeps hsound hop).1, trivial⟩

/-! ## A compaction among others -/

section Due

variable {Due : EventRow → Prop} {runIds : List String}

/-- Of the rows that are to go, none is left but those of the listed runs. -/
def OnlyOf (Due : EventRow → Prop) (runIds : List String) (h : History) : Prop :=
  ∀ row, Due row → row ∈ h.committed ∧
    (∃ run ∈ h.store.runs.rows, run.runId = row.runId ∧ run.state ∈ terminalRunStates) ∧
    (row ∈ h.store.events → row.runId ∈ runIds)

theorem OnlyOf.later (hdue : OnlyOf Due runIds h) (hlater : Later h h') : OnlyOf Due runIds h' := by
  intro row hrow
  obtain ⟨hcommitted, ⟨run, hrun, hid, hstate⟩, hlisted⟩ := hdue row hrow
  obtain ⟨run', hrun', hid', hstate'⟩ := hlater.ended run hrun hstate
  refine ⟨hlater.committed row hcommitted, ⟨run', hrun', hid'.trans hid, hstate'⟩, fun hmem => ?_⟩
  apply hlisted
  by_contra hgone
  exact hlater.gone row hcommitted hgone hmem

/-- The transaction for the first run removes what is to go of it. -/
theorem OnlyOf.compacted (hdue : OnlyOf Due (id :: runIds) h)
    (hold : ∀ row, Due row → row.createdAt < olderThan ∧ Removable row)
    {x : Except Exn Nat} (hlater : Later h h')
    (hdoes : Does sha256Digest Nat (.compactRun id olderThan false) h x h') :
    OnlyOf Due runIds h' := by
  intro row hrow
  obtain ⟨hcommitted, hended, hlisted⟩ := (hdue.later hlater) row hrow
  refine ⟨hcommitted, hended, fun hmem => ?_⟩
  rcases List.mem_cons.mp (hlisted hmem) with hid | hrest
  · exfalso
    obtain ⟨hbefore, hterminal, -⟩ := hdue row hrow
    have hstored : row ∈ h.store.events := by
      by_contra hgone
      exact hlater.gone row hbefore hgone hmem
    have heligible : Eligible h.store olderThan row := ⟨hterminal, hold row hrow⟩
    obtain ⟨-, ⟨-, hnil | hdry⟩ | ⟨-, tombstone, hc, -⟩⟩ := hdoes
    · have hin : row ∈ eligibleOf h.store olderThan id :=
        List.mem_filter.mpr ⟨hstored, by simp [hid, heligible]⟩
      rw [hnil] at hin
      cases hin
    · cases hdry
    · rw [hc.events] at hmem
      rcases List.mem_append.mp hmem with hkept | hnew
      · simp [hid, heligible] at hkept
      · rw [List.mem_singleton.mp hnew] at heligible
        exact hc.summarizes.not_eligible heligible
  · exact hrest

/-- What a compaction is to remove is gone when it returns. -/
abbrev Removes (Due : EventRow → Prop) (sha256Digest : String → String) {α : Type}
    (p : EventProg α) (h : History) : Prop :=
  (issuing fun _ _ => True).Meets (unreliable sha256Digest) p (onOk fun _ h' => OnlyOf Due [] h') h

theorem compactRuns_removes (hold : ∀ row, Due row → row.createdAt < olderThan ∧ Removable row)
    (eligible : Nat) (compacted : List String) (hdue : OnlyOf Due runIds h) :
    Removes Due sha256Digest (compactRuns olderThan false runIds eligible compacted) h := by
  induction runIds generalizing h eligible compacted with
  | nil => exact fun h' hlater _ => hdue.later hlater
  | cons id rest ih =>
    refine Contract.Meets.step (K := OnlyOf Due (id :: rest)) (fun _ _ hlater _ hs => hs.later hlater)
      hdue fun h₁ hsound hs => ⟨trivial, fun x h₂ hop => ?_⟩
    refine ⟨trivial, (unreliable_keeps hsound hop).1, ?_⟩
    rcases hop with hop | ⟨text, rfl, -⟩
    · have hdoes := transact_does hsound hop
      have hrest := hs.compacted hold (hdoes.keeps hsound).2 hdoes
      obtain ⟨rfl, -⟩ := hdoes
      change Removes Due sha256Digest (if (eligibleOf h₁.store olderThan id).length = 0 then _ else _) h₂
      split
      · exact ih _ _ hrest
      · exact ih _ _ hrest
    · exact fun _ _ _ => trivial

/-- Whatever is eligible when the compaction begins. -/
theorem compactTerminalEvents_removes {cutoff : Cutoff}
    (hold : ∀ row, Due row → row.createdAt < cutoff.time ∧ Removable row)
    (hdue : ∀ row, Due row → row ∈ h.committed ∧
      ∃ run ∈ h.store.runs.rows, run.runId = row.runId ∧ run.state ∈ terminalRunStates) :
    Removes Due sha256Digest (compactTerminalEvents cutoff false) h := by
  unfold compactTerminalEvents
  split
  · exact fun _ _ _ => trivial
  · refine Contract.Meets.step (K := fun h => ∀ row, Due row → row ∈ h.committed ∧
      ∃ run ∈ h.store.runs.rows, run.runId = row.runId ∧ run.state ∈ terminalRunStates) ?_ hdue
      fun h₁ hsound hs => ⟨trivial, fun x h₂ hop => ?_⟩
    · intro h₁ h₂ hlater _ hs row hrow
      obtain ⟨hcommitted, run, hrun, hid, hstate⟩ := hs row hrow
      obtain ⟨run', hrun', hid', hstate'⟩ := hlater.ended run hrun hstate
      exact ⟨hlater.committed row hcommitted, run', hrun', hid'.trans hid, hstate'⟩
    · refine ⟨trivial, (unreliable_keeps hsound hop).1, ?_⟩
      rcases hop with hop | ⟨text, rfl, -⟩
      · obtain ⟨rfl, rfl⟩ := transact_does hsound hop
        apply compactRuns_removes hold 0 []
        intro row hrow
        obtain ⟨hcommitted, hended⟩ := hs row hrow
        exact ⟨hcommitted, hended, fun _ => mem_terminalRunIds.mpr hended⟩
      · exact fun _ _ _ => trivial

end Due

/-- A compaction that returns, among any others: no event is left that was eligible when it began,
and none of these comes back. -/
theorem removes_among {cutoff : Cutoff} {i : ι} (hsound : Sound P.shared)
    (hprogram : P.threads i = (EventCall.compact cutoff false).program)
    (hrun : PoolRuns (unreliable sha256Digest) P P') (hreturned : P'.threads i = .done (.ok ())) :
    ∀ row ∈ P.shared.store.events, Eligible P.shared.store cutoff.time row →
      row ∉ P'.shared.store.events := by
  let Due (row : EventRow) : Prop :=
    row ∈ P.shared.store.events ∧ Eligible P.shared.store cutoff.time row
  have hmeets : Removes Due sha256Digest (P.threads i) P.shared := by
    rw [hprogram]
    refine Contract.Meets.next (compactTerminalEvents_removes ?_ ?_) fun _ h _ hs h' hlater _ =>
      hs.later hlater
    · exact fun row hrow => hrow.2.2
    · exact fun row hrow => ⟨hsound.issued.kept.subset hrow.1, hrow.2.1⟩
  obtain ⟨hsound', hended⟩ := ThreadRuns.watched
    (fun _ _ _ _ _ _ _ hop hsound => (unreliable_keeps hsound hop).symm)
    (threadRuns_of_poolRuns hrun) hsound hmeets
  rw [hreturned] at hended
  intro row hrow heligible hmem
  have hlisted := ((hended.ended hsound') row ⟨hrow, heligible⟩).2.2 hmem
  cases hlisted

/-! ## The event log -/

/-- What holds of the event log in a state, and from it on. -/
structure EventLog (sha256Digest : String → String) (calls : ι → EventCall)
    (P : Pool EventOp Exn History ι) : Prop where
  /-- Numbers grow in the order of the commits within a run, removed rows included. -/
  increasing : Increasing EventRow.runId EventRow.sequence P.shared.committed
  kept : P.shared.store.events.Sublist P.shared.committed
  writes : ∀ i P', PoolStep (unreliable sha256Digest) P i P' →
    Writes sha256Digest (calls i) P.shared P'.shared
  compacts : ∀ cutoff dryRun r h', cutoff.timezoneAware = true →
    Runs (transact sha256Digest) (compactTerminalEvents cutoff dryRun) P.shared r h' →
    Compacts sha256Digest cutoff dryRun P.shared r h'
  again : ∀ cutoff r h' again r' h'', cutoff.timezoneAware = true →
    Runs (transact sha256Digest) (compactTerminalEvents cutoff false) P.shared r h' →
    Runs (transact sha256Digest) (compactTerminalEvents cutoff again) h' r' h'' →
    r' = .ok (0, []) ∧ h''.store.events = h'.store.events
  removes : ∀ i cutoff P', P.threads i = (EventCall.compact cutoff false).program →
    PoolRuns (unreliable sha256Digest) P P' → P'.threads i = .done (.ok ()) →
    ∀ row ∈ P.shared.store.events, Eligible P.shared.store cutoff.time row →
      row ∉ P'.shared.store.events

def cancelledRun : RunRecord :=
  { runId := "run", ownerId := "owner", objective := "objective", state := .CANCELLED
    configurationFingerprint := "f", createdAt := 0, updatedAt := 0 }

/-- Three publications and a compaction. -/
def retentionCalls : Fin 4 → EventCall
  | 0 => .publish "run" "task.started" (some "A") []
  | 1 => .publish "run" "run.cancelled" none [("reason", .str "asked")]
  | 2 => .publish "run" "task.skipped" (some "B") []
  | 3 => .compact ⟨10, true⟩ false

def retentionRuns : Table RunRecord.runId := ⟨[cancelledRun], by decide⟩

/-- Identifiers that were used before are not supplied again. -/
def supplied (sha256Digest : String → String) : Handler EventOp Exn Supply History :=
  fun β op t h =>
    if s!"event-{t.freshId}" ∉ h.committed.map EventRow.eventId then
      handleCommitted sha256Digest β op t h
    else (.error (.other "identifier was used"), h)

theorem supplied_runs (sha256Digest : String → String) (schedule : List (ι × Supply)) (P : Pool EventOp Exn History ι) :
    PoolRuns (unreliable sha256Digest) P (P.play (supplied sha256Digest) schedule) := by
  refine (Pool.play_runs _ schedule P).mono fun β op h x h' hop => ?_
  obtain ⟨t, ht⟩ := hop
  unfold supplied at ht
  split at ht
  · next hfresh => exact .inl ⟨t, hfresh, ht⟩
  · obtain ⟨rfl, rfl⟩ := Prod.mk.inj ht
    exact .inr ⟨_, rfl, .inl rfl⟩

/-- Texts as their own digests. -/
def plainDigest (text : String) : String := text

/-- Each caller in turn, from the first. -/
def inTurn (turns : List (Fin 4 × Nat)) : List (Fin 4 × Supply) :=
  turns.flatMap fun turn => List.replicate turn.2 (turn.1, ⟨0, toString turn.1.val⟩)

end DurableAgent.Events
