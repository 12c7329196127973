import DurableAgent.Checkpoints.Store
import DurableAgent.Library.Contract
import DurableAgent.Persistence.Events

/-!
# Publication and compaction

Every transaction that adds a row to the events of a run numbers it above all that the run has,
and compaction removes rows of a run only together with such an addition. So no number is given
twice. Compaction removes exactly the old events of terminal runs that neither belong to the audit
nor are shown in reports.
-/

namespace DurableAgent.Events

open Library

variable {sha256Digest : String → String} {s s' : EventStore} {row tombstone : EventRow}
  {runId : String} {olderThan : Timestamp} {dryRun : Bool} {t : Supply}

/-- Beside the rows that are there, all that were ever committed, in the order of the commits. -/
structure History where
  store : EventStore
  committed : List EventRow

/-- The rows that a transaction has added. -/
def added (s s' : EventStore) : List EventRow :=
  s'.events.filter fun row => row.eventId ∉ s.events.map EventRow.eventId

/-- The effect of each call, with its commit. -/
def handleCommitted (sha256Digest : String → String) : Handler EventOp Exn Supply History :=
  fun β op t h =>
    ((handle sha256Digest β op t h.store).1, ⟨(handle sha256Digest β op t h.store).2,
      h.committed ++ added h.store (handle sha256Digest β op t h.store).2⟩)

/-- The calls under any supply of identifiers that were never used. -/
def transact (sha256Digest : String → String) : Exec EventOp Exn History := fun β op h x h' =>
  ∃ t : Supply, s!"event-{t.freshId}" ∉ h.committed.map EventRow.eventId ∧
    handleCommitted sha256Digest β op t h = (x, h')

/-- The calls, each of which may also fail, before it has had an effect or after. -/
def unreliable (sha256Digest : String → String) : Exec EventOp Exn History := fun β op h x h' =>
  transact sha256Digest β op h x h' ∨
    ∃ text, x = .error (.other text) ∧ (h' = h ∨ ∃ y, transact sha256Digest β op h y h')

/-! ## What compaction is for -/

/-- An old event of a terminal run that compaction may remove. -/
def Eligible (s : EventStore) (olderThan : Timestamp) (row : EventRow) : Prop :=
  (∃ run ∈ s.runs.rows, run.runId = row.runId ∧ run.state ∈ terminalRunStates) ∧
    row.createdAt < olderThan ∧ Removable row

instance : Decidable (Eligible s olderThan row) := inferInstanceAs (Decidable (_ ∧ _))

/-- The eligible events of a run, in the order of their commits. -/
def eligibleOf (s : EventStore) (olderThan : Timestamp) (runId : String) : List EventRow :=
  s.events.filter fun row => row.runId = runId ∧ Eligible s olderThan row

/-- A row that says how many events of a run are gone, from which number to which, and what they
were. -/
structure Summarizes (sha256Digest : String → String) (olderThan : Timestamp) (runId : String)
    (gone : List EventRow) (row : EventRow) : Prop where
  run : row.runId = runId
  eventType : row.eventType = "retention.events_compacted"
  task : row.taskId = none
  payload : ∃ first ∈ gone, ∃ last ∈ gone,
    (∀ e ∈ gone, first.sequence ≤ e.sequence ∧ e.sequence ≤ last.sequence) ∧
    row.payload =
      [("count", .int gone.length), ("first_sequence", .int first.sequence),
        ("last_sequence", .int last.sequence),
        ("archive_manifest_sha256",
          .str (sha256Digest (canonicalJson (.arr (gone.map EventRow.manifestEntry))))),
        ("cutoff", .str olderThan.isoformat)]

/-- Rows are numbered in the order of their commits and have distinct identifiers. -/
structure Sound (h : History) : Prop where
  issued : Issued EventRow.runId EventRow.sequence h.committed h.store.events
  ids : (h.store.events.map EventRow.eventId).Nodup

/-! ## Rows in order -/

theorem increasing_sorted {rows : List EventRow}
    (h : Increasing EventRow.runId EventRow.sequence rows) {keep : EventRow → Bool}
    (hrun : ∀ a ∈ rows, keep a = true → a.runId = runId) :
    (rows.filter keep).insertionSort (fun a b => a.sequence ≤ b.sequence) = rows.filter keep := by
  apply List.Pairwise.insertionSort_eq
  have hrows : (rows.filter keep).Pairwise fun a b => a.runId = b.runId → a.sequence < b.sequence :=
    h.sublist List.filter_sublist
  refine hrows.imp_of_mem fun ha hb hlt => (hlt ?_).le
  rw [List.mem_filter] at ha hb
  rw [hrun _ ha.1 ha.2, hrun _ hb.1 hb.2]

/-- The candidates for a terminal run are the eligible events. -/
theorem candidates_eq (h : Increasing EventRow.runId EventRow.sequence s.events) {run : RunRecord}
    (hrun : run ∈ s.runs.rows) (hstate : run.state ∈ terminalRunStates) :
    s.candidates run.runId olderThan = eligibleOf s olderThan run.runId := by
  unfold EventStore.candidates EventStore.olderRows eligibleOf
  rw [increasing_sorted h fun a _ ha => (of_decide_eq_true ha).1, List.filter_filter]
  apply List.filter_congr
  intro row _
  by_cases hid : row.runId = run.runId
  · have hterminal : ∃ r ∈ s.runs.rows, r.runId = run.runId ∧ r.state ∈ terminalRunStates :=
      ⟨run, hrun, rfl, hstate⟩
    simp [Eligible, hid, hterminal, Bool.and_comm]
  · simp [hid]

/-- Without a terminal run of that identifier nothing is eligible. -/
theorem eligibleOf_eq_nil (h : ∀ run ∈ s.runs.rows, run.runId = runId →
    run.state ∉ terminalRunStates) : eligibleOf s olderThan runId = [] := by
  unfold eligibleOf
  rw [List.filter_eq_nil_iff]
  intro row _ hrow
  rw [decide_eq_true_eq] at hrow
  obtain ⟨hid, ⟨run, hrun, hsame, hstate⟩, -⟩ := hrow
  exact h run hrun (hsame.trans hid) hstate

/-! ## One transaction -/

theorem insertEvent_eq (hid : row.eventId ∉ s.events.map EventRow.eventId)
    (hsequence : row.sequence = latestSequence s.events row.runId + 1) :
    insertEvent s.events row = some (s.events ++ [row]) := by
  unfold insertEvent
  apply if_neg
  intro hany
  obtain ⟨old, hold, hsame⟩ := List.any_eq_true.mp hany
  rcases of_decide_eq_true hsame with hsameId | ⟨hrun, hnumber⟩
  · exact hid (hsameId ▸ List.mem_map_of_mem hold)
  · have hle := @le_latestNumber _ _ _ EventRow.runId EventRow.sequence _ _ hold
    rw [hrun] at hle
    unfold latestSequence at hsequence
    omega

/-- What the transaction of `publish` does with an identifier that is not stored: the event gets
the next number of its run. -/
theorem append_eq {draft : Draft} (h : draft.eventId ∉ s.events.map EventRow.eventId) :
    s.append draft = .ok ((), { s with
      events := s.events ++ [draft.row (latestSequence s.events draft.runId + 1)] }) := by
  unfold EventStore.append
  have hfind : s.events.find? (fun row => row.eventId = draft.eventId) = none := by
    rw [List.find?_eq_none]
    intro row hrow hsame
    exact h (of_decide_eq_true hsame ▸ List.mem_map_of_mem hrow)
  rw [hfind]
  dsimp only
  rw [@insertEvent_eq s (draft.row (latestSequence s.events draft.runId + 1)) h rfl]

/-- A stored identifier is answered without another row. -/
theorem append_stored {draft : Draft} (h : draft.eventId ∈ s.events.map EventRow.eventId) :
    (settle s (s.append draft)).2 = s := by
  unfold EventStore.append
  cases hfind : s.events.find? fun row => row.eventId = draft.eventId with
  | none =>
    obtain ⟨row, hrow, hid⟩ := List.mem_map.mp h
    have hne := List.find?_eq_none.mp hfind row hrow
    simp [hid] at hne
  | some existing =>
    dsimp only
    split <;> rfl

/-- Publication adds the event that the store of checkpoints records in its own table. -/
theorem append_events {draft : Draft} (h : draft.eventId ∉ s.events.map EventRow.eventId) :
    (settle s (s.append draft)).2.events.map
        (fun row => (⟨row.runId, row.eventType, .obj row.payload, row.taskId⟩ : Checkpoints.Event)) =
      s.events.map (fun row => ⟨row.runId, row.eventType, .obj row.payload, row.taskId⟩) ++
        [⟨draft.runId, draft.eventType, .obj draft.payload, draft.taskId⟩] := by
  rw [append_eq h]
  simp [settle, Draft.row]

/-- The events of a run that compaction has removed, and the row that stands for them. -/
structure Compacted (sha256Digest : String → String) (olderThan : Timestamp) (runId : String)
    (tombstone : EventRow) (s s' : EventStore) : Prop where
  removes : eligibleOf s olderThan runId ≠ []
  summarizes : Summarizes sha256Digest olderThan runId (eligibleOf s olderThan runId) tombstone
  numbered : tombstone.sequence = latestSequence s.events runId + 1
  fresh : tombstone.eventId ∉ s.events.map EventRow.eventId
  runs : s'.runs = s.runs
  events : s'.events = (s.events.filter fun row => ¬ (row.runId = runId ∧ Eligible s olderThan row)) ++
    [tombstone]

theorem filter_ids (hids : (s.events.map EventRow.eventId).Nodup) {keep : EventRow → Bool} :
    (s.events.filter fun row => row.eventId ∉ (s.events.filter keep).map EventRow.eventId) =
      s.events.filter fun row => ¬ keep row := by
  apply List.filter_congr
  intro row hrow
  have hiff : row.eventId ∈ (s.events.filter keep).map EventRow.eventId ↔ keep row = true := by
    constructor
    · intro hmem
      obtain ⟨other, hother, hsame⟩ := List.mem_map.mp hmem
      rw [List.mem_filter] at hother
      rw [← List.inj_on_of_nodup_map hids hother.1 hrow hsame]
      exact hother.2
    · exact fun hkeep => List.mem_map_of_mem (List.mem_filter.mpr ⟨hrow, hkeep⟩)
  simp [hiff]

/-- The eligible events of a run are numbered between the first and the last of them. -/
theorem eligibleOf_between (h : Increasing EventRow.runId EventRow.sequence s.events)
    {first last : EventRow} (hfirst : (eligibleOf s olderThan runId).head? = some first)
    (hlast : (eligibleOf s olderThan runId).getLast? = some last) :
    ∀ e ∈ eligibleOf s olderThan runId, first.sequence ≤ e.sequence ∧ e.sequence ≤ last.sequence := by
  have hordered : (eligibleOf s olderThan runId).Pairwise fun a b => a.sequence ≤ b.sequence := by
    have hrows : (eligibleOf s olderThan runId).Pairwise fun a b =>
      a.runId = b.runId → a.sequence < b.sequence := h.sublist List.filter_sublist
    refine hrows.imp_of_mem fun ha hb hlt => (hlt ?_).le
    unfold eligibleOf at ha hb
    rw [List.mem_filter, decide_eq_true_eq] at ha hb
    rw [ha.2.1, hb.2.1]
  intro e he
  constructor
  · cases hrows : eligibleOf s olderThan runId with
    | nil =>
      rw [hrows] at he
      cases he
    | cons a rest =>
      rw [hrows] at hfirst hordered he
      obtain rfl : a = first := Option.some.inj hfirst
      rcases List.mem_cons.mp he with rfl | hrest
      · exact le_refl _
      · exact (List.pairwise_cons.mp hordered).1 e hrest
  · obtain ⟨rest, hrows⟩ := List.getLast?_eq_some_iff.mp hlast
    rw [hrows] at hordered he
    rcases List.mem_append.mp he with hrest | hsame
    · exact (List.pairwise_append.mp hordered).2.2 e hrest last List.mem_cons_self
    · rw [List.mem_singleton.mp hsame]

/-- The transaction of a compaction, by the eligible events of the run. -/
theorem compactRun_eq (h : Increasing EventRow.runId EventRow.sequence s.events) :
    s.compactRun sha256Digest runId olderThan dryRun t =
      match (eligibleOf s olderThan runId).head?, (eligibleOf s olderThan runId).getLast? with
      | some first, some last =>
        if dryRun then .ok ((eligibleOf s olderThan runId).length, s)
        else s.removeRows (eligibleOf s olderThan runId)
          (s.tombstone sha256Digest runId olderThan (eligibleOf s olderThan runId) first last t)
      | _, _ => .ok (0, s) := by
  unfold EventStore.compactRun
  cases hfind : s.runs.find runId with
  | none =>
    have hnil : eligibleOf s olderThan runId = [] := by
      apply eligibleOf_eq_nil
      intro run hrun hid
      rw [Table.find_eq_some.mpr ⟨hrun, hid⟩] at hfind
      cases hfind
    rw [hnil]
    rfl
  | some run =>
    obtain ⟨hrun, rfl⟩ := Table.find_eq_some.mp hfind
    by_cases hstate : run.state ∈ terminalRunStates
    · dsimp only
      rw [if_neg (not_not.mpr hstate)]
      exact candidates_eq h hrun hstate ▸ rfl
    · have hnil : eligibleOf s olderThan run.runId = [] := by
        apply eligibleOf_eq_nil
        intro other hother hid
        rw [s.runs.row_unique hother hrun hid]
        exact hstate
      dsimp only
      rw [if_pos hstate, hnil]
      rfl

/-- Where nothing is eligible, or in a dry run, the transaction reports how many events are. -/
theorem compactRun_reports (h : Increasing EventRow.runId EventRow.sequence s.events)
    (hidle : eligibleOf s olderThan runId = [] ∨ dryRun = true) :
    s.compactRun sha256Digest runId olderThan dryRun t =
      .ok ((eligibleOf s olderThan runId).length, s) := by
  rw [compactRun_eq h]
  rcases hidle with hnil | rfl
  · rw [hnil]
    rfl
  · split
    · rw [if_pos rfl]
    · next hnone =>
      cases hrows : eligibleOf s olderThan runId with
      | nil => rfl
      | cons a rest =>
        rw [hrows] at hnone
        exact absurd List.getLast?_cons (hnone a _ rfl)

/-- The eligible events of the run make way for a tombstone. -/
theorem compactRun_removes (h : Increasing EventRow.runId EventRow.sequence s.events)
    (hids : (s.events.map EventRow.eventId).Nodup)
    (hfresh : s!"event-{t.freshId}" ∉ s.events.map EventRow.eventId)
    (hsome : eligibleOf s olderThan runId ≠ []) : ∃ tombstone s',
      s.compactRun sha256Digest runId olderThan false t =
        .ok ((eligibleOf s olderThan runId).length, s') ∧
      Compacted sha256Digest olderThan runId tombstone s s' := by
  obtain ⟨first, hfirst⟩ := Option.isSome_iff_exists.mp (List.isSome_head?.mpr hsome)
  have hlast := List.getLast?_eq_some_getLast hsome
  generalize (eligibleOf s olderThan runId).getLast hsome = last at hlast
  let tombstone := s.tombstone sha256Digest runId olderThan (eligibleOf s olderThan runId) first
    last t
  let events := (s.events ++ [tombstone]).filter fun row =>
    row.eventId ∉ (eligibleOf s olderThan runId).map EventRow.eventId
  refine ⟨tombstone, { s with events := events }, ?_, hsome, ?_, rfl, hfresh, rfl, ?_⟩
  · rw [compactRun_eq h, hfirst, hlast]
    dsimp only
    rw [if_neg (by simp)]
    unfold EventStore.removeRows
    rw [@insertEvent_eq s tombstone hfresh rfl]
  · exact ⟨rfl, rfl, rfl, first, List.mem_of_head? hfirst, last, List.mem_of_getLast? hlast,
      eligibleOf_between h hfirst hlast, rfl⟩
  · have hkept : tombstone.eventId ∉ (eligibleOf s olderThan runId).map EventRow.eventId := by
      intro hmem
      obtain ⟨row, hrow, hid⟩ := List.mem_map.mp hmem
      exact hfresh (List.mem_map.mpr ⟨row, List.mem_of_mem_filter hrow, hid⟩)
    change events = _
    unfold events
    rw [List.filter_append]
    congr 1
    · unfold eligibleOf
      rw [filter_ids hids]
      simp
    · rw [List.filter_singleton]
      simp [hkept]

/-! ## What is kept -/

/-- What every transaction leaves to the others: what was committed was committed, rows that are
gone stay away, and runs that have ended have ended. -/
structure Later (h h' : History) : Prop where
  committed : ∀ row ∈ h.committed, row ∈ h'.committed
  gone : ∀ row ∈ h.committed, row ∉ h.store.events → row ∉ h'.store.events
  ended : ∀ run ∈ h.store.runs.rows, run.state ∈ terminalRunStates →
    ∃ run' ∈ h'.store.runs.rows, run'.runId = run.runId ∧ run'.state ∈ terminalRunStates

theorem Later.refl (h : History) : Later h h :=
  ⟨fun _ hrow => hrow, fun _ _ hgone => hgone, fun run hrun hstate => ⟨run, hrun, rfl, hstate⟩⟩

theorem Later.trans {h h' h'' : History} (hfirst : Later h h') (hrest : Later h' h'') :
    Later h h'' where
  committed row hrow := hrest.committed row (hfirst.committed row hrow)
  gone row hrow hgone :=
    hrest.gone row (hfirst.committed row hrow) (hfirst.gone row hrow hgone)
  ended run hrun hstate := by
    obtain ⟨run', hrun', hid, hstate'⟩ := hfirst.ended run hrun hstate
    obtain ⟨run'', hrun'', hid', hstate''⟩ := hrest.ended run' hrun' hstate'
    exact ⟨run'', hrun'', hid'.trans hid, hstate''⟩

/-! ## What a transaction does -/

/-- What one transaction answers and leaves, by its kind. -/
def Does (sha256Digest : String → String) :
    (β : Type) → EventOp β → History → Except Exn β → History → Prop
  | _, .appendEvent draft, h, _, h' => h' = h ∨ ∃ row,
      row = draft.row (latestSequence h.store.events draft.runId + 1) ∧
      row.eventId ∉ h.store.events.map EventRow.eventId ∧ h'.store.runs = h.store.runs ∧
      h'.store.events = h.store.events ++ [row] ∧ h'.committed = h.committed ++ [row]
  | _, .terminalRunIds, h, x, h' => x = .ok h.store.terminalRunIds ∧ h' = h
  | _, .compactRun runId olderThan dryRun, h, x, h' =>
    x = .ok (eligibleOf h.store olderThan runId).length ∧
      ((h' = h ∧ (eligibleOf h.store olderThan runId = [] ∨ dryRun = true)) ∨
        (dryRun = false ∧ ∃ tombstone,
          Compacted sha256Digest olderThan runId tombstone h.store h'.store ∧
          h'.committed = h.committed ++ [tombstone]))
  | _, .insertRun _, h, _, h' | _, .moveRun _ _, h, _, h' =>
    h'.store.events = h.store.events ∧ h'.committed = h.committed ∧
      ∀ run ∈ h.store.runs.rows, run.state ∈ terminalRunStates →
        ∃ run' ∈ h'.store.runs.rows, run'.runId = run.runId ∧ run'.state ∈ terminalRunStates
  | _, _, h, _, h' => h' = h

section Does

variable {h h' : History} {β : Type} {op : EventOp β} {x : Except Exn β}

theorem added_eq_nil (hevents : s'.events = s.events) : added s s' = [] := by
  unfold added
  rw [hevents, List.filter_eq_nil_iff]
  intro row hrow
  simpa using ⟨row, hrow, rfl⟩

theorem added_last {keep : EventRow → Bool} (hid : row.eventId ∉ s.events.map EventRow.eventId)
    (hevents : s'.events = s.events.filter keep ++ [row]) : added s s' = [row] := by
  unfold added
  rw [hevents, List.filter_append]
  have hold : (s.events.filter keep).filter
      (fun row => row.eventId ∉ s.events.map EventRow.eventId) = [] := by
    rw [List.filter_eq_nil_iff]
    intro row hrow
    simpa using ⟨row, (List.mem_filter.mp hrow).1, rfl⟩
  have hnew : [row].filter (fun row => row.eventId ∉ s.events.map EventRow.eventId) = [row] := by
    rw [List.filter_singleton]
    simp [hid]
  rw [hold, hnew, List.nil_append]

theorem quiet_history : (⟨h.store, h.committed ++ added h.store h.store⟩ : History) = h := by
  rw [added_eq_nil rfl, List.append_nil]

theorem handled {h₁ : EventStore} (heq : handle sha256Digest β op t h.store = (x, h₁))
    (hadded : added h.store h₁ = []) :
    handleCommitted sha256Digest β op t h = (x, ⟨h₁, h.committed⟩) := by
  unfold handleCommitted
  rw [heq]
  dsimp only
  rw [hadded, List.append_nil]

theorem append_does {draft : Draft} :
    Does sha256Digest Unit (.appendEvent draft) h
      (handleCommitted sha256Digest Unit (.appendEvent draft) t h).1
      (handleCommitted sha256Digest Unit (.appendEvent draft) t h).2 := by
  by_cases hid : draft.eventId ∈ h.store.events.map EventRow.eventId
  · left
    have hsame : (handle sha256Digest Unit (.appendEvent draft) t h.store).2 = h.store :=
      append_stored hid
    unfold handleCommitted
    rw [hsame, added_eq_nil rfl, List.append_nil]
  · right
    let row := draft.row (latestSequence h.store.events draft.runId + 1)
    have hstore : (handle sha256Digest Unit (.appendEvent draft) t h.store).2 =
        { h.store with events := h.store.events ++ [row] } := by
      change (settle h.store (h.store.append draft)).2 = _
      rw [append_eq hid]
      rfl
    refine ⟨row, rfl, hid, ?_⟩
    unfold handleCommitted
    rw [hstore]
    refine ⟨rfl, rfl, ?_⟩
    rw [@added_last _ _ row (fun _ => true) hid (by simp)]

theorem compactRun_does (hsound : Sound h)
    (hfresh : s!"event-{t.freshId}" ∉ h.committed.map EventRow.eventId) :
    Does sha256Digest Nat (.compactRun runId olderThan dryRun) h
      (handleCommitted sha256Digest Nat (.compactRun runId olderThan dryRun) t h).1
      (handleCommitted sha256Digest Nat (.compactRun runId olderThan dryRun) t h).2 := by
  have hrows := hsound.issued.rows_increasing
  have hunused : s!"event-{t.freshId}" ∉ h.store.events.map EventRow.eventId := by
    intro hmem
    obtain ⟨row, hrow, hid⟩ := List.mem_map.mp hmem
    exact hfresh (List.mem_map.mpr ⟨row, hsound.issued.kept.subset hrow, hid⟩)
  by_cases hidle : eligibleOf h.store olderThan runId = [] ∨ dryRun = true
  · have heq : handle sha256Digest Nat (.compactRun runId olderThan dryRun) t h.store =
        (.ok (eligibleOf h.store olderThan runId).length, h.store) := by
      change settle h.store (h.store.compactRun sha256Digest runId olderThan dryRun t) = _
      rw [compactRun_reports hrows hidle]
      rfl
    rw [handled heq (added_eq_nil rfl)]
    exact ⟨rfl, .inl ⟨rfl, hidle⟩⟩
  · obtain ⟨hsome, hdry⟩ := not_or.mp hidle
    rw [Bool.not_eq_true] at hdry
    subst hdry
    obtain ⟨tombstone, s', heq, hcompacted⟩ :=
      compactRun_removes hrows hsound.ids hunused hsome
    have hhandle : handle sha256Digest Nat (.compactRun runId olderThan false) t h.store =
        (.ok (eligibleOf h.store olderThan runId).length, s') := by
      change settle h.store (h.store.compactRun sha256Digest runId olderThan false t) = _
      rw [heq]
      rfl
    unfold handleCommitted
    rw [hhandle]
    refine ⟨rfl, .inr ⟨rfl, tombstone, hcompacted, ?_⟩⟩
    dsimp only
    rw [added_last hcompacted.fresh hcompacted.events]

theorem insertRun_ended {run : RunRecord} :
    ∀ r ∈ s.runs.rows, r.state ∈ terminalRunStates →
      ∃ r' ∈ (settle s (s.insertRun run)).2.runs.rows, r'.runId = r.runId ∧
        r'.state ∈ terminalRunStates := by
  intro r hr hstate
  refine ⟨r, ?_, rfl, hstate⟩
  unfold EventStore.insertRun
  cases hruns : s.runs.insert run with
  | none => exact hr
  | some runs =>
    change r ∈ runs.rows
    rw [Table.insert_rows hruns]
    exact List.mem_cons_of_mem run hr

/-- No transition leads out of a terminal state. -/
theorem moveRun_ended {target : RunState} :
    ∀ r ∈ s.runs.rows, r.state ∈ terminalRunStates →
      ∃ r' ∈ (settle s (s.moveRun runId target)).2.runs.rows, r'.runId = r.runId ∧
        r'.state ∈ terminalRunStates := by
  intro r hr hstate
  unfold EventStore.moveRun
  cases hfind : s.runs.find runId with
  | none => exact ⟨r, hr, rfl, hstate⟩
  | some run =>
    obtain ⟨hrun, hid⟩ := Table.find_eq_some.mp hfind
    dsimp only
    cases hmove : transitionRun run.state target with
    | error e => exact ⟨r, hr, rfl, hstate⟩
    | ok state =>
      let moved : RunRecord := { run with state, version := run.version + 1 }
      have hmoved : moved.runId = run.runId := rfl
      change ∃ r' ∈ (s.runs.replace moved).rows, r'.runId = r.runId ∧ r'.state ∈ terminalRunStates
      by_cases hsame : r.runId = run.runId
      · have hr' : r = run := s.runs.row_unique hr hrun hsame
        subst hr'
        have hlegal := transitionRun_legal hmove
        have hterminal : Terminal runTransitions r.state :=
          (terminal_run_iff r.state).mpr (by simpa [terminalRunStates] using hstate)
        refine ⟨moved, (Table.mem_replace hr hmoved moved).mpr (.inl rfl), rfl, ?_⟩
        change state ∈ terminalRunStates
        rw [hlegal.1, hlegal.2.eq_of_terminal hterminal]
        exact hstate
      · exact ⟨r, (Table.mem_replace hrun hmoved r).mpr (.inr ⟨hr, hsame⟩), rfl, hstate⟩

theorem moveRun_events {target : RunState} :
    (settle s (s.moveRun runId target)).2.events = s.events := by
  unfold EventStore.moveRun
  cases s.runs.find runId with
  | none => rfl
  | some run =>
    dsimp only
    cases transitionRun run.state target with
    | error e => rfl
    | ok state => rfl

theorem insertRun_events {run : RunRecord} :
    (settle s (s.insertRun run)).2.events = s.events := by
  unfold EventStore.insertRun
  cases s.runs.insert run <;> rfl

/-- Every transaction does what its kind does. -/
theorem transact_does (hsound : Sound h) (hop : transact sha256Digest β op h x h') :
    Does sha256Digest β op h x h' := by
  obtain ⟨t, hfresh, hhandle⟩ := hop
  obtain ⟨rfl, rfl⟩ := Prod.mk.inj hhandle
  cases op with
  | now => exact quiet_history
  | newEventId => exact quiet_history
  | appendEvent draft => exact append_does
  | terminalRunIds => exact ⟨rfl, quiet_history⟩
  | compactRun runId olderThan dryRun => exact compactRun_does hsound hfresh
  | insertRun run =>
    have hevents : (handle sha256Digest Unit (.insertRun run) t h.store).2.events = h.store.events :=
      insertRun_events
    refine ⟨hevents, ?_, insertRun_ended⟩
    change h.committed ++ added h.store _ = h.committed
    rw [added_eq_nil hevents, List.append_nil]
  | moveRun runId target =>
    have hevents : (handle sha256Digest Unit (.moveRun runId target) t h.store).2.events =
        h.store.events := moveRun_events
    refine ⟨hevents, ?_, moveRun_ended⟩
    change h.committed ++ added h.store _ = h.committed
    rw [added_eq_nil hevents, List.append_nil]

theorem Sound.append (hsound : Sound h) (hid : row.eventId ∉ h.store.events.map EventRow.eventId)
    (hsequence : row.sequence = latestSequence h.store.events row.runId + 1)
    {keep : EventRow → Bool} (hgone : ∀ a ∈ h.store.events, keep a = false → a.runId = row.runId)
    (hevents : h'.store.events = h.store.events.filter keep ++ [row])
    (hcommitted : h'.committed = h.committed ++ [row]) : Sound h' := by
  constructor
  · rw [hevents, hcommitted]
    exact hsound.issued.replace hsequence hgone
  · rw [hevents, List.map_append]
    apply List.Nodup.append
    · exact hsound.ids.sublist (List.filter_sublist.map _)
    · exact List.nodup_singleton _
    · intro id hold hnew
      obtain ⟨a, ha, rfl⟩ := List.mem_map.mp hold
      rw [List.map_singleton, List.mem_singleton] at hnew
      rw [← hnew] at hid
      exact hid (List.mem_map_of_mem (List.mem_of_mem_filter ha))

/-- A row that is gone stays away: the new row has a number of its own. -/
theorem Later.append (hsound : Sound h)
    (hsequence : row.sequence = latestSequence h.store.events row.runId + 1)
    {keep : EventRow → Bool} (hruns : h'.store.runs = h.store.runs)
    (hevents : h'.store.events = h.store.events.filter keep ++ [row])
    (hcommitted : h'.committed = h.committed ++ [row]) : Later h h' where
  committed a ha := by
    rw [hcommitted]
    exact List.mem_append_left _ ha
  gone a ha hgone hmem := by
    rw [hevents] at hmem
    rcases List.mem_append.mp hmem with hold | hnew
    · exact hgone (List.mem_of_mem_filter hold)
    · rw [List.mem_singleton.mp hnew] at ha
      exact absurd (hsound.issued.below hsequence ha rfl) (lt_irrefl _)
  ended run hrun hstate := by
    rw [hruns]
    exact ⟨run, hrun, rfl, hstate⟩

/-- Soundness is kept, and so is what the others rely on. -/
theorem Does.keeps (hsound : Sound h) (hdoes : Does sha256Digest β op h x h') :
    Sound h' ∧ Later h h' := by
  cases op with
  | now =>
    obtain rfl : h' = h := hdoes
    exact ⟨hsound, .refl _⟩
  | newEventId =>
    obtain rfl : h' = h := hdoes
    exact ⟨hsound, .refl _⟩
  | appendEvent draft =>
    rcases hdoes with rfl | ⟨row, hrow, hid, hruns, hevents, hcommitted⟩
    · exact ⟨hsound, .refl _⟩
    · have hsequence : row.sequence = latestSequence h.store.events row.runId + 1 := by
        rw [hrow]
        rfl
      have hall : h'.store.events = (h.store.events.filter fun _ => true) ++ [row] := by
        rw [hevents, List.filter_true]
      exact ⟨hsound.append hid hsequence (fun _ _ hkeep => by cases hkeep) hall hcommitted,
        .append hsound hsequence hruns hall hcommitted⟩
  | terminalRunIds =>
    obtain ⟨-, rfl⟩ := hdoes
    exact ⟨hsound, .refl _⟩
  | compactRun runId olderThan dryRun =>
    obtain ⟨-, ⟨rfl, -⟩ | ⟨-, tombstone, hcompacted, hcommitted⟩⟩ := hdoes
    · exact ⟨hsound, .refl _⟩
    · have hnumbered : tombstone.sequence =
          latestSequence h.store.events tombstone.runId + 1 := by
        rw [hcompacted.summarizes.run]
        exact hcompacted.numbered
      refine ⟨hsound.append hcompacted.fresh hnumbered ?_ hcompacted.events hcommitted,
        .append hsound hnumbered hcompacted.runs hcompacted.events hcommitted⟩
      intro a _ hkeep
      rw [hcompacted.summarizes.run]
      simp only [decide_eq_false_iff_not, not_not] at hkeep
      exact hkeep.1
  | insertRun run =>
    obtain ⟨hevents, hcommitted, hended⟩ := hdoes
    exact ⟨⟨by rw [hevents, hcommitted]; exact hsound.issued, by rw [hevents]; exact hsound.ids⟩,
      ⟨fun _ hrow => by rwa [hcommitted], fun _ _ hgone => by rwa [hevents], hended⟩⟩
  | moveRun runId target =>
    obtain ⟨hevents, hcommitted, hended⟩ := hdoes
    exact ⟨⟨by rw [hevents, hcommitted]; exact hsound.issued, by rw [hevents]; exact hsound.ids⟩,
      ⟨fun _ hrow => by rwa [hcommitted], fun _ _ hgone => by rwa [hevents], hended⟩⟩

/-- A call that may fail does what its transaction does, or nothing. -/
theorem unreliable_does (hsound : Sound h) (hop : unreliable sha256Digest β op h x h') :
    h' = h ∨ ∃ y, Does sha256Digest β op h y h' := by
  rcases hop with hop | ⟨text, -, rfl | ⟨y, hop⟩⟩
  · exact .inr ⟨x, transact_does hsound hop⟩
  · exact .inl rfl
  · exact .inr ⟨y, transact_does hsound hop⟩

theorem unreliable_keeps (hsound : Sound h) (hop : unreliable sha256Digest β op h x h') :
    Sound h' ∧ Later h h' := by
  rcases unreliable_does hsound hop with rfl | ⟨y, hdoes⟩
  · exact ⟨hsound, .refl _⟩
  · exact hdoes.keeps hsound

end Does

/-! ## Reports -/

section Reports

variable {str : Json → String} {rows rows' : List EventRow}

/-- What reports render belongs to the audit. -/
theorem reportable_permanent (h : reportableAuditEntry str row ≠ none) :
    row.eventType ∈ permanentAuditEvents := by
  unfold reportableAuditEntry at h
  dsimp only at h
  split at h
  · next hmem =>
    simp only [List.mem_cons, List.not_mem_nil, or_false] at hmem
    rcases hmem with heq | heq <;> rw [heq] <;> decide
  · split at h
    · next hmem =>
      simp only [List.mem_cons, List.not_mem_nil, or_false] at hmem
      rcases hmem with heq | heq | heq <;> rw [heq] <;> decide
    · split at h
      · next heq => rw [heq]; decide
      · split at h
        · next heq => rw [heq]; decide
        · split at h
          · next heq => rw [heq]; decide
          · split at h
            · next heq => rw [heq]; decide
            · exact absurd rfl h

theorem removable_unreported (h : Removable row) : reportableAuditEntry str row = none := by
  by_contra hsome
  exact h.1 (reportable_permanent hsome)

theorem Summarizes.unreported {gone : List EventRow}
    (h : Summarizes sha256Digest olderThan runId gone row) :
    reportableAuditEntry str row = none := by
  unfold reportableAuditEntry
  simp [h.eventType]

theorem Summarizes.not_eligible {gone : List EventRow} {olderThan' : Timestamp}
    (h : Summarizes sha256Digest olderThan runId gone row) : ¬ Eligible s olderThan' row := by
  rintro ⟨-, -, hpermanent, -⟩
  rw [h.eventType] at hpermanent
  exact hpermanent (by decide)

/-- In order, the events of a run need no sorting. -/
theorem stream_eq (h : Increasing EventRow.runId EventRow.sequence rows) :
    stream rows runId = rows.filter fun row => row.runId = runId :=
  increasing_sorted h fun _ _ hrun => of_decide_eq_true hrun

/-- Rows that are not rendered may go, and others come in their place. -/
theorem auditHistory_eq (h : Increasing EventRow.runId EventRow.sequence rows)
    (h' : Increasing EventRow.runId EventRow.sequence rows') {keep : EventRow → Bool}
    {new : List EventRow} (hrows : rows' = rows.filter keep ++ new)
    (hgone : ∀ a ∈ rows, keep a = false → reportableAuditEntry str a = none)
    (hnew : ∀ a ∈ new, reportableAuditEntry str a = none) :
    auditHistory str rows' runId = auditHistory str rows runId := by
  unfold auditHistory
  rw [stream_eq h, stream_eq h', hrows, List.filter_append, List.filterMap_append]
  have hsilent : (new.filter fun row => row.runId = runId).filterMap (reportableAuditEntry str) =
      [] := by
    rw [List.filterMap_eq_nil_iff]
    exact fun a ha => hnew a (List.mem_of_mem_filter ha)
  rw [hsilent, List.append_nil]
  clear hrows h h' hsilent
  induction rows with
  | nil => rfl
  | cons a rest ih =>
    have hrest := ih fun b hb => hgone b (List.mem_cons_of_mem a hb)
    by_cases hkeep : keep a = true
    · by_cases hrun : a.runId = runId
      · simp [hkeep, hrun, List.filterMap_cons] at hrest ⊢
        rw [hrest]
      · simpa [hkeep, hrun] using hrest
    · have hsilent := hgone a List.mem_cons_self (by simpa using hkeep)
      by_cases hrun : a.runId = runId
      · simpa [hkeep, hrun, List.filterMap_cons, hsilent] using hrest
      · simpa [hkeep, hrun] using hrest

end Reports

end DurableAgent.Events
