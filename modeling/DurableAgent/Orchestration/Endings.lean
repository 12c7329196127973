import DurableAgent.Library.History
import DurableAgent.Orchestration.Effects
import DurableAgent.Orchestration.Answers
import DurableAgent.Orchestration.Regions

/-!
# Ends of runs and the events that announce them

The end of a run is committed first and announced by an event of its own afterwards. What was
brought to an end and what is still to be announced are kept in an account, thread by thread.
-/

namespace DurableAgent.Orchestration

open Library Library.Prog Store

variable {Text ι : Type} [DecidableEq ι]

/-! ## The account -/

/-- The event that announces a terminal state. -/
def endEvent : RunState → Option String
  | .COMPLETED => some "run.completed"
  | .FAILED => some "run.failed"
  | .CANCELLED => some "run.cancelled"
  | _ => none

def endEvents : List String := ["run.completed", "run.failed", "run.cancelled"]

theorem endEvent_mem {state : RunState} {eventType : String} (h : endEvent state = some eventType) :
    eventType ∈ endEvents := by
  cases state <;> simp_all [endEvent, endEvents]

/-- The ends of a run that its events announce. -/
def endsOf (s : StoreState Text) (runId : String) : List String :=
  (s.checkpoints.events.filter fun event =>
    event.runId = runId ∧ event.eventType ∈ endEvents).map Checkpoints.Event.eventType

/-- The run has come to an end. -/
def Ended (s : StoreState Text) (runId : String) : Prop :=
  ∃ row ∈ s.runs.rows, row.runId = runId ∧ endEvent row.state ≠ none

instance (s : StoreState Text) (runId : String) : Decidable (Ended s runId) :=
  inferInstanceAs (Decidable (∃ _ ∈ _, _ ∧ _))

/-- The thread `mover` has brought the run to the state. -/
structure RunEnd (ι : Type) where
  mover : ι
  runId : String
  state : RunState
  deriving DecidableEq

/-- The ends that were reached; those that are to be announced still; the threads that have started
an attempt since they last looked for requests; and the threads that have met their key. -/
structure Account (ι : Type) where
  moved : List (RunEnd ι) := []
  owed : List (RunEnd ι) := []
  working : ι → Bool := fun _ => false
  replayed : ι → Bool := fun _ => false

/-- A run that had not ended is brought to an end. -/
def Account.update (a : Account ι) (i : ι) (run : RunRecord) (s : StoreState Text) : Account ι :=
  if endEvent run.state ≠ none ∧ ¬ Ended s run.runId then
    { a with
      moved := ⟨i, run.runId, run.state⟩ :: a.moved, owed := ⟨i, run.runId, run.state⟩ :: a.owed }
  else a

/-- The event announces an end that the thread has reached. -/
def Announces (i : ι) (event : Checkpoints.Event) (d : RunEnd ι) : Prop :=
  d.mover = i ∧ d.runId = event.runId ∧ endEvent d.state = some event.eventType

instance (i : ι) (event : Checkpoints.Event) (d : RunEnd ι) : Decidable (Announces i event d) :=
  inferInstanceAs (Decidable (_ ∧ _ ∧ _))

def Account.publish (a : Account ι) (i : ι) (event : Checkpoints.Event) : Account ι :=
  { a with owed := a.owed.filter fun d => ¬ Announces i event d }

def Account.meet (a : Account ι) (i : ι) (known : Bool) : Account ι :=
  { a with replayed := Function.update a.replayed i (a.replayed i || known) }

def noteEnding (i : ι) : Note (StoreOp Text) Exn (StoreState Text) (Account ι)
  | _, .sql (.updateRun run _), .ok _, s, a => a.update i run s
  | _, .sql (.pendingRequest _ _), .ok _, _, a =>
    { a with working := Function.update a.working i false }
  | _, .sql (.startTaskAttempt _ _ _), .ok _, _, a =>
    { a with working := Function.update a.working i true }
  | _, .sql (.getIdempotencyKey _), .ok key, _, a => a.meet i key.isSome
  | _, .sql (.insertIdempotencyKey _), .ok inserted, _, a => a.meet i (!inserted)
  | _, .checkpoint (.publish event), .ok _, _, a => a.publish i event
  | _, _, _, _, a => a

/-- A thread brings a run to an end only while it has not started an attempt since it last looked
for requests, and a thread that has not writes an end only of a run that has not ended. -/
def EndsOnce (i : ι) : (β : Type) → StoreOp Text β → StoreState Text × Account ι → Prop
  | _, .sql (.updateRun run _), s =>
    endEvent run.state ≠ none → (Ended s.1 run.runId ↔ s.2.working i = true)
  | _, _, _ => True

instance (i : ι) (β : Type) (op : StoreOp Text β) (s : StoreState Text × Account ι) :
    Decidable (EndsOnce i β op s) := by
  unfold EndsOnce
  split <;> infer_instance

/-- Runs that have ended stay in the state that they ended in. -/
def EndsLast (s s' : StoreState Text) : Prop :=
  ∀ row ∈ s.runs.rows, endEvent row.state ≠ none →
    ∃ row' ∈ s'.runs.rows, row'.runId = row.runId ∧ row'.state = row.state

/-- The event of a call that publishes one. -/
def published : (β : Type) → StoreOp Text β → Option Checkpoints.Event
  | _, .checkpoint (.publish event) => some event
  | _, _ => none

/-! ## What is accounted for -/

/-- Each run was brought to an end at most once, and is in the state still; its events announce
that end, or it is to be announced. -/
structure Accounted (s : StoreState Text × Account ι) : Prop where
  lasting : ∀ d ∈ s.2.moved, endEvent d.state ≠ none ∧
    ∃ row ∈ s.1.runs.rows, row.runId = d.runId ∧ row.state = d.state
  once : (s.2.moved.map RunEnd.runId).Nodup
  owed : ∀ d ∈ s.2.owed, d ∈ s.2.moved
  due : ∀ d ∈ s.2.moved,
    endsOf s.1 d.runId = if d ∈ s.2.owed then [] else (endEvent d.state).toList
  unmoved : ∀ runId, runId ∉ s.2.moved.map RunEnd.runId → endsOf s.1 runId = []

variable {codec : Codec Text} {sha256Digest : String → String} {s s' : StoreState Text × Account ι}
  {i j : ι} {α β : Type} {op : StoreOp Text β} {x : Except Exn β} {t : Supply}

theorem Accounted.lasts (h : Accounted s) (hlast : EndsLast s.1 s'.1) :
    ∀ d ∈ s.2.moved, endEvent d.state ≠ none ∧
      ∃ row ∈ s'.1.runs.rows, row.runId = d.runId ∧ row.state = d.state := by
  intro d hd
  obtain ⟨hend, row, hrow, hid, hstate⟩ := h.lasting d hd
  obtain ⟨row', hrow', hid', hstate'⟩ := hlast row hrow (by rw [hstate]; exact hend)
  exact ⟨hend, row', hrow', hid'.trans hid, hstate'.trans hstate⟩

theorem Accounted.same (h : Accounted s) (hlast : EndsLast s.1 s'.1)
    (hevents : s'.1.checkpoints.events = s.1.checkpoints.events)
    (hmoved : s'.2.moved = s.2.moved) (howed : s'.2.owed = s.2.owed) : Accounted s' := by
  have hends (runId : String) : endsOf s'.1 runId = endsOf s.1 runId := by
    unfold endsOf
    rw [hevents]
  refine ⟨?_, ?_, ?_, ?_, ?_⟩
  · rw [hmoved]
    exact h.lasts hlast
  · rw [hmoved]
    exact h.once
  · rw [hmoved, howed]
    exact h.owed
  · intro d hd
    rw [hmoved] at hd
    rw [hends, howed]
    exact h.due d hd
  · intro runId hrunId
    rw [hmoved] at hrunId
    rw [hends]
    exact h.unmoved runId hrunId

theorem Accounted.move {run : RunRecord} (h : Accounted s) (hlast : EndsLast s.1 s'.1)
    (hevents : s'.1.checkpoints.events = s.1.checkpoints.events)
    (hrow : ∃ row ∈ s'.1.runs.rows, row.runId = run.runId ∧ row.state = run.state)
    (hend : endEvent run.state ≠ none) (hnew : ¬ Ended s.1 run.runId)
    (hmoved : s'.2.moved = ⟨i, run.runId, run.state⟩ :: s.2.moved)
    (howed : s'.2.owed = ⟨i, run.runId, run.state⟩ :: s.2.owed) : Accounted s' := by
  have hends (runId : String) : endsOf s'.1 runId = endsOf s.1 runId := by
    unfold endsOf
    rw [hevents]
  have hfresh : run.runId ∉ s.2.moved.map RunEnd.runId := by
    intro hmem
    obtain ⟨d, hd, hid⟩ := List.mem_map.mp hmem
    obtain ⟨hdend, row, hrow, hrowId, hstate⟩ := h.lasting d hd
    exact hnew ⟨row, hrow, hrowId.trans hid, by rw [hstate]; exact hdend⟩
  refine ⟨?_, ?_, ?_, ?_, ?_⟩
  · rw [hmoved]
    intro d hd
    rcases List.mem_cons.mp hd with rfl | hd
    · exact ⟨hend, hrow⟩
    · exact h.lasts hlast d hd
  · rw [hmoved, List.map_cons, List.nodup_cons]
    exact ⟨hfresh, h.once⟩
  · rw [hmoved, howed]
    intro d hd
    rcases List.mem_cons.mp hd with rfl | hd
    · exact List.mem_cons_self
    · exact List.mem_cons_of_mem _ (h.owed d hd)
  · rw [hmoved, howed]
    intro d hd
    rw [hends]
    rcases List.mem_cons.mp hd with rfl | hd
    · rw [if_pos List.mem_cons_self]
      exact h.unmoved _ hfresh
    · have hne : d ≠ ⟨i, run.runId, run.state⟩ := by
        rintro rfl
        exact hfresh (List.mem_map_of_mem hd)
      simpa [List.mem_cons, hne] using h.due d hd
  · intro runId hrunId
    rw [hmoved, List.map_cons, List.mem_cons, not_or] at hrunId
    rw [hends]
    exact h.unmoved runId hrunId.2

theorem Accounted.announce {event : Checkpoints.Event} (h : Accounted s)
    (hruns : s'.1.runs = s.1.runs)
    (hevents : s'.1.checkpoints.events = s.1.checkpoints.events ++ [event])
    (hpre : event.eventType ∈ endEvents → ∃ d ∈ s.2.owed, Announces i event d)
    (hnote : s'.2 = s.2.publish i event) : Accounted s' := by
  have hmoved : s'.2.moved = s.2.moved := by
    rw [hnote]
    rfl
  have howed (d : RunEnd ι) : d ∈ s'.2.owed ↔ d ∈ s.2.owed ∧ ¬ Announces i event d := by
    rw [hnote, Account.publish, List.mem_filter, decide_eq_true_eq]
  have hends (runId : String) : endsOf s'.1 runId = endsOf s.1 runId ++
      if event.runId = runId ∧ event.eventType ∈ endEvents then [event.eventType] else [] := by
    unfold endsOf
    rw [hevents, List.filter_append, List.map_append]
    congr 1
    by_cases hevent : event.runId = runId ∧ event.eventType ∈ endEvents
    · simp [hevent]
    · simp [hevent]
  refine ⟨?_, ?_, ?_, ?_, ?_⟩
  · rw [hmoved, hruns]
    exact h.lasting
  · rw [hmoved]
    exact h.once
  · intro d hd
    rw [hmoved]
    exact h.owed d ((howed d).mp hd).1
  · intro d hd
    rw [hmoved] at hd
    by_cases hevent : event.runId = d.runId ∧ event.eventType ∈ endEvents
    · obtain ⟨d', hd', hannounces⟩ := hpre hevent.2
      obtain rfl : d' = d := by
        refine List.inj_on_of_nodup_map h.once (h.owed d' hd') hd ?_
        exact hannounces.2.1.trans hevent.1
      have hnot : d' ∉ s'.2.owed := fun hmem => ((howed d').mp hmem).2 hannounces
      rw [hends, if_pos hevent, h.due d' hd, if_pos hd', if_neg hnot, hannounces.2.2]
      rfl
    · have hkept : ¬ Announces i event d := fun hannounces =>
        hevent ⟨hannounces.2.1.symm, endEvent_mem hannounces.2.2⟩
      have hiff : d ∈ s'.2.owed ↔ d ∈ s.2.owed := by simp [howed, hkept]
      rw [hends, if_neg hevent, List.append_nil, h.due d hd]
      simp only [hiff]
  · intro runId hrunId
    rw [hmoved] at hrunId
    have hevent : ¬ (event.runId = runId ∧ event.eventType ∈ endEvents) := by
      rintro ⟨rfl, hend⟩
      obtain ⟨d, hd, hannounces⟩ := hpre hend
      exact hrunId (List.mem_map.mpr ⟨d, h.owed d hd, hannounces.2.1⟩)
    rw [hends, if_neg hevent, List.append_nil]
    exact h.unmoved runId hrunId

/-! ## The contract of a thread -/

/-- What the account says of one thread. -/
def Account.share (a : Account ι) (i : ι) : List (RunEnd ι) × Bool × Bool :=
  (a.owed.filter fun d => d.mover = i, a.working i, a.replayed i)

/-- A thread announces only what it owes, and relies on the others to leave its part of the account
alone. -/
def announcing (i : ι) : Contract (StoreOp Text) (StoreState Text × Account ι) where
  inv := Accounted
  rely s s' := s'.2.share i = s.2.share i
  guar s s' := (∀ j, j ≠ i → s'.2.share j = s.2.share j) ∧
    (s.2.replayed i = true → s'.2.replayed i = true)
  pre β op s := ∀ event ∈ published β op, event.eventType ∈ endEvents →
    ∃ d ∈ s.2.owed, Announces i event d
  refl _ := rfl
  trans h h' := h'.trans h

theorem compatible_announcing : Compatible (@announcing Text ι _) where
  inv _ _ _ h := h
  rely _ j _ _ hij h _ := h.1 j (Ne.symm hij)

abbrev endingExec (codec : Codec Text) (sha256Digest : String → String) (i : ι) :
    Exec (StoreOp Text) Exn (StoreState Text × Account ι) :=
  (((handle codec sha256Digest).recorded (noteEnding i)).exec.guard (EndsOnce i)).withFaults

/-- The calls, where ends last. -/
def lastingExec (codec : Codec Text) (sha256Digest : String → String) (i : ι) :
    Exec (StoreOp Text) Exn (StoreState Text × Account ι) := fun β op s x s' =>
  endingExec codec sha256Digest i β op s x s' ∧ EndsLast s.1 s'.1

theorem share_update {a : Account ι} {s : StoreState Text} {run : RunRecord} (hij : j ≠ i) :
    (a.update i run s).share j = a.share j := by
  unfold Account.share Account.update
  split
  · simp [Ne.symm hij]
  · rfl

theorem share_publish {a : Account ι} {event : Checkpoints.Event} (hij : j ≠ i) :
    (a.publish i event).share j = a.share j := by
  unfold Account.share Account.publish
  dsimp only
  congr 1
  rw [List.filter_filter]
  refine List.filter_congr fun d _ => ?_
  by_cases hd : d.mover = j
  · have hne : ¬ Announces i event d := fun h => hij (hd.symm.trans h.1)
    simp [hd, hne]
  · simp [hd]

/-- A note on one thread leaves the others alone. -/
theorem share_noteEnding {a : Account ι} {s : StoreState Text} (hij : j ≠ i) :
    (noteEnding i β op x s a).share j = a.share j := by
  cases op with
  | sql op =>
    cases op with
    | updateRun run v =>
      cases x with
      | ok _ => exact share_update hij
      | error _ => rfl
    | pendingRequest runId kind =>
      cases x with
      | ok _ => simp [noteEnding, Account.share, hij]
      | error _ => rfl
    | startTaskAttempt runId taskId n =>
      cases x with
      | ok _ => simp [noteEnding, Account.share, hij]
      | error _ => rfl
    | insertIdempotencyKey key =>
      cases x with
      | ok _ => simp [noteEnding, Account.meet, Account.share, hij]
      | error _ => rfl
    | getIdempotencyKey pk =>
      cases x with
      | ok _ => simp [noteEnding, Account.meet, Account.share, hij]
      | error _ => rfl
    | _ => rfl
  | checkpoint op =>
    cases op with
    | publish event =>
      cases x with
      | ok _ => exact share_publish hij
      | error _ => rfl
    | _ => rfl
  | _ => rfl

/-- A thread that has met its key has met it. -/
theorem replayed_noteEnding {a : Account ι} {s : StoreState Text} (h : a.replayed i = true) :
    (noteEnding i β op x s a).replayed i = true := by
  cases op with
  | sql op =>
    cases op with
    | updateRun run v =>
      cases x with
      | ok _ =>
        change (a.update i run s).replayed i = true
        unfold Account.update
        split <;> exact h
      | error _ => exact h
    | pendingRequest _ _ | startTaskAttempt _ _ _ => cases x <;> exact h
    | insertIdempotencyKey _ | getIdempotencyKey _ =>
      cases x with
      | ok _ => simp [noteEnding, Account.meet, h]
      | error _ => exact h
    | _ => exact h
  | checkpoint op => cases op <;> cases x <;> exact h
  | _ => exact h

omit [DecidableEq ι] in
theorem handle_events {s : StoreState Text} (h : published β op = none) :
    (handle codec sha256Digest β op t s).2.checkpoints.events = s.checkpoints.events := by
  by_cases hwrites : Region.checkpoints ∈ (effectOf β op).writes
  · cases op with
    | checkpoint op =>
      cases op with
      | publish event => cases h
      | appendCheckpoint envelope n =>
        change (Checkpoints.handle codec sha256Digest Unit (.appendCheckpoint envelope n) t.checkpoint
          s.checkpoints).2.events = _
        simp only [Checkpoints.handle]
        split <;> rfl
      | pruneCheckpoints runId retain =>
        change (Checkpoints.handle codec sha256Digest Nat (.pruneCheckpoints runId retain) t.checkpoint
          s.checkpoints).2.events = _
        simp only [Checkpoints.handle]
        split <;> rfl
      | _ => rfl
    | sql op => cases op <;> simp [effectOf, sqlEffect, Effect.writes] at hwrites
    | _ => simp [effectOf, Effect.writes] at hwrites
  · have hsame := @handle_same Text codec sha256Digest β .checkpoints s op t hwrites
    change (handle codec sha256Digest β op t s).2.checkpoints = s.checkpoints at hsame
    rw [hsame]

omit [DecidableEq ι] in
theorem updateRun_row {run run' : RunRecord} {v : Nat} {s₁ s₂ : StoreState Text}
    (h : settle s₁ (s₁.updateRun run v) = (.ok run', s₂)) :
    ∃ row ∈ s₂.runs.rows, row.runId = run.runId ∧ row.state = run.state := by
  unfold StoreState.updateRun at h
  split at h
  · next runs hswap =>
    obtain ⟨old, hold, hkey, -, hreplace⟩ := Table.swap_eq_some.mp hswap
    obtain rfl : { s₁ with runs := runs } = s₂ := (Prod.mk.inj h).2
    have hkey' : (withVersion run v).runId = old.runId := hkey.symm
    refine ⟨withVersion run v, ?_, rfl, rfl⟩
    change withVersion run v ∈ runs.rows
    rw [← hreplace]
    exact (Table.mem_replace hold hkey' _).mpr (.inl rfl)
  · cases (Prod.mk.inj h).1

/-- Every step of a thread that announces what it owes keeps the account. -/
theorem announcing_step (h : Accounted s) (hpre : (announcing i).pre β op s)
    (hop : lastingExec codec sha256Digest i β op s x s') :
    (announcing i).guar s s' ∧ Accounted s' := by
  obtain ⟨hop, hlast⟩ := hop
  rcases Handler.noted_cases hop with ⟨t, -, hhandle, hnote⟩ | ⟨e, -, rfl⟩
  · refine ⟨⟨fun j hij => ?_, fun hreplayed => ?_⟩, ?_⟩
    · rw [hnote]
      exact share_noteEnding hij
    · rw [hnote]
      exact replayed_noteEnding hreplayed
    · cases hpublished : published β op with
      | some event =>
        cases op with
        | checkpoint op =>
          cases op with
          | publish event' =>
            obtain rfl : event' = event := Option.some.inj hpublished
            obtain ⟨rfl, hstate⟩ := Prod.mk.inj hhandle
            exact h.announce (by rw [← hstate]) (by rw [← hstate])
              (hpre event' rfl) hnote
          | _ => cases hpublished
        | _ => cases hpublished
      | none =>
        have hevents : s'.1.checkpoints.events = s.1.checkpoints.events := by
          have hsame : (handle codec sha256Digest β op t s.1).2.checkpoints.events =
              s.1.checkpoints.events := handle_events hpublished
          rw [hhandle] at hsame
          exact hsame
        have hsame (hmoved : s'.2.moved = s.2.moved) (howed : s'.2.owed = s.2.owed) :
            Accounted s' := h.same hlast hevents hmoved howed
        cases op with
        | sql op =>
          cases op with
          | updateRun run v =>
            cases x with
            | error e => exact hsame (by rw [hnote]; rfl) (by rw [hnote]; rfl)
            | ok run' =>
              change s'.2 = s.2.update i run s.1 at hnote
              unfold Account.update at hnote
              split at hnote
              · next hmove =>
                exact h.move (i := i) hlast hevents (updateRun_row hhandle) hmove.1 hmove.2
                  (by rw [hnote]) (by rw [hnote])
              · exact hsame (by rw [hnote]) (by rw [hnote])
          | pendingRequest runId kind =>
            cases x with
            | ok _ => exact hsame (by rw [hnote]; rfl) (by rw [hnote]; rfl)
            | error _ => exact hsame (by rw [hnote]; rfl) (by rw [hnote]; rfl)
          | startTaskAttempt runId taskId n =>
            cases x with
            | ok _ => exact hsame (by rw [hnote]; rfl) (by rw [hnote]; rfl)
            | error _ => exact hsame (by rw [hnote]; rfl) (by rw [hnote]; rfl)
          | insertIdempotencyKey key =>
            cases x with
            | ok _ => exact hsame (by rw [hnote]; rfl) (by rw [hnote]; rfl)
            | error _ => exact hsame (by rw [hnote]; rfl) (by rw [hnote]; rfl)
          | getIdempotencyKey pk =>
            cases x with
            | ok _ => exact hsame (by rw [hnote]; rfl) (by rw [hnote]; rfl)
            | error _ => exact hsame (by rw [hnote]; rfl) (by rw [hnote]; rfl)
          | _ => exact hsame (by rw [hnote]; rfl) (by rw [hnote]; rfl)
        | checkpoint op =>
          cases op with
          | publish event => cases hpublished
          | _ => exact hsame (by rw [hnote]; rfl) (by rw [hnote]; rfl)
        | _ => exact hsame (by rw [hnote]; rfl) (by rw [hnote]; rfl)
  · exact ⟨⟨fun _ _ => rfl, id⟩, h⟩

end DurableAgent.Orchestration
