import DurableAgent.Library.Interference
import DurableAgent.Orchestration.AuditEntries
import DurableAgent.Orchestration.Endings
import DurableAgent.Orchestration.LoopRule

/-!
# The loop publishes the failures that it commits

A failure is committed first and published afterwards, and whoever stops in between owes the event.
What was committed and what is owed are kept in a trail, and beside it the attempts of dead workers,
which recovery closes. Every part of the loop pays what it owes before it goes on to another failure
or to a report.
-/

namespace DurableAgent.Orchestration

open Library Library.Prog Store Contract

variable {Text ι : Type} [DecidableEq ι]

/-! ## The trail -/

/-- A failed attempt, as its commit leaves it. -/
structure FailedAttempt where
  taskId : String
  attempt : Nat
  state : TaskState
  errorId : Option String
  deriving DecidableEq

/-- The states in which a failure leaves its task and its attempt. -/
def failureStates : List TaskState := [.WAITING, .FAILED_RETRYABLE, .FAILED_TERMINAL]

/-- The failures in the order of their commits, those of them that recovery has committed for dead
workers, and the one that each thread has committed in its loop and not published yet. -/
structure Trail (ι : Type) where
  failures : List FailedAttempt := []
  abandoned : List FailedAttempt := []
  owed : ι → Option FailedAttempt := fun _ => none

def Trail.fail (a : Trail ι) (i : ι) (f : FailedAttempt) : Trail ι :=
  { a with failures := a.failures ++ [f], owed := Function.update a.owed i (some f) }

def Trail.tell (a : Trail ι) (i : ι) : Trail ι :=
  { a with owed := Function.update a.owed i none }

def Trail.abandon (a : Trail ι) (closed : List FailedAttempt) : Trail ι :=
  { a with failures := a.failures ++ closed, abandoned := a.abandoned ++ closed }

section Owed

variable {a : Trail ι} {i j : ι} {f : FailedAttempt}

@[simp] theorem Trail.fail_self : (a.fail i f).owed i = some f := Function.update_self _ _ _

@[simp] theorem Trail.fail_of_ne (hij : j ≠ i) : (a.fail i f).owed j = a.owed j :=
  Function.update_of_ne hij _ _

@[simp] theorem Trail.tell_self : (a.tell i).owed i = none := Function.update_self _ _ _

@[simp] theorem Trail.tell_of_ne (hij : j ≠ i) : (a.tell i).owed j = a.owed j :=
  Function.update_of_ne hij _ _

end Owed

def noteFailure (i : ι) : Note (StoreOp Text) Exn (StoreState Text) (Trail ι)
  | _, .sql (.updateTaskAndFinishAttempt _ _ _ state errorId), .ok task, _, a =>
    if state ∈ failureStates then
      a.fail i ⟨task.spec.taskId, task.attemptCount, state, errorId⟩
    else a
  | _, .sql (.finishOpenTaskAttempts runId taskId state errorId), .ok _, s, a =>
    a.abandon ((s.attempts.rows.filter (openAttempt (attemptsOf runId taskId))).map fun row =>
      ⟨taskId, row.attemptNumber, state, some errorId⟩)
  | _, .checkpoint (.publish event), .ok _, _, a =>
    if event.eventType ∈ failureEvents then a.tell i else a
  | _, _, _, _, a => a

/-- The rows of checkpoints are damaged in some way. -/
def Damage (s s' : StoreState Text × Trail ι) : Prop :=
  ∃ rows, s' = ({ s.1 with checkpoints := { s.1.checkpoints with rows := rows } }, s.2)

/-- The calls, beside their trail and among damage to checkpoints. -/
def auditedExec (codec : Codec Text) (sha256Digest : String → String) (i : ι) :
    Exec (StoreOp Text) Exn (StoreState Text × Trail ι) :=
  Exec.disturbed ((handle codec sha256Digest).recorded (noteFailure i)).exec.withFaults Damage

/-! ## What the trail says -/

/-- The event tells of the failure, with the error that was recorded for it. -/
def Tells (errors : List ErrorRow) (f : FailedAttempt) (event : Checkpoints.Event) : Prop :=
  ∃ row ∈ errors, f.errorId = some row.errorId ∧ row.taskId = some f.taskId ∧ ∃ retryable,
    event = (Occurrence.failure f.state f.taskId f.attempt row.errorId row.error retryable).event
      row.runId

/-- What is shown can be read, and each failure is published, owed or one of a dead worker. -/
structure Audited (s : StoreState Text × Trail ι) : Prop where
  readable : ∀ event ∈ s.1.checkpoints.events, Shown event → Readable event
  told : ∀ f ∈ s.2.failures, (∃ i, s.2.owed i = some f) ∨ f ∈ s.2.abandoned ∨
    ∃ event ∈ s.1.checkpoints.events, Tells s.1.errors f event

/-- When a thread may issue a call: a failure, or a report, while it owes nothing, and the event of
a failure while it owes that one. -/
def MayAudit (i : ι) : (β : Type) → StoreOp Text β → StoreState Text × Trail ι → Prop
  | _, .sql (.updateTaskAndFinishAttempt _ _ _ state _), s =>
    state ∈ failureStates → s.2.owed i = none
  | _, .sql (.saveReport _ _ _ _), s => s.2.owed i = none
  | _, .checkpoint (.publish event), s =>
    (Shown event → Readable event) ∧
      (event.eventType ∈ failureEvents → ∃ f, s.2.owed i = some f ∧ Tells s.1.errors f event)
  | _, _, _ => True

def auditing (i : ι) : Contract (StoreOp Text) (StoreState Text × Trail ι) where
  inv := Audited
  rely s s' := s'.2.owed i = s.2.owed i ∧ s.1.errors ⊆ s'.1.errors
  guar s s' := (∀ j, j ≠ i → s'.2.owed j = s.2.owed j) ∧ s.1.errors ⊆ s'.1.errors
  pre := MayAudit i
  refl _ := ⟨rfl, List.Subset.refl _⟩
  trans h h' := ⟨h'.1.trans h.1, List.Subset.trans h.2 h'.2⟩

omit [DecidableEq ι] in
theorem compatible_auditing : Compatible (@auditing Text ι) where
  inv _ _ _ h := h
  rely _ j _ _ hij h _ := ⟨h.1 j (Ne.symm hij), h.2⟩

variable {codec : Codec Text} {sha256Digest : String → String} {A : Agent Text}
  {s s' : StoreState Text × Trail ι} {i : ι} {α β : Type} {op : StoreOp Text β} {x : Except Exn β}
  {t : Supply}

theorem auditedExec_cases (hop : auditedExec codec sha256Digest i β op s x s') :
    ∃ s₁, Damage s s₁ ∧ ((∃ t, handle codec sha256Digest β op t s₁.1 = (x, s'.1) ∧
      s'.2 = noteFailure i β op x s₁.1 s₁.2) ∨ ∃ e, x = .error e ∧ s' = s₁) := by
  obtain ⟨s₁, hdamage, hop | hfault⟩ := hop
  · obtain ⟨⟨t, hhandle⟩, hnote⟩ := Handler.recorded_exec.mp hop
    exact ⟨s₁, hdamage, .inl ⟨t, hhandle, hnote⟩⟩
  · exact ⟨s₁, hdamage, .inr hfault⟩

theorem auditedExec_answered (hop : auditedExec codec sha256Digest i β op s x s') :
    Answered β op x := by
  obtain ⟨s₁, -, ⟨t, hhandle, -⟩ | ⟨e, rfl, -⟩⟩ := auditedExec_cases hop
  · rw [← (Prod.mk.inj hhandle).1]
    exact answered_handle
  · exact answered_error

/-! ## One step -/

theorem owed_noteFailure {j : ι} {a : Trail ι} {s : StoreState Text} (hij : j ≠ i) :
    (noteFailure i β op x s a).owed j = a.owed j := by
  cases op with
  | sql op =>
    cases op with
    | updateTaskAndFinishAttempt _ _ _ state errorId =>
      cases x with
      | ok task =>
        by_cases hstate : state ∈ failureStates
        · simp [noteFailure, hstate, hij]
        · simp [noteFailure, hstate]
      | error e => rfl
    | finishOpenTaskAttempts => cases x <;> rfl
    | _ => rfl
  | checkpoint op =>
    cases op with
    | publish event =>
      cases x with
      | ok _ =>
        by_cases hevent : event.eventType ∈ failureEvents
        · simp [noteFailure, hevent, hij]
        · simp [noteFailure, hevent]
      | error e => rfl
    | _ => rfl
  | _ => rfl

omit [DecidableEq ι] in
/-- Recorded errors are there from then on. -/
theorem handle_errors {s : StoreState Text} :
    s.errors ⊆ (handle codec sha256Digest β op t s).2.errors := by
  by_cases hwrites : Region.errors ∈ (effectOf β op).writes
  · cases op with
    | sql op =>
      cases op with
      | recordError runId taskId error => exact List.subset_cons_self _ _
      | _ => simp [effectOf, sqlEffect, Effect.writes] at hwrites
    | checkpoint op => cases op <;> simp [effectOf, checkpointEffect, Effect.writes] at hwrites
    | _ => simp [effectOf, Effect.writes] at hwrites
  · have hsame := @handle_same Text codec sha256Digest β .errors s op t hwrites
    change (handle codec sha256Digest β op t s).2.errors = s.errors at hsame
    rw [hsame]
    exact List.Subset.refl _

omit [DecidableEq ι] in
theorem Tells.mono {errors errors' : List ErrorRow} {f : FailedAttempt} {event : Checkpoints.Event}
    (h : Tells errors f event) (hsub : errors ⊆ errors') : Tells errors' f event := by
  obtain ⟨row, hrow, hrest⟩ := h
  exact ⟨row, hsub hrow, hrest⟩

omit [DecidableEq ι] in
/-- Where no event is published, what was told is told still. -/
theorem Audited.silent (h : Audited s)
    (hevents : s'.1.checkpoints.events = s.1.checkpoints.events)
    (herrors : s.1.errors ⊆ s'.1.errors)
    (hfailures : ∀ f ∈ s'.2.failures,
      f ∈ s.2.failures ∨ (∃ i, s'.2.owed i = some f) ∨ f ∈ s'.2.abandoned)
    (habandoned : s.2.abandoned ⊆ s'.2.abandoned)
    (howed : ∀ i f, s.2.owed i = some f → s'.2.owed i = some f) : Audited s' := by
  constructor
  · rw [hevents]
    exact h.readable
  · intro f hf
    rcases hfailures f hf with hold | howed' | hgone
    · rcases h.told f hold with ⟨i, hi⟩ | hgone | ⟨event, hevent, htells⟩
      · exact .inl ⟨i, howed i f hi⟩
      · exact .inr (.inl (habandoned hgone))
      · rw [hevents]
        exact .inr (.inr ⟨event, hevent, htells.mono herrors⟩)
    · exact .inl howed'
    · exact .inr (.inl hgone)

omit [DecidableEq ι] in
/-- A thread pays what it owes with the event that it publishes. -/
theorem Audited.publish {event : Checkpoints.Event} (h : Audited s)
    (hevents : s'.1.checkpoints.events = s.1.checkpoints.events ++ [event])
    (herrors : s.1.errors ⊆ s'.1.errors) (hreadable : Shown event → Readable event)
    (hfailures : s'.2.failures = s.2.failures) (habandoned : s'.2.abandoned = s.2.abandoned)
    (howed : ∀ j f, s.2.owed j = some f → s'.2.owed j = some f ∨ Tells s.1.errors f event) :
    Audited s' := by
  constructor
  · rw [hevents]
    intro old hold
    rcases List.mem_append.mp hold with hold | hnew
    · exact h.readable old hold
    · rw [List.mem_singleton.mp hnew]
      exact hreadable
  · intro f hf
    rw [hfailures] at hf
    rw [hevents, habandoned]
    rcases h.told f hf with ⟨j, hj⟩ | hgone | ⟨old, hold, htells⟩
    · rcases howed j f hj with hstill | htells
      · exact .inl ⟨j, hstill⟩
      · exact .inr (.inr ⟨event, List.mem_append_right _ List.mem_cons_self, htells.mono herrors⟩)
    · exact .inr (.inl hgone)
    · exact .inr (.inr ⟨old, List.mem_append_left _ hold, htells.mono herrors⟩)

/-- What a handled call leaves of the trail and of the events. -/
theorem Audited.handled (h : Audited s) (hpre : MayAudit i β op s)
    (hhandle : handle codec sha256Digest β op t s.1 = (x, s'.1))
    (hnote : s'.2 = noteFailure i β op x s.1 s.2) : Audited s' := by
  have herrors : s.1.errors ⊆ s'.1.errors := by
    have hsub := @handle_errors Text codec sha256Digest β op t s.1
    rwa [hhandle] at hsub
  have hsilent (hpublished : published β op = none) :
      s'.1.checkpoints.events = s.1.checkpoints.events := by
    have hsame := @handle_events Text codec sha256Digest β op t s.1 hpublished
    rwa [hhandle] at hsame
  have hunnoted (hpublished : published β op = none) (htrail : s'.2 = s.2) : Audited s' :=
    h.silent (hsilent hpublished) herrors (fun f hf => .inl (htrail ▸ hf))
      (htrail ▸ List.Subset.refl _) fun j f hj => htrail ▸ hj
  cases op with
  | sql op =>
    cases op with
    | updateTaskAndFinishAttempt task v attemptId state errorId =>
      cases x with
      | error e => exact hunnoted rfl hnote
      | ok task' =>
        by_cases hstate : state ∈ failureStates
        · have htrail : s'.2 =
              s.2.fail i ⟨task'.spec.taskId, task'.attemptCount, state, errorId⟩ := by
            rw [hnote]
            exact if_pos hstate
          refine h.silent (hsilent rfl) herrors (fun f hf => ?_)
            (htrail ▸ List.Subset.refl _) fun j f hj => ?_
          · rw [htrail] at hf ⊢
            rcases List.mem_append.mp hf with hold | hnew
            · exact .inl hold
            · rw [List.mem_singleton.mp hnew]
              exact .inr (.inl ⟨i, Trail.fail_self⟩)
          · by_cases hij : j = i
            · rw [hij, hpre hstate] at hj
              cases hj
            · rw [htrail, Trail.fail_of_ne hij]
              exact hj
        · exact hunnoted rfl (hnote.trans (if_neg hstate))
    | finishOpenTaskAttempts runId taskId state errorId =>
      cases x with
      | error e => exact hunnoted rfl hnote
      | ok n =>
        refine h.silent (hsilent rfl) herrors (fun f hf => ?_) ?_ fun j f hj => ?_
        · rw [hnote] at hf ⊢
          rcases List.mem_append.mp hf with hold | hnew
          · exact .inl hold
          · exact .inr (.inr (List.mem_append_right _ hnew))
        · rw [hnote]
          exact List.subset_append_left _ _
        · rw [hnote]
          exact hj
    | _ => exact hunnoted rfl hnote
  | checkpoint op =>
    cases op with
    | publish event =>
      obtain ⟨rfl, hstore⟩ := Prod.mk.inj hhandle
      have hevents : s'.1.checkpoints.events = s.1.checkpoints.events ++ [event] := by
        rw [← hstore]
      by_cases hevent : event.eventType ∈ failureEvents
      · have htrail : s'.2 = s.2.tell i := hnote.trans (if_pos hevent)
        refine h.publish hevents herrors hpre.1 (by rw [htrail]; rfl) (by rw [htrail]; rfl)
          fun j f hj => ?_
        by_cases hij : j = i
        · obtain ⟨f', hf', htells⟩ := hpre.2 hevent
          rw [hij, hf'] at hj
          rw [← Option.some.inj hj]
          exact .inr htells
        · rw [htrail, Trail.tell_of_ne hij]
          exact .inl hj
      · have htrail : s'.2 = s.2 := hnote.trans (if_neg hevent)
        exact h.publish hevents herrors hpre.1 (by rw [htrail]) (by rw [htrail])
          fun j f hj => .inl (htrail ▸ hj)
    | _ => exact hunnoted rfl hnote
  | _ => exact hunnoted rfl hnote

/-- Every step of a thread that pays what it owes keeps what the trail says. -/
theorem auditing_step (h : Audited s) (hpre : (auditing i).pre β op s)
    (hop : auditedExec codec sha256Digest i β op s x s') :
    (auditing i).guar s s' ∧ Audited s' := by
  obtain ⟨s₁, ⟨rows, rfl⟩, hcase⟩ := auditedExec_cases hop
  have hdamaged : Audited
      ({ s.1 with checkpoints := { s.1.checkpoints with rows := rows } }, s.2) :=
    ⟨h.readable, h.told⟩
  rcases hcase with ⟨t, hhandle, hnote⟩ | ⟨e, -, rfl⟩
  · have hpre' : MayAudit i β op
        ({ s.1 with checkpoints := { s.1.checkpoints with rows := rows } }, s.2) := by
      cases op with
      | sql op => cases op <;> exact hpre
      | checkpoint op => cases op <;> exact hpre
      | _ => exact hpre
    refine ⟨⟨fun j hij => ?_, ?_⟩, hdamaged.handled hpre' hhandle hnote⟩
    · rw [hnote]
      exact owed_noteFailure hij
    · have hsub := @handle_errors Text codec sha256Digest β op t
        { s.1 with checkpoints := { s.1.checkpoints with rows := rows } }
      rwa [hhandle] at hsub
  · exact ⟨⟨fun _ _ => rfl, List.Subset.refl _⟩, hdamaged⟩

/-! ## Programs -/

abbrev Audits (codec : Codec Text) (sha256Digest : String → String) (i : ι)
    (p : StoreProg Text α) (R : α → StoreState Text × Trail ι → Prop)
    (s : StoreState Text × Trail ι) : Prop :=
  (auditing i).Meets (auditedExec codec sha256Digest i) p (onOk R) s

/-- The thread owes nothing. -/
def Paid (i : ι) (s : StoreState Text × Trail ι) : Prop := s.2.owed i = none

/-- The call commits no failure of the loop and publishes none. -/
def Plain : (β : Type) → StoreOp Text β → Prop
  | _, .sql (.updateTaskAndFinishAttempt _ _ _ state _) => state ∉ failureStates
  | _, .checkpoint (.publish event) => event.eventType ∉ failureEvents ∧
    (Shown event → Readable event)
  | _, _ => True

/-- The kinds of calls that are plain whatever they are about. -/
def Effect.plain : Effect → Bool
  | .publish eventType => eventType ∉ shownEvents ∨ eventType = "checkpoint.recovered"
  | .finishAttempt state => state ∉ failureStates
  | _ => true

theorem plain_of_effect (h : (effectOf β op).plain = true) : Plain β op := by
  cases op with
  | sql op =>
    cases op with
    | updateTaskAndFinishAttempt _ _ _ state _ =>
      have hstate : state ∉ failureStates := of_decide_eq_true h
      exact hstate
    | _ => exact trivial
  | checkpoint op =>
    cases op with
    | publish event =>
      rcases of_decide_eq_true h with hunshown | hfallback
      · exact ⟨fun hfailure => hunshown (failureEvents_subset hfailure),
          fun hshown => absurd hshown hunshown⟩
      · refine ⟨?_, fun _ => .inl hfallback⟩
        rw [show event.eventType = "checkpoint.recovered" from hfallback]
        decide
    | _ => exact trivial
  | _ => exact trivial

theorem plain_within {E : List Effect} {p : StoreProg Text α} (hp : p.Calls (Within E))
    (hE : E.all Effect.plain = true) : p.Calls Plain :=
  calls_of_within hp hE fun _ _ => plain_of_effect

theorem plain_sql {op : SqlOp α} (h : (sqlEffect α op).plain = true) :
    (sql op : StoreProg Text α).Calls Plain :=
  calls_perform.mpr (plain_of_effect h)

/-- Events that are not shown. -/
theorem plain_publish {runId eventType : String} {taskId : Option String}
    {payload : List (String × Json)} (h : eventType ∉ shownEvents) :
    (publish runId eventType taskId payload : StoreProg Text Unit).Calls Plain :=
  calls_perform.mpr (plain_of_effect (decide_eq_true (.inl h)))

/-- The event of something that is neither a failure nor a fallback. -/
theorem plain_occurrence {runId : String} {o : Occurrence} (hread : o.isFallback = false)
    (h : o.isFailure = false) :
    (perform (.checkpoint (.publish (o.event runId))) : StoreProg Text Unit).Calls Plain := by
  refine calls_perform.mpr ⟨?_, fun _ => .inr ⟨o, hread, ?_⟩⟩
  · cases o <;> simp [Occurrence.isFailure, Occurrence.event, failureEvents] at h ⊢
  · cases o <;> rfl

omit [DecidableEq ι] in
theorem plain_mayAudit (hop : Plain β op) (h : effectOf β op = .saveReport → Paid i s) :
    MayAudit i β op s := by
  cases op with
  | sql op =>
    cases op with
    | updateTaskAndFinishAttempt _ _ _ state _ => exact fun hstate => absurd hstate hop
    | saveReport => exact h rfl
    | _ => exact trivial
  | checkpoint op =>
    cases op with
    | publish event => exact ⟨hop.2, fun hfailure => absurd hfailure hop.1⟩
    | _ => exact trivial
  | _ => exact trivial

/-- Plain calls leave what is owed. -/
theorem owed_noteFailure_plain (hop : Plain β op) {s : StoreState Text} {a : Trail ι} :
    (noteFailure i β op x s a).owed = a.owed := by
  cases op with
  | sql op =>
    cases op with
    | updateTaskAndFinishAttempt _ _ _ state _ =>
      cases x with
      | ok task => exact congrArg Trail.owed (if_neg hop)
      | error e => rfl
    | finishOpenTaskAttempts => cases x <;> rfl
    | _ => rfl
  | checkpoint op =>
    cases op with
    | publish event =>
      cases x with
      | ok _ => exact congrArg Trail.owed (if_neg hop.1)
      | error e => rfl
    | _ => rfl
  | _ => rfl

theorem owed_plain (hop : Plain β op) (hexec : auditedExec codec sha256Digest i β op s x s') :
    s'.2.owed = s.2.owed := by
  obtain ⟨s₁, ⟨rows, rfl⟩, ⟨t, -, hnote⟩ | ⟨e, -, rfl⟩⟩ := auditedExec_cases hexec
  · rw [hnote, owed_noteFailure_plain hop]
  · rfl

theorem audits_plain {p : StoreProg Text α} (hp : p.Calls Plain) (h : Paid i s) :
    Audits codec sha256Digest i p (fun _ s' => Paid i s') s := by
  refine Meets.kept (K := fun s : StoreState Text × Trail ι => Paid i s)
    (fun s s' hrely _ hs => hrely.1.trans hs) hp h fun δ op s hop hinv hs => ?_
  have hpre : (auditing i).pre δ op s := plain_mayAudit hop fun _ => hs
  refine ⟨hpre, fun x s' hexec => ?_⟩
  obtain ⟨hguar, hinv'⟩ := auditing_step hinv hpre hexec
  exact ⟨hguar, hinv', (congrFun (owed_plain hop hexec) i).trans hs⟩

/-- The kinds of calls that a thread may issue whatever it owes. -/
def Effect.mute : Effect → Bool
  | .saveReport => false
  | e => e.plain

theorem mute_plain {e : Effect} (h : e.mute = true) : e.plain = true := by
  cases e <;> first | exact h | rfl

theorem audits_mute {E : List Effect} {p : StoreProg Text α} (hp : p.Calls (Within E))
    (hE : E.all Effect.mute = true) :
    Audits codec sha256Digest i p (fun _ _ => True) s := by
  have hcalls : p.Calls fun δ op => (effectOf δ op).mute = true :=
    calls_of_within hp hE fun _ _ h => h
  refine Meets.kept (K := fun _ => True) (fun _ _ _ _ h => h) hcalls trivial
    fun δ op s hop hinv _ => ?_
  have hpre : (auditing i).pre δ op s := by
    refine plain_mayAudit (plain_of_effect (mute_plain hop)) fun hreport => ?_
    rw [hreport] at hop
    cases hop
  refine ⟨hpre, fun x s' hexec => ?_⟩
  obtain ⟨hguar, hinv'⟩ := auditing_step hinv hpre hexec
  exact ⟨hguar, hinv', trivial⟩

/-! ## A failure -/

section Failures

variable {runId : String} {f : Failure} {d : Disposition}

theorem failureTarget_mem : A.failureTarget f ∈ failureStates := by
  unfold Agent.failureTarget
  split
  · decide
  · split <;> decide

theorem failureEvent_eq : A.failureEvent f = failureEventType (A.failureTarget f) := by
  unfold Agent.failureEvent Agent.failureTarget
  split
  · rfl
  · split <;> rfl

/-- The error that is recorded under an identifier. -/
def ErrorKept (runId taskId : String) (error : DurableAgentError) (errorId : String)
    (s : StoreState Text × Trail ι) : Prop :=
  ∃ row ∈ s.1.errors, row.errorId = errorId ∧ row.runId = runId ∧ row.taskId = some taskId ∧
    row.error = error

omit [DecidableEq ι] in
theorem ErrorKept.mono {taskId errorId : String} {error : DurableAgentError}
    (h : ErrorKept runId taskId error errorId s) (hsub : s.1.errors ⊆ s'.1.errors) :
    ErrorKept runId taskId error errorId s' := by
  obtain ⟨row, hrow, hrest⟩ := h
  exact ⟨row, hsub hrow, hrest⟩

omit [DecidableEq ι] in
theorem keeps_errorKept {taskId errorId : String} {error : DurableAgentError} :
    (auditing i).Keeps fun s : StoreState Text × Trail ι =>
      ErrorKept runId taskId error errorId s := by
  intro s s' h _ hs
  rcases h with hrely | hguar
  · exact hs.mono hrely.2
  · exact hs.mono hguar.2

/-- One call of a thread that owes nothing, and what is known after it. -/
theorem audits_sql {op : SqlOp α} {R : α → StoreState Text × Trail ι → Prop} (h : Paid i s)
    (hpre : ∀ s₁ : StoreState Text × Trail ι, Paid i s₁ → MayAudit i α (.sql op) s₁)
    (hR : ∀ a s₁ s₂, (auditing i).rely s₁ s₂ → R a s₁ → R a s₂)
    (hop : ∀ a s₁ s₂, Paid i s₁ → auditedExec codec sha256Digest i α (.sql op) s₁ (.ok a) s₂ →
      R a s₂) :
    Audits codec sha256Digest i (sql op) R s := by
  intro s₁ hs₁ hinv
  have hpaid : Paid i s₁ := hs₁.1.trans h
  have hmay : (auditing i).pre α (.sql op) s₁ := hpre s₁ hpaid
  refine ⟨hmay, fun x s₂ hexec => ?_⟩
  obtain ⟨hguar, hinv'⟩ := auditing_step hinv hmay hexec
  refine ⟨hguar, hinv', fun s' hs' _ => ?_⟩
  cases x with
  | error e => exact trivial
  | ok a => exact hR a s₂ s' hs' (hop a s₁ s₂ hpaid hexec)

theorem audits_recordError {taskId : String} {error : DurableAgentError} (h : Paid i s) :
    Audits codec sha256Digest i (sql (.recordError runId (some taskId) error))
      (fun errorId s' => Paid i s' ∧ ErrorKept runId taskId error errorId s') s := by
  refine audits_sql h (fun _ _ => trivial)
    (fun _ _ _ hrely hR => ⟨hrely.1.trans hR.1, hR.2.mono hrely.2⟩) fun errorId s₁ s₂ h₁ hop => ?_
  have hplain : Plain String
      (.sql (.recordError runId (some taskId) error) : StoreOp Text String) := trivial
  refine ⟨(congrFun (owed_plain hplain hop) i).trans h₁, ?_⟩
  obtain ⟨s₀, -, ⟨t, hhandle, -⟩ | ⟨e, ⟨⟩, -⟩⟩ := auditedExec_cases hop
  obtain ⟨hanswer, hstore⟩ := Prod.mk.inj hhandle
  obtain rfl := Except.ok.inj hanswer
  exact ⟨⟨s!"error-{t.freshId}", runId, some taskId, error, t.now⟩,
    by rw [← hstore]; exact List.mem_cons_self, rfl, rfl, rfl, rfl⟩

/-- The commit of a failure, which its event is owed for from then on. -/
theorem audits_finish {task : TaskRecord} {v : Nat} {attemptId : String} {state : TaskState}
    {errorId : Option String} (hstate : state ∈ failureStates) (h : Paid i s) :
    Audits codec sha256Digest i
      (sql (.updateTaskAndFinishAttempt task v attemptId state errorId))
      (fun task' s' => s'.2.owed i = some ⟨task'.spec.taskId, task'.attemptCount, state, errorId⟩ ∧
        task'.spec = task.spec) s := by
  refine audits_sql h (fun _ h₁ _ => h₁) (fun _ _ _ hrely hR => ⟨hrely.1.trans hR.1, hR.2⟩)
    fun task' s₁ s₂ _ hop => ?_
  have hanswer : task' = taskWithVersion task v := auditedExec_answered hop
  refine ⟨?_, by rw [hanswer]; rfl⟩
  obtain ⟨s₀, -, ⟨t, -, hnote⟩ | ⟨e, ⟨⟩, -⟩⟩ := auditedExec_cases hop
  rw [hnote]
  have hfail : noteFailure i TaskRecord
      (.sql (.updateTaskAndFinishAttempt task v attemptId state errorId) : StoreOp Text TaskRecord)
      (.ok task') s₀.1 s₀.2 =
        s₀.2.fail i ⟨task'.spec.taskId, task'.attemptCount, state, errorId⟩ := if_pos hstate
  rw [hfail]
  exact Trail.fail_self

/-- The event that is owed. -/
theorem audits_tell {taskId errorId : String} {attempt : Nat} {state : TaskState}
    {error : DurableAgentError} {retryable : Bool}
    (howed : s.2.owed i = some ⟨taskId, attempt, state, some errorId⟩)
    (hkept : ErrorKept runId taskId error errorId s) :
    Audits codec sha256Digest i
      (perform (.checkpoint (.publish
        ((Occurrence.failure state taskId attempt errorId error retryable).event runId))))
      (fun _ s' => Paid i s') s := by
  intro s₁ hs₁ hinv
  have hpre : (auditing i).pre Unit (.checkpoint (.publish
      ((Occurrence.failure state taskId attempt errorId error retryable).event runId)) :
        StoreOp Text Unit) s₁ := by
    refine ⟨fun _ => .inr ⟨_, rfl, rfl⟩, fun _ => ⟨_, hs₁.1.trans howed, ?_⟩⟩
    obtain ⟨row, hrow, rfl, rfl, htask, rfl⟩ := hkept.mono hs₁.2
    exact ⟨row, hrow, rfl, htask, retryable, rfl⟩
  refine ⟨hpre, fun x s₂ hexec => ?_⟩
  obtain ⟨hguar, hinv'⟩ := auditing_step hinv hpre hexec
  refine ⟨hguar, hinv', fun s' hs' _ => ?_⟩
  cases x with
  | error e => exact trivial
  | ok _ =>
    refine hs'.1.trans ?_
    obtain ⟨s₀, -, ⟨t, -, hnote⟩ | ⟨e, ⟨⟩, -⟩⟩ := auditedExec_cases hexec
    have htell : noteFailure i Unit (.checkpoint (.publish
        ((Occurrence.failure state taskId attempt errorId error retryable).event runId)) :
          StoreOp Text Unit) (.ok ()) s₀.1 s₀.2 = s₀.2.tell i := if_pos (failureEventType_mem state)
    rw [hnote, htell]
    exact Trail.tell_self

theorem audits_done {a : α} (h : Paid i s) :
    Audits codec sha256Digest i (Pure.pure a : StoreProg Text α) (fun _ s' => Paid i s') s :=
  fun _ hs' _ => hs'.1.trans h

theorem plain_finishedWhen {target : TaskState} :
    (finishedWhen target : StoreProg Text _).Calls Plain := plain_within within_finishedWhen rfl

/-- A failure is committed and published. -/
theorem audits_handleFailure (h : Paid i s) :
    Audits codec sha256Digest i (A.handleFailure runId d f) (fun _ s' => Paid i s') s := by
  unfold Agent.handleFailure
  refine Meets.next (audits_recordError h) fun errorId s₁ _ h₁ => ?_
  obtain ⟨h₁, hkept⟩ := h₁
  cases htransition : transitionTask f.started.task.state (A.failureTarget f) with
  | error e => exact fun _ _ _ => trivial
  | ok state =>
    refine Meets.seq (p := finishedWhen (A.failureTarget f)) keeps_errorKept hkept
      (audits_plain plain_finishedWhen h₁) fun finishedAt s₂ _ hkept h₂ => ?_
    refine Meets.seq keeps_errorKept hkept (audits_finish failureTarget_mem h₂)
      fun task s₃ _ hkept h₃ => ?_
    obtain ⟨howed, hspec⟩ := h₃
    have htask : task.spec.taskId = f.started.task.spec.taskId := by rw [hspec]
    rw [← htask] at hkept
    have htell := @audits_tell Text ι _ codec sha256Digest s₃ i runId task.spec.taskId errorId
      task.attemptCount (A.failureTarget f) f.error (A.retries f) howed hkept
    rw [show A.failureEvent f = failureEventType (A.failureTarget f) from failureEvent_eq]
    exact Meets.next htell fun _ s₄ _ h₄ => audits_done h₄

theorem audits_handleFailures {failures : List Failure} (h : Paid i s) :
    Audits codec sha256Digest i (A.handleFailures runId failures d) (fun _ s' => Paid i s') s := by
  induction failures generalizing d s with
  | nil => exact audits_done h
  | cons f rest ih => exact Meets.next (audits_handleFailure h) fun _ s₁ _ h₁ => ih h₁

end Failures

/-! ## The loop -/

section Loop

variable {lease : LeaseRecord} {run : RunRecord} {plan : PlanSpec} {tasks : List TaskRecord}
  {p : Progress} {request : LifecycleRequest} {maximumTasks : Option Nat}

theorem plain_writeCheckpoint {known : Checkpoints.Known} :
    (A.writeCheckpoint run plan tasks known).Calls Plain := plain_within within_writeCheckpoint rfl

theorem plain_generateReport {isPartial : Bool} :
    (generateReport run isPartial : StoreProg Text String).Calls Plain :=
  plain_within within_generateReport rfl

theorem plain_endRun {target : RunState} {activeTaskId : Option String} :
    (endRun run target activeTaskId : StoreProg Text RunRecord).Calls Plain :=
  plain_within within_endRun rfl

theorem plain_pause : (A.pause run plan tasks request).Calls Plain := by
  refine Calls.bind (plain_sql rfl) fun run => Calls.bind trivial fun state => ?_
  refine Calls.bind (plain_sql rfl) fun now => Calls.bind (plain_sql rfl) fun run => ?_
  refine Calls.bind (plain_sql rfl) fun _ => Calls.bind plain_writeCheckpoint fun checkpoint => ?_
  refine Calls.bind ?_ fun _ => trivial
  exact @plain_occurrence Text run.runId (.paused request.reason checkpoint.checkpointId) rfl
    rfl

theorem plain_cancel : (A.cancel run plan tasks request).Calls Plain := by
  refine Calls.bind (Calls.mapM' (fun _ => plain_within within_cancelTask rfl) tasks)
    fun updated => Calls.bind (plain_sql rfl) fun run => ?_
  refine Calls.bind plain_endRun fun run => Calls.bind (plain_sql rfl) fun _ => ?_
  refine Calls.bind plain_writeCheckpoint fun checkpoint => Calls.bind ?_ fun _ => trivial
  exact @plain_occurrence Text run.runId (.cancelled request.reason checkpoint.checkpointId) rfl
    rfl

theorem plain_handleRequest : (A.handleRequest plan p request).Calls Plain := by
  unfold Agent.handleRequest
  split
  · exact Calls.bind plain_cancel fun _ => Calls.bind plain_generateReport fun _ => trivial
  · exact Calls.bind plain_pause fun _ => trivial

theorem plain_completeRun : (A.completeRun run plan p).Calls Plain := by
  refine Calls.bind plain_endRun fun run => Calls.bind plain_writeCheckpoint fun _ => ?_
  refine Calls.bind plain_generateReport fun _ => Calls.bind ?_ fun _ => trivial
  exact plain_publish (by decide)

theorem plain_failStuckRun : (A.failStuckRun run plan tasks).Calls Plain := by
  refine Calls.bind (plain_sql rfl) fun run => Calls.bind plain_endRun fun run => ?_
  refine Calls.bind ?_ fun _ => Calls.bind plain_writeCheckpoint fun _ => trivial
  exact @plain_occurrence Text run.runId .stuck rfl rfl

theorem plain_concludeRun : (A.concludeRun plan p).Calls Plain := by
  refine Calls.bind (plain_sql rfl) fun run => ?_
  split
  · exact plain_completeRun
  · exact Calls.bind plain_failStuckRun fun _ => Calls.bind plain_generateReport fun _ => trivial

theorem plain_pendingLifecycleRequest {runId : String} :
    (pendingLifecycleRequest runId : StoreProg Text _).Calls Plain :=
  plain_within within_pendingLifecycleRequest rfl

theorem plain_turn : (A.turn plan maximumTasks p).Calls Plain := by
  refine Calls.bind plain_pendingLifecycleRequest fun request => ?_
  unfold Agent.turnFor
  split
  · exact Calls.bind plain_handleRequest fun _ => trivial
  · split
    · trivial
    · refine Calls.bind (plain_within within_promoteReady rfl) fun tasks => ?_
      refine Calls.bind trivial fun candidates => ?_
      split
      · refine Calls.bind plain_pendingLifecycleRequest fun request => ?_
        cases request with
        | some request => trivial
        | none => exact Calls.bind plain_concludeRun fun _ => trivial
      · exact Calls.bind (plain_within within_startBatch rfl) fun _ => trivial

theorem audits_handleBatchFailures {failures : List Failure} (h : Paid i s) :
    Audits codec sha256Digest i (A.handleBatchFailures run plan tasks failures)
      (fun _ s' => Paid i s') s := by
  refine Meets.next (audits_handleFailures h) fun d s₁ _ h₁ => audits_plain ?_ h₁
  refine Calls.bind (plain_within within_skipAll rfl) fun tasks => ?_
  refine Calls.bind (plain_sql rfl) fun currentRun => Calls.bind (plain_sql rfl) fun now => ?_
  refine Calls.bind (plain_within within_disposedRun rfl) fun disposed => ?_
  exact Calls.bind (plain_sql rfl) fun run => Calls.bind plain_writeCheckpoint fun _ => trivial

/-- The failures of a batch are published before the report that may follow them. -/
theorem audits_settleFailures {failures : List Failure} (h : Paid i s) :
    Audits codec sha256Digest i (A.settleFailures plan p failures) (fun _ s' => Paid i s') s := by
  unfold Agent.settleFailures
  split
  · exact audits_done h
  · refine Meets.next (audits_handleBatchFailures h) fun handled s₁ _ h₁ => audits_plain ?_ h₁
    refine Calls.bind (plain_within within_backOff rfl) fun _ => ?_
    dsimp only
    split
    · exact Calls.bind plain_generateReport fun _ => trivial
    · trivial

theorem audits_settleBatch {started : List Started} {results : Except Exn (List WorkerResult)}
    (h : Paid i s) :
    Audits codec sha256Digest i (A.settleBatch plan p started results)
      (fun _ s' => Paid i s') s := by
  unfold Agent.settleBatch
  cases results with
  | error e => exact fun _ _ _ => trivial
  | ok results =>
    change Audits _ _ _ (A.collectResults plan (started.zip results) p >>= fun r =>
      A.settleFailures plan r.1 r.2) _ s
    exact Meets.next (audits_plain (plain_within within_collectResults rfl) h)
      fun r s₁ _ h₁ => audits_settleFailures h₁

theorem audits_loopRule (plan : PlanSpec) (maximumTasks : Option Nat) :
    LoopRule (auditing i) (auditedExec codec sha256Digest i) A plan maximumTasks
      (fun _ => Paid i) (fun _ => Paid i) (fun _ _ => Paid i) (fun _ _ _ => Paid i) where
  turn _ h := by
    refine (audits_plain plain_turn h).mono fun r s' _ hr => ?_
    cases r with
    | error e => exact trivial
    | ok turn => cases turn <;> exact hr
  batch _ h := audits_plain (plain_within within_executeBatch rfl) h
  settle _ h := by
    refine (audits_settleBatch h).mono fun r s' _ hr => ?_
    cases r with
    | error e => exact trivial
    | ok settled =>
      obtain ⟨p, ends⟩ := settled
      cases ends <;> exact hr
  release _ h := audits_plain (plain_within (within_ofLease _) rfl) h
  abandon _ := audits_mute (within_ofLease _) rfl
  stay hs' _ h := hs'.1.trans h

theorem audits_advance {runId workerId : String} {maximumTasks : Option Int} (h : Paid i s) :
    Audits codec sha256Digest i (A.advance runId workerId maximumTasks)
      (fun _ s' => Paid i s') s :=
  advance_rule (fun _ _ hs' _ h => hs'.1.trans h)
    (fun _ _ _ hq h => audits_plain (plain_within hq rfl) h)
    (fun plan maximumTasks _ _ _ hinv h => (audits_loopRule plan maximumTasks).loop hinv h) h

end Loop

end DurableAgent.Orchestration
