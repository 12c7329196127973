import DurableAgent.Application.Endless
import DurableAgent.Application.StuckRuns

/-!
# Exactly one event for the end of a run

Four paths bring a run to its end, and each announces it itself. A path that does not, and a
worker that ends a run which another one has ended, are all that can go wrong.
-/

namespace DurableAgent.Orchestration

open Library Library.Prog Store Contract

-- Reducing a call of the service would otherwise reduce the text that it strips.
attribute [local irreducible] strip

variable {Text ι : Type} [DecidableEq ι] {codec : Codec Text} {sha256Digest : String → String}
  {A : Agent Text} {i : ι} {s s' : StoreState Text × Account ι} {α β : Type}
  {op : StoreOp Text β} {x : Except Exn β} {L : List (RunEnd ι)} {b : Bool} {journal : Tools.World}
  {processes : ι → Process Text} {P : Pool (StoreOp Text) Exn (StoreState Text × Account ι) ι}

/-! ## The calls of the service -/

theorem announced_endsNone {p : StoreProg Text α} {E : α → Prop} (hp : EndsNone p E)
    (h : Owes i L b s) :
    Announced codec sha256Digest i p (fun a s' => E a ∧ Owes i L b s') s := by
  refine Meets.issues hp (fun _ _ _ _ _ => lastingExec_answered)
    (fun s s' hrely _ hs => Owes.share hs hrely) h fun δ op s hop hinv hs => ?_
  by_cases hidle : (effectOf δ op).idle = true
  · have hpre : (announcing i).pre δ op s :=
      announcing_pre (silent_published (unmoving_silent (idle_unmoving hidle)))
    refine ⟨hpre, fun x s' hexec => ?_⟩
    obtain ⟨hguar, hinv'⟩ := announcing_step hinv hpre hexec
    exact ⟨hguar, hinv', hs.idle hidle hexec⟩
  · cases op with
    | sql op =>
      cases op with
      | updateRun run v =>
        have hpre : (announcing i).pre _ (.sql (.updateRun run v)) s :=
          announcing_pre fun _ hevent => by cases hevent
        refine ⟨hpre, fun x s' hexec => ?_⟩
        obtain ⟨hguar, hinv'⟩ := announcing_step hinv hpre hexec
        exact ⟨hguar, hinv', hs.update (fun hne => absurd hop hne) hexec⟩
      | _ => exact absurd hop hidle
    | _ => exact absurd hop hidle

/-- Where only the calls of a program count. -/
theorem announced_endless {p : StoreProg Text α} (hp : p.Calls Endless) (h : Owes i L b s) :
    Announced codec sha256Digest i p (fun _ s' => Owes i L b s') s := by
  refine (announced_endsNone (E := fun _ => True) hp.issues h).mono fun r s' _ hr => ?_
  cases r with
  | ok a => exact hr.2
  | error e => exact trivial

section Service

variable {runId ownerId : String} {maximumTasks : Option Int}

theorem announced_ownedRun (h : Owes i L b s) :
    Announced codec sha256Digest i (ownedRun runId ownerId) (fun _ s' => Owes i L b s') s :=
  announced_endless endless_ownedRun h

theorem announced_newWorkerId (h : Owes i L b s) :
    Announced codec sha256Digest i (newWorkerId ownerId) (fun _ s' => Owes i L b s') s :=
  announced_endless (Calls.bind (endless_sql rfl) fun _ => trivial) h

/-- A thread that has met its key has met it from then on. -/
theorem keeps_replayed :
    (announcing i).Keeps fun s : StoreState Text × Account ι => s.2.replayed i = true := by
  intro s s' h _ hs
  rcases h with hrely | hguar
  · exact (Prod.mk.inj (Prod.mk.inj hrely).2).2.trans hs
  · exact hguar.2 hs

/-- Where a key was found, or another request won, the thread has met its key. -/
theorem announced_meet {op : SqlOp α} (known : α → Bool) (h : Owes i L b s)
    (hidle : (effectOf α (.sql op : StoreOp Text α)).idle = true)
    (hnote : ∀ a (s : StoreState Text) acc,
      noteEnding i α (.sql op) (.ok a) s acc = acc.meet i (known a)) :
    Announced codec sha256Digest i (sql op)
      (fun a s' => Owes i L b s' ∧ (known a = true → s'.2.replayed i = true)) s := by
  refine announced_sql h (fun a s₁ s₂ hs h => ⟨h.1.share hs, fun hknown => ?_⟩)
    fun a s₁ s₂ h₁ hop => ⟨h₁.idle hidle hop, fun hknown => ?_⟩
  · exact (Prod.mk.inj (Prod.mk.inj hs).2).2.trans (h.2 hknown)
  · rcases endingExec_cases hop with ⟨t, -, -, hnoted⟩ | ⟨e, ⟨⟩, -⟩
    rw [hnoted, hnote, Account.meet, hknown, Bool.or_true]
    exact Function.update_self _ _ _

/-- What is known of a claim: it is new, or the thread has met its key. -/
def ClaimKnown (i : ι) (L : List (RunEnd ι)) (b claimed : Bool) (s : StoreState Text × Account ι) :
    Prop :=
  Owes i L b s ∧ (claimed = false → s.2.replayed i = true)

theorem announced_claimed {claimed : Bool} (h : ClaimKnown i L b claimed s) :
    Announced codec sha256Digest i (Pure.pure claimed : StoreProg Text Bool) (ClaimKnown i L b) s :=
  fun _ hs' hinv => ⟨h.1.share hs', fun hclaimed => keeps_replayed (.inl hs') hinv (h.2 hclaimed)⟩

theorem announced_claimAction {action idempotencyKey requestHash resourceId : String}
    (h : Owes i L b s) :
    Announced codec sha256Digest i
      (A.claimAction ownerId action idempotencyKey requestHash resourceId) (ClaimKnown i L b) s := by
  refine Meets.next (announced_meet Option.isSome h rfl fun _ _ _ => rfl)
    fun existing s₁ _ h₁ => ?_
  cases existing with
  | some key =>
    have hmet : s₁.2.replayed i = true := h₁.2 rfl
    refine Meets.seq keeps_replayed hmet (announced_endless (endless_sql rfl) h₁.1)
      fun now s₂ _ hmet h₂ => ?_
    change Announced _ _ _ (priorIntent requestHash resourceId key) _ s₂
    unfold priorIntent
    split
    · exact fun _ _ _ => trivial
    · split
      · exact fun _ _ _ => trivial
      · exact announced_claimed ⟨h₂, fun _ => hmet⟩
  | none =>
    refine Meets.next (announced_endless (endless_sql rfl) h₁.1) fun now s₂ _ h₂ => ?_
    refine Meets.next (announced_meet Bool.not h₂ rfl fun _ _ _ => rfl)
      fun inserted s₃ _ h₃ => ?_
    cases inserted with
    | true => exact announced_claimed ⟨h₃.1, by simp⟩
    | false =>
      have hmet : s₃.2.replayed i = true := h₃.2 rfl
      refine Meets.seq keeps_replayed hmet (announced_endless (endless_sql rfl) h₃.1)
        fun winner s₄ _ hmet h₄ => ?_
      cases winner with
      | none => exact fun _ _ _ => trivial
      | some key =>
        unfold concurrentIntent
        dsimp only
        split
        · exact announced_claimed ⟨h₄, fun _ => hmet⟩
        · exact fun _ _ _ => trivial

theorem announced_isReplay {idempotencyKey : Option String} (h : Owes i L b s) :
    Announced codec sha256Digest i (A.isReplay runId ownerId maximumTasks idempotencyKey)
      (fun replay s' => ClaimKnown i L b (!replay) s' ∧ (replay = true → idempotencyKey ≠ none))
      s := by
  cases idempotencyKey with
  | none => exact fun s' hs' _ => ⟨⟨h.share hs', nofun⟩, nofun⟩
  | some key =>
    unfold Agent.isReplay
    dsimp only
    split
    · exact fun _ _ _ => trivial
    · refine Meets.next (announced_claimAction h) fun claimed s₁ _ h₁ => ?_
      intro s' hs' hinv
      refine ⟨⟨h₁.1.share hs', fun hclaimed => ?_⟩, fun _ => Option.some_ne_none key⟩
      rw [Bool.not_not] at hclaimed
      exact keeps_replayed (.inl hs') hinv (h₁.2 hclaimed)

/-- Nothing is owed, or the call was given a key that the thread has met. -/
def Settles (i : ι) (idempotencyKey : Option String) (s : StoreState Text × Account ι) : Prop :=
  Clear i s ∨ (idempotencyKey ≠ none ∧ s.2.replayed i = true)

theorem announced_resumeAndAdvance {workerId : String} (h : Owes i [] b s) :
    Announced codec sha256Digest i (A.resumeAndAdvance runId workerId maximumTasks)
      (fun _ s' => Clear i s') s :=
  Meets.next (announced_endsNone endsNone_resume h)
    fun _ _ _ h₁ => announced_advance ⟨_, h₁.2⟩

theorem announced_resumeOwned {idempotencyKey : Option String} (h : Owes i [] b s) :
    Announced codec sha256Digest i (A.resumeOwned runId ownerId maximumTasks idempotencyKey)
      (fun _ s' => Settles i idempotencyKey s') s := by
  refine Meets.next (announced_ownedRun h) fun run s₁ _ h₁ => ?_
  refine Meets.next (announced_isReplay h₁) fun replay s₂ _ h₂ => ?_
  obtain ⟨⟨h₂, hmet⟩, hkey⟩ := h₂
  have hcurrent (run : RunRecord) : (currentResult run : StoreProg Text _).Calls Endless :=
    Calls.bind endless_getTasks fun _ => trivial
  split
  · refine Meets.mono (announced_endless (hcurrent run) h₂) fun r s' _ hr => ?_
    cases r with
    | ok a => exact .inl ⟨_, hr⟩
    | error e => exact trivial
  · have hkeeps : (announcing i).Keeps fun s : StoreState Text × Account ι =>
        replay = true → s.2.replayed i = true := keeps_replayed.imp
    have hmet' : replay = true → s₂.2.replayed i = true := fun hreplay =>
      hmet (by rw [hreplay]; rfl)
    refine Meets.seq hkeeps hmet' (announced_newWorkerId h₂) fun workerId s₃ _ hmet h₃ => ?_
    refine Meets.tryCatch (Meets.frame (announced_resumeAndAdvance h₃) hkeeps hmet)
      (fun _ _ _ h => .inl h.1) fun e s₄ _ h₄ => ?_
    unfold replayConflict
    split
    · split
      · next hreplay =>
        have hquiet : ((ownedRun runId ownerId >>= currentResult) : StoreProg Text _).Calls
            Endless := Calls.bind endless_ownedRun hcurrent
        refine Meets.mono (Meets.frame (announced_endless hquiet ⟨rfl, rfl⟩) keeps_replayed
          (h₄.2 hreplay)) fun r s' _ hr => ?_
        cases r with
        | ok a => exact .inr ⟨hkey hreplay, hr.2⟩
        | error e => exact trivial
      · exact fun _ _ _ => trivial
    · exact fun _ _ _ => trivial

/-- The key of a resume, if it was given one. -/
def ServiceCall.resumeKey : ServiceCall → Option String
  | .resume _ _ _ idempotencyKey => idempotencyKey
  | _ => none

theorem announced_settles {p : StoreProg Text α} {key : Option String}
    (hp : Announced codec sha256Digest i p (fun _ s' => Settles i key s') s) :
    Announced codec sha256Digest i (p >>= fun _ => Pure.pure ())
      (fun _ s' => Settles i key s') s := by
  refine Meets.next hp fun _ s₁ _ h₁ s' hs' hinv => ?_
  rcases h₁ with hclear | ⟨hkey, hmet⟩
  · exact .inl (hclear.imp fun _ h => h.share hs')
  · exact .inr ⟨hkey, keeps_replayed (.inl hs') hinv hmet⟩

theorem settles_of_clear {p : StoreProg Text α} {key : Option String}
    (hp : Announced codec sha256Digest i p (fun _ s' => Clear i s') s) :
    Announced codec sha256Digest i p (fun _ s' => Settles i key s') s := by
  refine hp.mono fun r s' _ hr => ?_
  cases r with
  | ok a => exact .inl hr
  | error e => exact trivial

theorem clear_of_endsNone {p : StoreProg Text α} {E : α → Prop} (hp : EndsNone p E)
    (h : Owes i [] b s) : Announced codec sha256Digest i p (fun _ s' => Clear i s') s := by
  refine (announced_endsNone hp h).mono fun r s' _ hr => ?_
  cases r with
  | ok a => exact ⟨b, hr.2⟩
  | error e => exact trivial

/-- Every call of the service announces what it owes before it returns. -/
theorem announced_program {call : ServiceCall} (h : Owes i [] b s) :
    Announced codec sha256Digest i (call.program A) (fun _ s' => Settles i call.resumeKey s') s := by
  cases call with
  | createRun => exact announced_settles (settles_of_clear (clear_of_endsNone endsNone_createRun h))
  | advance =>
    refine announced_settles (settles_of_clear ?_)
    refine Meets.next (announced_ownedRun h) fun _ s₁ _ h₁ => ?_
    exact Meets.next (announced_newWorkerId h₁) fun workerId s₂ _ h₂ => announced_advance ⟨_, h₂⟩
  | pause => exact announced_settles (settles_of_clear (clear_of_endsNone endsNone_requestPauseOf h))
  | resume => exact announced_settles (announced_resumeOwned h)
  | cancel =>
    exact announced_settles (settles_of_clear
      (clear_of_endsNone (E := fun _ => True) endless_requestCancelOf.issues h))

end Service

/-! ## Every history -/

/-- A fresh database accounts for itself. -/
theorem accounted_freshStore : Accounted ((freshStore journal : StoreState Text), ({} : Account ι)) where
  lasting _ h := by cases h
  once := List.nodup_nil
  owed _ h := by cases h
  due _ h := by cases h
  unmoved _ _ := rfl

/-- Ends last from each reached state to the next. -/
theorem endsLast_of_reached {Q Q' : Pool (StoreOp Text) Exn (StoreState Text × Account ι) ι}
    (hreach : ThreadRuns (endingExec codec sha256Digest)
      ((servicePool processes (freshStore journal)).beside {}) Q)
    (hstep : ThreadStep (endingExec codec sha256Digest) Q i Q') :
    EndsLast Q.shared.1 Q'.shared.1 := by
  have hforget {R R' : Pool (StoreOp Text) Exn (StoreState Text × Account ι) ι}
      (h : ThreadRuns (endingExec codec sha256Digest) R R') :
      PoolRuns (faultyExec codec sha256Digest) R.forget R'.forget := by
    have hnoted : ThreadRuns (fun i =>
        ((handle codec sha256Digest).recorded (noteEnding i)).exec.withFaults) R R' :=
      h.mono fun _ _ _ _ _ _ hop => hop.imp_left And.right
    exact hnoted.forget
  intro row hrow hend
  have hleads := (service_transitions (hforget hreach) (hforget (.single ⟨i, hstep⟩))).1
  obtain ⟨row', hrow', hid, hlead⟩ := hleads row hrow
  refine ⟨row', hrow', hid, hlead.2 ((terminal_run_iff _).mpr ?_)⟩
  cases hstate : row.state <;> simp_all [endEvent]

/-- Any processes with any calls of the service, interleaved in any way, with calls that fail and
processes that stop: no thread brings a run to its end for the failures of a batch, and none ends a
run that has ended. Whenever a call has returned that brought a run to its end, the run is in that
state, and its events announce that end and no other. -/
theorem service_announces
    (hrun : ThreadRuns (endingExec codec sha256Digest)
      ((servicePool processes (freshStore journal)).beside {}) P)
    (hreturned : P.threads i = .done (.ok ()))
    (hfirst : (processes i).call.resumeKey ≠ none → P.shared.2.replayed i = false)
    {runId : String} {state : RunState} (hmoved : ⟨i, runId, state⟩ ∈ P.shared.2.moved) :
    (∃ row ∈ P.shared.1.runs.rows, row.runId = runId ∧ row.state = state) ∧
      endsOf P.shared.1 runId = (endEvent state).toList := by
  have hstart : PoolMeets (@announcing Text ι _) (lastingExec codec sha256Digest)
      (fun j => onOk fun _ s' => Settles j (processes j).call.resumeKey s')
      ((servicePool processes (freshStore journal)).beside {}) :=
    fun j => ⟨accounted_freshStore, announced_program ⟨rfl, rfl⟩⟩
  have hlasting := hrun.strengthen (E := fun s s' => EndsLast s.1 s'.1)
    fun _ _ _ hreach hstep => endsLast_of_reached hreach hstep
  have hmeets := hstart.runs compatible_announcing hlasting
  have haccount : Accounted P.shared := (hmeets i).1
  have hclear : Clear i P.shared := by
    refine Or.resolve_right (hmeets.ended hreturned) fun hkeyed => ?_
    rw [hfirst hkeyed.1] at hkeyed
    cases hkeyed.2
  have hnot : (⟨i, runId, state⟩ : RunEnd ι) ∉ P.shared.2.owed := by
    intro howed
    obtain ⟨b, hclear⟩ := hclear
    have hmine : (⟨i, runId, state⟩ : RunEnd ι) ∈ P.shared.2.owed.filter fun d => d.mover = i :=
      List.mem_filter.mpr ⟨howed, decide_eq_true rfl⟩
    rw [hclear.owed] at hmine
    cases hmine
  refine ⟨(haccount.lasting _ hmoved).2, ?_⟩
  have hdue := haccount.due _ hmoved
  rwa [if_neg hnot] at hdue

/-! ## A run that completes, and a run that a batch fails -/

/-- The handlers of the processes. -/
abbrev endingHandle (i : Nat) : Handler (StoreOp CheckpointEnvelope) Exn Supply
    (StoreState CheckpointEnvelope × Account Nat) :=
  (handle plainCodec plainAgent.sha256Digest).recorded (noteEnding i)

/-- A run is created and advanced to its end. -/
def completing : List (Nat × Supply) :=
  turns 0 (List.replicate 38 "r") ++ turns 1 ((List.range 100).map toString)

-- a created run has no event of its end
example : endsOf (plainPlay (turns 0 (List.replicate 38 "r")) advancingPool).shared "run-r" = [] := by
  decide +kernel

theorem service_announces_completed : ∃ P,
    ThreadRuns (endingExec plainCodec plainAgent.sha256Digest) (advancingPool.beside {}) P ∧
    P.threads 1 = .done (.ok ()) ∧
    (∃ row ∈ P.shared.1.runs.rows, row.runId = "run-r" ∧ row.state = .COMPLETED) ∧
    endsOf P.shared.1 "run-r" = ["run.completed"] := by
  have hreach : ThreadRuns (endingExec plainCodec plainAgent.sha256Digest)
      (advancingPool.beside {}) ((advancingPool.beside {}).playEach endingHandle completing) :=
    (Pool.playEach_guarded endingHandle EndsOnce completing _ (by decide +kernel)).mono
      fun _ _ _ _ _ _ => .inl
  have hreturned : ((advancingPool.beside {}).playEach endingHandle completing).threads 1 =
      .done (.ok ()) := returned_iff.mp (by decide +kernel)
  have hmoved : (⟨1, "run-r", .COMPLETED⟩ : RunEnd Nat) ∈
      ((advancingPool.beside {}).playEach endingHandle completing).shared.2.moved := by
    decide +kernel
  exact ⟨_, hreach, hreturned, service_announces hreach hreturned (absurd rfl) hmoved⟩

/-- A run is created, and its task fails. -/
def failing : List (Nat × Supply) :=
  planTurns fatalPlan 0 (List.replicate 38 "r") ++ failingTurns 1 ((List.range 100).map toString)

/-- The advance brings the run to its end and returns, but nothing announces it. -/
theorem service_announces_failed : ∃ P,
    ThreadRuns (fun i => (endingHandle i).exec.withFaults) (advancingPool.beside {}) P ∧
    (P.threads 1).returned = true ∧ P.shared.2.moved = [⟨1, "run-r", .FAILED⟩] ∧
    (P.shared.1.runs.rows.map RunRecord.state) = [.FAILED] ∧ endsOf P.shared.1 "run-r" = [] := by
  have hreach := (Pool.playEach_runs endingHandle failing (advancingPool.beside {})).mono
    fun i β op s x s' hop => (Or.inl hop : (endingHandle i).exec.withFaults β op s x s')
  exact ⟨_, hreach, by decide +kernel, by decide +kernel, by decide +kernel, by decide +kernel⟩

end DurableAgent.Orchestration
