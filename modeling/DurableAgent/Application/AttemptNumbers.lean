import DurableAgent.Application.StuckRuns

/-!
# Attempt numbers

An attempt is numbered by the count of its task's row, while the number has to be new among all
attempts at the task in the run, whatever their plans. Where each start counts to a number that no
row of the task has counted to, it alone may open the attempt, and nobody has opened it before. A
revision that changes a task begins its count again, and its first start collides.
-/

namespace DurableAgent.Orchestration

open Library Library.Prog Store

variable {Text ι : Type} [DecidableEq ι] {codec : Codec Text} {sha256Digest : String → String}
  {P P' : Pool (StoreOp Text) Exn (StoreState Text) ι} {processes : ι → Process Text}
  {journal : Tools.World} {g : Assumed}

/-- A start counts to a number that no row of the task has counted to, in whatever plan. -/
def countsAnew (β : Type) (op : StoreOp Text β) (s : StoreState Text) : Prop :=
  ∀ update ∈ taskUpdate _ op, update.1.state = .RUNNING → ∀ row ∈ s.tasks.rows,
    row.runId = update.1.runId → row.spec.taskId = update.1.spec.taskId →
      row.attemptCount < update.1.attemptCount

instance (β : Type) (op : StoreOp Text β) (s : StoreState Text) : Decidable (countsAnew β op s) :=
  inferInstanceAs (Decidable (∀ _ ∈ _, _ → ∀ _ ∈ _, _ → _ → _))

abbrev countingAnew : Assumed := ⟨False, False, True⟩

/-! ## Who opens which attempt -/

/-- Each process is the one to open the attempts that are assigned to it. -/
abbrev openers (opener : Numbered → Option ι) (i : ι) : Watch := ⟨"", fun n => opener n = some i⟩

omit [DecidableEq ι] in
theorem apart_openers (opener : Numbered → Option ι) : Apart g (openers opener) := by
  intro _ i j n hne hi hj
  exact hne (Option.some.inj (hi.symm.trans hj))

/-- Some row of the task has counted to the number. -/
def CountedTo (s : Ledger) (n : Numbered) : Prop :=
  ∃ row ∈ s.tasks.rows, row.runId = n.1 ∧ row.spec.taskId = n.2.1 ∧ n.2.2 ≤ row.attemptCount

/-- What is assigned stays assigned. -/
def Extends (opener opener' : Numbered → Option ι) : Prop :=
  ∀ n i, opener n = some i → opener' n = some i

omit [DecidableEq ι] in
theorem Extends.admits {opener opener' : Numbered → Option ι} (h : Extends opener opener') {i : ι}
    {β : Type} {op : StoreOp Text β} {s : StoreState Text}
    (hop : Admits countingAnew (openers opener i) op s) :
    Admits countingAnew (openers opener' i) op s where
  calm := False.elim
  active := False.elim
  spare := False.elim
  numbered hn update hupdate hrunning := by
    obtain ⟨hmine, hnew⟩ := hop.numbered hn update hupdate hrunning
    exact ⟨h _ i hmine, hnew⟩

theorem Extends.runs {opener opener' : Numbered → Option ι} (h : Extends opener opener')
    (hrun : AdmittedRuns countingAnew (openers opener) codec sha256Digest P P') :
    AdmittedRuns countingAnew (openers opener') codec sha256Digest P P' :=
  hrun.mono fun _ _ _ _ _ _ hop => hop.imp_left fun hop => ⟨h.admits hop.1, hop.2⟩

omit [DecidableEq ι] in
/-- A start that is not refused is assigned its number, which nobody was assigned before. -/
theorem exists_opener_start {opener : Numbered → Option ι} (i : ι) {task : TaskRecord} {v : Nat}
    {s s' : StoreState Text} {x : Except Exn TaskRecord}
    (hassigned : ∀ n j, opener n = some j → CountedTo (ledger s) n)
    (hrunning : task.state = .RUNNING)
    (hcond : countsAnew TaskRecord (.sql (.updateTask task v) : StoreOp Text TaskRecord) s)
    (hop : settle s (s.updateTask task v) = (x, s')) :
    (∃ e, x = .error e ∧ s' = s) ∨ ∃ opener' : Numbered → Option ι, Extends opener opener' ∧
      (∀ n j, opener' n = some j → opener n = some j ∨ CountedTo (ledger s') n) ∧
        Admits countingAnew (openers opener' i)
          (.sql (.updateTask task v) : StoreOp Text TaskRecord) s := by
  rcases settle_eq hop with ⟨e, rfl, rfl⟩ | ⟨answer, rfl, hok⟩
  · exact .inl ⟨e, rfl, rfl⟩
  · right
    have hnew := hcond (task, v) rfl hrunning
    set number : Numbered := (task.runId, task.spec.taskId, task.attemptCount) with hnumber
    have hfree : opener number = none := by
      rw [Option.eq_none_iff_forall_ne_some]
      intro j hj
      obtain ⟨row, hrow, hrun, htask, hle⟩ := hassigned number j hj
      have hlt := hnew row hrow hrun htask
      exact absurd hle (Nat.not_le.mpr hlt)
    refine ⟨Function.update opener number (some i), fun n j hj => ?_, fun n j hj => ?_,
      False.elim, False.elim, False.elim, fun _ update hupdate _ => ?_⟩
    · rw [Function.update_of_ne]
      · exact hj
      · rintro rfl
        rw [hfree] at hj
        cases hj
    · by_cases hn : n = number
      · right
        unfold StoreState.updateTask at hok
        split at hok
        · next tasks hwrite =>
          obtain ⟨-, rfl⟩ := Prod.mk.inj (Except.ok.inj hok)
          obtain ⟨row, hrow, hkey, -, rfl⟩ := writeTask_eq_some hwrite
          have hkey' := Prod.mk.inj hkey
          rw [hn]
          refine ⟨written task v row, ?_, hkey'.1, (Prod.mk.inj hkey'.2).2, Nat.le_refl _⟩
          have hsame : (written task v row).taskPk = row.taskPk := rfl
          exact (Table.mem_replace hrow hsame _).mpr (.inl rfl)
        · cases hok
      · rw [Function.update_of_ne hn] at hj
        exact .inl hj
    · obtain rfl := Option.some.inj hupdate
      exact ⟨Function.update_self _ _ _, hnew⟩

omit [DecidableEq ι] in
theorem exists_opener {opener : Numbered → Option ι} (i : ι) {β : Type} {op : StoreOp Text β}
    {s s' : StoreState Text} {x : Except Exn β} {t : Supply}
    (hassigned : ∀ n j, opener n = some j → CountedTo (ledger s) n) (hcond : countsAnew β op s)
    (hop : handle codec sha256Digest β op t s = (x, s')) :
    (∃ e, x = .error e ∧ s' = s) ∨ ∃ opener' : Numbered → Option ι, Extends opener opener' ∧
      (∀ n j, opener' n = some j → opener n = some j ∨ CountedTo (ledger s') n) ∧
        Admits countingAnew (openers opener' i) op s := by
  by_cases hstart : ∃ update ∈ taskUpdate _ op, update.1.state = .RUNNING
  · obtain ⟨update, hupdate, hrunning⟩ := hstart
    cases op with
    | sql op =>
      cases op with
      | updateTask task v =>
        obtain rfl := Option.some.inj hupdate
        exact exists_opener_start i hassigned hrunning hcond hop
      | _ => cases hupdate
    | _ => cases hupdate
  · refine .inr ⟨opener, fun _ _ => id, fun _ _ => .inl, False.elim, False.elim, False.elim, ?_⟩
    exact fun _ update hupdate hrunning => absurd ⟨update, hupdate, hrunning⟩ hstart

/-! ## Every run -/

theorem CountedTo.move {s s' : Ledger} {n : Numbered} (h : CountedTo s n) (hmove : Move g s s') :
    CountedTo s' n :=
  Evolves.counted (.single hmove) h

/-- The starts of a run can be assigned: nobody else opens what a process has counted to. -/
theorem exists_openers
    (hreach : PoolRuns (guardedExec countsAnew codec sha256Digest)
      (servicePool processes (freshStore journal)) P) :
    ∃ opener : Numbered → Option ι,
      AdmittedRuns countingAnew (openers opener) codec sha256Digest
        (servicePool processes (freshStore journal)) P ∧
      ∀ n i, opener n = some i → CountedTo (ledger P.shared) n := by
  induction hreach with
  | refl => exact ⟨fun _ => none, .refl, fun _ _ h => by cases h⟩
  | @tail P P' _ hlast ih =>
    obtain ⟨opener, hruns, hassigned⟩ := ih
    obtain ⟨i, hlast⟩ := hlast
    cases hlast with
    | @call _ _ _ op k x s' hi hop =>
      -- a refused start has no effect, and is assigned nothing
      have hcases : (∃ e, x = .error e ∧ s' = P.shared) ∨
          ∃ opener' : Numbered → Option ι, Extends opener opener' ∧
            (∀ n j, opener' n = some j → opener n = some j ∨ CountedTo (ledger s') n) ∧
              Admits countingAnew (openers opener' i) op P.shared ∧
                (handle codec sha256Digest).exec _ op P.shared x s' := by
        rcases hop with ⟨hcond, t, hop⟩ | hfault
        · rcases exists_opener i hassigned hcond hop with hrefused | ⟨opener', h, h', hadmits⟩
          · exact .inl hrefused
          · exact .inr ⟨opener', h, h', hadmits, t, hop⟩
        · exact .inl hfault
      rcases hcases with ⟨e, rfl, rfl⟩ | ⟨opener', hextends, hnew, hadmits, hexec⟩
      · exact ⟨opener, hruns.tail ⟨i, .call hi (.inr ⟨e, rfl, rfl⟩)⟩, hassigned⟩
      · have hruns' := hextends.runs hruns
        have hstep : ThreadStep
            (fun i => assumedExec countingAnew (openers opener' i) codec sha256Digest) P i
            ⟨Function.update P.threads i (k x), s'⟩ := .call hi (.inl ⟨hadmits, hexec⟩)
        refine ⟨opener', hruns'.tail ⟨i, hstep⟩, fun n j hj => ?_⟩
        rcases hnew n j hj with hold | hcounted
        · exact (hassigned n j hold).move
            ((served_of_reached (apart_openers opener') hruns').move (apart_openers opener') hstep)
        · exact hcounted

/-- The attempt that a process is about to start. -/
def startsNext : StoreProg Text Unit → Option Numbered
  | .call (.sql (.startTaskAttempt runId taskId attemptNumber)) _ =>
    some (runId, taskId, attemptNumber)
  | _ => none

theorem startsNext_eq_some {p : StoreProg Text Unit} {runId taskId : String} {attemptNumber : Nat}
    (h : startsNext p = some (runId, taskId, attemptNumber)) :
    ∃ k, p = .call (.sql (.startTaskAttempt runId taskId attemptNumber)) k := by
  unfold startsNext at h
  split at h
  · obtain ⟨rfl, hrest⟩ := Prod.mk.inj (Option.some.inj h)
    obtain ⟨rfl, rfl⟩ := Prod.mk.inj hrest
    exact ⟨_, rfl⟩
  · cases h

/-- The task after a revision that describes it in other words. -/
def rewordedTask : TaskSpec :=
  { plainTask with description := "one larger task" }

def rewordedPlan : PlanSpec :=
  { planId := "revised", runId := "run-r", version := 2, tasks := [rewordedTask] }

/-- A turn of one process for each identifier, an hour later, over a changed repository. -/
def driftTurns {κ : Type} (i : κ) (freshIds : List String) : List (κ × Supply) :=
  freshIds.map fun freshId => (i,
    { plainSupply freshId with
      now := 3600000000, plan := .ok rewordedPlan, index := .ok ("later", "changed") })

/-- A creation, an advance, and a resume that revises the plan after drift. -/
def replanPool : Pool (StoreOp CheckpointEnvelope) Exn (StoreState CheckpointEnvelope) Nat :=
  servicePool
    (fun
      | 0 => ⟨plainAgent, .createRun "objective" "owner" "key" none⟩
      | 1 => ⟨plainAgent, .advance "run-r" "owner" none⟩
      | _ => ⟨{ plainAgent with
          settings := { plainSettings with repositoryDriftPolicy := .REPLAN } },
          .resume "run-r" "owner" none none⟩)
    plainStore

end DurableAgent.Orchestration
