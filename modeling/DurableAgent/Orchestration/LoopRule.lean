import DurableAgent.Library.Contract
import DurableAgent.Orchestration.Effects

/-!
# The rule of the loop

What holds before each turn of the loop, after a turn that starts a batch, and at the end of the
loop carries over to the whole loop and to `advance` around it, under any contract.
-/

namespace DurableAgent.Orchestration

open Library Library.Prog Store Contract

variable {Text σ α : Type} {C : Contract (StoreOp Text) σ} {exec : Exec (StoreOp Text) Exn σ}
  {A : Agent Text} {plan : PlanSpec} {maximumTasks : Option Nat} {lease : LeaseRecord} {s : σ}

/-- What is known after a turn: as before it, of a batch, or of the end. -/
def AfterTurn (top ended : Progress → σ → Prop) (started : Progress → List Started → σ → Prop) :
    Turn → σ → Prop
  | .ended p, s => ended p s
  | .again p, s => top p s
  | .batch p batch, s => started p batch s

/-- What is known after a batch: as before a turn, or of the end. -/
def AfterBatch (top ended : Progress → σ → Prop) (settled : Progress × Bool) (s : σ) : Prop :=
  if settled.2 then ended settled.1 s else top settled.1 s

/-- The parts of the loop keep what is known before and after them. -/
structure LoopRule (C : Contract (StoreOp Text) σ) (exec : Exec (StoreOp Text) Exn σ)
    (A : Agent Text) (plan : PlanSpec) (maximumTasks : Option Nat)
    (top ended : Progress → σ → Prop) (started : Progress → List Started → σ → Prop)
    (executed : Progress → List Started → Except Exn (List WorkerResult) → σ → Prop) : Prop where
  turn : ∀ {p s}, C.inv s → top p s →
    C.Meets exec (A.turn plan maximumTasks p) (onOk (AfterTurn top ended started)) s
  batch : ∀ {p batch lease s}, C.inv s → started p batch s →
    C.Meets exec (A.executeBatch p.run (batch.map Started.task) lease)
      (onOk fun done => executed p batch done.2) s
  settle : ∀ {p batch results s}, C.inv s → executed p batch results s →
    C.Meets exec (A.settleBatch plan p batch results) (onOk (AfterBatch top ended)) s
  release : ∀ {p lease s}, C.inv s → ended p s →
    C.Meets exec (releaseLease lease) (onOk fun _ s' => ended p s') s
  abandon : ∀ {lease s}, C.inv s → C.Meets exec (releaseLease lease) (onOk fun _ _ => True) s
  stay : ∀ {p s s'}, C.rely s s' → C.inv s' → ended p s → ended p s'

variable {top ended : Progress → σ → Prop} {started : Progress → List Started → σ → Prop}
  {executed : Progress → List Started → Except Exn (List WorkerResult) → σ → Prop}

/-- An exception releases the lease, and stays one. -/
theorem releasing_rule {q : StoreProg Text α} {R : α → σ → Prop} (hq : C.Meets exec q (onOk R) s)
    (habandon : ∀ s, C.inv s → C.Meets exec (releaseLease lease) (onOk fun _ _ => True) s) :
    C.Meets exec (releasing lease q) (onOk R) s := by
  refine Meets.tryCatch hq (fun _ _ _ h => h) fun e s' hinv _ => ?_
  exact Meets.next (habandon s' hinv) fun _ _ _ _ _ _ _ => trivial

theorem LoopRule.leave (h : LoopRule C exec A plan maximumTasks top ended started executed)
    {p : Progress} (hinv : C.inv s) (hended : ended p s) :
    C.Meets exec (releaseLease lease >>= fun _ => Pure.pure p : StoreProg Text Progress)
      (onOk ended) s :=
  Meets.next (h.release hinv hended) fun _ _ _ h₁ _ hs' hinv' => h.stay hs' hinv' h₁

/-- The loop ends as its turns do. -/
theorem LoopRule.loop (h : LoopRule C exec A plan maximumTasks top ended started executed)
    {fuel : Nat} {p : Progress} (hinv : C.inv s) (htop : top p s) :
    C.Meets exec (A.loop plan maximumTasks fuel lease p) (onOk ended) s := by
  induction fuel generalizing lease p s with
  | zero => trivial
  | succ fuel ih =>
    refine Meets.next (releasing_rule (h.turn hinv htop) fun _ hinv => h.abandon hinv)
      fun turn s₁ hinv₁ h₁ => ?_
    cases turn with
    | ended p => exact h.leave hinv₁ h₁
    | again p => exact ih hinv₁ h₁
    | batch p batch =>
      refine Meets.next (h.batch hinv₁ h₁) fun done s₂ hinv₂ h₂ => ?_
      refine Meets.next (releasing_rule (h.settle hinv₂ h₂) fun _ hinv => h.abandon hinv)
        fun settled s₃ hinv₃ h₃ => ?_
      obtain ⟨p, ends⟩ := settled
      cases ends with
      | true => exact h.leave hinv₃ h₃
      | false => exact ih hinv₃ h₃

/-! ## Around the loop -/

/-- The calls of `advance` before its loop, and those of an advance that does nothing. -/
def entryEffects : List Effect :=
  [.read, .lease, .check .cancel, .check .pause, .selectTasks .advance, .selectTasks .answer]

/-- What the calls around the loop keep, the loop starts from; and it ends as the loop does. -/
theorem advance_rule {K : σ → Prop} {runId workerId : String} {maximumTasks : Option Int}
    (hK : ∀ s s', C.rely s s' → C.inv s' → K s → K s')
    (hentry : ∀ (β : Type) (q : StoreProg Text β) s, q.Calls (Within entryEffects) → K s →
      C.Meets exec q (onOk fun _ s' => K s') s)
    (hloop : ∀ plan maximumTasks lease p s, C.inv s → K s →
      C.Meets exec (A.loop plan maximumTasks A.fuel lease p) (onOk fun _ s' => K s') s)
    (hs : K s) :
    C.Meets exec (A.advance runId workerId maximumTasks) (onOk fun _ s' => K s') s := by
  have hdone (a : RunAdvanceResult) (s : σ) (hs : K s) :
      C.Meets exec (Pure.pure a : StoreProg Text RunAdvanceResult) (onOk fun _ s' => K s') s :=
    fun s' hs' hinv => hK s s' hs' hinv hs
  have hunadvanced (lease : LeaseRecord) (run : RunRecord) (s : σ) (hs : K s) :
      C.Meets exec (unadvanced lease run) (onOk fun _ s' => K s') s := by
    refine Meets.next (hentry _ _ s (within_mono (within_ofLease _) (by decide)) hs)
      fun _ s₁ _ h₁ => ?_
    exact Meets.next (hentry _ _ s₁ (within_mono within_getTasks (by decide)) h₁)
      fun _ s₂ _ h₂ => hdone _ s₂ h₂
  have hrun (lease : LeaseRecord) (run : RunRecord) (maximumTasks : Option Nat) (s : σ)
      (hs : K s) :
      C.Meets exec (A.advanceRun lease run maximumTasks) (onOk fun _ s' => K s') s := by
    refine Meets.next (hentry _ _ s (within_sql rfl) hs) fun plan s₁ _ h₁ => ?_
    refine Meets.next (hentry _ _ s₁ (within_mono within_getTasks (by decide)) h₁)
      fun tasks s₂ _ h₂ => ?_
    refine Meets.next (hentry _ _ s₂ (within_sql rfl) h₂) fun _ s₃ hinv h₃ => ?_
    exact Meets.next (hloop _ _ _ _ s₃ hinv h₃) fun _ s₄ _ h₄ => hdone _ s₄ h₄
  unfold Agent.advance
  split
  · exact fun _ _ _ => trivial
  · refine Meets.next (hentry _ _ s (within_mono (within_ofLease _) (by decide)) hs)
      fun lease s₁ _ h₁ => ?_
    refine Meets.next (hentry _ _ s₁ (within_sql rfl) h₁) fun run s₂ _ h₂ => ?_
    split
    · refine Meets.next
        (hentry _ _ s₂ (within_mono within_pendingLifecycleRequest (by decide)) h₂)
        fun pending s₃ _ h₃ => ?_
      unfold Agent.advancePaused
      split
      · exact hrun lease run _ s₃ h₃
      · exact hunadvanced lease run s₃ h₃
    · split
      · exact hrun lease run _ s₂ h₂
      · exact hunadvanced lease run s₂ h₂

end DurableAgent.Orchestration
