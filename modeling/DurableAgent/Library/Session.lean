import DurableAgent.Library.Contract

/-!
# Callers and what they return

Programs that return a result, interleaved over one shared state. A caller that catches nothing
ends in the first exception that a call of it is answered with, and what it has ended in stays.
-/

namespace DurableAgent.Library

variable {Op : Type → Type} {ε α β σ τ ι : Type}

namespace Prog

/-- An exception that a call is answered with is the result, at every call. -/
def Passes : Prog Op ε α → Prop
  | .done _ => True
  | .halt => True
  | .call _ k => (∀ e, k (.error e) = .done (.error e)) ∧ ∀ x, (k x).Passes

theorem passes_perform (op : Op α) : (perform op : Prog Op ε α).Passes :=
  ⟨fun _ => rfl, fun _ => trivial⟩

theorem passes_pure (a : α) : (pure a : Prog Op ε α).Passes := trivial

theorem passes_raise (e : ε) : (raise e : Prog Op ε α).Passes := trivial

theorem passes_ofExcept (r : Except ε α) : (ofExcept r : Prog Op ε α).Passes := trivial

theorem Passes.bind {p : Prog Op ε α} {f : α → Prog Op ε β} (hp : p.Passes)
    (hf : ∀ a, (f a).Passes) : (p >>= f).Passes := by
  induction p with
  | done r =>
    cases r with
    | ok a => exact hf a
    | error e => trivial
  | halt => trivial
  | call op k ih =>
    constructor
    · intro e
      change (k (.error e)).bind f = _
      rw [hp.1 e]
      rfl
    · exact fun x => ih x (hp.2 x)

/-- What the program has ended in. -/
def outcome : Prog Op ε α → Option (Except ε α)
  | .done r => some r
  | _ => none

theorem outcome_eq_some {p : Prog Op ε α} {r : Except ε α} :
    p.outcome = some r ↔ p = .done r := by
  cases p with
  | done r' => simp [outcome]
  | halt => simp [outcome]
  | call op k => simp [outcome]

end Prog

/-- Any family of callers over one shared state. -/
structure Session (Op : Type → Type) (ε α σ ι : Type) where
  callers : ι → Prog Op ε α
  shared : σ

variable [DecidableEq ι] {exec exec' : Exec Op ε σ} {S S' S'' : Session Op ε α σ ι}

/-- One caller issues its next call. A caller that is never chosen again has crashed. -/
inductive SessionStep (exec : Exec Op ε σ) :
    Session Op ε α σ ι → Session Op ε α σ ι → Prop where
  | call {δ : Type} {S : Session Op ε α σ ι} {i : ι} {op : Op δ} {k : Except ε δ → Prog Op ε α}
      {x : Except ε δ} {s' : σ} (hi : S.callers i = .call op k)
      (hop : exec δ op S.shared x s') :
      SessionStep exec S ⟨Function.update S.callers i (k x), s'⟩

/-- Any interleaving of finitely many steps. -/
def SessionRuns (exec : Exec Op ε σ) : Session Op ε α σ ι → Session Op ε α σ ι → Prop :=
  Relation.ReflTransGen (SessionStep exec)

theorem SessionStep.mono (h : SessionStep exec S S')
    (hexec : ∀ β op s x s', exec β op s x s' → exec' β op s x s') : SessionStep exec' S S' := by
  obtain ⟨hi, hop⟩ := h
  exact .call hi (hexec _ _ _ _ _ hop)

theorem SessionRuns.mono (h : SessionRuns exec S S')
    (hexec : ∀ β op s x s', exec β op s x s' → exec' β op s x s') : SessionRuns exec' S S' :=
  Relation.ReflTransGen.mono (fun _ _ hstep => hstep.mono hexec) _ _ h

/-- What a caller has ended in stays. -/
theorem SessionStep.ended (h : SessionStep exec S S') {j : ι} {r : Except ε α}
    (hj : S.callers j = .done r) : S'.callers j = .done r := by
  obtain @⟨_, _, i, op, k, x, s', hi, hop⟩ := h
  have hne : j ≠ i := by
    rintro rfl
    rw [hj] at hi
    cases hi
  change Function.update S.callers i (k x) j = .done r
  rw [Function.update_of_ne hne, hj]

/-- What may be returned does not change. -/
theorem SessionRuns.ends {E : ι → α → Prop} (h : SessionRuns exec S S')
    (hS : ∀ i, (S.callers i).Ends (E i)) (j : ι) : (S'.callers j).Ends (E j) := by
  induction h generalizing j with
  | refl => exact hS j
  | @tail S₁ _ _ hlast ih =>
    obtain @⟨_, _, i, op, k, x, s', hi, hop⟩ := hlast
    change (Function.update S₁.callers i (k x) j).Ends (E j)
    by_cases hj : j = i
    · subst hj
      rw [Function.update_self]
      have hcaller := ih j
      rw [hi] at hcaller
      exact hcaller x
    · rw [Function.update_of_ne hj]
      exact ih j

/-! ## Callers that catch nothing -/

theorem SessionStep.passes (h : SessionStep exec S S') (hS : ∀ i, (S.callers i).Passes) (j : ι) :
    (S'.callers j).Passes := by
  obtain @⟨_, _, i, op, k, x, s', hi, hop⟩ := h
  change (Function.update S.callers i (k x) j).Passes
  by_cases hj : j = i
  · subst hj
    rw [Function.update_self]
    have hcaller := hS j
    rw [hi] at hcaller
    exact hcaller.2 x
  · rw [Function.update_of_ne hj]
    exact hS j

theorem SessionRuns.passes (h : SessionRuns exec S S') (hS : ∀ i, (S.callers i).Passes) (j : ι) :
    (S'.callers j).Passes := by
  induction h generalizing j with
  | refl => exact hS j
  | tail _ hlast ih => exact hlast.passes ih j

/-- Among callers that catch nothing: where the calls that violate a condition are answered with
one exception, either no call violated it or some caller has ended in that exception. -/
theorem SessionRuns.guard_or_ended {cond : (β : Type) → Op β → σ → Prop} {Bad : ε → Prop}
    (hbad : ∀ β op s x s', exec β op s x s' → ¬ cond β op s → ∃ e, x = .error e ∧ Bad e)
    (hS : ∀ i, (S.callers i).Passes) (h : SessionRuns exec S S') :
    SessionRuns (exec.guard cond) S S' ∨ ∃ i e, S'.callers i = .done (.error e) ∧ Bad e := by
  induction h with
  | refl => exact .inl .refl
  | @tail S₁ _ hprefix hlast ih =>
    rcases ih with hguarded | ⟨i, e, hi, he⟩
    · have hpasses := SessionRuns.passes hprefix hS
      obtain @⟨_, _, i, op, k, x, s', hi, hop⟩ := hlast
      by_cases hcond : cond _ op S₁.shared
      · exact .inl (hguarded.tail (.call hi ⟨hcond, hop⟩))
      · obtain ⟨e, rfl, he⟩ := hbad _ op _ x s' hop hcond
        have hcaller := hpasses i
        rw [hi] at hcaller
        refine .inr ⟨i, e, ?_, he⟩
        change Function.update S₁.callers i (k (.error e)) i = _
        rw [Function.update_self, hcaller.1 e]
    · exact .inr ⟨i, e, hlast.ended hi, he⟩

/-! ## Contracts -/

/-- Callers with contracts over one invariant, each relying on what any of them guarantees, meet
them along every interleaving. -/
theorem SessionRuns.meets_each {C : ι → Contract Op σ} {Q : ι → Except ε α → σ → Prop}
    {Inv : σ → Prop} (hInv : ∀ i s, (C i).inv s ↔ Inv s)
    (hrely : ∀ i j s s', (C i).guar s s' → Inv s' → (C j).rely s s') (h : SessionRuns exec S S')
    (hinv : Inv S.shared) (hS : ∀ i, (C i).Meets exec (S.callers i) (Q i) S.shared) :
    Inv S'.shared ∧ ∀ i, (C i).Meets exec (S'.callers i) (Q i) S'.shared := by
  induction h with
  | refl => exact ⟨hinv, hS⟩
  | @tail S₁ _ _ hlast ih =>
    obtain ⟨hinv₁, hmeets⟩ := ih
    obtain @⟨_, _, i, op, k, x, s', hi, hop⟩ := hlast
    have hcaller := hmeets i
    rw [hi] at hcaller
    obtain ⟨hguar, hinv', hk⟩ :=
      (hcaller S₁.shared ((C i).refl _) ((hInv i _).mpr hinv₁)).2 x s' hop
    have hinv' := (hInv i s').mp hinv'
    refine ⟨hinv', fun j => ?_⟩
    change (C j).Meets exec (Function.update S₁.callers i (k x) j) (Q j) s'
    by_cases hj : j = i
    · subst hj
      rw [Function.update_self]
      exact hk
    · rw [Function.update_of_ne hj]
      exact (hmeets j).evolve (hrely i j _ _ hguar hinv')

/-- Callers that share one contract, each relying on what it guarantees itself, meet it along
every interleaving. -/
theorem SessionRuns.meets {C : Contract Op σ} {Q : Except ε α → σ → Prop}
    (hself : ∀ s s', C.guar s s' → C.inv s' → C.rely s s') (h : SessionRuns exec S S')
    (hinv : C.inv S.shared) (hS : ∀ i, C.Meets exec (S.callers i) Q S.shared) :
    C.inv S'.shared ∧ ∀ i, C.Meets exec (S'.callers i) Q S'.shared :=
  h.meets_each (fun _ _ => Iff.rfl) (fun _ _ => hself) hinv hS

/-! ## Schedules -/

section Play

variable (handle : Handler Op ε τ σ) (cond : (β : Type) → Op β → σ → Prop)

/-- The run under a schedule: which caller steps, and what it is supplied with. A caller that
has ended lets its turn pass. -/
def Session.play : List (ι × τ) → Session Op ε α σ ι → Session Op ε α σ ι
  | [], S => S
  | (i, t) :: schedule, S =>
    match S.callers i with
    | .call op k =>
      Session.play schedule
        ⟨Function.update S.callers i (k (handle _ op t S.shared).1), (handle _ op t S.shared).2⟩
    | _ => Session.play schedule S

/-- Every call of a schedule meets its condition. -/
def Session.admitted [∀ β op s, Decidable (cond β op s)] :
    List (ι × τ) → Session Op ε α σ ι → Bool
  | [], _ => true
  | (i, t) :: schedule, S =>
    match S.callers i with
    | .call op k =>
      decide (cond _ op S.shared) && Session.admitted schedule
        ⟨Function.update S.callers i (k (handle _ op t S.shared).1), (handle _ op t S.shared).2⟩
    | _ => Session.admitted schedule S

theorem Session.play_guarded [∀ β op s, Decidable (cond β op s)] (schedule : List (ι × τ))
    (S : Session Op ε α σ ι) (h : S.admitted handle cond schedule = true) :
    SessionRuns (handle.exec.guard cond) S (S.play handle schedule) := by
  induction schedule generalizing S with
  | nil => exact .refl
  | cons step schedule ih =>
    obtain ⟨i, t⟩ := step
    unfold Session.admitted at h
    unfold Session.play
    split
    · next op k hi =>
      simp only [hi, Bool.and_eq_true, decide_eq_true_eq] at h
      exact .head (.call hi ⟨h.1, t, rfl⟩) (ih _ h.2)
    · next hi =>
      apply ih
      split at h
      · next hi' => exact absurd hi' (hi _ _ _)
      · exact h

end Play

end DurableAgent.Library
