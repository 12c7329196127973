import DurableAgent.Library.Contract

/-!
# Records of interleaved runs

A record is kept beside the shared state and brought up to date with every answered call. It has
no influence: a recorded run without its record is a run of the same threads, and every run of
the threads can be recorded.
-/

namespace DurableAgent.Library

variable {Op : Type → Type} {ε α σ γ τ ι : Type}

/-- What an answered call leaves of a record, given the state that it met. -/
abbrev Note (Op : Type → Type) (ε σ γ : Type) := (β : Type) → Op β → Except ε β → σ → γ → γ

/-- A handler beside which a record is kept. -/
def Handler.recorded (handle : Handler Op ε τ σ) (note : Note Op ε σ γ) :
    Handler Op ε τ (σ × γ) := fun β op t s =>
  ((handle β op t s.1).1, (handle β op t s.1).2, note β op (handle β op t s.1).1 s.1 s.2)

theorem Handler.recorded_exec {handle : Handler Op ε τ σ} {note : Note Op ε σ γ} {β : Type}
    {op : Op β} {s s' : σ × γ} {x : Except ε β} :
    (handle.recorded note).exec β op s x s' ↔
      handle.exec β op s.1 x s'.1 ∧ s'.2 = note β op x s.1 s.2 := by
  constructor
  · rintro ⟨t, h⟩
    obtain ⟨rfl, rfl⟩ := Prod.mk.inj h
    exact ⟨⟨t, rfl⟩, rfl⟩
  · rintro ⟨⟨t, h⟩, hnote⟩
    refine ⟨t, ?_⟩
    unfold recorded
    rw [h, ← hnote]

/-- A call that meets its condition is noted, or it fails without effect. -/
theorem Handler.noted_cases {handle : Handler Op ε τ σ} {note : Note Op ε σ γ}
    {cond : (β : Type) → Op β → σ × γ → Prop} {β : Type} {op : Op β} {s s' : σ × γ}
    {x : Except ε β} (hop : ((handle.recorded note).exec.guard cond).withFaults β op s x s') :
    (∃ t, cond β op s ∧ handle β op t s.1 = (x, s'.1) ∧ s'.2 = note β op x s.1 s.2) ∨
      ∃ e, x = .error e ∧ s' = s := by
  rcases hop with ⟨hcond, hop⟩ | hfault
  · obtain ⟨⟨t, hhandle⟩, hnote⟩ := Handler.recorded_exec.mp hop
    exact .inl ⟨t, hcond, hhandle, hnote⟩
  · exact .inr hfault

/-- The pool beside a record. -/
def Pool.beside (P : Pool Op ε σ ι) (record : γ) : Pool Op ε (σ × γ) ι :=
  ⟨P.threads, P.shared, record⟩

/-- The pool without the record. -/
def Pool.forget (P : Pool Op ε (σ × γ) ι) : Pool Op ε σ ι := ⟨P.threads, P.shared.1⟩

@[simp] theorem Pool.forget_beside (P : Pool Op ε σ ι) (record : γ) :
    (P.beside record).forget = P := rfl

section Runs

variable [DecidableEq ι] {handle : Handler Op ε τ σ} {note : ι → Note Op ε σ γ}

/-- A recorded run is a run. -/
theorem ThreadRuns.forget {P P' : Pool Op ε (σ × γ) ι}
    (h : ThreadRuns (fun i => (handle.recorded (note i)).exec.withFaults) P P') :
    PoolRuns handle.exec.withFaults P.forget P'.forget := by
  refine Relation.ReflTransGen.lift Pool.forget ?_ _ _ h
  rintro Q Q' ⟨i, @⟨_, _, _, op, k, x, s', hi, hop⟩⟩
  have hop' : handle.exec.withFaults _ op Q.forget.shared x s'.1 := by
    rcases hop with hop | ⟨e, rfl, rfl⟩
    · exact .inl (Handler.recorded_exec.mp hop).1
    · exact .inr ⟨e, rfl, rfl⟩
  have hi' : Q.forget.threads i = .call op k := hi
  exact ⟨i, .call hi' hop'⟩

/-- Every run can be recorded. -/
theorem PoolRuns.record {P P' : Pool Op ε σ ι} (h : PoolRuns handle.exec.withFaults P P')
    (record : γ) : ∃ record',
      ThreadRuns (fun i => (handle.recorded (note i)).exec.withFaults) (P.beside record)
        (P'.beside record') := by
  induction h with
  | refl => exact ⟨record, .refl⟩
  | @tail Q _ _ hlast ih =>
    obtain ⟨record₁, hruns⟩ := ih
    obtain ⟨i, @⟨_, _, _, op, k, x, s', hi, hop⟩⟩ := hlast
    have hi' : (Q.beside record₁).threads i = .call op k := hi
    rcases hop with hop | ⟨e, rfl, rfl⟩
    · have hop' : (handle.recorded (note i)).exec _ op (Q.beside record₁).shared x
          (s', note i _ op x Q.shared record₁) := Handler.recorded_exec.mpr ⟨hop, rfl⟩
      exact ⟨_, hruns.tail ⟨i, .call hi' (.inl hop')⟩⟩
    · exact ⟨record₁, hruns.tail ⟨i, .call hi' (.inr ⟨e, rfl, rfl⟩)⟩⟩

end Runs

/-! ## Schedules of threads with handlers of their own -/

section Play

variable [DecidableEq ι] (handle : ι → Handler Op ε τ σ)
  (cond : ι → (β : Type) → Op β → σ → Prop)

/-- The run of a pool under a schedule, each thread by its own handler. -/
def Pool.playEach : List (ι × τ) → Pool Op ε σ ι → Pool Op ε σ ι
  | [], P => P
  | (i, t) :: schedule, P =>
    match P.threads i with
    | .call op k =>
      Pool.playEach schedule
        ⟨Function.update P.threads i (k (handle i _ op t P.shared).1),
          (handle i _ op t P.shared).2⟩
    | _ => Pool.playEach schedule P

/-- Every call of a schedule meets the condition of its thread. -/
def Pool.admittedEach [∀ i β op s, Decidable (cond i β op s)] :
    List (ι × τ) → Pool Op ε σ ι → Bool
  | [], _ => true
  | (i, t) :: schedule, P =>
    match P.threads i with
    | .call op k =>
      decide (cond i _ op P.shared) && Pool.admittedEach schedule
        ⟨Function.update P.threads i (k (handle i _ op t P.shared).1),
          (handle i _ op t P.shared).2⟩
    | _ => Pool.admittedEach schedule P

theorem Pool.playEach_runs (schedule : List (ι × τ)) (P : Pool Op ε σ ι) :
    ThreadRuns (fun i => (handle i).exec) P (P.playEach handle schedule) := by
  induction schedule generalizing P with
  | nil => exact .refl
  | cons step schedule ih =>
    obtain ⟨i, t⟩ := step
    unfold Pool.playEach
    split
    · next op k hi => exact .head ⟨i, .call hi ⟨t, rfl⟩⟩ (ih _)
    · exact ih P

theorem Pool.playEach_guarded [∀ i β op s, Decidable (cond i β op s)]
    (schedule : List (ι × τ)) (P : Pool Op ε σ ι)
    (h : P.admittedEach handle cond schedule = true) :
    ThreadRuns (fun i => (handle i).exec.guard (cond i)) P (P.playEach handle schedule) := by
  induction schedule generalizing P with
  | nil => exact .refl
  | cons step schedule ih =>
    obtain ⟨i, t⟩ := step
    unfold Pool.admittedEach at h
    unfold Pool.playEach
    split
    · next op k hi =>
      simp only [hi, Bool.and_eq_true, decide_eq_true_eq] at h
      exact .head ⟨i, .call hi ⟨h.1, t, rfl⟩⟩ (ih _ h.2)
    · next hi =>
      refine ih P ?_
      split at h
      · next hi' => exact absurd hi' (hi _ _ _)
      · exact h

end Play

end DurableAgent.Library
