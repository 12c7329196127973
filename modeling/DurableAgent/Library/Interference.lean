import DurableAgent.Library.Program

/-!
# Runs among others

Between two calls of a program the others may change the state, as far as a relation lets them.
-/

namespace DurableAgent.Library

open Prog

variable {Op : Type → Type} {ε α β σ : Type}

/-- Each call meets the state that the others have left. -/
def Exec.disturbed (exec : Exec Op ε σ) (others : σ → σ → Prop) : Exec Op ε σ := fun β op s x s' =>
  ∃ s₁, others s s₁ ∧ exec β op s₁ x s'

/-- A fact that the others leave as it is. -/
def Stable (others : σ → σ → Prop) (K : σ → Prop) : Prop := ∀ ⦃s s'⦄, others s s' → K s → K s'

section Rules

variable {exec : Exec Op ε σ} {s s' : σ}

/-- A sequence runs to the end of its second part, or raises in its first. -/
theorem runs_bind {p : Prog Op ε α} {f : α → Prog Op ε β} {r : Except ε β} :
    Runs exec (p >>= f) s r s' ↔
      (∃ a s₁, Runs exec p s (.ok a) s₁ ∧ Runs exec (f a) s₁ r s') ∨
        ∃ e, r = .error e ∧ Runs exec p s (.error e) s' := by
  cases r with
  | ok b =>
    rw [runs_bind_ok]
    simp
  | error e =>
    rw [runs_bind_error, or_comm]
    simp

/-- A guarded program returns, or its handler runs on from where it raised. -/
theorem runs_tryCatch {p : Prog Op ε α} {handler : ε → Prog Op ε α} {r : Except ε α} :
    Runs exec (p.tryCatch handler) s r s' ↔
      (∃ a, r = .ok a ∧ Runs exec p s (.ok a) s') ∨
        ∃ e s₁, Runs exec p s (.error e) s₁ ∧ Runs exec (handler e) s₁ r s' := by
  constructor
  · intro h
    induction p generalizing s with
    | done x =>
      cases x with
      | ok a =>
        obtain ⟨rfl, rfl⟩ := runs_done.mp h
        exact .inl ⟨a, rfl, .done _ _⟩
      | error e => exact .inr ⟨e, s, .done _ s, h⟩
    | halt => cases h
    | call op k ih =>
      obtain ⟨x, s₁, hop, hrest⟩ := runs_call.mp h
      rcases ih x hrest with ⟨a, hr, hk⟩ | ⟨e, s₂, hk, hhandler⟩
      · exact .inl ⟨a, hr, .call hop hk⟩
      · exact .inr ⟨e, s₂, .call hop hk, hhandler⟩
  · rintro (⟨a, rfl, hp⟩ | ⟨e, s₁, hp, hhandler⟩)
    · generalize hr : (Except.ok a : Except ε α) = r at hp ⊢
      induction hp with
      | done r s =>
        subst hr
        exact .done _ s
      | call hop _ ih => exact .call hop (ih hr)
    · generalize hx : (Except.error e : Except ε α) = x at hp
      induction hp with
      | done x s =>
        subst hx
        exact hhandler
      | call hop _ ih => exact .call hop (ih hhandler hx)

/-- What the others and every call of a program preserve, a disturbed run preserves. -/
theorem Runs.kept_among {others : σ → σ → Prop} {φ : (δ : Type) → Op δ → Prop} {K : σ → Prop}
    {p : Prog Op ε α} {r : Except ε α} (h : Runs (exec.disturbed others) p s r s')
    (hp : p.Calls φ) (hK : Stable others K)
    (hstep : ∀ δ op s x s', φ δ op → K s → exec δ op s x s' → K s') (hs : K s) : K s' :=
  h.kept hp hs fun δ op _ x _ hop hs ⟨_, hothers, hexec⟩ =>
    hstep δ op _ x _ hop (hK hothers hs) hexec

end Rules

end DurableAgent.Library
