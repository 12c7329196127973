import DurableAgent.Library.Program

/-!
# Total correctness of a program that runs alone

A program fulfils a postcondition if it comes to an end, and to no end that the postcondition
does not admit.
-/

namespace DurableAgent.Library

variable {Op : Type → Type} {ε α β σ : Type}

namespace Prog

/-- The program comes to an end, and every end satisfies the postcondition. -/
def Fulfils (exec : Exec Op ε σ) : Prog Op ε α → (Except ε α → σ → Prop) → σ → Prop
  | .done r, Q, s => Q r s
  | .halt, _, _ => False
  | .call op k, Q, s => (∃ x s', exec _ op s x s') ∧
      ∀ x s', exec _ op s x s' → Fulfils exec (k x) Q s'

variable {exec : Exec Op ε σ} {p : Prog Op ε α} {Q Q' : Except ε α → σ → Prop} {s s' : σ}

theorem Fulfils.runs {r : Except ε α} (h : p.Fulfils exec Q s) (hrun : Runs exec p s r s') :
    Q r s' := by
  induction hrun with
  | done r s => exact h
  | call hop _ ih => exact ih (h.2 _ _ hop)

theorem Fulfils.exists_run (h : p.Fulfils exec Q s) : ∃ r s', Runs exec p s r s' := by
  induction p generalizing s with
  | done r => exact ⟨r, s, .done r s⟩
  | halt => exact h.elim
  | call op k ih =>
    obtain ⟨⟨x, s₁, hop⟩, hk⟩ := h
    obtain ⟨r, s', hrun⟩ := ih x (hk x s₁ hop)
    exact ⟨r, s', .call hop hrun⟩

theorem Fulfils.mono (h : p.Fulfils exec Q s) (hQ : ∀ r s', Q r s' → Q' r s') :
    p.Fulfils exec Q' s := by
  induction p generalizing s with
  | done r => exact hQ r s h
  | halt => exact h
  | call op k ih => exact ⟨h.1, fun x s' hop => ih x (h.2 x s' hop)⟩

/-- The sequencing rule: an exception of the first program ends the whole. -/
theorem Fulfils.bind {f : α → Prog Op ε β} {R : Except ε β → σ → Prop}
    (hp : p.Fulfils exec Q s) (hf : ∀ a s', Q (.ok a) s' → (f a).Fulfils exec R s')
    (he : ∀ e s', Q (.error e) s' → R (.error e) s') : (p >>= f).Fulfils exec R s := by
  induction p generalizing s with
  | done r =>
    cases r with
    | ok a => exact hf a s hp
    | error e => exact he e s hp
  | halt => exact hp
  | call op k ih => exact ⟨hp.1, fun x s' hop => ih x (hp.2 x s' hop)⟩

theorem fulfils_perform {op : Op α} (hsome : ∃ x s', exec α op s x s')
    (h : ∀ x s', exec α op s x s' → Q x s') : (perform op).Fulfils exec Q s :=
  ⟨hsome, h⟩

/-! ## Programs that return -/

/-- The program returns, with a result of which the postcondition holds. -/
def returning (R : α → σ → Prop) (r : Except ε α) (s : σ) : Prop := ∃ a, r = .ok a ∧ R a s

section Returning

variable {R R' : α → σ → Prop}

/-- The sequencing rule for a first program that returns. -/
theorem Fulfils.next {f : α → Prog Op ε β} {S : Except ε β → σ → Prop}
    (hp : p.Fulfils exec (returning R) s) (hf : ∀ a s', R a s' → (f a).Fulfils exec S s') :
    (p >>= f).Fulfils exec S s := by
  refine hp.bind (fun a s' ha => ?_) fun e s' he => ?_
  · obtain ⟨a', heq, hR⟩ := ha
    rw [← Except.ok.inj heq] at hR
    exact hf a s' hR
  · obtain ⟨a, heq, -⟩ := he
    cases heq

theorem Fulfils.pure {a : α} (hR : R a s) :
    (Pure.pure a : Prog Op ε α).Fulfils exec (returning R) s :=
  ⟨a, rfl, hR⟩

theorem Fulfils.ofExcept {r : Except ε α} {a : α} (hr : r = .ok a) (hR : R a s) :
    (Prog.ofExcept r : Prog Op ε α).Fulfils exec (returning R) s := by
  rw [hr]
  exact ⟨a, rfl, hR⟩

theorem Fulfils.weaken (h : p.Fulfils exec (returning R) s) (hR : ∀ a s', R a s' → R' a s') :
    p.Fulfils exec (returning R') s :=
  h.mono fun _ s' ⟨a, hr, ha⟩ => ⟨a, hr, hR a s' ha⟩

end Returning

/-! ## Programs that come to an end -/

/-- The program comes to an end, whatever its calls are answered. -/
def Stops : Prog Op ε α → Prop
  | .done _ => True
  | .halt => False
  | .call _ k => ∀ x, (k x).Stops

theorem stops_perform {op : Op α} : (perform op : Prog Op ε α).Stops := fun _ => trivial

theorem Stops.bind {f : α → Prog Op ε β} (hp : p.Stops) (hf : ∀ a, (f a).Stops) :
    (p >>= f).Stops := by
  induction p with
  | done r =>
    cases r with
    | ok a => exact hf a
    | error e => trivial
  | halt => exact hp
  | call op k ih => exact fun x => ih x (hp x)

/-- A program that comes to an end keeps what each of its calls keeps. -/
theorem Stops.fulfils {J : σ → Prop} (hp : p.Stops) (hs : J s)
    (hsome : ∀ β (op : Op β) s, ∃ x s', exec β op s x s')
    (hstep : ∀ β (op : Op β) s x s', J s → exec β op s x s' → J s') :
    p.Fulfils exec (fun _ s' => J s') s := by
  induction p generalizing s with
  | done r => exact hs
  | halt => exact hp
  | call op k ih => exact ⟨hsome _ op s, fun x s' hop => ih x (hp x) (hstep _ op s x s' hs hop)⟩

/-- A program over a part of the interface. -/
theorem Fulfils.mapOp {Part : Type → Type} {f : (δ : Type) → Part δ → Op δ} {p : Prog Part ε α}
    (h : p.Fulfils (fun δ op => exec δ (f δ op)) Q s) : (p.mapOp f).Fulfils exec Q s := by
  induction p generalizing s with
  | done r => exact h
  | halt => exact h
  | call op k ih => exact ⟨h.1, fun x s' hop => ih x (h.2 x s' hop)⟩

/-- A call to a handler, whatever it is supplied with. -/
theorem fulfils_handler {τ : Type} [Nonempty τ] {handle : Handler Op ε τ σ} {op : Op α}
    (h : ∀ t, Q (handle _ op t s).1 (handle _ op t s).2) :
    (perform op).Fulfils handle.exec Q s := by
  obtain ⟨t⟩ := ‹Nonempty τ›
  refine fulfils_perform ⟨_, _, t, rfl⟩ ?_
  rintro x s' ⟨t', hop⟩
  have hafter := h t'
  rw [hop] at hafter
  exact hafter

end Prog

end DurableAgent.Library
