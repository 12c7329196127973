import DurableAgent.Library.Program

/-!
# Rely-guarantee reasoning for interleaved programs

A discipline fixes an invariant of the shared state and a preorder along which the state may
evolve. A program is safe from a state when each of its calls, issued in any later state that
the others may have reached, keeps the invariant and stays within the preorder. What a program
has learnt of the state is kept across the steps of the others exactly when it is stable along
the preorder.
-/

namespace DurableAgent.Library

variable {Op : Type → Type} {ε α β σ ι : Type}

structure Discipline (σ : Type) where
  inv : σ → Prop
  evolves : σ → σ → Prop
  refl : ∀ s, evolves s s
  trans : ∀ {s t u}, evolves s t → evolves t u → evolves s u

/-- A postcondition that says nothing of the exceptions a program may end in. -/
def onOk (Q : α → σ → Prop) : Except ε α → σ → Prop
  | .ok a, s => Q a s
  | .error _, _ => True

@[simp] theorem onOk_ok {Q : α → σ → Prop} {a : α} {s : σ} :
    onOk (ε := ε) Q (.ok a) s ↔ Q a s := Iff.rfl

@[simp] theorem onOk_error {Q : α → σ → Prop} {e : ε} {s : σ} :
    onOk Q (.error e) s ↔ True := Iff.rfl

namespace Discipline

variable (D : Discipline σ) (exec : Exec Op ε σ)

/-- A fact of the shared state that no permitted step destroys. -/
def Stable (K : σ → Prop) : Prop := ∀ ⦃s s'⦄, D.evolves s s' → D.inv s' → K s → K s'

/-- Every step of the program, at any moment the others leave to it, keeps the discipline;
if it returns, the postcondition holds from then on. -/
def Safe : Prog Op ε α → (Except ε α → σ → Prop) → σ → Prop
  | .done r, Q, s => ∀ s', D.evolves s s' → D.inv s' → Q r s'
  | .halt, _, _ => True
  | .call op k, Q, s => ∀ s₁, D.evolves s s₁ → D.inv s₁ → ∀ x s₂, exec _ op s₁ x s₂ →
      D.evolves s₁ s₂ ∧ D.inv s₂ ∧ Safe (k x) Q s₂

variable {D exec}

theorem Stable.and {K L : σ → Prop} (hK : D.Stable K) (hL : D.Stable L) :
    D.Stable fun s => K s ∧ L s :=
  fun _ _ h hinv hKL => ⟨hK h hinv hKL.1, hL h hinv hKL.2⟩

theorem stable_const (p : Prop) : D.Stable fun _ => p := fun _ _ _ _ h => h

theorem Stable.forall {κ : Sort*} {K : κ → σ → Prop} (hK : ∀ x, D.Stable (K x)) :
    D.Stable fun s => ∀ x, K x s :=
  fun _ _ h hinv hall x => hK x h hinv (hall x)

/-- Safety does not depend on how much the others have done meanwhile. -/
theorem Safe.evolve {p : Prog Op ε α} {Q : Except ε α → σ → Prop} {s s' : σ}
    (h : D.Safe exec p Q s) (hs : D.evolves s s') : D.Safe exec p Q s' := by
  cases p with
  | done r => exact fun t ht hinv => h t (D.trans hs ht) hinv
  | halt => trivial
  | call op k => exact fun t ht hinv => h t (D.trans hs ht) hinv

theorem Safe.mono {p : Prog Op ε α} {Q Q' : Except ε α → σ → Prop} {s : σ}
    (h : D.Safe exec p Q s)
    (hQ : ∀ r s', D.evolves s s' → D.inv s' → Q r s' → Q' r s') : D.Safe exec p Q' s := by
  induction p generalizing s with
  | done r => exact fun t ht hinv => hQ r t ht hinv (h t ht hinv)
  | halt => trivial
  | call op k ih =>
    intro s₁ hs₁ hinv x s₂ hop
    obtain ⟨hev, hinv₂, hk⟩ := h s₁ hs₁ hinv x s₂ hop
    refine ⟨hev, hinv₂, ih x hk fun r s' hs' hinv' => hQ r s' ?_ hinv'⟩
    exact D.trans hs₁ (D.trans hev hs')

theorem Safe.pure {a : α} {K : α → σ → Prop} {s : σ} (hK : D.Stable (K a)) (h : K a s) :
    D.Safe exec (Pure.pure a : Prog Op ε α) (onOk K) s :=
  fun _ hs hinv => hK hs hinv h

theorem Safe.raise {e : ε} {K : α → σ → Prop} {s : σ} :
    D.Safe exec (Prog.raise e : Prog Op ε α) (onOk K) s :=
  fun _ _ _ => trivial

/-- The sequencing rule: the second program starts from what the first one established. -/
theorem Safe.bind {p : Prog Op ε α} {f : α → Prog Op ε β} {R : α → σ → Prop}
    {Q : β → σ → Prop} {s : σ} (hp : D.Safe exec p (onOk R) s)
    (hf : ∀ a s', D.evolves s s' → D.inv s' → R a s' → D.Safe exec (f a) (onOk Q) s') :
    D.Safe exec (p >>= f) (onOk Q) s := by
  induction p generalizing s with
  | done r =>
    cases r with
    | error e => exact fun _ _ _ => trivial
    | ok a =>
      change D.Safe exec (f a) (onOk Q) s
      cases hfa : f a with
      | done r =>
        intro t ht hinv
        have h := hf a t ht hinv (hp t ht hinv)
        rw [hfa] at h
        exact h t (D.refl t) hinv
      | halt => trivial
      | call op k =>
        intro t ht hinv
        have h := hf a t ht hinv (hp t ht hinv)
        rw [hfa] at h
        exact h t (D.refl t) hinv
  | halt => trivial
  | call op k ih =>
    intro s₁ hs₁ hinv x s₂ hop
    obtain ⟨hev, hinv₂, hk⟩ := hp s₁ hs₁ hinv x s₂ hop
    exact ⟨hev, hinv₂, ih x hk fun a s' hs' => hf a s' (D.trans hs₁ (D.trans hev hs'))⟩

/-- A handler starts at any moment, knowing only what is stable from the start. -/
theorem Safe.tryCatch {p : Prog Op ε α} {handler : ε → Prog Op ε α} {Q : α → σ → Prop}
    {s : σ} (hp : D.Safe exec p (onOk Q) s)
    (hh : ∀ e s', D.evolves s s' → D.Safe exec (handler e) (onOk Q) s') :
    D.Safe exec (p.tryCatch handler) (onOk Q) s := by
  induction p generalizing s with
  | done r =>
    cases r with
    | ok a => exact hp
    | error e => exact hh e s (D.refl s)
  | halt => trivial
  | call op k ih =>
    intro s₁ hs₁ hinv x s₂ hop
    obtain ⟨hev, hinv₂, hk⟩ := hp s₁ hs₁ hinv x s₂ hop
    exact ⟨hev, hinv₂, ih x hk fun e s' hs' => hh e s' (D.trans hs₁ (D.trans hev hs'))⟩

theorem Safe.tryFinally {p : Prog Op ε α} {cleanup : Prog Op ε Unit} {Q : α → σ → Prop}
    {s : σ} (hQ : ∀ a, D.Stable (Q a)) (hp : D.Safe exec p (onOk Q) s)
    (hc : ∀ s', D.evolves s s' → D.Safe exec cleanup (onOk fun _ _ => True) s') :
    D.Safe exec (p.tryFinally cleanup) (onOk Q) s := by
  refine Safe.bind (R := Q) (Safe.tryCatch hp fun e s' hs' => ?_) fun a s' hs' _ ha => ?_
  · exact Safe.bind (hc s' hs') fun _ _ _ _ _ => Safe.raise
  · refine Safe.bind (hc s' hs') fun _ t ht hinv _ => ?_
    exact Safe.pure (hQ a) (hQ a ht hinv ha)

/-- A single call is safe when its effect is, wherever the invariant holds. Knowledge the
caller had before may be used for it. -/
theorem Safe.perform {op : Op α} {K : σ → Prop} {Q : α → σ → Prop} {s : σ}
    (hK : D.Stable K) (hs : K s) (hQ : ∀ a, D.Stable (Q a))
    (h : ∀ s x s', D.inv s → K s → exec α op s x s' →
      D.evolves s s' ∧ D.inv s' ∧ onOk Q x s') :
    D.Safe exec (Prog.perform op) (onOk Q) s := by
  intro s₁ hs₁ hinv x s₂ hop
  obtain ⟨hev, hinv₂, hx⟩ := h s₁ x s₂ hinv (hK hs₁ hinv hs) hop
  refine ⟨hev, hinv₂, fun t ht hinvt => ?_⟩
  cases x with
  | ok a => exact hQ a ht hinvt hx
  | error e => trivial

/-- The same rule when calls may fail without effect. -/
theorem Safe.performWithFaults {op : Op α} {K : σ → Prop} {Q : α → σ → Prop} {s : σ}
    (hK : D.Stable K) (hs : K s) (hQ : ∀ a, D.Stable (Q a))
    (h : ∀ s x s', D.inv s → K s → exec α op s x s' →
      D.evolves s s' ∧ D.inv s' ∧ onOk Q x s') :
    D.Safe exec.withFaults (Prog.perform op) (onOk Q) s := by
  refine Safe.perform hK hs hQ fun s x s' hinv hKs hop => ?_
  rcases hop with hop | ⟨e, rfl, rfl⟩
  · exact h s x s' hinv hKs hop
  · exact ⟨D.refl _, hinv, trivial⟩

/-- What is stable and suffices for every call of a program makes the program safe. -/
theorem Safe.of_calls {φ : (δ : Type) → Op δ → Prop} {K : σ → Prop} {p : Prog Op ε α} {s : σ}
    (hK : D.Stable K) (hp : p.Calls φ) (hs : K s)
    (h : ∀ δ op s x s', φ δ op → D.inv s → K s → exec δ op s x s' →
      D.evolves s s' ∧ D.inv s') : D.Safe exec p (onOk fun _ _ => True) s := by
  induction p generalizing s with
  | done r =>
    intro _ _ _
    cases r <;> trivial
  | halt => trivial
  | call op k ih =>
    intro s₁ hs₁ hinv x s₂ hop
    have hK₁ := hK hs₁ hinv hs
    obtain ⟨hev, hinv₂⟩ := h _ op s₁ x s₂ hp.1 hinv hK₁ hop
    exact ⟨hev, hinv₂, ih x (hp.2 x) (hK hev hinv₂ hK₁)⟩

/-- A loop over a list threads what it knows through the elements. -/
theorem Safe.mapM' {f : α → Prog Op ε β} {K : α → σ → Prop} {R : β → σ → Prop}
    (hK : ∀ a, D.Stable (K a)) (hR : ∀ b, D.Stable (R b))
    (hf : ∀ a s, K a s → D.Safe exec (f a) (onOk R) s) {l : List α} {s : σ}
    (hl : ∀ a ∈ l, K a s) :
    D.Safe exec (l.mapM' f) (onOk fun bs s' => ∀ b ∈ bs, R b s') s := by
  have hst (bs : List β) : D.Stable fun s' => ∀ b ∈ bs, R b s' :=
    fun _ _ hev hinv h b hb => hR b hev hinv (h b hb)
  induction l generalizing s with
  | nil => exact Safe.pure (hst []) (by simp)
  | cons a l ih =>
    refine Safe.bind (hf a s (hl a (by simp))) fun b s₁ hs₁ hinv₁ hb => ?_
    have hrest : ∀ a' ∈ l, K a' s₁ := fun a' ha' => hK a' hs₁ hinv₁ (hl a' (by simp [ha']))
    refine Safe.bind (ih hrest) fun bs s₂ hs₂ hinv₂ hbs => ?_
    refine Safe.pure (hst (b :: bs)) fun b' hb' => ?_
    rcases List.mem_cons.mp hb' with rfl | hb'
    · exact hR b' hs₂ hinv₂ hb
    · exact hbs b' hb'

variable [DecidableEq ι]

/-- The threads of the pool are safe from states that have evolved into the present one. -/
def PoolSafe (D : Discipline σ) (exec : Exec Op ε σ) (P : Pool Op ε σ ι) : Prop :=
  D.inv P.shared ∧ ∀ i, D.Safe exec (P.threads i) (fun _ _ => True) P.shared

theorem PoolSafe.step {P P' : Pool Op ε σ ι} {i : ι} (h : D.PoolSafe exec P)
    (hstep : PoolStep exec P i P') : D.evolves P.shared P'.shared ∧ D.PoolSafe exec P' := by
  cases hstep with
  | @call _ P i op k x s' hi hop =>
    have hthread := h.2 i
    rw [hi] at hthread
    obtain ⟨hev, hinv, hk⟩ := hthread P.shared (D.refl _) h.1 x s' hop
    refine ⟨hev, hinv, fun j => ?_⟩
    by_cases hj : j = i
    · subst hj
      simpa using hk
    · simpa [Function.update_of_ne hj] using (h.2 j).evolve hev

/-- Whatever the interleaving, the discipline is kept in every state of the run. -/
theorem PoolSafe.runs {P P' : Pool Op ε σ ι} (h : D.PoolSafe exec P)
    (hrun : PoolRuns exec P P') : D.evolves P.shared P'.shared ∧ D.PoolSafe exec P' := by
  induction hrun with
  | refl => exact ⟨D.refl _, h⟩
  | tail _ hstep ih =>
    obtain ⟨i, hstep⟩ := hstep
    obtain ⟨hev, hsafe⟩ := ih.2.step hstep
    exact ⟨D.trans ih.1 hev, hsafe⟩

end Discipline

end DurableAgent.Library
