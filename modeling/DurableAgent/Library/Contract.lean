import Mathlib.Data.List.Forall2
import DurableAgent.Library.RelyGuarantee

/-!
# Contracts of interleaved threads

Each thread of a pool has a contract of its own: what it relies on the others to do, what it may
do in one step, and when it may issue a call. Threads whose steps the others rely on keep their
contracts in every interleaving, and so does everything that follows from the single steps.
-/

namespace DurableAgent.Library

variable {Op : Type → Type} {ε α β σ ι : Type}

structure Contract (Op : Type → Type) (σ : Type) where
  inv : σ → Prop
  rely : σ → σ → Prop
  guar : σ → σ → Prop
  pre : (β : Type) → Op β → σ → Prop
  refl : ∀ s, rely s s
  trans : ∀ {s t u}, rely s t → rely t u → rely s u

namespace Contract

variable (C : Contract Op σ) (exec : Exec Op ε σ)

/-- Whatever the others do meanwhile, each call is issued when it may be and its effect is one
the thread may have; the result and the state it is reached in satisfy the postcondition, from
then on. -/
def Meets : Prog Op ε α → (Except ε α → σ → Prop) → σ → Prop
  | .done r, Q, s => ∀ s', C.rely s s' → C.inv s' → Q r s'
  | .halt, _, _ => True
  | .call op k, Q, s => ∀ s₁, C.rely s s₁ → C.inv s₁ → C.pre _ op s₁ ∧
      ∀ x s₂, exec _ op s₁ x s₂ → C.guar s₁ s₂ ∧ C.inv s₂ ∧ Meets (k x) Q s₂

/-- A fact that neither the others nor the thread itself destroy. -/
def Keeps (K : σ → Prop) : Prop :=
  ∀ ⦃s s'⦄, C.rely s s' ∨ C.guar s s' → C.inv s' → K s → K s'

variable {C exec} {Q Q' : Except ε α → σ → Prop} {K L : σ → Prop} {s s' : σ}

theorem Keeps.and (hK : C.Keeps K) (hL : C.Keeps L) : C.Keeps fun s => K s ∧ L s :=
  fun _ _ h hinv hKL => ⟨hK h hinv hKL.1, hL h hinv hKL.2⟩

theorem keeps_const (p : Prop) : C.Keeps fun _ => p := fun _ _ _ _ h => h

theorem Keeps.forall {κ : Sort*} {K : κ → σ → Prop} (hK : ∀ x, C.Keeps (K x)) :
    C.Keeps fun s => ∀ x, K x s :=
  fun _ _ h hinv hall x => hK x h hinv (hall x)

theorem Keeps.imp {p : Prop} (hK : C.Keeps K) : C.Keeps fun s => p → K s :=
  fun _ _ h hinv hpK hp => hK h hinv (hpK hp)

/-- Meeting the contract does not depend on how much the others have done meanwhile. -/
theorem Meets.evolve {p : Prog Op ε α} (h : C.Meets exec p Q s) (hs : C.rely s s') :
    C.Meets exec p Q s' := by
  cases p with
  | done r => exact fun t ht hinv => h t (C.trans hs ht) hinv
  | halt => trivial
  | call op k => exact fun t ht hinv => h t (C.trans hs ht) hinv

theorem Meets.mono {p : Prog Op ε α} (h : C.Meets exec p Q s)
    (hQ : ∀ r s', C.inv s' → Q r s' → Q' r s') : C.Meets exec p Q' s := by
  induction p generalizing s with
  | done r => exact fun t ht hinv => hQ r t hinv (h t ht hinv)
  | halt => trivial
  | call op k ih =>
    intro s₁ hs₁ hinv
    obtain ⟨hpre, hsteps⟩ := h s₁ hs₁ hinv
    refine ⟨hpre, fun x s₂ hop => ?_⟩
    obtain ⟨hguar, hinv₂, hk⟩ := hsteps x s₂ hop
    exact ⟨hguar, hinv₂, ih x hk⟩

/-- What neither side destroys still holds in the end. -/
theorem Meets.frame {p : Prog Op ε α} (h : C.Meets exec p Q s) (hK : C.Keeps K) (hs : K s) :
    C.Meets exec p (fun r s' => Q r s' ∧ K s') s := by
  induction p generalizing s with
  | done r => exact fun t ht hinv => ⟨h t ht hinv, hK (.inl ht) hinv hs⟩
  | halt => trivial
  | call op k ih =>
    intro s₁ hs₁ hinv
    obtain ⟨hpre, hsteps⟩ := h s₁ hs₁ hinv
    refine ⟨hpre, fun x s₂ hop => ?_⟩
    obtain ⟨hguar, hinv₂, hk⟩ := hsteps x s₂ hop
    exact ⟨hguar, hinv₂, ih x hk (hK (.inr hguar) hinv₂ (hK (.inl hs₁) hinv hs))⟩

/-- The sequencing rule: an exception of the first program ends the whole. -/
theorem Meets.bind {p : Prog Op ε α} {f : α → Prog Op ε β} {R : Except ε β → σ → Prop}
    (hp : C.Meets exec p Q s)
    (hf : ∀ a s', C.inv s' → Q (.ok a) s' → C.Meets exec (f a) R s')
    (he : ∀ e s', C.inv s' → Q (.error e) s' → R (.error e) s') :
    C.Meets exec (p >>= f) R s := by
  induction p generalizing s with
  | done r =>
    cases r with
    | error e => exact fun t ht hinv => he e t hinv (hp t ht hinv)
    | ok a =>
      change C.Meets exec (f a) R s
      cases hfa : f a with
      | done r =>
        intro t ht hinv
        have h := hf a t hinv (hp t ht hinv)
        rw [hfa] at h
        exact h t (C.refl t) hinv
      | halt => trivial
      | call op k =>
        intro t ht hinv
        have h := hf a t hinv (hp t ht hinv)
        rw [hfa] at h
        exact h t (C.refl t) hinv
  | halt => trivial
  | call op k ih =>
    intro s₁ hs₁ hinv
    obtain ⟨hpre, hsteps⟩ := hp s₁ hs₁ hinv
    refine ⟨hpre, fun x s₂ hop => ?_⟩
    obtain ⟨hguar, hinv₂, hk⟩ := hsteps x s₂ hop
    exact ⟨hguar, hinv₂, ih x hk⟩

theorem Meets.tryCatch {p : Prog Op ε α} {handler : ε → Prog Op ε α}
    {R : Except ε α → σ → Prop} (hp : C.Meets exec p Q s)
    (ha : ∀ a s', C.inv s' → Q (.ok a) s' → R (.ok a) s')
    (hh : ∀ e s', C.inv s' → Q (.error e) s' → C.Meets exec (handler e) R s') :
    C.Meets exec (p.tryCatch handler) R s := by
  induction p generalizing s with
  | done r =>
    cases r with
    | ok a => exact fun t ht hinv => ha a t hinv (hp t ht hinv)
    | error e =>
      change C.Meets exec (handler e) R s
      cases hhe : handler e with
      | done r =>
        intro t ht hinv
        have h := hh e t hinv (hp t ht hinv)
        rw [hhe] at h
        exact h t (C.refl t) hinv
      | halt => trivial
      | call op k =>
        intro t ht hinv
        have h := hh e t hinv (hp t ht hinv)
        rw [hhe] at h
        exact h t (C.refl t) hinv
  | halt => trivial
  | call op k ih =>
    intro s₁ hs₁ hinv
    obtain ⟨hpre, hsteps⟩ := hp s₁ hs₁ hinv
    refine ⟨hpre, fun x s₂ hop => ?_⟩
    obtain ⟨hguar, hinv₂, hk⟩ := hsteps x s₂ hop
    exact ⟨hguar, hinv₂, ih x hk⟩

/-- A single call. What the caller knew of the state may be used for it. -/
theorem Meets.perform {op : Op α} (hK : C.Keeps K) (hs : K s)
    (hQ : ∀ x, C.Keeps (Q x))
    (h : ∀ s, C.inv s → K s → C.pre α op s ∧
      ∀ x s', exec α op s x s' → C.guar s s' ∧ C.inv s' ∧ Q x s') :
    C.Meets exec (Prog.perform op) Q s := by
  intro s₁ hs₁ hinv
  obtain ⟨hpre, hsteps⟩ := h s₁ hinv (hK (.inl hs₁) hinv hs)
  refine ⟨hpre, fun x s₂ hop => ?_⟩
  obtain ⟨hguar, hinv₂, hx⟩ := hsteps x s₂ hop
  exact ⟨hguar, hinv₂, fun t ht hinvt => hQ x (.inl ht) hinvt hx⟩

/-- A call and what follows it, from what the others do not destroy. -/
theorem Meets.step {op : Op β} {k : Except ε β → Prog Op ε α}
    (hK : ∀ s s', C.rely s s' → C.inv s' → K s → K s') (hs : K s)
    (h : ∀ s, C.inv s → K s → C.pre β op s ∧
      ∀ x s', exec β op s x s' → C.guar s s' ∧ C.inv s' ∧ C.Meets exec (k x) Q s') :
    C.Meets exec (.call op k) Q s :=
  fun s₁ hs₁ hinv => h s₁ hinv (hK s s₁ hs₁ hinv hs)

/-- What the others do not destroy is known still after calls that do not destroy it either. -/
theorem Meets.of_kept {φ : (δ : Type) → Op δ → Prop} {p : Prog Op ε α}
    (hK : ∀ s s', C.rely s s' → C.inv s' → K s → K s') (hp : p.Calls φ) (hs : K s)
    (h : ∀ δ op s, φ δ op → C.inv s → K s → C.pre δ op s ∧
      ∀ x s', exec δ op s x s' → C.guar s s' ∧ C.inv s' ∧ K s') :
    C.Meets exec p (fun _ s' => K s') s := by
  induction p generalizing s with
  | done r => exact fun t ht hinv => hK s t ht hinv hs
  | halt => trivial
  | call op k ih =>
    refine Meets.step hK hs fun s₁ hinv₁ hs₁ => ?_
    obtain ⟨hpre, hsteps⟩ := h _ op s₁ hp.1 hinv₁ hs₁
    refine ⟨hpre, fun x s₂ hop => ?_⟩
    obtain ⟨hguar, hinv₂, hs₂⟩ := hsteps x s₂ hop
    exact ⟨hguar, hinv₂, ih x (hp.2 x) hs₂⟩

/-- What is kept and suffices for every call of a program suffices for the program. -/
theorem Meets.of_calls {φ : (δ : Type) → Op δ → Prop} {p : Prog Op ε α} (hK : C.Keeps K)
    (hp : p.Calls φ) (hs : K s)
    (h : ∀ δ op s, φ δ op → C.inv s → K s → C.pre δ op s ∧
      ∀ x s', exec δ op s x s' → C.guar s s' ∧ C.inv s') :
    C.Meets exec p (fun _ s' => K s') s := by
  refine Meets.of_kept (fun s s' hrely => hK (.inl hrely)) hp hs fun δ op s hφ hinv hKs => ?_
  obtain ⟨hpre, hsteps⟩ := h δ op s hφ hinv hKs
  refine ⟨hpre, fun x s' hop => ?_⟩
  obtain ⟨hguar, hinv'⟩ := hsteps x s' hop
  exact ⟨hguar, hinv', hK (.inr hguar) hinv' hKs⟩

/-- What the others do not destroy is known still after calls that do no more than the others. -/
theorem Meets.of_quiet {φ : (δ : Type) → Op δ → Prop} {p : Prog Op ε α}
    (hK : ∀ s s', C.rely s s' → C.inv s' → K s → K s') (hp : p.Calls φ) (hs : K s)
    (h : ∀ δ op s, φ δ op → C.inv s → K s → C.pre δ op s ∧
      ∀ x s', exec δ op s x s' → C.guar s s' ∧ C.rely s s' ∧ C.inv s') :
    C.Meets exec p (fun _ s' => K s') s := by
  refine Meets.of_kept hK hp hs fun δ op s hφ hinv hKs => ?_
  obtain ⟨hpre, hsteps⟩ := h δ op s hφ hinv hKs
  refine ⟨hpre, fun x s' hop => ?_⟩
  obtain ⟨hguar, hrely, hinv'⟩ := hsteps x s' hop
  exact ⟨hguar, hinv', hK s s' hrely hinv' hKs⟩

theorem Meets.pure {a : α} (hQ : C.Keeps (Q (.ok a))) (h : Q (.ok a) s) :
    C.Meets exec (Pure.pure a : Prog Op ε α) Q s :=
  fun _ hs hinv => hQ (.inl hs) hinv h

theorem Meets.raise {e : ε} (hQ : C.Keeps (Q (.error e))) (h : Q (.error e) s) :
    C.Meets exec (Prog.raise e : Prog Op ε α) Q s :=
  fun _ hs hinv => hQ (.inl hs) hinv h

/-- A thread that nobody interrupts keeps the invariant and comes to its postcondition. -/
theorem Meets.runs {p : Prog Op ε α} {r : Except ε α} (h : C.Meets exec p Q s)
    (hinv : C.inv s) (hrun : Runs exec p s r s') : C.inv s' ∧ Q r s' := by
  induction hrun with
  | done r s => exact ⟨hinv, h s (C.refl s) hinv⟩
  | call hop _ ih =>
    obtain ⟨-, hinv', hk⟩ := (h _ (C.refl _) hinv).2 _ _ hop
    exact ih hk hinv'

/-- The contract of a program over a part of the interface. -/
def pull {Part : Type → Type} (C : Contract Op σ) (f : (δ : Type) → Part δ → Op δ) :
    Contract Part σ where
  inv := C.inv
  rely := C.rely
  guar := C.guar
  pre δ op := C.pre δ (f δ op)
  refl := C.refl
  trans := C.trans

theorem Meets.mapOp {Part : Type → Type} {f : (δ : Type) → Part δ → Op δ} {p : Prog Part ε α}
    (h : (C.pull f).Meets (fun δ op => exec δ (f δ op)) p Q s) :
    C.Meets exec (p.mapOp f) Q s := by
  induction p generalizing s with
  | done r => exact h
  | halt => trivial
  | call op k ih =>
    intro s₁ hs₁ hinv
    obtain ⟨hpre, hsteps⟩ := h s₁ hs₁ hinv
    refine ⟨hpre, fun x s₂ hop => ?_⟩
    obtain ⟨hguar, hinv₂, hk⟩ := hsteps x s₂ hop
    exact ⟨hguar, hinv₂, ih x hk⟩

/-! ## Programs whose exceptions need nothing said of them -/

section OnOk

variable {R : α → σ → Prop} {T : β → σ → Prop}

/-- What every result of a program satisfies, however its calls are answered. -/
theorem Meets.ends {p : Prog Op ε α} {E : α → Prop} (h : C.Meets exec p (onOk R) s)
    (hp : p.Ends E) : C.Meets exec p (onOk fun a s' => R a s' ∧ E a) s := by
  induction p generalizing s with
  | done r =>
    cases r with
    | ok a => exact fun t ht hinv => ⟨h t ht hinv, hp⟩
    | error e => exact fun _ _ _ => trivial
  | halt => trivial
  | call op k ih =>
    intro s₁ hs₁ hinv
    obtain ⟨hpre, hsteps⟩ := h s₁ hs₁ hinv
    refine ⟨hpre, fun x s₂ hop => ?_⟩
    obtain ⟨hguar, hinv₂, hk⟩ := hsteps x s₂ hop
    exact ⟨hguar, hinv₂, ih x hk (hp x)⟩

/-- What every result satisfies when the calls are answered as they are. -/
theorem Meets.yields {p : Prog Op ε α} {E : α → Prop}
    {answers : (δ : Type) → Op δ → Except ε δ → Prop} (h : C.Meets exec p (onOk R) s)
    (hp : p.Yields answers E) (hexec : ∀ δ op s x s', exec δ op s x s' → answers δ op x) :
    C.Meets exec p (onOk fun a s' => R a s' ∧ E a) s := by
  induction p generalizing s with
  | done r =>
    cases r with
    | ok a => exact fun t ht hinv => ⟨h t ht hinv, hp⟩
    | error e => exact fun _ _ _ => trivial
  | halt => trivial
  | call op k ih =>
    intro s₁ hs₁ hinv
    obtain ⟨hpre, hsteps⟩ := h s₁ hs₁ hinv
    refine ⟨hpre, fun x s₂ hop => ?_⟩
    obtain ⟨hguar, hinv₂, hk⟩ := hsteps x s₂ hop
    exact ⟨hguar, hinv₂, ih x hk (hp x (hexec _ _ _ _ _ hop))⟩

/-- What neither the others nor the calls of a kind destroy is known of the results, of which is
known too what the answers say. -/
theorem Meets.issues {φ : (δ : Type) → Op δ → Prop} {p : Prog Op ε α} {E : α → Prop}
    {answers : (δ : Type) → Op δ → Except ε δ → Prop} (hp : p.Issues answers φ E)
    (hexec : ∀ δ op s x s', exec δ op s x s' → answers δ op x)
    (hK : ∀ s s', C.rely s s' → C.inv s' → K s → K s') (hs : K s)
    (h : ∀ δ op s, φ δ op → C.inv s → K s → C.pre δ op s ∧
      ∀ x s', exec δ op s x s' → C.guar s s' ∧ C.inv s' ∧ K s') :
    C.Meets exec p (onOk fun a s' => E a ∧ K s') s := by
  induction p generalizing s with
  | done r =>
    cases r with
    | ok a => exact fun t ht hinv => ⟨hp, hK s t ht hinv hs⟩
    | error e => exact fun _ _ _ => trivial
  | halt => trivial
  | call op k ih =>
    refine Meets.step hK hs fun s₁ hinv₁ hs₁ => ?_
    obtain ⟨hpre, hsteps⟩ := h _ op s₁ hp.1 hinv₁ hs₁
    refine ⟨hpre, fun x s₂ hop => ?_⟩
    obtain ⟨hguar, hinv₂, hs₂⟩ := hsteps x s₂ hop
    exact ⟨hguar, hinv₂, ih x (hp.2 x (hexec _ _ _ _ _ hop)) hs₂⟩

/-- The sequencing rule. -/
theorem Meets.next {p : Prog Op ε α} {f : α → Prog Op ε β} (hp : C.Meets exec p (onOk R) s)
    (hf : ∀ a s', C.inv s' → R a s' → C.Meets exec (f a) (onOk T) s') :
    C.Meets exec (p >>= f) (onOk T) s :=
  Meets.bind hp (fun a s' hinv ha => hf a s' hinv ha) fun _ _ _ _ => trivial

/-- What neither the others nor the calls destroy is known of the result. -/
theorem Meets.kept {φ : (δ : Type) → Op δ → Prop} {p : Prog Op ε α}
    (hK : ∀ s s', C.rely s s' → C.inv s' → K s → K s') (hp : p.Calls φ) (hs : K s)
    (h : ∀ δ op s, φ δ op → C.inv s → K s → C.pre δ op s ∧
      ∀ x s', exec δ op s x s' → C.guar s s' ∧ C.inv s' ∧ K s') :
    C.Meets exec p (onOk fun _ s' => K s') s := by
  refine (Meets.of_kept hK hp hs h).mono fun r s' _ hs' => ?_
  cases r with
  | ok a => exact hs'
  | error e => trivial

/-- The sequencing rule with what is kept across the first program. -/
theorem Meets.seq {p : Prog Op ε α} {f : α → Prog Op ε β} (hK : C.Keeps K) (hs : K s)
    (hp : C.Meets exec p (onOk R) s)
    (hf : ∀ a s', C.inv s' → K s' → R a s' → C.Meets exec (f a) (onOk T) s') :
    C.Meets exec (p >>= f) (onOk T) s :=
  Meets.bind (hp.frame hK hs) (fun a s' hinv h => hf a s' hinv h.2 h.1) fun _ _ _ _ => trivial

/-- A result that needs no call. -/
theorem Meets.ofExcept {r : Except ε α} {f : α → Prog Op ε β} (hK : C.Keeps K) (hs : K s)
    (hf : ∀ a s', r = .ok a → C.inv s' → K s' → C.Meets exec (f a) (onOk T) s') :
    C.Meets exec (Prog.ofExcept r >>= f) (onOk T) s := by
  refine Meets.bind (Q := fun r' s' => r' = r ∧ K s')
    (fun s' hs' hinv => ⟨rfl, hK (.inl hs') hinv hs⟩) (fun a s' hinv h => ?_) fun _ _ _ _ => trivial
  exact hf a s' h.1.symm hinv h.2

/-- A loop over a list: what each element leads to, with the knowledge that all start from. -/
theorem Meets.mapM' {f : α → Prog Op ε β} {R : α → σ → Prop} {T : α → β → σ → Prop}
    (hR : ∀ a, C.Keeps (R a)) (hT : ∀ a b, C.Keeps (T a b))
    (hf : ∀ a s, C.inv s → R a s → C.Meets exec (f a) (onOk (T a)) s) {l : List α}
    (hl : ∀ a ∈ l, R a s) (hinv : C.inv s) :
    C.Meets exec (l.mapM' f) (onOk fun bs s' => List.Forall₂ (fun a b => T a b s') l bs) s := by
  have hkeep (l : List α) (bs : List β) :
      C.Keeps fun s' => List.Forall₂ (fun a b => T a b s') l bs :=
    fun _ _ h hinv hbs => hbs.imp fun a b hab => hT a b h hinv hab
  have hkeepR (l : List α) : C.Keeps fun s' => ∀ a ∈ l, R a s' :=
    fun _ _ h hinv hl a ha => hR a h hinv (hl a ha)
  induction l generalizing s with
  | nil => exact Meets.pure (hkeep [] []) .nil
  | cons a l ih =>
    refine Meets.seq (hkeepR l) (fun a' ha' => hl a' (by simp [ha'])) (hf a s hinv (hl a (by simp)))
      fun b s₁ hinv₁ hl₁ hb => ?_
    refine Meets.seq (hT a b) hb (ih hl₁ hinv₁) fun bs s₂ hinv₂ hb₂ hbs => ?_
    exact Meets.pure (hkeep (a :: l) (b :: bs)) (.cons hb₂ hbs)

end OnOk

/-! ## A thread that runs alone -/

section Alone

/-- Nothing is left to others; all that counts is when a call is issued. -/
def alone (pre : (β : Type) → Op β → σ → Prop) : Contract Op σ where
  inv _ := True
  rely := Eq
  guar _ _ := True
  pre := pre
  refl _ := rfl
  trans := Eq.trans

variable {pre : (β : Type) → Op β → σ → Prop}

theorem meets_alone_done {r : Except ε α} :
    (alone pre).Meets exec (.done r) Q s ↔ Q r s :=
  ⟨fun h => h s rfl trivial, fun h _ hs _ => hs ▸ h⟩

theorem meets_alone_call {op : Op β} {k : Except ε β → Prog Op ε α} :
    (alone pre).Meets exec (.call op k) Q s ↔
      pre β op s ∧ ∀ x s', exec β op s x s' → (alone pre).Meets exec (k x) Q s' := by
  constructor
  · intro h
    obtain ⟨hpre, hsteps⟩ := h s rfl trivial
    exact ⟨hpre, fun x s' hop => (hsteps x s' hop).2.2⟩
  · rintro ⟨hpre, hsteps⟩ s₁ rfl -
    exact ⟨hpre, fun x s' hop => ⟨trivial, trivial, hsteps x s' hop⟩⟩

/-- What each call keeps, the program keeps. -/
theorem meets_alone_of_calls {φ : (δ : Type) → Op δ → Prop} {p : Prog Op ε α} (hp : p.Calls φ)
    (hs : K s) (h : ∀ δ op s, φ δ op → K s → pre δ op s ∧ ∀ x s', exec δ op s x s' → K s') :
    (alone pre).Meets exec p (fun _ s' => K s') s := by
  refine Meets.of_kept (fun s s' hrely _ hs => hrely ▸ hs) hp hs fun δ op s hφ _ hs => ?_
  obtain ⟨hpre, hsteps⟩ := h δ op s hφ hs
  exact ⟨hpre, fun x s' hop => ⟨trivial, trivial, hsteps x s' hop⟩⟩

/-- The sequencing rule where exceptions need nothing said of them. -/
theorem meets_alone_bind {p : Prog Op ε α} {f : α → Prog Op ε β} {R : α → σ → Prop}
    {T : β → σ → Prop} (hp : (alone pre).Meets exec p (onOk R) s)
    (hf : ∀ a s', R a s' → (alone pre).Meets exec (f a) (onOk T) s') :
    (alone pre).Meets exec (p >>= f) (onOk T) s :=
  Meets.bind hp (fun a s' _ ha => hf a s' ha) fun _ _ _ _ => trivial

/-- A call that the program comes to may be issued there. -/
theorem Meets.advances {p : Prog Op ε α} {op : Op β} {k : Except ε β → Prog Op ε α}
    (h : (alone pre).Meets exec p Q s) (hadv : Advances exec p s (.call op k) s') :
    pre β op s' := by
  generalize hq : Prog.call op k = q at hadv
  induction hadv with
  | refl p s =>
    subst hq
    exact (meets_alone_call.mp h).1
  | call hop _ ih => exact ih ((meets_alone_call.mp h).2 _ _ hop) hq

end Alone

end Contract

/-! ## Pools -/

section Pools

variable [DecidableEq ι] {C : ι → Contract Op σ} {exec : ι → Exec Op ε σ}

/-- One thread issues its next call, each thread by its own relation. -/
inductive ThreadStep (exec : ι → Exec Op ε σ) : Pool Op ε σ ι → ι → Pool Op ε σ ι → Prop where
  | call {δ : Type} {P : Pool Op ε σ ι} {i : ι} {op : Op δ} {k : Except ε δ → Prog Op ε Unit}
      {x : Except ε δ} {s' : σ} (hi : P.threads i = .call op k)
      (hop : exec i δ op P.shared x s') :
      ThreadStep exec P i ⟨Function.update P.threads i (k x), s'⟩

/-- Any interleaving of finitely many steps. -/
def ThreadRuns (exec : ι → Exec Op ε σ) : Pool Op ε σ ι → Pool Op ε σ ι → Prop :=
  Relation.ReflTransGen fun P P' => ∃ i, ThreadStep exec P i P'

theorem threadRuns_of_poolRuns {exec : Exec Op ε σ} {P P' : Pool Op ε σ ι}
    (h : PoolRuns exec P P') : ThreadRuns (fun _ => exec) P P' := by
  refine Relation.ReflTransGen.mono (fun Q Q' hstep => ?_) _ _ h
  obtain ⟨i, ⟨hi, hop⟩⟩ := hstep
  exact ⟨i, .call hi hop⟩

theorem ThreadRuns.mono {exec exec' : ι → Exec Op ε σ} {P P' : Pool Op ε σ ι}
    (h : ThreadRuns exec P P')
    (hexec : ∀ i β op s x s', exec i β op s x s' → exec' i β op s x s') :
    ThreadRuns exec' P P' := by
  refine Relation.ReflTransGen.mono (fun Q Q' hstep => ?_) _ _ h
  obtain ⟨i, ⟨hi, hop⟩⟩ := hstep
  exact ⟨i, .call hi (hexec i _ _ _ _ _ hop)⟩

/-- What holds of every step that is reached may be taken for a part of the steps. -/
theorem ThreadRuns.strengthen {E : σ → σ → Prop} {P P' : Pool Op ε σ ι}
    (h : ThreadRuns exec P P')
    (hE : ∀ Q Q' i, ThreadRuns exec P Q → ThreadStep exec Q i Q' → E Q.shared Q'.shared) :
    ThreadRuns (fun i β op s x s' => exec i β op s x s' ∧ E s s') P P' := by
  induction h with
  | refl => exact .refl
  | tail hprefix hlast ih =>
    obtain ⟨i, hlast⟩ := hlast
    have hstep := hE _ _ i hprefix hlast
    obtain ⟨hi, hop⟩ := hlast
    exact ih.tail ⟨i, .call hi ⟨hop, hstep⟩⟩

/-- The threads keep one invariant, and each relies on what the others may do. -/
structure Compatible (C : ι → Contract Op σ) : Prop where
  inv : ∀ i j s, (C i).inv s → (C j).inv s
  rely : ∀ i j s s', i ≠ j → (C i).guar s s' → (C i).inv s' → (C j).rely s s'

/-- Every thread meets its contract from the present state on. -/
def PoolMeets (C : ι → Contract Op σ) (exec : ι → Exec Op ε σ)
    (Q : ι → Except ε Unit → σ → Prop) (P : Pool Op ε σ ι) : Prop :=
  ∀ i, (C i).inv P.shared ∧ (C i).Meets (exec i) (P.threads i) (Q i) P.shared

variable {Q : ι → Except ε Unit → σ → Prop} {P P' : Pool Op ε σ ι}

theorem PoolMeets.step (hC : Compatible C) (h : PoolMeets C exec Q P) {i : ι}
    (hstep : ThreadStep exec P i P') : (C i).guar P.shared P'.shared ∧ PoolMeets C exec Q P' := by
  cases hstep with
  | @call _ P i op k x s' hi hop =>
    obtain ⟨hinv, hthread⟩ := h i
    rw [hi] at hthread
    obtain ⟨hguar, hinv', hk⟩ := (hthread P.shared ((C i).refl _) hinv).2 x s' hop
    refine ⟨hguar, fun j => ⟨hC.inv i j s' hinv', ?_⟩⟩
    by_cases hj : j = i
    · subst hj
      simpa using hk
    · have hrely := hC.rely i j _ _ (Ne.symm hj) hguar hinv'
      simpa [Function.update_of_ne hj] using (h j).2.evolve hrely

theorem PoolMeets.runs (hC : Compatible C) (h : PoolMeets C exec Q P)
    (hrun : ThreadRuns exec P P') : PoolMeets C exec Q P' := by
  induction hrun with
  | refl => exact h
  | tail _ hstep ih =>
    obtain ⟨i, hstep⟩ := hstep
    exact (ih.step hC hstep).2

omit [DecidableEq ι] in
/-- A call that a thread is about to issue may be issued. -/
theorem PoolMeets.pre (h : PoolMeets C exec Q P) {i : ι} {δ : Type} {op : Op δ}
    {k : Except ε δ → Prog Op ε Unit} (hi : P.threads i = .call op k) :
    (C i).pre δ op P.shared := by
  obtain ⟨hinv, hthread⟩ := h i
  rw [hi] at hthread
  exact (hthread P.shared ((C i).refl _) hinv).1

omit [DecidableEq ι] in
/-- What a thread has ended in satisfies its postcondition. -/
theorem PoolMeets.ended (h : PoolMeets C exec Q P) {i : ι} {r : Except ε Unit}
    (hi : P.threads i = .done r) : Q i r P.shared := by
  obtain ⟨hinv, hthread⟩ := h i
  rw [hi] at hthread
  exact hthread P.shared ((C i).refl _) hinv

/-- What single steps preserve, runs preserve. -/
theorem PoolMeets.invariant (hC : Compatible C) (h : PoolMeets C exec Q P)
    (hrun : ThreadRuns exec P P') {Inv : σ → Prop} (hinit : Inv P.shared)
    (hstep : ∀ i s s', (C i).guar s s' → (C i).inv s → (C i).inv s' → Inv s → Inv s') :
    Inv P'.shared := by
  induction hrun with
  | refl => exact hinit
  | tail hprefix hlast ih =>
    obtain ⟨i, hlast⟩ := hlast
    have hmeets := h.runs hC hprefix
    obtain ⟨hguar, hmeets'⟩ := hmeets.step hC hlast
    exact hstep i _ _ hguar (hmeets i).1 (hmeets' i).1 ih

/-- One thread that is watched: where every step of the others is one that it relies on, it meets
its contract along every run. -/
theorem ThreadRuns.watched {C : Contract Op σ} {Q : Except ε Unit → σ → Prop} {i : ι}
    (hothers : ∀ j, j ≠ i → ∀ β op s x s', exec j β op s x s' → C.inv s →
      C.rely s s' ∧ C.inv s')
    (hrun : ThreadRuns exec P P') (hinv : C.inv P.shared)
    (h : C.Meets (exec i) (P.threads i) Q P.shared) :
    C.inv P'.shared ∧ C.Meets (exec i) (P'.threads i) Q P'.shared := by
  induction hrun with
  | refl => exact ⟨hinv, h⟩
  | tail _ hlast ih =>
    obtain ⟨hinv₁, h₁⟩ := ih
    obtain ⟨j, @⟨_, P₁, _, op, k, x, s', hj, hop⟩⟩ := hlast
    by_cases hij : j = i
    · subst hij
      rw [hj] at h₁
      obtain ⟨-, hinv', hk⟩ := (h₁ _ (C.refl _) hinv₁).2 x s' hop
      exact ⟨hinv', by simpa using hk⟩
    · obtain ⟨hrely, hinv'⟩ := hothers j hij _ op _ x s' hop hinv₁
      refine ⟨hinv', ?_⟩
      simpa [Function.update_of_ne (Ne.symm hij)] using h₁.evolve hrely

/-- A call that the watched thread is about to issue may be issued. -/
theorem Contract.Meets.pre {C : Contract Op σ} {exec : Exec Op ε σ} {α β : Type}
    {Q : Except ε α → σ → Prop} {s : σ} {op : Op β} {k : Except ε β → Prog Op ε α}
    (h : C.Meets exec (.call op k) Q s) (hinv : C.inv s) : C.pre β op s :=
  (h s (C.refl s) hinv).1

theorem Contract.Meets.ended {C : Contract Op σ} {exec : Exec Op ε σ} {α : Type}
    {Q : Except ε α → σ → Prop} {s : σ} {r : Except ε α}
    (h : C.Meets exec (.done r) Q s) (hinv : C.inv s) : Q r s :=
  h s (C.refl s) hinv

end Pools

end DurableAgent.Library
