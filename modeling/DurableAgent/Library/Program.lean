import Mathlib.Data.List.Forall2
import Mathlib.Logic.Relation
import Mathlib.Logic.Function.Basic

/-!
# Programs over an interface of atomic calls

A program computes on its own and calls operations of a shared interface. One call is one
atomic step: the caller receives its answer or the exception it raised. What a call does is a
relation given from outside, so that the same program is run alone, or interleaved step by
step with any family of other programs over one shared state.
-/

namespace DurableAgent.Library

/-- `halt` takes no further step and returns nothing: a crash, or a loop whose fuel ran out. -/
inductive Prog (Op : Type → Type) (ε α : Type) : Type 1 where
  | done (r : Except ε α)
  | halt
  | call {β : Type} (op : Op β) (k : Except ε β → Prog Op ε α)

namespace Prog

variable {Op : Type → Type} {ε α β γ σ ι : Type}

/-- Sequencing; an exception of the first program is the result of the whole. -/
def bind : Prog Op ε α → (α → Prog Op ε β) → Prog Op ε β
  | .done (.ok a), f => f a
  | .done (.error e), _ => .done (.error e)
  | .halt, _ => .halt
  | .call op k, f => .call op fun x => (k x).bind f

instance : Monad (Prog Op ε) where
  pure a := .done (.ok a)
  bind := bind

def raise (e : ε) : Prog Op ε α := .done (.error e)

/-- Issue one call and pass its answer or its exception on. -/
def perform (op : Op α) : Prog Op ε α := .call op .done

/-- An exception of the first program is given to the handler. -/
def tryCatch : Prog Op ε α → (ε → Prog Op ε α) → Prog Op ε α
  | .done (.ok a), _ => .done (.ok a)
  | .done (.error e), handler => handler e
  | .halt, _ => .halt
  | .call op k, handler => .call op fun x => (k x).tryCatch handler

/-- The cleanup runs after a result and after an exception; its own exception replaces both. -/
def tryFinally (p : Prog Op ε α) (cleanup : Prog Op ε Unit) : Prog Op ε α :=
  (p.tryCatch fun e => cleanup.bind fun _ => raise e).bind fun a =>
    cleanup.bind fun _ => .done (.ok a)

/-- A result that needs no call. -/
def ofExcept (r : Except ε α) : Prog Op ε α := .done r

/-- A program over one interface as a program over a larger one. -/
def mapOp {Op' : Type → Type} (f : (δ : Type) → Op δ → Op' δ) : Prog Op ε α → Prog Op' ε α
  | .done r => .done r
  | .halt => .halt
  | .call op k => .call (f _ op) fun x => (k x).mapOp f

/-- Every call the program may ever issue, whatever it is answered, is of the given kind. -/
def Calls (φ : (δ : Type) → Op δ → Prop) : Prog Op ε α → Prop
  | .done _ => True
  | .halt => True
  | .call op k => φ _ op ∧ ∀ x, (k x).Calls φ

/-- Every result the program may return, whatever its calls are answered, is of the given kind. -/
def Ends (E : α → Prop) : Prog Op ε α → Prop
  | .done (.ok a) => E a
  | .done (.error _) => True
  | .halt => True
  | .call _ k => ∀ x, (k x).Ends E

/-- Every result the program may return when its calls are answered in the given way. -/
def Yields (answers : (δ : Type) → Op δ → Except ε δ → Prop) (E : α → Prop) : Prog Op ε α → Prop
  | .done (.ok a) => E a
  | .done (.error _) => True
  | .halt => True
  | .call op k => ∀ x, answers _ op x → (k x).Yields answers E

/-- Every call is of the given kind, and so is every result, when the calls are answered in the
given way. -/
def Issues (answers : (δ : Type) → Op δ → Except ε δ → Prop) (φ : (δ : Type) → Op δ → Prop)
    (E : α → Prop) : Prog Op ε α → Prop
  | .done (.ok a) => E a
  | .done (.error _) => True
  | .halt => True
  | .call op k => φ _ op ∧ ∀ x, answers _ op x → (k x).Issues answers φ E

/-- The program has returned. -/
def returned : Prog Op ε Unit → Bool
  | .done (.ok _) => true
  | _ => false

theorem returned_iff {p : Prog Op ε Unit} : p.returned = true ↔ p = .done (.ok ()) := by
  constructor
  · intro h
    unfold returned at h
    split at h
    · rfl
    · cases h
  · rintro rfl
    rfl

@[simp] theorem pure_bind (a : α) (f : α → Prog Op ε β) :
    ((pure a : Prog Op ε α) >>= f) = f a := rfl

@[simp] theorem raise_bind (e : ε) (f : α → Prog Op ε β) :
    ((raise e : Prog Op ε α) >>= f) = raise e := rfl

@[simp] theorem call_bind (op : Op γ) (k : Except ε γ → Prog Op ε α) (f : α → Prog Op ε β) :
    ((Prog.call op k) >>= f) = .call op fun x => k x >>= f := rfl

theorem bind_assoc (p : Prog Op ε α) (f : α → Prog Op ε β) (g : β → Prog Op ε γ) :
    ((p >>= f) >>= g) = (p >>= fun a => f a >>= g) := by
  induction p with
  | done r => cases r <;> rfl
  | halt => rfl
  | call op k ih => exact congrArg (Prog.call op) (funext ih)

theorem Calls.mono {φ ψ : (δ : Type) → Op δ → Prop} (h : ∀ δ op, φ δ op → ψ δ op)
    {p : Prog Op ε α} (hp : p.Calls φ) : p.Calls ψ := by
  induction p with
  | done r => trivial
  | halt => trivial
  | call op k ih => exact ⟨h _ op hp.1, fun x => ih x (hp.2 x)⟩

theorem calls_true (p : Prog Op ε α) : p.Calls fun _ _ => True := by
  induction p with
  | done r => trivial
  | halt => trivial
  | call op k ih => exact ⟨trivial, ih⟩

theorem calls_perform {φ : (δ : Type) → Op δ → Prop} {op : Op α} :
    (perform op : Prog Op ε α).Calls φ ↔ φ α op :=
  ⟨fun h => h.1, fun h => ⟨h, fun _ => trivial⟩⟩

theorem Calls.bind {φ : (δ : Type) → Op δ → Prop} {p : Prog Op ε α} {f : α → Prog Op ε β}
    (hp : p.Calls φ) (hf : ∀ a, (f a).Calls φ) : (p >>= f).Calls φ := by
  induction p with
  | done r =>
    cases r with
    | ok a => exact hf a
    | error e => trivial
  | halt => trivial
  | call op k ih => exact ⟨hp.1, fun x => ih x (hp.2 x)⟩

theorem Calls.mapM' {φ : (δ : Type) → Op δ → Prop} {f : α → Prog Op ε β} (hf : ∀ a, (f a).Calls φ)
    (l : List α) : (l.mapM' f : Prog Op ε (List β)).Calls φ := by
  induction l with
  | nil => trivial
  | cons a l ih => exact Calls.bind (hf a) fun _ => Calls.bind ih fun _ => trivial

theorem Calls.tryCatch {φ : (δ : Type) → Op δ → Prop} {p : Prog Op ε α}
    {handler : ε → Prog Op ε α} (hp : p.Calls φ) (hh : ∀ e, (handler e).Calls φ) :
    (p.tryCatch handler).Calls φ := by
  induction p with
  | done r =>
    cases r with
    | ok a => trivial
    | error e => exact hh e
  | halt => trivial
  | call op k ih => exact ⟨hp.1, fun x => ih x (hp.2 x)⟩

theorem Calls.mapOp {Op' : Type → Type} {f : (δ : Type) → Op δ → Op' δ}
    {φ : (δ : Type) → Op' δ → Prop} (hf : ∀ δ op, φ δ (f δ op)) (p : Prog Op ε α) :
    (p.mapOp f).Calls φ := by
  induction p with
  | done r => trivial
  | halt => trivial
  | call op k ih => exact ⟨hf _ op, ih⟩

theorem Calls.mapOp_of {Op' : Type → Type} {f : (δ : Type) → Op δ → Op' δ}
    {φ : (δ : Type) → Op δ → Prop} {ψ : (δ : Type) → Op' δ → Prop} {p : Prog Op ε α}
    (hp : p.Calls φ) (hf : ∀ δ op, φ δ op → ψ δ (f δ op)) : (p.mapOp f).Calls ψ := by
  induction p with
  | done r => trivial
  | halt => trivial
  | call op k ih => exact ⟨hf _ op hp.1, fun x => ih x (hp.2 x)⟩

theorem Calls.tryFinally {φ : (δ : Type) → Op δ → Prop} {p : Prog Op ε α}
    {cleanup : Prog Op ε Unit} (hp : p.Calls φ) (hc : cleanup.Calls φ) :
    (p.tryFinally cleanup).Calls φ := by
  refine Calls.bind (Calls.tryCatch hp fun e => ?_) fun a => ?_
  · exact Calls.bind (f := fun _ => (raise e : Prog Op ε α)) hc fun _ => trivial
  · exact Calls.bind (f := fun _ => (.done (.ok a) : Prog Op ε α)) hc fun _ => trivial

theorem Ends.bind {E : α → Prop} {F : β → Prop} {p : Prog Op ε α} {f : α → Prog Op ε β}
    (hp : p.Ends E) (hf : ∀ a, E a → (f a).Ends F) : (p >>= f).Ends F := by
  induction p with
  | done r =>
    cases r with
    | ok a => exact hf a hp
    | error e => trivial
  | halt => trivial
  | call op k ih => exact fun x => ih x (hp x)

theorem ends_true (p : Prog Op ε α) : p.Ends fun _ => True := by
  induction p with
  | done r => cases r <;> trivial
  | halt => trivial
  | call op k ih => exact fun x => ih x

theorem Ends.tryCatch {E : α → Prop} {p : Prog Op ε α} {handler : ε → Prog Op ε α}
    (hp : p.Ends E) (hh : ∀ e, (handler e).Ends E) : (p.tryCatch handler).Ends E := by
  induction p with
  | done r =>
    cases r with
    | ok a => exact hp
    | error e => exact hh e
  | halt => trivial
  | call op k ih => exact fun x => ih x (hp x)

/-- A loop returns a result for each element. -/
theorem Ends.mapM' (f : α → Prog Op ε β) (l : List α) :
    (l.mapM' f : Prog Op ε (List β)).Ends fun bs => bs.length = l.length := by
  induction l with
  | nil => rfl
  | cons a l ih =>
    refine Ends.bind (ends_true (f a)) fun b _ => Ends.bind ih fun bs hbs => ?_
    change (b :: bs).length = (a :: l).length
    rw [List.length_cons, List.length_cons, hbs]

section Yields

variable {answers : (δ : Type) → Op δ → Except ε δ → Prop} {E E' : α → Prop} {F : β → Prop}
  {p : Prog Op ε α}

theorem Yields.mono (hp : p.Yields answers E) (h : ∀ a, E a → E' a) : p.Yields answers E' := by
  induction p with
  | done r =>
    cases r with
    | ok a => exact h a hp
    | error e => trivial
  | halt => trivial
  | call op k ih => exact fun x hx => ih x (hp x hx)

theorem Yields.bind {f : α → Prog Op ε β} (hp : p.Yields answers E)
    (hf : ∀ a, E a → (f a).Yields answers F) : (p >>= f).Yields answers F := by
  induction p with
  | done r =>
    cases r with
    | ok a => exact hf a hp
    | error e => trivial
  | halt => trivial
  | call op k ih => exact fun x hx => ih x (hp x hx)

theorem Ends.yields (hp : p.Ends E) : p.Yields answers E := by
  induction p with
  | done r => cases r <;> exact hp
  | halt => trivial
  | call op k ih => exact fun x _ => ih x (hp x)

theorem yields_true (p : Prog Op ε α) : p.Yields answers fun _ => True := (ends_true p).yields

theorem yields_perform {op : Op α} (h : ∀ a, answers α op (.ok a) → E a) :
    (perform op : Prog Op ε α).Yields answers E := by
  intro x hx
  cases x with
  | ok a => exact h a hx
  | error e => trivial

theorem yields_ofExcept {r : Except ε α} (h : ∀ a, r = .ok a → E a) :
    (ofExcept r : Prog Op ε α).Yields answers E := by
  cases r with
  | ok a => exact h a rfl
  | error e => trivial

theorem Yields.tryCatch {handler : ε → Prog Op ε α} (hp : p.Yields answers E)
    (hh : ∀ e, (handler e).Yields answers E) : (p.tryCatch handler).Yields answers E := by
  induction p with
  | done r =>
    cases r with
    | ok a => exact hp
    | error e => exact hh e
  | halt => trivial
  | call op k ih => exact fun x hx => ih x (hp x hx)

/-- A loop returns what its body returns for each element. -/
theorem Yields.mapM' {f : α → Prog Op ε β} {R : α → β → Prop} {l : List α}
    (hf : ∀ a ∈ l, (f a).Yields answers (R a)) :
    (l.mapM' f : Prog Op ε (List β)).Yields answers (List.Forall₂ R l) := by
  induction l with
  | nil => exact List.Forall₂.nil
  | cons a l ih =>
    refine Yields.bind (hf a List.mem_cons_self) fun b hb => ?_
    refine Yields.bind (ih fun a' ha' => hf a' (List.mem_cons_of_mem a ha')) fun bs hbs => ?_
    exact List.Forall₂.cons hb hbs

end Yields

section Issues

variable {answers : (δ : Type) → Op δ → Except ε δ → Prop} {φ : (δ : Type) → Op δ → Prop}
  {E E' : α → Prop} {F : β → Prop} {p : Prog Op ε α}

theorem Issues.mono (hp : p.Issues answers φ E) (h : ∀ a, E a → E' a) :
    p.Issues answers φ E' := by
  induction p with
  | done r =>
    cases r with
    | ok a => exact h a hp
    | error e => trivial
  | halt => trivial
  | call op k ih => exact ⟨hp.1, fun x hx => ih x (hp.2 x hx)⟩

theorem Issues.bind {f : α → Prog Op ε β} (hp : p.Issues answers φ E)
    (hf : ∀ a, E a → (f a).Issues answers φ F) : (p >>= f).Issues answers φ F := by
  induction p with
  | done r =>
    cases r with
    | ok a => exact hf a hp
    | error e => trivial
  | halt => trivial
  | call op k ih => exact ⟨hp.1, fun x hx => ih x (hp.2 x hx)⟩

/-- Where nothing is asked of the results, the calls are all that counts. -/
theorem Calls.issues (hp : p.Calls φ) : p.Issues answers φ fun _ => True := by
  induction p with
  | done r => cases r <;> trivial
  | halt => trivial
  | call op k ih => exact ⟨hp.1, fun x _ => ih x (hp.2 x)⟩

/-- The sequencing rule for a first program of which only the calls count. -/
theorem Calls.then {f : α → Prog Op ε β} (hp : p.Calls φ)
    (hf : ∀ a, (f a).Issues answers φ F) : (p >>= f).Issues answers φ F :=
  hp.issues.bind fun a _ => hf a

theorem issues_perform {op : Op α} (hop : φ α op) (h : ∀ a, answers α op (.ok a) → E a) :
    (perform op : Prog Op ε α).Issues answers φ E := by
  refine ⟨hop, fun x hx => ?_⟩
  cases x with
  | ok a => exact h a hx
  | error e => trivial

theorem issues_ofExcept {r : Except ε α} (h : ∀ a, r = .ok a → E a) :
    (ofExcept r : Prog Op ε α).Issues answers φ E := by
  cases r with
  | ok a => exact h a rfl
  | error e => trivial

/-- A loop whose body issues calls of a kind for each element. -/
theorem Issues.mapM' {f : α → Prog Op ε β} {l : List α}
    (hf : ∀ a ∈ l, (f a).Issues answers φ fun _ => True) :
    (l.mapM' f : Prog Op ε (List β)).Issues answers φ fun _ => True := by
  induction l with
  | nil => trivial
  | cons a l ih =>
    refine Issues.bind (hf a List.mem_cons_self) fun b _ => ?_
    exact Issues.bind (ih fun a' ha' => hf a' (List.mem_cons_of_mem a ha')) fun _ _ => trivial

theorem Issues.tryCatch {handler : ε → Prog Op ε α} (hp : p.Issues answers φ E)
    (hh : ∀ e, (handler e).Issues answers φ E) : (p.tryCatch handler).Issues answers φ E := by
  induction p with
  | done r =>
    cases r with
    | ok a => exact hp
    | error e => exact hh e
  | halt => trivial
  | call op k ih => exact ⟨hp.1, fun x hx => ih x (hp.2 x hx)⟩

end Issues

end Prog

variable {Op : Type → Type} {ε α β γ σ ι : Type}

/-- What a call may answer and what it leaves of the shared state. -/
abbrev Exec (Op : Type → Type) (ε σ : Type) :=
  (β : Type) → Op β → σ → Except ε β → σ → Prop

/-- Calls that may besides fail with any exception, leaving the state as it was. -/
def Exec.withFaults (exec : Exec Op ε σ) : Exec Op ε σ := fun β op s x s' =>
  exec β op s x s' ∨ ∃ e, x = .error e ∧ s' = s

/-- Only those calls whose condition holds in the state they meet. -/
def Exec.guard (exec : Exec Op ε σ) (cond : (β : Type) → Op β → σ → Prop) : Exec Op ε σ :=
  fun β op s x s' => cond β op s ∧ exec β op s x s'

/-- What each call does in one step, given what the outside supplies for it (a clock reading,
a fresh identifier, the outcome of a worker). -/
abbrev Handler (Op : Type → Type) (ε τ σ : Type) :=
  (β : Type) → Op β → τ → σ → Except ε β × σ

/-- The calls of a handler under any supply from outside. -/
def Handler.exec {τ : Type} (handle : Handler Op ε τ σ) : Exec Op ε σ := fun β op s x s' =>
  ∃ t, handle β op t s = (x, s')

/-- One uninterrupted run with the listed supplies; `none` when they do not suffice. -/
def Handler.play {τ : Type} (handle : Handler Op ε τ σ) :
    Prog Op ε α → List τ → σ → Option (Except ε α × σ)
  | .done r, _, s => some (r, s)
  | .halt, _, _ => none
  | .call _ _, [], _ => none
  | .call op k, t :: ts, s => handle.play (k (handle _ op t s).1) ts (handle _ op t s).2

section Alone

variable (exec : Exec Op ε σ)

/-- A complete run of one program that nobody interrupts. -/
inductive Runs : Prog Op ε α → σ → Except ε α → σ → Prop where
  | done (r : Except ε α) (s : σ) : Runs (.done r) s r s
  | call {δ : Type} {op : Op δ} {k : Except ε δ → Prog Op ε α} {s s₁ s' : σ} {x : Except ε δ}
      {r : Except ε α} (hop : exec δ op s x s₁) (hrest : Runs (k x) s₁ r s') :
      Runs (.call op k) s r s'

variable {exec}

@[simp] theorem runs_done {r r' : Except ε α} {s s' : σ} :
    Runs exec (.done r) s r' s' ↔ r' = r ∧ s' = s :=
  ⟨fun h => by cases h; exact ⟨rfl, rfl⟩, by rintro ⟨rfl, rfl⟩; exact .done _ _⟩

@[simp] theorem runs_pure {a : α} {r : Except ε α} {s s' : σ} :
    Runs exec (pure a : Prog Op ε α) s r s' ↔ r = .ok a ∧ s' = s := runs_done

@[simp] theorem runs_raise {e : ε} {r : Except ε α} {s s' : σ} :
    Runs exec (Prog.raise e : Prog Op ε α) s r s' ↔ r = .error e ∧ s' = s := runs_done

theorem runs_call {op : Op β} {k : Except ε β → Prog Op ε α} {r : Except ε α} {s s' : σ} :
    Runs exec (.call op k) s r s' ↔ ∃ x s₁, exec β op s x s₁ ∧ Runs exec (k x) s₁ r s' :=
  ⟨fun h => by cases h with | call hop hrest => exact ⟨_, _, hop, hrest⟩,
    fun ⟨_, _, hop, hrest⟩ => .call hop hrest⟩

@[simp] theorem runs_perform {op : Op α} {r : Except ε α} {s s' : σ} :
    Runs exec (Prog.perform op) s r s' ↔ exec α op s r s' := by
  constructor
  · intro h
    obtain ⟨x, s₁, hop, hrest⟩ := runs_call.mp h
    obtain ⟨rfl, rfl⟩ := runs_done.mp hrest
    exact hop
  · exact fun h => runs_call.mpr ⟨r, s', h, .done r s'⟩

theorem Runs.mono {exec' : Exec Op ε σ} {p : Prog Op ε α} {s s' : σ} {r : Except ε α}
    (h : Runs exec p s r s') (hexec : ∀ β op s x s', exec β op s x s' → exec' β op s x s') :
    Runs exec' p s r s' := by
  induction h with
  | done r s => exact .done r s
  | call hop _ ih => exact .call (hexec _ _ _ _ _ hop) ih

/-- What every call of a program preserves, a run preserves. -/
theorem Runs.kept {φ : (δ : Type) → Op δ → Prop} {K : σ → Prop} {p : Prog Op ε α} {s s' : σ}
    {r : Except ε α} (h : Runs exec p s r s') (hp : p.Calls φ) (hs : K s)
    (hstep : ∀ δ op s x s', φ δ op → K s → exec δ op s x s' → K s') : K s' := by
  induction h with
  | done r s => exact hs
  | call hop _ ih => exact ih (hp.2 _) (hstep _ _ _ _ _ hp.1 hs hop)

/-- A result of a guarded program is one of the program, or of the handler of its exception. -/
theorem Runs.of_tryCatch_ok {p : Prog Op ε α} {handler : ε → Prog Op ε α} {a : α} {s s' : σ}
    (h : Runs exec (p.tryCatch handler) s (.ok a) s') :
    Runs exec p s (.ok a) s' ∨
      ∃ e s₁, Runs exec p s (.error e) s₁ ∧ Runs exec (handler e) s₁ (.ok a) s' := by
  induction p generalizing s with
  | done r =>
    cases r with
    | ok b => exact .inl h
    | error e => exact .inr ⟨e, s, .done _ s, h⟩
  | halt => cases h
  | call op k ih =>
    obtain ⟨x, s₁, hop, hrest⟩ := runs_call.mp h
    rcases ih x hrest with hk | ⟨e, s₂, hk, hhandler⟩
    · exact .inl (.call hop hk)
    · exact .inr ⟨e, s₂, .call hop hk, hhandler⟩

/-- What runs without faults also runs where faults may happen. -/
theorem Runs.withFaults {p : Prog Op ε α} {s s' : σ} {r : Except ε α} (h : Runs exec p s r s') :
    Runs exec.withFaults p s r s' :=
  h.mono fun _ _ _ _ _ hop => .inl hop

/-- A sequence that returns has run both parts to their results. -/
theorem runs_bind_ok {p : Prog Op ε α} {f : α → Prog Op ε β} {b : β} {s s' : σ} :
    Runs exec (p >>= f) s (.ok b) s' ↔
      ∃ a s₁, Runs exec p s (.ok a) s₁ ∧ Runs exec (f a) s₁ (.ok b) s' := by
  constructor
  · intro h
    induction p generalizing s with
    | done r =>
      cases r with
      | ok a => exact ⟨a, s, .done _ s, h⟩
      | error e => cases h
    | halt => cases h
    | call op k ih =>
      obtain ⟨x, s₁, hop, hrest⟩ := runs_call.mp h
      obtain ⟨a, s₂, hk, hf⟩ := ih x hrest
      exact ⟨a, s₂, .call hop hk, hf⟩
  · rintro ⟨a, s₁, hp, hf⟩
    generalize hr : (Except.ok a : Except ε α) = r at hp
    induction hp with
    | done r s => subst hr; exact hf
    | call hop _ ih => exact .call hop (ih hf hr)

/-- A sequence that raises raised in its first part, or returned there and raised in the second. -/
theorem runs_bind_error {p : Prog Op ε α} {f : α → Prog Op ε β} {e : ε} {s s' : σ} :
    Runs exec (p >>= f) s (.error e) s' ↔
      Runs exec p s (.error e) s' ∨
        ∃ a s₁, Runs exec p s (.ok a) s₁ ∧ Runs exec (f a) s₁ (.error e) s' := by
  constructor
  · intro h
    induction p generalizing s with
    | done r =>
      cases r with
      | ok a => exact .inr ⟨a, s, .done _ s, h⟩
      | error e' =>
        obtain ⟨⟨⟩, rfl⟩ := runs_done.mp h
        exact .inl (.done _ _)
    | halt => cases h
    | call op k ih =>
      obtain ⟨x, s₁, hop, hrest⟩ := runs_call.mp h
      rcases ih x hrest with hk | ⟨a, s₂, hk, hf⟩
      · exact .inl (.call hop hk)
      · exact .inr ⟨a, s₂, .call hop hk, hf⟩
  · rintro (hp | ⟨a, s₁, hp, hf⟩)
    · generalize hr : (Except.error e : Except ε α) = r at hp
      induction hp with
      | done r s => subst hr; exact .done _ s
      | call hop _ ih => exact .call hop (ih hr)
    · generalize hr : (Except.ok a : Except ε α) = r at hp
      induction hp with
      | done r s => subst hr; exact hf
      | call hop _ ih => exact .call hop (ih hf hr)

theorem Handler.play_runs {τ : Type} {handle : Handler Op ε τ σ} {p : Prog Op ε α}
    (ts : List τ) {s s' : σ} {r : Except ε α} (h : handle.play p ts s = some (r, s')) :
    Runs handle.exec p s r s' := by
  induction p generalizing ts s with
  | done r' =>
    obtain ⟨rfl, rfl⟩ := Prod.mk.inj (Option.some.inj h)
    exact .done _ _
  | halt => cases h
  | call op k ih =>
    cases ts with
    | nil => cases h
    | cons t ts => exact .call ⟨t, rfl⟩ (ih _ _ h)

/-- The next call of the program is its last: answered in this state, it leaves the state as it
is and the program with this result. -/
def EndsAt (exec : Exec Op ε σ) (p : Prog Op ε α) (s : σ) (r : Except ε α) : Prop :=
  ∃ (β : Type) (op : Op β) (k : Except ε β → Prog Op ε α), p = .call op k ∧
    ∀ x s', exec β op s x s' → s' = s ∧ k x = .done r

/-- The program ends, and always in this result. -/
def Returns (exec : Exec Op ε σ) (p : Prog Op ε α) (s : σ) (r : Except ε α) : Prop :=
  (∃ s', Runs exec p s r s') ∧ ∀ r' s', Runs exec p s r' s' → r' = r

/-- The program ends, always in this result, and leaves the state as it is. -/
def Reads (exec : Exec Op ε σ) (p : Prog Op ε α) (s : σ) (r : Except ε α) : Prop :=
  ∀ r' s', Runs exec p s r' s' ↔ r' = r ∧ s' = s

theorem Reads.returns {p : Prog Op ε α} {s : σ} {r : Except ε α} (h : Reads exec p s r) :
    Returns exec p s r :=
  ⟨⟨s, (h r s).mpr ⟨rfl, rfl⟩⟩, fun r' s' hrun => ((h r' s').mp hrun).1⟩

theorem Reads.pure {a : α} {s : σ} : Reads exec (Pure.pure a : Prog Op ε α) s (.ok a) :=
  fun _ _ => runs_pure

theorem Reads.bind {p : Prog Op ε α} {f : α → Prog Op ε β} {a : α} {s : σ} {r : Except ε β}
    (hp : Reads exec p s (.ok a)) (hf : Reads exec (f a) s r) : Reads exec (p >>= f) s r := by
  intro r' s'
  rw [← hf r' s']
  cases r' with
  | ok b =>
    rw [runs_bind_ok]
    constructor
    · rintro ⟨a', s₁, hrun, hrest⟩
      obtain ⟨⟨⟩, rfl⟩ := (hp _ _).mp hrun
      exact hrest
    · exact fun hrest => ⟨a, s, (hp _ _).mpr ⟨rfl, rfl⟩, hrest⟩
  | error e =>
    rw [runs_bind_error]
    constructor
    · rintro (hrun | ⟨a', s₁, hrun, hrest⟩)
      · cases ((hp _ _).mp hrun).1
      · obtain ⟨⟨⟩, rfl⟩ := (hp _ _).mp hrun
        exact hrest
    · exact fun hrest => .inr ⟨a, s, (hp _ _).mpr ⟨rfl, rfl⟩, hrest⟩

/-- A call that every supply answers in the same way. -/
theorem Handler.reads {τ : Type} [Nonempty τ] {handle : Handler Op ε τ σ} {op : Op α} {s : σ}
    {r : Except ε α} (h : ∀ t, handle α op t s = (r, s)) :
    Reads handle.exec (Prog.perform op) s r := by
  intro r' s'
  rw [runs_perform]
  constructor
  · rintro ⟨t, ht⟩
    rw [h t] at ht
    obtain ⟨rfl, rfl⟩ := Prod.mk.inj ht
    exact ⟨rfl, rfl⟩
  · rintro ⟨rfl, rfl⟩
    exact ⟨Classical.arbitrary τ, h _⟩

/-- An uninterrupted run of a program up to some call of it. -/
inductive Advances (exec : Exec Op ε σ) : Prog Op ε α → σ → Prog Op ε α → σ → Prop where
  | refl (p : Prog Op ε α) (s : σ) : Advances exec p s p s
  | call {δ : Type} {op : Op δ} {k : Except ε δ → Prog Op ε α} {q : Prog Op ε α} {s s₁ s' : σ}
      {x : Except ε δ} (hop : exec δ op s x s₁) (hrest : Advances exec (k x) s₁ q s') :
      Advances exec (.call op k) s q s'

theorem Advances.trans {p q r : Prog Op ε α} {s s₁ s' : σ} (h : Advances exec p s q s₁)
    (h' : Advances exec q s₁ r s') : Advances exec p s r s' := by
  induction h with
  | refl p s => exact h'
  | call hop _ ih => exact .call hop (ih h')

theorem Advances.bind {p q : Prog Op ε α} {s s' : σ} (h : Advances exec p s q s')
    (f : α → Prog Op ε β) : Advances exec (p >>= f) s (q >>= f) s' := by
  induction h with
  | refl p s => exact .refl _ s
  | call hop _ ih => exact .call hop ih

/-- The first part of a sequence runs to its result. -/
theorem Runs.advances {p : Prog Op ε α} {a : α} {s s' : σ} (h : Runs exec p s (.ok a) s')
    (f : α → Prog Op ε β) : Advances exec (p >>= f) s (f a) s' := by
  generalize hr : (Except.ok a : Except ε α) = r at h
  induction h with
  | done r s =>
    subst hr
    exact .refl _ s
  | call hop _ ih => exact .call hop (ih hr)

/-- The program and the state after uninterrupted calls with the listed supplies. -/
def Handler.advance {τ : Type} (handle : Handler Op ε τ σ) :
    Prog Op ε α → List τ → σ → Prog Op ε α × σ
  | .call op k, t :: ts, s => handle.advance (k (handle _ op t s).1) ts (handle _ op t s).2
  | p, _, s => (p, s)

theorem Handler.advances {τ : Type} (handle : Handler Op ε τ σ) (p : Prog Op ε α) (ts : List τ)
    (s : σ) : Advances handle.exec p s (handle.advance p ts s).1 (handle.advance p ts s).2 := by
  induction p generalizing ts s with
  | done r => exact .refl _ s
  | halt => exact .refl _ s
  | call op k ih =>
    cases ts with
    | nil => exact .refl _ s
    | cons t ts => exact .call ⟨t, rfl⟩ (ih _ ts _)

theorem Advances.mono {exec' : Exec Op ε σ} {p q : Prog Op ε α} {s s' : σ}
    (h : Advances exec p s q s') (hexec : ∀ β op s x s', exec β op s x s' → exec' β op s x s') :
    Advances exec' p s q s' := by
  induction h with
  | refl p s => exact .refl p s
  | call hop _ ih => exact .call (hexec _ _ _ _ _ hop) ih

/-- What holds of every result the program can come to when nobody interrupts it. -/
def Prog.wp (exec : Exec Op ε σ) : Prog Op ε α → (Except ε α → σ → Prop) → σ → Prop
  | .done r, Q, s => Q r s
  | .halt, _, _ => True
  | .call op k, Q, s => ∀ x s', exec _ op s x s' → (k x).wp exec Q s'

namespace Prog

variable {p : Prog Op ε α} {Q Q' : Except ε α → σ → Prop} {s s' : σ}

theorem wp.runs {r : Except ε α} (h : p.wp exec Q s) (hrun : Runs exec p s r s') : Q r s' := by
  induction hrun with
  | done r s => exact h
  | call hop _ ih => exact ih (h _ _ hop)

theorem wp.mono (h : p.wp exec Q s) (hQ : ∀ r s', Q r s' → Q' r s') : p.wp exec Q' s := by
  induction p generalizing s with
  | done r => exact hQ r s h
  | halt => trivial
  | call op k ih => exact fun x s' hop => ih x (h x s' hop)

/-- The sequencing rule: an exception of the first program ends the whole. -/
theorem wp.bind {f : α → Prog Op ε β} {R : Except ε β → σ → Prop}
    (hp : p.wp exec (fun r s => ∀ a, r = .ok a → (f a).wp exec R s) s)
    (he : p.wp exec (fun r s => ∀ e, r = .error e → R (.error e) s) s) :
    (p >>= f).wp exec R s := by
  induction p generalizing s with
  | done r =>
    cases r with
    | ok a => exact hp a rfl
    | error e => exact he e rfl
  | halt => trivial
  | call op k ih => exact fun x s' hop => ih x (hp x s' hop) (he x s' hop)

theorem wp_perform {op : Op α} :
    (perform op).wp exec Q s ↔ ∀ x s', exec α op s x s' → Q x s' := Iff.rfl

/-- Calls that preserve a property leave it to every result. -/
theorem wp_of_calls {φ : (δ : Type) → Op δ → Prop} {Inv : σ → Prop} (hp : p.Calls φ)
    (hstep : ∀ δ op s x s', φ δ op → Inv s → exec δ op s x s' → Inv s') (hs : Inv s) :
    p.wp exec (fun _ s' => Inv s') s := by
  induction p generalizing s with
  | done r => exact hs
  | halt => trivial
  | call op k ih =>
    exact fun x s' hop => ih x (hp.2 x) (hstep _ op s x s' hp.1 hs hop)

end Prog

end Alone

section Interleaved

/-- Any family of programs over one shared state. -/
structure Pool (Op : Type → Type) (ε σ ι : Type) where
  threads : ι → Prog Op ε Unit
  shared : σ

variable (exec : Exec Op ε σ) [DecidableEq ι]

/-- One thread issues its next call. A thread that is never chosen again has crashed. -/
inductive PoolStep : Pool Op ε σ ι → ι → Pool Op ε σ ι → Prop where
  | call {δ : Type} {P : Pool Op ε σ ι} {i : ι} {op : Op δ} {k : Except ε δ → Prog Op ε Unit}
      {x : Except ε δ} {s' : σ} (hi : P.threads i = .call op k)
      (hop : exec δ op P.shared x s') :
      PoolStep P i ⟨Function.update P.threads i (k x), s'⟩

/-- Any interleaving of finitely many steps. -/
def PoolRuns : Pool Op ε σ ι → Pool Op ε σ ι → Prop :=
  Relation.ReflTransGen fun P P' => ∃ i, PoolStep exec P i P'

theorem PoolStep.mono {exec exec' : Exec Op ε σ} {P P' : Pool Op ε σ ι} {i : ι}
    (h : PoolStep exec P i P') (hexec : ∀ β op s x s', exec β op s x s' → exec' β op s x s') :
    PoolStep exec' P i P' := by
  obtain ⟨hi, hop⟩ := h
  exact .call hi (hexec _ _ _ _ _ hop)

theorem PoolRuns.mono {exec exec' : Exec Op ε σ} {P P' : Pool Op ε σ ι} (h : PoolRuns exec P P')
    (hexec : ∀ β op s x s', exec β op s x s' → exec' β op s x s') : PoolRuns exec' P P' := by
  refine Relation.ReflTransGen.mono (fun Q Q' hstep => ?_) _ _ h
  obtain ⟨i, hi⟩ := hstep
  exact ⟨i, hi.mono hexec⟩

/-- One thread runs on while the others wait. -/
theorem Advances.poolRuns {exec : Exec Op ε σ} {P : Pool Op ε σ ι} {i : ι} {q : Prog Op ε Unit}
    {s' : σ} (h : Advances exec (P.threads i) P.shared q s') :
    PoolRuns exec P ⟨Function.update P.threads i q, s'⟩ := by
  generalize hp : P.threads i = p at h
  generalize hs : P.shared = s at h
  induction h generalizing P with
  | refl p s =>
    rw [← hp, ← hs, Function.update_eq_self]
    exact .refl
  | call hop _ ih =>
    rw [← hs] at hop
    have hrest := @ih ⟨Function.update P.threads i _, _⟩ (Function.update_self _ _ _) rfl
    rw [Function.update_idem] at hrest
    exact .head ⟨i, .call hp hop⟩ hrest

/-- What the calls of a kind preserve holds throughout every interleaving of programs that
issue no others. -/
theorem PoolRuns.invariant {exec : Exec Op ε σ} {φ : (δ : Type) → Op δ → Prop}
    {Inv : σ → Prop} {P P' : Pool Op ε σ ι} (hrun : PoolRuns exec P P')
    (hcalls : ∀ i, (P.threads i).Calls φ) (hinit : Inv P.shared)
    (hstep : ∀ δ op s x s', φ δ op → Inv s → exec δ op s x s' → Inv s') :
    Inv P'.shared ∧ ∀ i, (P'.threads i).Calls φ := by
  induction hrun with
  | refl => exact ⟨hinit, hcalls⟩
  | tail _ hlast ih =>
    obtain ⟨i, @⟨δ, P₁, _, op, k, x, s', hi, hop⟩⟩ := hlast
    have hcall := ih.2 i
    rw [hi] at hcall
    refine ⟨hstep δ op _ x s' hcall.1 ih.1 hop, fun j => ?_⟩
    by_cases hj : j = i
    · subst hj
      simpa using hcall.2 x
    · simpa [Function.update_of_ne hj] using ih.2 j

/-- The same for programs whose calls are of the kind as long as they are answered in the given
way. -/
theorem PoolRuns.issuing {exec : Exec Op ε σ} {φ : (δ : Type) → Op δ → Prop}
    {answers : (δ : Type) → Op δ → Except ε δ → Prop} {Inv : σ → Prop} {P P' : Pool Op ε σ ι}
    (hrun : PoolRuns exec P P') (hissues : ∀ i, (P.threads i).Issues answers φ fun _ => True)
    (hinit : Inv P.shared)
    (hstep : ∀ δ op s x s', φ δ op → Inv s → exec δ op s x s' → answers δ op x ∧ Inv s') :
    Inv P'.shared ∧ ∀ i, (P'.threads i).Issues answers φ fun _ => True := by
  induction hrun with
  | refl => exact ⟨hinit, hissues⟩
  | tail _ hlast ih =>
    obtain ⟨i, @⟨δ, P₁, _, op, k, x, s', hi, hop⟩⟩ := hlast
    have hcall := ih.2 i
    rw [hi] at hcall
    obtain ⟨hanswer, hinv⟩ := hstep δ op _ x s' hcall.1 ih.1 hop
    refine ⟨hinv, fun j => ?_⟩
    by_cases hj : j = i
    · subst hj
      simpa using hcall.2 x hanswer
    · simpa [Function.update_of_ne hj] using ih.2 j

/-- A run begins with a call that its condition admits. -/
theorem PoolRuns.handled {τ : Type} (handle : Handler Op ε τ σ)
    (cond : (β : Type) → Op β → σ → Prop) {P P' : Pool Op ε σ ι} (i : ι) (t : τ) {δ : Type}
    {op : Op δ} {k : Except ε δ → Prog Op ε Unit} (hi : P.threads i = .call op k)
    (hcond : cond δ op P.shared)
    (hrest : PoolRuns (handle.exec.guard cond)
      ⟨Function.update P.threads i (k (handle δ op t P.shared).1), (handle δ op t P.shared).2⟩ P') :
    PoolRuns (handle.exec.guard cond) P P' :=
  .head ⟨i, .call hi ⟨hcond, t, rfl⟩⟩ hrest

/-- The run of a pool under a schedule: which thread steps, and what it is supplied with.
A thread that has ended lets its turn pass. -/
def Pool.play {τ : Type} (handle : Handler Op ε τ σ) :
    List (ι × τ) → Pool Op ε σ ι → Pool Op ε σ ι
  | [], P => P
  | (i, t) :: schedule, P =>
    match P.threads i with
    | .call op k =>
      Pool.play handle schedule
        ⟨Function.update P.threads i (k (handle _ op t P.shared).1), (handle _ op t P.shared).2⟩
    | _ => Pool.play handle schedule P

theorem Pool.play_runs {τ : Type} (handle : Handler Op ε τ σ) (schedule : List (ι × τ))
    (P : Pool Op ε σ ι) : PoolRuns handle.exec P (P.play handle schedule) := by
  induction schedule generalizing P with
  | nil => exact .refl
  | cons step schedule ih =>
    obtain ⟨i, t⟩ := step
    unfold Pool.play
    split
    · next op k hi => exact .head ⟨i, .call hi ⟨t, rfl⟩⟩ (ih _)
    · exact ih P

/-- A schedule of one turn is one step. -/
theorem Pool.play_step {τ : Type} (handle : Handler Op ε τ σ) {P : Pool Op ε σ ι} {i : ι} (t : τ)
    {δ : Type} {op : Op δ} {k : Except ε δ → Prog Op ε Unit} (hi : P.threads i = .call op k) :
    PoolStep handle.exec P i (P.play handle [(i, t)]) := by
  unfold Pool.play
  rw [hi]
  exact .call hi ⟨t, rfl⟩

/-- A thread that has no turn stays where it is. -/
theorem Pool.play_threads {τ : Type} (handle : Handler Op ε τ σ) {i : ι}
    (schedule : List (ι × τ)) (P : Pool Op ε σ ι) (h : i ∉ schedule.map Prod.fst) :
    (P.play handle schedule).threads i = P.threads i := by
  induction schedule generalizing P with
  | nil => rfl
  | cons step schedule ih =>
    obtain ⟨j, t⟩ := step
    rw [List.map_cons, List.mem_cons, not_or] at h
    unfold Pool.play
    split
    · rw [ih _ h.2]
      exact Function.update_of_ne h.1 _ _
    · exact ih P h.2

/-- Every call of a schedule meets its condition. -/
def Pool.admitted {τ : Type} (handle : Handler Op ε τ σ) (cond : (β : Type) → Op β → σ → Prop)
    [∀ β op s, Decidable (cond β op s)] : List (ι × τ) → Pool Op ε σ ι → Bool
  | [], _ => true
  | (i, t) :: schedule, P =>
    match P.threads i with
    | .call op k =>
      decide (cond _ op P.shared) && Pool.admitted handle cond schedule
        ⟨Function.update P.threads i (k (handle _ op t P.shared).1), (handle _ op t P.shared).2⟩
    | _ => Pool.admitted handle cond schedule P

theorem Pool.play_guarded {τ : Type} (handle : Handler Op ε τ σ)
    (cond : (β : Type) → Op β → σ → Prop) [∀ β op s, Decidable (cond β op s)]
    (schedule : List (ι × τ)) (P : Pool Op ε σ ι) (h : P.admitted handle cond schedule = true) :
    PoolRuns (handle.exec.guard cond) P (P.play handle schedule) := by
  induction schedule generalizing P with
  | nil => exact .refl
  | cons step schedule ih =>
    obtain ⟨i, t⟩ := step
    unfold Pool.admitted at h
    unfold Pool.play
    split
    · next op k hi =>
      simp only [hi, Bool.and_eq_true, decide_eq_true_eq] at h
      exact .handled handle cond i t hi h.1 (ih _ h.2)
    · next hi =>
      refine ih P ?_
      split at h
      · next hi' => exact absurd hi' (hi _ _ _)
      · exact h

end Interleaved

end DurableAgent.Library
