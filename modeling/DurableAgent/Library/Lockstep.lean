import DurableAgent.Library.Session

/-!
# Two programs in lockstep

Two runs over two handlers, call by call: the second is supplied from outside, and the first with
what is made of that supply. Programs agree when their calls keep a relation between the two
states, whatever is supplied, and their results are related. Then they agree wherever they are
stopped.
-/

namespace DurableAgent.Library

variable {Op : Type → Type} {ε α β σ σ' τ : Type}

/-- Two handlers, what the first is supplied with when the second is given a supply, and which
supplies there are. -/
structure Lockstep (Op : Type → Type) (ε σ σ' τ : Type) where
  first : Handler Op ε τ σ
  second : Handler Op ε τ σ'
  adapt : (β : Type) → Op β → τ → σ' → τ
  proper : (β : Type) → Op β → τ → σ' → Prop
  inv : σ → σ' → Prop

namespace Lockstep

variable (L : Lockstep Op ε σ σ' τ)

/-- The supplies of the first run, made of those of the second. -/
def adapted : Prog Op ε α → List τ → σ' → List τ
  | .call op k, t :: ts, s' =>
    L.adapt _ op t s' :: adapted (k (L.second _ op t s').1) ts (L.second _ op t s').2
  | _, ts, _ => ts

/-- Every supply of a run is one that there is. -/
def Supplied : Prog Op ε α → List τ → σ' → Prop
  | .call op k, t :: ts, s' =>
    L.proper _ op t s' ∧ Supplied (k (L.second _ op t s').1) ts (L.second _ op t s').2
  | _, _, _ => True

/-- Whatever is supplied, the calls keep the invariant, and the results are related; exceptions
are the same, and leave the states as the second relation says. -/
def Agrees (A : α → α → σ → σ' → Prop) (E : σ → σ' → Prop) :
    Prog Op ε α → Prog Op ε α → σ → σ' → Prop
  | .done (.ok a), q, s, s' => ∃ a', q = .done (.ok a') ∧ A a a' s s'
  | .done (.error e), q, s, s' => q = .done (.error e) ∧ E s s'
  | .halt, q, _, _ => q = .halt
  | .call (β := β) op k, q, s, s' => ∃ (op' : Op β) (k' : Except ε β → Prog Op ε α),
    q = .call op' k' ∧ ∀ t, L.proper _ op' t s' →
      L.inv (L.first _ op (L.adapt _ op' t s') s).2 (L.second _ op' t s').2 ∧
      Agrees A E (k (L.first _ op (L.adapt _ op' t s') s).1) (k' (L.second _ op' t s').1)
        (L.first _ op (L.adapt _ op' t s') s).2 (L.second _ op' t s').2

variable {L} {A A' : α → α → σ → σ' → Prop} {B : β → β → σ → σ' → Prop} {E E' : σ → σ' → Prop}
  {s : σ} {s' : σ'}

theorem agrees_pure {a a' : α} (h : A a a' s s') :
    L.Agrees A E (pure a : Prog Op ε α) (pure a') s s' := ⟨a', rfl, h⟩

theorem agrees_raise {e : ε} (h : E s s') :
    L.Agrees A E (Prog.raise e : Prog Op ε α) (Prog.raise e) s s' := ⟨rfl, h⟩

theorem agrees_done {r : Except ε α} (h : ∀ a, r = .ok a → A a a s s')
    (he : ∀ e, r = .error e → E s s') : L.Agrees A E (.done r : Prog Op ε α) (.done r) s s' := by
  cases r with
  | ok a => exact ⟨a, rfl, h a rfl⟩
  | error e => exact ⟨rfl, he e rfl⟩

/-- One call on either side. -/
theorem agrees_perform {op op' : Op α}
    (h : ∀ t, L.proper _ op' t s' →
      L.inv (L.first _ op (L.adapt _ op' t s') s).2 (L.second _ op' t s').2 ∧
      L.Agrees A E (.done (L.first _ op (L.adapt _ op' t s') s).1)
        (.done (L.second _ op' t s').1)
        (L.first _ op (L.adapt _ op' t s') s).2 (L.second _ op' t s').2) :
    L.Agrees A E (Prog.perform op) (Prog.perform op') s s' := ⟨op', .done, rfl, h⟩

/-- The sequencing rule. -/
theorem Agrees.bind {p q : Prog Op ε α} {f g : α → Prog Op ε β} (hinv : L.inv s s')
    (hp : L.Agrees A E p q s s')
    (hf : ∀ a a' s s', L.inv s s' → A a a' s s' → L.Agrees B E (f a) (g a') s s') :
    L.Agrees B E (p >>= f) (q >>= g) s s' := by
  induction p generalizing q s s' with
  | done r =>
    cases r with
    | ok a =>
      obtain ⟨a', rfl, ha⟩ := hp
      exact hf a a' s s' hinv ha
    | error e =>
      obtain ⟨rfl, he⟩ := hp
      exact ⟨rfl, he⟩
  | halt =>
    obtain rfl : q = .halt := hp
    rfl
  | call op k ih =>
    obtain ⟨op', k', rfl, hsteps⟩ := hp
    refine ⟨op', fun x => k' x >>= g, rfl, fun t ht => ?_⟩
    obtain ⟨hinv', hk⟩ := hsteps t ht
    exact ⟨hinv', ih _ hinv' hk⟩

/-- The same exception reaches the handlers of both. -/
theorem Agrees.tryCatch {p q : Prog Op ε α} {handler handler' : ε → Prog Op ε α}
    (hinv : L.inv s s') (hp : L.Agrees A E p q s s')
    (hh : ∀ e s s', L.inv s s' → E s s' → L.Agrees A E' (handler e) (handler' e) s s') :
    L.Agrees A E' (p.tryCatch handler) (q.tryCatch handler') s s' := by
  induction p generalizing q s s' with
  | done r =>
    cases r with
    | ok a =>
      obtain ⟨a', rfl, ha⟩ := hp
      exact ⟨a', rfl, ha⟩
    | error e =>
      obtain ⟨rfl, he⟩ := hp
      exact hh e s s' hinv he
  | halt =>
    obtain rfl : q = .halt := hp
    rfl
  | call op k ih =>
    obtain ⟨op', k', rfl, hsteps⟩ := hp
    refine ⟨op', fun x => (k' x).tryCatch handler', rfl, fun t ht => ?_⟩
    obtain ⟨hinv', hk⟩ := hsteps t ht
    exact ⟨hinv', ih _ hinv' hk⟩

theorem Agrees.mono {p q : Prog Op ε α} (hp : L.Agrees A E p q s s')
    (h : ∀ a a' s s', A a a' s s' → A' a a' s s') (he : ∀ s s', E s s' → E' s s') :
    L.Agrees A' E' p q s s' := by
  induction p generalizing q s s' with
  | done r =>
    cases r with
    | ok a =>
      obtain ⟨a', rfl, ha⟩ := hp
      exact ⟨a', rfl, h a a' s s' ha⟩
    | error e => exact ⟨hp.1, he s s' hp.2⟩
  | halt => exact hp
  | call op k ih =>
    obtain ⟨op', k', rfl, hsteps⟩ := hp
    exact ⟨op', k', rfl, fun t ht => ⟨(hsteps t ht).1, ih _ (hsteps t ht).2⟩⟩

/-- Programs that agree come, under the supplies of one run, to the same outcomes and to states
that the invariant relates, wherever the supplies end. -/
theorem Agrees.advance {p q : Prog Op ε α} (hinv : L.inv s s')
    (hp : L.Agrees (fun a a' _ _ => a = a') E p q s s') (ts : List τ) (hts : L.Supplied q ts s') :
    L.inv (L.first.advance p (L.adapted q ts s') s).2 (L.second.advance q ts s').2 ∧
      (L.first.advance p (L.adapted q ts s') s).1.outcome =
        (L.second.advance q ts s').1.outcome := by
  induction p generalizing q s s' ts with
  | done r =>
    cases r with
    | ok a =>
      obtain ⟨a', rfl, rfl⟩ := hp
      cases ts <;> exact ⟨hinv, rfl⟩
    | error e =>
      obtain ⟨rfl, -⟩ := hp
      cases ts <;> exact ⟨hinv, rfl⟩
  | halt =>
    obtain rfl : q = .halt := hp
    cases ts <;> exact ⟨hinv, rfl⟩
  | call op k ih =>
    obtain ⟨op', k', rfl, hsteps⟩ := hp
    cases ts with
    | nil => exact ⟨hinv, rfl⟩
    | cons t ts =>
      obtain ⟨hinv', hk⟩ := hsteps t hts.1
      exact ih _ hinv' hk ts hts.2

/-! ## One program after another -/

variable (L)

def adaptedAll : List (Prog Op ε α × List τ) → σ' → List (Prog Op ε α × List τ)
  | (p, ts) :: rest, s' =>
    (p, L.adapted p ts s') :: adaptedAll rest (L.second.advance p ts s').2
  | [], _ => []

def SuppliedAll : List (Prog Op ε α × List τ) → σ' → Prop
  | (p, ts) :: rest, s' => L.Supplied p ts s' ∧ SuppliedAll rest (L.second.advance p ts s').2
  | [], _ => True

end Lockstep

/-- Programs one after the other, each as far as its supplies reach, and what each has ended in. -/
def Handler.sequence (H : Handler Op ε τ σ) :
    List (Prog Op ε α × List τ) → σ → List (Option (Except ε α)) × σ
  | (p, ts) :: rest, s =>
    ((H.advance p ts s).1.outcome :: (sequence H rest (H.advance p ts s).2).1,
      (sequence H rest (H.advance p ts s).2).2)
  | [], s => ([], s)

/-- Programs that agree with themselves in all related states come to the same outcomes one after
the other. -/
theorem Lockstep.sequence {L : Lockstep Op ε σ σ' τ} {E : σ → σ' → Prop}
    {runs : List (Prog Op ε α × List τ)}
    (hruns : ∀ run ∈ runs, ∀ s s', L.inv s s' →
      L.Agrees (fun a a' _ _ => a = a') E run.1 run.1 s s')
    {s : σ} {s' : σ'} (hinv : L.inv s s') (hts : L.SuppliedAll runs s') :
    L.inv (L.first.sequence (L.adaptedAll runs s') s).2 (L.second.sequence runs s').2 ∧
      (L.first.sequence (L.adaptedAll runs s') s).1 = (L.second.sequence runs s').1 := by
  induction runs generalizing s s' with
  | nil => exact ⟨hinv, rfl⟩
  | cons run rest ih =>
    obtain ⟨hinv', hout⟩ := (hruns run List.mem_cons_self s s' hinv).advance hinv run.2 hts.1
    obtain ⟨hinv'', houts⟩ := ih (fun r hr => hruns r (List.mem_cons_of_mem _ hr)) hinv' hts.2
    refine ⟨hinv'', ?_⟩
    change _ :: _ = _ :: _
    rw [hout, houts]

end DurableAgent.Library
