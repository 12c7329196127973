import DurableAgent.Application.Transitions
import DurableAgent.Library.Session

/-!
# Identical requests

Callers that all ask for the same pause, or the same cancellation, under one key. The first look
at the key, the second look at it and the commit are calls of their own, and a commit that finds
the key taken by then is refused by the database in words that nobody translates. Short of that,
one request is queued and everyone is told of it.
-/

namespace DurableAgent.Orchestration

open Library Library.Prog Store Contract

-- Reducing a call of the service would otherwise reduce the text that it strips.
attribute [local irreducible] strip

/-- A pause or a cancellation that is asked for. -/
structure LifecycleCall where
  kind : LifecycleKind
  runId : String
  ownerId : String
  reason : String
  idempotencyKey : String

/-- The states of a run in which a request of the kind is accepted -/
def Accepts : LifecycleKind → RunState → Prop
  | .pause, state => state = .RUNNING ∨ state = .PAUSE_REQUESTED
  | .cancel, state => ¬ (state = .COMPLETED ∨ state = .FAILED ∨ state = .CANCELLED)

variable {Text ι α β : Type} [DecidableEq ι] {codec : Codec Text} {sha256Digest : String → String}
  {A : Agent Text} {c : LifecycleCall} {s₀ s s' : StoreState Text}
  {op : StoreOp Text β} {x : Except Exn β} {request : LifecycleRequest} {run : RunRecord}

namespace LifecycleCall

variable (A c)

/-- `AgentService.pause` and `AgentService.cancel` -/
def program : StoreProg Text LifecycleRequest :=
  match c.kind with
  | .pause => A.requestPauseOf c.runId c.ownerId c.reason c.idempotencyKey
  | .cancel => A.requestCancelOf c.runId c.ownerId c.reason c.idempotencyKey

abbrev pk : String := A.lifecyclePk c.ownerId c.runId c.kind c.idempotencyKey

abbrev requestHash : String := A.requestHash c.runId c.reason

/-- A look at the key, and the request that it stands for. -/
def look : StoreProg Text (Option LifecycleRequest) := do
  let existing ← sql (.getIdempotencyKey (c.pk A))
  earlierRequest c.kind (c.requestHash A) existing

/-- What is left to do once the request is stored. -/
def record (run : RunRecord) (request : LifecycleRequest) : StoreProg Text Unit :=
  match c.kind with
  | .pause => do
    requestPause run
    publish run.runId "pause.requested" none
      [("request_id", .str request.requestId), ("reason", .str c.reason)]
  | .cancel =>
    publish run.runId "cancellation.requested" none
      [("request_id", .str request.requestId), ("reason", .str c.reason)]

/-- What is left to do for a run that accepts the request. -/
def proceed (run : RunRecord) : StoreProg Text LifecycleRequest := do
  let request ← A.newRequest run c.ownerId c.kind c.reason c.idempotencyKey
    (A.requestHash run.runId c.reason)
  c.record run request
  pure request

def unlessFound (run : RunRecord) : Option LifecycleRequest → StoreProg Text LifecycleRequest :=
  match c.kind with
  | .pause => A.pauseUnlessFound run c.ownerId c.reason c.idempotencyKey
  | .cancel => A.cancelUnlessFound run c.ownerId c.reason c.idempotencyKey

variable {A c}

theorem program_eq : c.program A = (do
    let run ← ownedRun c.runId c.ownerId
    if strip c.idempotencyKey = "" then
      raise (.of .domainValidation "idempotency key must not be blank")
    else do
      let existing ← c.look A
      c.unlessFound A run existing) := by
  obtain ⟨kind, runId, ownerId, reason, idempotencyKey⟩ := c
  cases kind <;> rfl

theorem unlessFound_some : c.unlessFound A run (some request) = pure request := by
  obtain ⟨kind, runId, ownerId, reason, idempotencyKey⟩ := c
  cases kind <;> rfl

theorem unlessFound_none (h : Accepts c.kind run.state) :
    c.unlessFound A run none = c.proceed A run := by
  obtain ⟨kind, runId, ownerId, reason, idempotencyKey⟩ := c
  cases kind with
  | pause =>
    change (if run.state ≠ .RUNNING ∧ run.state ≠ .PAUSE_REQUESTED then _ else _) = _
    rw [if_neg]
    · unfold proceed record
      simp only [bind_assoc]
    · rintro ⟨hne, hne'⟩
      rcases h with h | h
      · exact hne h
      · exact hne' h
  | cancel =>
    change (if run.state = .COMPLETED ∨ run.state = .FAILED ∨ run.state = .CANCELLED then _
      else _) = _
    rw [if_neg h]
    rfl

/-- A run that does not accept the request ends the call. -/
theorem unlessFound_refused (h : ¬ Accepts c.kind run.state) :
    ∃ e, c.unlessFound A run none = raise e := by
  obtain ⟨kind, runId, ownerId, reason, idempotencyKey⟩ := c
  cases kind with
  | pause =>
    change ∃ e, (if run.state ≠ .RUNNING ∧ run.state ≠ .PAUSE_REQUESTED then _ else _) = _
    rw [if_pos (not_or.mp h)]
    exact ⟨_, rfl⟩
  | cancel =>
    change ∃ e, (if run.state = .COMPLETED ∨ run.state = .FAILED ∨ run.state = .CANCELLED then _
      else _) = _
    rw [if_pos (not_not.mp h)]
    exact ⟨_, rfl⟩

end LifecycleCall

/-! ## What the calls meet -/

/-- The publication of an event -/
def Publishes : (β : Type) → StoreOp Text β → Prop
  | _, .checkpoint (.publish _) => True
  | _, _ => False

/-- The calls of the store, where a publication may also lose against too many others. -/
def contendedExec (codec : Codec Text) (sha256Digest : String → String) :
    Exec (StoreOp Text) Exn (StoreState Text) := fun β op s x s' =>
  (handle codec sha256Digest).exec β op s x s' ∨
    (Publishes β op ∧ (∃ message, x = .error (conflict message)) ∧ s' = s)

/-- The identifier of a new request is not that of a stored one. -/
def Minted : (β : Type) → StoreOp Text β → StoreState Text → Prop
  | _, .sql (.insertLifecycleRequest request _), s => s.requests.find (requestPk request) = none
  | _, _, _ => True

/-- Whether the commit of a new request, if the call is one, passes a test. -/
def passes (test : LifecycleRequest → IdempotencyKey → Bool) : (β : Type) → StoreOp Text β → Bool
  | _, .sql (.insertLifecycleRequest request key) => test request key
  | _, _ => true

theorem minted_iff {β : Type} {op : StoreOp Text β} {s : StoreState Text} :
    Minted β op s ↔
      passes (fun request _ => s.requests.find (requestPk request) = none) β op = true := by
  unfold Minted passes
  split <;> simp

instance (β : Type) (op : StoreOp Text β) (s : StoreState Text) : Decidable (Minted β op s) :=
  decidable_of_iff _ minted_iff.symm

/-- The commit of a new request finds its key free. -/
def Unraced : (β : Type) → StoreOp Text β → StoreState Text → Prop
  | _, .sql (.insertLifecycleRequest _ key), s => s.keys.find key.idempotencyPk = none
  | _, _, _ => True

theorem unraced_iff {β : Type} {op : StoreOp Text β} {s : StoreState Text} :
    Unraced β op s ↔ passes (fun _ key => s.keys.find key.idempotencyPk = none) β op = true := by
  unfold Unraced passes
  split <;> simp

instance (β : Type) (op : StoreOp Text β) (s : StoreState Text) : Decidable (Unraced β op s) :=
  decidable_of_iff _ unraced_iff.symm

abbrev mintedExec (codec : Codec Text) (sha256Digest : String → String) :
    Exec (StoreOp Text) Exn (StoreState Text) := (contendedExec codec sha256Digest).guard Minted

abbrev unracedExec (codec : Codec Text) (sha256Digest : String → String) :
    Exec (StoreOp Text) Exn (StoreState Text) := (mintedExec codec sha256Digest).guard Unraced

/-- Callers that all ask for the same. -/
def sameRequests (ι : Type) (A : Agent Text) (c : LifecycleCall) (s : StoreState Text) :
    Session (StoreOp Text) Exn LifecycleRequest (StoreState Text) ι := ⟨fun _ => c.program A, s⟩

/-- A first request that the service accepts: the run is there, it is the caller's and in a state
that admits the request, and the key is a proper one that has not been used. -/
structure Eligible (A : Agent Text) (c : LifecycleCall) (s : StoreState Text) : Prop where
  run : ∃ run ∈ s.runs.rows, run.runId = c.runId ∧ run.ownerId = c.ownerId ∧
    Accepts c.kind run.state
  key : strip c.idempotencyKey ≠ ""
  unused : s.keys.find (c.pk A) = none

/-- Either nobody has come to an end, and nothing is queued, or one request is, and whoever has
come to an end has returned it or reports a conflict. -/
def Converged (s₀ : StoreState Text)
    (S : Session (StoreOp Text) Exn LifecycleRequest (StoreState Text) ι) : Prop :=
  (S.shared.requests.rows = s₀.requests.rows ∧ ∀ i r, S.callers i ≠ .done r) ∨
    ∃ request, S.shared.requests.rows = request :: s₀.requests.rows ∧
      ∀ i r, S.callers i = .done r → r = .ok request ∨ ∃ message, r = .error (conflict message)

/-! ## One request -/

/-- The run accepts the request still. -/
def StillOpen (c : LifecycleCall) (s : StoreState Text) : Prop :=
  ∃ run ∈ s.runs.rows, run.runId = c.runId ∧ run.ownerId = c.ownerId ∧ Accepts c.kind run.state

def Unqueued (A : Agent Text) (c : LifecycleCall) (s₀ s : StoreState Text) : Prop :=
  s.requests.rows = s₀.requests.rows ∧ s.keys.find (c.pk A) = none

/-- The request is the only new one, and its key refers to it. -/
def Queued (A : Agent Text) (c : LifecycleCall) (s₀ : StoreState Text)
    (request : LifecycleRequest) (s : StoreState Text) : Prop :=
  s.requests.rows = request :: s₀.requests.rows ∧
    ∃ key, s.keys.find (c.pk A) = some key ∧ key.requestHash = c.requestHash A ∧
      requestPk request = (c.kind, key.resourceId)

/-- The callers rely on a queued request to stay the one that is queued. -/
def converging (A : Agent Text) (c : LifecycleCall) (s₀ : StoreState Text) :
    Contract (StoreOp Text) (StoreState Text) where
  inv s := StillOpen c s ∧ (Unqueued A c s₀ s ∨ ∃ request, Queued A c s₀ request s)
  rely s s' := ∀ request, Queued A c s₀ request s → Queued A c s₀ request s'
  guar s s' := ∀ request, Queued A c s₀ request s → Queued A c s₀ request s'
  pre _ _ _ := True
  refl _ := fun _ h => h
  trans h h' := fun request hs => h' request (h request hs)

/-- The request is queued, and the program goes on or reports a conflict. -/
def Told (A : Agent Text) (c : LifecycleCall) (s₀ : StoreState Text) (request : LifecycleRequest)
    (r : Except Exn α) (s : StoreState Text) : Prop :=
  Queued A c s₀ request s ∧ ∀ e, r = .error e → ∃ message, e = conflict message

abbrev Converges (A : Agent Text) (c : LifecycleCall) (s₀ : StoreState Text) (codec : Codec Text)
    (sha256Digest : String → String) (p : StoreProg Text α)
    (Q : Except Exn α → StoreState Text → Prop) (s : StoreState Text) : Prop :=
  (converging A c s₀).Meets (unracedExec codec sha256Digest) p Q s

section Steps

variable {Q : Except Exn α → StoreState Text → Prop} {C : Contract (StoreOp Text) (StoreState Text)}
  {exec : Exec (StoreOp Text) Exn (StoreState Text)} {K : StoreState Text → Prop}

/-- A statement that leaves the store as it is, and the program after it. -/
theorem meets_read {op : SqlOp β} {f : β → StoreProg Text α}
    (hexec : ∀ s x s', exec β (.sql op) s x s' → contendedExec codec sha256Digest β (.sql op) s x s')
    (hread : ∀ t (s : StoreState Text), (handleSql β op t s).2 = s) (hpre : ∀ s, C.pre β (.sql op) s)
    (hguar : ∀ s, C.guar s s) (hK : ∀ s s', C.rely s s' → K s → K s') (hs : K s)
    (h : ∀ t s, C.inv s → K s → ∀ x, (handleSql β op t s).1 = x →
      C.Meets exec ((.done x : StoreProg Text β) >>= f) Q s) :
    C.Meets exec (sql op >>= f) Q s := by
  refine Meets.step (K := K) (fun s s' hrely _ => hK s s' hrely) hs fun s₁ hinv hs₁ => ?_
  refine ⟨hpre s₁, fun x s₂ hop => ?_⟩
  rcases hexec s₁ x s₂ hop with ⟨t, hhandle⟩ | ⟨hpublish, -⟩
  · obtain ⟨hanswer, hstate⟩ := Prod.mk.inj hhandle
    have hsame : s₁ = s₂ := (hread t s₁).symm.trans hstate
    subst hsame
    exact ⟨hguar s₁, hinv, h t s₁ hinv hs₁ x hanswer⟩
  · exact hpublish.elim

theorem converges_read {op : SqlOp β} {f : β → StoreProg Text α}
    (hread : ∀ t (s : StoreState Text), (handleSql β op t s).2 = s)
    (hK : ∀ s s', (converging A c s₀).rely s s' → K s → K s') (hs : K s)
    (h : ∀ t s, (converging A c s₀).inv s → K s → ∀ x, (handleSql β op t s).1 = x →
      Converges A c s₀ codec sha256Digest ((.done x : StoreProg Text β) >>= f) Q s) :
    Converges A c s₀ codec sha256Digest (sql op >>= f) Q s :=
  meets_read (fun _ _ _ hop => hop.2.2) hread (fun _ => trivial) (fun _ _ h => h) hK hs h

end Steps

/-- A look finds nothing, or the request that is queued. -/
theorem converges_look :
    Converges A c s₀ codec sha256Digest (c.look A) (fun r s' => r = .ok none ∨
      ∃ request, r = .ok (some request) ∧ Queued A c s₀ request s') s := by
  refine converges_read (K := fun _ => True) (fun _ _ => rfl) (fun _ _ _ h => h) trivial
    fun t s₁ hinv _ x hx => ?_
  subst hx
  rcases hinv.2 with hnone | ⟨request, hrows, key, hfind, hhash, hpk⟩
  · change Converges A c s₀ codec sha256Digest
      (earlierRequest c.kind (c.requestHash A) (s₁.keys.find (c.pk A))) _ s₁
    rw [hnone.2]
    exact fun _ _ _ => .inl rfl
  · change Converges A c s₀ codec sha256Digest
      (earlierRequest c.kind (c.requestHash A) (s₁.keys.find (c.pk A))) _ s₁
    rw [hfind]
    unfold earlierRequest
    dsimp only
    rw [if_neg (not_not.mpr hhash)]
    refine converges_read (K := Queued A c s₀ request) (fun _ _ => rfl)
      (fun _ _ hrely h => hrely request h) ⟨hrows, key, hfind, hhash, hpk⟩
      fun t s₂ _ hs₂ x hx => ?_
    have hrequest : s₂.requests.find (c.kind, key.resourceId) = some request := by
      rw [Table.find_eq_some, hs₂.1]
      exact ⟨List.mem_cons_self, hpk⟩
    obtain rfl : x = .ok (some request) := hx.symm.trans (congrArg Except.ok hrequest)
    exact fun s₃ hrely _ => .inr ⟨request, rfl, hrely request hs₂⟩

/-- The commit of a new request, which finds its key free, queues it. -/
theorem converges_insert {key : IdempotencyKey} (hkey : key.idempotencyPk = c.pk A)
    (hhash : key.requestHash = c.requestHash A)
    (hpk : requestPk request = (c.kind, key.resourceId)) :
    Converges A c s₀ codec sha256Digest (insertRequest request key none)
      (fun r s' => r = .ok request ∧ Queued A c s₀ request s') s := by
  refine Meets.step (K := fun _ => True) (fun _ _ _ _ h => h) trivial fun s₁ hinv _ => ?_
  refine ⟨trivial, fun x s₂ hop => ?_⟩
  obtain ⟨hfree, hminted, hop⟩ := hop
  have hnone : s₁.keys.find (c.pk A) = none := by rw [← hkey]; exact hfree
  have hrows : s₁.requests.rows = s₀.requests.rows := by
    rcases hinv.2 with hunqueued | ⟨other, -, row, hfind, -⟩
    · exact hunqueued.1
    · rw [hnone] at hfind
      cases hfind
  obtain ⟨requests, hrequests, hnew, -⟩ := Table.insert_of_find_none hminted
  obtain ⟨keys, hkeys, -, hfound⟩ := Table.insert_of_find_none hfree
  have hcommit : s₁.insertLifecycleRequest request key =
      .ok ((), { s₁ with requests := requests, keys := keys }) := by
    unfold StoreState.insertLifecycleRequest
    rw [hrequests, hkeys]
  rcases hop with ⟨t, hhandle⟩ | ⟨hpublish, -⟩
  · have hsettled : settle s₁ (s₁.insertLifecycleRequest request key) = (x, s₂) := hhandle
    rw [hcommit] at hsettled
    obtain ⟨rfl, rfl⟩ := Prod.mk.inj hsettled
    have hqueued : Queued A c s₀ request { s₁ with requests := requests, keys := keys } := by
      refine ⟨?_, key, ?_, hhash, hpk⟩
      · rw [← hrows]
        exact hnew
      · rw [← hkey]
        exact hfound
    refine ⟨fun other hother => ?_, ⟨hinv.1, .inr ⟨request, hqueued⟩⟩, fun s₃ hrely _ => ?_⟩
    · obtain ⟨-, row, hfind, -⟩ := hother
      rw [hnone] at hfind
      cases hfind
    · exact ⟨rfl, hrely request hqueued⟩
  · exact hpublish.elim

/-- A new request is queued, or the one that another caller has queued meanwhile is found. -/
theorem converges_newRequest (hid : run.runId = c.runId) :
    Converges A c s₀ codec sha256Digest
      (A.newRequest run c.ownerId c.kind c.reason c.idempotencyKey
        (A.requestHash run.runId c.reason))
      (fun r s' => ∃ request, r = .ok request ∧ Queued A c s₀ request s') s := by
  unfold Agent.newRequest
  rw [hid]
  refine converges_read (K := fun _ => True) (fun _ _ => rfl) (fun _ _ _ h => h) trivial
    fun t s₁ _ _ x hx => ?_
  subst hx
  refine converges_read (K := fun _ => True) (fun _ _ => rfl) (fun _ _ _ h => h) trivial
    fun t' s₂ _ _ x hx => ?_
  subst hx
  unfold Agent.storeRequest
  dsimp only
  change Converges A c s₀ codec sha256Digest
    (sql (.getIdempotencyKey (c.pk A)) >>= fun existing =>
      earlierRequest c.kind (c.requestHash A) existing >>= _) _ s₂
  rw [← bind_assoc]
  refine Meets.bind converges_look (fun earlier s₃ _ hearlier => ?_) fun e s₃ _ h => ?_
  · refine converges_read (K := fun s => earlier = none ∨
      ∃ request, earlier = some request ∧ Queued A c s₀ request s) (fun _ _ => rfl)
      (fun s s' hrely h => ?_) ?_ fun t'' s₄ _ hs₄ x hx => ?_
    · rcases h with h | ⟨request, h, hs⟩
      · exact .inl h
      · exact .inr ⟨request, h, hrely request hs⟩
    · rcases hearlier with h | ⟨request, h, hs⟩
      · exact .inl (Except.ok.inj h)
      · exact .inr ⟨request, Except.ok.inj h, hs⟩
    · subst hx
      rcases hs₄ with rfl | ⟨request, rfl, hs⟩
      · exact (converges_insert rfl rfl rfl).mono fun r s' _ h => ⟨_, h⟩
      · exact fun s₅ hrely _ => ⟨request, rfl, hrely request hs⟩
  · rcases h with ⟨⟨⟩⟩ | ⟨_, ⟨⟩, -⟩

/-- What is told to the caller once a request is queued. -/
theorem told_pure {a : α} (h : Queued A c s₀ request s) :
    Converges A c s₀ codec sha256Digest (pure a) (fun r s' => Told A c s₀ request r s' ∧ r = .ok a)
      s :=
  fun _ hrely _ => ⟨⟨hrely request h, fun _ he => by cases he⟩, rfl⟩

/-- A publication leaves the requests alone. -/
theorem told_publish {eventType : String} {payload : List (String × Json)}
    (h : Queued A c s₀ request s) :
    Converges A c s₀ codec sha256Digest (publish c.runId eventType none payload)
      (Told A c s₀ request) s := by
  refine Meets.step (K := Queued A c s₀ request) (fun _ _ hrely _ hs => hrely request hs) h
    fun s₁ hinv hs₁ => ⟨trivial, fun x s₂ hop => ?_⟩
  rcases hop with ⟨-, -, ⟨t, hhandle⟩ | ⟨-, ⟨message, rfl⟩, rfl⟩⟩
  · obtain ⟨rfl, rfl⟩ := Prod.mk.inj hhandle
    exact ⟨fun _ hother => hother, hinv, fun s₃ hrely _ =>
      ⟨hrely request hs₁, fun _ he => by cases he⟩⟩
  · exact ⟨fun _ hother => hother, hinv, fun s₃ hrely _ =>
      ⟨hrely request hs₁, fun e he => ⟨message, (Except.error.inj he).symm⟩⟩⟩

/-- The running run is marked, or has changed meanwhile. -/
theorem told_requestPause (hkind : c.kind = .pause) (hid : run.runId = c.runId)
    (howner : run.ownerId = c.ownerId) (h : Queued A c s₀ request s) :
    Converges A c s₀ codec sha256Digest (requestPause run) (Told A c s₀ request) s := by
  unfold requestPause
  by_cases hrunning : run.state = .RUNNING
  · rw [if_pos hrunning, hrunning]
    refine converges_read (K := Queued A c s₀ request) (fun _ _ => rfl)
      (fun _ _ hrely hs => hrely request hs) h fun t s₁ _ hs₁ x hx => ?_
    subst hx
    refine Meets.step (K := Queued A c s₀ request) (fun _ _ hrely _ hs => hrely request hs) hs₁
      fun s₂ hinv hs₂ => ⟨trivial, fun x s₃ hop => ?_⟩
    rcases hop with ⟨-, -, ⟨t', hhandle⟩ | ⟨hpublish, -⟩⟩
    · have hsettled : settle s₂ (s₂.updateRun
          { run with state := .PAUSE_REQUESTED, updatedAt := t.now } run.version) = (x, s₃) :=
        hhandle
      unfold StoreState.updateRun at hsettled
      cases hswap : s₂.runs.swap RunRecord.version run.runId run.version fun _ =>
          withVersion { run with state := .PAUSE_REQUESTED, updatedAt := t.now } run.version with
      | some runs =>
        rw [hswap] at hsettled
        obtain ⟨rfl, rfl⟩ := Prod.mk.inj hsettled
        obtain ⟨row, hrow, hkey, -, hreplace⟩ := Table.swap_eq_some.mp hswap
        have hopen : StillOpen c { s₂ with runs := runs } := by
          let marked :=
            withVersion { run with state := .PAUSE_REQUESTED, updatedAt := t.now } run.version
          have hmarked : marked.runId = row.runId := hkey.symm
          refine ⟨marked, ?_, hid, howner, ?_⟩
          · rw [← hreplace]
            exact (Table.mem_replace hrow hmarked marked).mpr (.inl rfl)
          · rw [hkind]
            exact .inr rfl
        exact ⟨fun _ hother => hother, ⟨hopen, hinv.2⟩, fun s₄ hrely _ =>
          ⟨hrely request hs₂, fun _ he => by cases he⟩⟩
      | none =>
        rw [hswap] at hsettled
        obtain ⟨rfl, rfl⟩ := Prod.mk.inj hsettled
        exact ⟨fun _ hother => hother, hinv, fun s₄ hrely _ =>
          ⟨hrely request hs₂, fun e he => ⟨_, (Except.error.inj he).symm⟩⟩⟩
    · exact hpublish.elim
  · rw [if_neg hrunning]
    exact (told_pure h).mono fun r s' _ hs' => hs'.1

/-- A run that accepts the request. -/
theorem converges_proceed (hid : run.runId = c.runId) (howner : run.ownerId = c.ownerId) :
    Converges A c s₀ codec sha256Digest (c.proceed A run)
      (fun r s' => ∃ request, Queued A c s₀ request s' ∧
        (r = .ok request ∨ ∃ message, r = .error (conflict message))) s := by
  unfold LifecycleCall.proceed
  refine Meets.bind (converges_newRequest hid) (fun request s₁ _ h => ?_) fun e s₁ _ h => ?_
  · obtain ⟨_, ⟨⟩, hqueued⟩ := h
    refine Meets.bind (Q := Told A c s₀ request) ?_ (fun _ s₂ _ htold => ?_) fun e s₂ _ htold => ?_
    · unfold LifecycleCall.record
      cases hkind : c.kind with
      | pause =>
        refine Meets.bind (told_requestPause hkind hid howner hqueued) (fun _ s₂ _ htold => ?_)
          fun e s₂ _ htold => ⟨htold.1, fun e' he => htold.2 e' (by cases he; rfl)⟩
        rw [hid]
        exact told_publish htold.1
      | cancel =>
        rw [hid]
        exact told_publish hqueued
    · exact (told_pure htold.1).mono fun r s' _ hs' => ⟨request, hs'.1.1, .inl hs'.2⟩
    · obtain ⟨message, rfl⟩ := htold.2 e rfl
      exact ⟨request, htold.1, .inr ⟨message, rfl⟩⟩
  · obtain ⟨_, ⟨⟩, -⟩ := h

/-- Every caller of an eligible request. -/
theorem converges_program (hkey : strip c.idempotencyKey ≠ "") :
    Converges A c s₀ codec sha256Digest (c.program A)
      (fun r s' => ∃ request, Queued A c s₀ request s' ∧
        (r = .ok request ∨ ∃ message, r = .error (conflict message))) s := by
  rw [LifecycleCall.program_eq]
  unfold ownedRun
  rw [bind_assoc]
  refine converges_read (K := fun _ => True) (fun _ _ => rfl) (fun _ _ _ h => h) trivial
    fun t s₁ hinv _ x hx => ?_
  subst hx
  obtain ⟨run, hrun, hid, howner, haccepts⟩ := hinv.1
  have hget : s₁.getRun c.runId = .ok run := by
    unfold StoreState.getRun
    rw [Table.find_eq_some.mpr ⟨hrun, hid⟩]
  change Converges A c s₀ codec sha256Digest ((.done (s₁.getRun c.runId) : StoreProg Text RunRecord)
    >>= fun run => (if run.ownerId ≠ c.ownerId then
      raise (.of .securityPolicy "run is owned by another principal") else pure run) >>= _) _ s₁
  rw [hget]
  change Converges A c s₀ codec sha256Digest ((if run.ownerId ≠ c.ownerId then
      raise (.of .securityPolicy "run is owned by another principal") else pure run) >>= _) _ s₁
  rw [if_neg (not_not.mpr howner), pure_bind, if_neg hkey]
  refine Meets.bind converges_look (fun existing s₂ _ h => ?_) fun e s₂ _ h => ?_
  · rcases h with h | ⟨request, h, hqueued⟩
    · rw [Except.ok.inj h, LifecycleCall.unlessFound_none haccepts]
      exact converges_proceed hid howner
    · rw [Except.ok.inj h, LifecycleCall.unlessFound_some]
      exact (told_pure hqueued).mono fun r s' _ hs' => ⟨request, hs'.1.1, .inl hs'.2⟩
  · rcases h with ⟨⟨⟩⟩ | ⟨_, ⟨⟩, -⟩

/-! ## Requests that are not accepted -/

/-- The store is left as it is. -/
def resting (s₀ : StoreState Text) : Contract (StoreOp Text) (StoreState Text) where
  inv s := s = s₀
  rely _ _ := True
  guar _ _ := True
  pre _ _ _ := True
  refl _ := trivial
  trans _ _ := trivial

theorem rests_read {op : SqlOp β} {f : β → StoreProg Text α}
    (hread : ∀ t (s : StoreState Text), (handleSql β op t s).2 = s)
    (h : ∀ t x, (handleSql β op t s₀).1 = x → (resting s₀).Meets (mintedExec codec sha256Digest)
      ((.done x : StoreProg Text β) >>= f) (fun _ _ => True) s₀) :
    (resting s₀).Meets (mintedExec codec sha256Digest) (sql op >>= f) (fun _ _ => True) s := by
  refine meets_read (K := fun _ => True) (fun _ _ _ hop => hop.2) hread (fun _ => trivial)
    (fun _ => trivial) (fun _ _ _ h => h) trivial fun t s₁ hinv _ x hx => ?_
  have hsame : s₁ = s₀ := hinv
  subst hsame
  exact h t x hx

theorem rests_done {r : Except Exn α} :
    (resting s₀).Meets (mintedExec codec sha256Digest) (.done r) (fun _ _ => True) s :=
  fun _ _ _ => trivial

/-- A call that does not come to a request of its own, for a run that does not accept it or with
a key that was used. -/
theorem rests_look (h : s₀.keys.find (c.pk A) = none → ¬ Accepts c.kind run.state) :
    (resting s₀).Meets (mintedExec codec sha256Digest)
      (do
        let existing ← c.look A
        c.unlessFound A run existing) (fun _ _ => True) s := by
  unfold LifecycleCall.look
  rw [bind_assoc]
  refine rests_read (fun _ _ => rfl) fun t x hx => ?_
  subst hx
  change (resting s₀).Meets _ (earlierRequest c.kind (c.requestHash A) (s₀.keys.find (c.pk A)) >>= _)
    _ s₀
  cases hfind : s₀.keys.find (c.pk A) with
  | none =>
    obtain ⟨e, he⟩ := LifecycleCall.unlessFound_refused (A := A) (h hfind)
    change (resting s₀).Meets _ (c.unlessFound A run none) _ s₀
    rw [he]
    exact rests_done
  | some key =>
    unfold earlierRequest
    dsimp only
    by_cases hhash : key.requestHash ≠ c.requestHash A
    · rw [if_pos hhash]
      exact rests_done
    · rw [if_neg hhash, bind_assoc]
      refine rests_read (fun _ _ => rfl) fun t x hx => ?_
      obtain rfl : x = .ok (s₀.requests.find (c.kind, key.resourceId)) := hx.symm
      cases s₀.requests.find (c.kind, key.resourceId) with
      | none => exact rests_done
      | some request =>
        change (resting s₀).Meets _ (c.unlessFound A run (some request)) _ s₀
        rw [LifecycleCall.unlessFound_some]
        exact rests_done

/-- What is not eligible leaves no trace. -/
theorem rests_program (h : ¬ Eligible A c s₀) :
    (resting s₀).Meets (mintedExec codec sha256Digest) (c.program A) (fun _ _ => True) s := by
  rw [LifecycleCall.program_eq]
  unfold ownedRun
  rw [bind_assoc]
  refine rests_read (fun _ _ => rfl) fun t x hx => ?_
  subst hx
  change (resting s₀).Meets _ ((.done (s₀.getRun c.runId) : StoreProg Text RunRecord) >>= _) _ s₀
  unfold StoreState.getRun
  cases hfind : s₀.runs.find c.runId with
  | none => exact rests_done
  | some run =>
    obtain ⟨hrun, hid⟩ := Table.find_eq_some.mp hfind
    change (resting s₀).Meets _ ((if run.ownerId ≠ c.ownerId then
      raise (.of .securityPolicy "run is owned by another principal") else pure run :
        StoreProg Text RunRecord) >>= _) _ s₀
    by_cases howner : run.ownerId ≠ c.ownerId
    · rw [if_pos howner]
      exact rests_done
    · rw [if_neg howner, pure_bind]
      by_cases hkey : strip c.idempotencyKey = ""
      · rw [if_pos hkey]
        exact rests_done
      · rw [if_neg hkey]
        apply rests_look
        intro hunused haccepts
        exact h ⟨⟨run, hrun, hid, not_not.mp howner, haccepts⟩, hkey, hunused⟩

/-! ## Nothing is caught -/

theorem passes_earlierRequest {kind : LifecycleKind} {requestHash : String}
    (existing : Option IdempotencyKey) :
    (earlierRequest kind requestHash existing : StoreProg Text (Option LifecycleRequest)).Passes := by
  cases existing with
  | none => trivial
  | some key =>
    unfold earlierRequest
    dsimp only
    split
    · trivial
    · apply Passes.bind (passes_perform _)
      intro found
      cases found <;> trivial

theorem passes_newRequest {ownerId reason idempotencyKey requestHash : String}
    {kind : LifecycleKind} :
    (A.newRequest run ownerId kind reason idempotencyKey requestHash).Passes := by
  apply Passes.bind (passes_perform _)
  intro requestId
  apply Passes.bind (passes_perform _)
  intro createdAt
  apply Passes.bind (passes_perform _)
  intro existing
  apply Passes.bind (passes_earlierRequest existing)
  intro earlier
  apply Passes.bind (passes_perform _)
  intro now
  cases earlier with
  | some request => trivial
  | none => exact Passes.bind (passes_perform _) fun _ => trivial

theorem passes_record {request : LifecycleRequest} :
    (c.record run request : StoreProg Text Unit).Passes := by
  unfold LifecycleCall.record
  split
  · apply Passes.bind
    · unfold requestPause
      split
      · apply Passes.bind (passes_ofExcept _)
        intro state
        apply Passes.bind (passes_perform _)
        intro now
        exact Passes.bind (passes_perform _) fun _ => trivial
      · trivial
    · exact fun _ => passes_perform _
  · exact passes_perform _

theorem passes_program : (c.program A).Passes := by
  rw [LifecycleCall.program_eq]
  apply Passes.bind
  · apply Passes.bind (passes_perform _)
    intro run
    split <;> trivial
  · intro run
    split
    · trivial
    · apply Passes.bind (Passes.bind (passes_perform _) passes_earlierRequest)
      intro existing
      cases existing with
      | some request =>
        rw [LifecycleCall.unlessFound_some]
        trivial
      | none =>
        by_cases haccepts : Accepts c.kind run.state
        · rw [LifecycleCall.unlessFound_none haccepts]
          apply Passes.bind passes_newRequest
          intro request
          exact Passes.bind passes_record fun _ => trivial
        · obtain ⟨e, he⟩ := LifecycleCall.unlessFound_refused (A := A) haccepts
          rw [he]
          trivial

/-! ## Every interleaving -/

/-- The commit that finds its key taken is answered with the violated constraint. -/
theorem raced_answer (hop : mintedExec codec sha256Digest β op s x s')
    (hraced : ¬ Unraced β op s) : ∃ e, x = .error e ∧ e = .other "IntegrityError" := by
  unfold Unraced at hraced
  split at hraced
  · next request key =>
    rcases hop with ⟨-, ⟨t, hhandle⟩ | ⟨hpublish, -⟩⟩
    · have hsettled : settle s (s.insertLifecycleRequest request key) = (x, s') := hhandle
      have hrefused : s.keys.insert key = none := by
        unfold Table.insert
        apply dif_pos
        obtain ⟨row, hrow⟩ := Option.ne_none_iff_exists'.mp hraced
        obtain ⟨hmem, hkey⟩ := Table.find_eq_some.mp hrow
        rw [← hkey]
        exact List.mem_map_of_mem hmem
      unfold StoreState.insertLifecycleRequest at hsettled
      rw [hrefused] at hsettled
      cases hrequests : s.requests.insert request with
      | none =>
        rw [hrequests] at hsettled
        exact ⟨_, (Prod.mk.inj hsettled).1.symm, rfl⟩
      | some requests =>
        rw [hrequests] at hsettled
        exact ⟨_, (Prod.mk.inj hsettled).1.symm, rfl⟩
    · exact hpublish.elim
  · exact absurd trivial hraced

variable {S : Session (StoreOp Text) Exn LifecycleRequest (StoreState Text) ι}

theorem converged_of_eligible (h : Eligible A c s₀)
    (hrun : SessionRuns (unracedExec codec sha256Digest) (sameRequests ι A c s₀) S) :
    Converged s₀ S := by
  obtain ⟨hinv, hmeets⟩ := SessionRuns.meets (C := converging A c s₀) (fun _ _ hguar _ => hguar)
    hrun ⟨h.run, .inl ⟨rfl, h.unused⟩⟩ fun _ => converges_program h.key
  have hended (i : ι) (r : Except Exn LifecycleRequest) (hi : S.callers i = .done r) :
      ∃ request, Queued A c s₀ request S.shared ∧
        (r = .ok request ∨ ∃ message, r = .error (conflict message)) := by
    have hcaller := hmeets i
    rw [hi] at hcaller
    exact hcaller.ended hinv
  rcases hinv.2 with hunqueued | ⟨request, hqueued⟩
  · left
    refine ⟨hunqueued.1, fun i r hi => ?_⟩
    obtain ⟨_, ⟨-, key, hfind, -⟩, -⟩ := hended i r hi
    rw [hunqueued.2] at hfind
    cases hfind
  · right
    refine ⟨request, hqueued.1, fun i r hi => ?_⟩
    obtain ⟨other, hother, hr⟩ := hended i r hi
    have hsame : other = request := (List.cons.inj (hother.1.symm.trans hqueued.1)).1
    rwa [hsame] at hr

theorem rests_of_not_eligible (h : ¬ Eligible A c s₀)
    (hrun : SessionRuns (mintedExec codec sha256Digest) (sameRequests ι A c s₀) S) :
    S.shared = s₀ :=
  (SessionRuns.meets (C := resting s₀) (fun _ _ _ _ => trivial) hrun rfl
    fun _ => rests_program h).1

def plainRun : RunRecord :=
  { runId := "run", ownerId := "owner", objective := "objective", state := .RUNNING
    configurationFingerprint := "f", createdAt := 0, updatedAt := 0 }

/-- A running run. -/
def runningStore : StoreState CheckpointEnvelope :=
  { plainStore with runs := ⟨[plainRun], by decide⟩ }

def plainPause : LifecycleCall := ⟨.pause, "run", "owner", "reason", "key"⟩

/-- Two callers of the same pause. -/
abbrev twoPauses : Session (StoreOp CheckpointEnvelope) Exn LifecycleRequest
    (StoreState CheckpointEnvelope) Bool := sameRequests Bool plainAgent plainPause runningStore

theorem eligible_plainPause : Eligible plainAgent plainPause runningStore :=
  ⟨⟨plainRun, List.mem_cons_self, rfl, rfl, .inl rfl⟩, by decide +kernel, by decide⟩

end DurableAgent.Orchestration
