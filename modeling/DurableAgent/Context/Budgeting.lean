import DurableAgent.Context.Keeping

/-!
# When the bookkeeping of a success fails

`build` refuses mandatory items that outgrow the capacity, and it is called after a success has
been committed. A success whose items are affordable is followed by its context, its checkpoint
if one is due, and its event; nothing follows one whose items are not.
-/

namespace DurableAgent.Context

open Library

variable {manager : ContextManager} {runId : String} {s₀ s : ContextState} {w : Working}
  {success : Success} {stamps : SuccessStamps}

theorem not_affordable (budget : ContextBudget) (items : List ContextItem) :
    ¬ Affordable budget items ↔ budget.available < tokens (mandatoryItems items) ∨
      Binary64.ofNat budget.available = none := by
  constructor
  · intro h
    by_contra hboth
    obtain ⟨hfits, hfloat⟩ := not_or.mp hboth
    exact h ⟨not_lt.mp hfits, hfloat⟩
  · rintro (hover | hfloat) h
    · exact absurd h.fits (not_le.mpr hover)
    · exact h.float hfloat

/-- A capacity of less than 1024 bits leaves the size of the mandatory items to decide. -/
theorem affordable_iff {budget : ContextBudget} (h : budget.available < 2 ^ 1023)
    (items : List ContextItem) :
    Affordable budget items ↔ tokens (mandatoryItems items) ≤ budget.available :=
  ⟨Affordable.fits, fun hfits => ⟨hfits, Binary64.ofNat_ne_none budget.available_pos h⟩⟩

/-- In every state that a run's context reaches, the build after a committed success raises just
where the mandatory items outgrow the capacity, or the capacity is no float; where it does not
raise, the context, the checkpoint that is due and the event follow the commit. -/
theorem build_raises_iff (h₀ : Unstarted runId s₀) (hs : Reaches manager runId s₀ s)
    (hw : s.working = some w) (hfresh : (ContextEvent.succeeded success stamps).Fresh s) :
    ((∃ e, buildAfter manager runId w success stamps = .error e) ↔
      manager.budget.available < tokens (mandatoryItems (itemsAfter w success stamps)) ∨
        Binary64.ofNat manager.budget.available = none) ∧
    ∀ snapshot summary, buildAfter manager runId w success stamps = .ok (snapshot, summary) →
      (s.step manager runId (.succeeded success stamps)).written =
          s.written ++ .committed success.taskId :: entries success snapshot ∧
        contextRow snapshot (itemsAfter w success stamps) ∈
          (s.step manager runId (.succeeded success stamps)).tables.contexts.rows := by
  have hsound := hs.sound h₀
  rw [← not_affordable]
  by_cases hafford : Affordable manager.budget (itemsAfter w success stamps)
  · obtain ⟨snapshot, summary, _, _, t, -, hsaved, hbuild, hstep⟩ :=
      bookkeep_ok hsound hw hfresh hafford
    rw [hbuild, hstep]
    refine ⟨by simp [hafford], ?_⟩
    rintro snapshot' summary' ⟨⟩
    exact ⟨rfl, by simp [hsaved.contexts]⟩
  · obtain ⟨e, herror, -⟩ := @bookkeep_error runId _ _ _ _ _ hw hafford
    rw [herror]
    exact ⟨by simp [hafford], by simp⟩

/-! ## A capacity of one token -/

/-- No context and no summary of any run. -/
def noContext : ContextState where
  tables := ⟨.empty, .empty⟩

theorem noContext_unstarted (runId : String) : Unstarted runId noContext := by
  constructor <;> simp [noContext, Table.empty]

/-- The smallest window, with a reservation for the request and a threshold. -/
def budgetOf (userRequest : Nat) (compressionThreshold : ℚ)
    (h : 128 ≤ userRequest ∧ userRequest ≤ 1791)
    (hthreshold : 1 / 5 < compressionThreshold ∧ compressionThreshold ≤ 19 / 20) :
    ContextBudget where
  contextLimit := 2048
  reservedOutput := 128
  systemInstructions := 128
  userRequest := userRequest
  compressionThreshold := compressionThreshold
  contextLimit_min := by decide
  reservedOutput_min := by decide
  systemInstructions_min := by decide
  userRequest_min := h.1
  compressionThreshold_bounds := hthreshold
  reservations_fit := by omega

def tightManager : ContextManager := ⟨budgetOf 1791 (4 / 5) (by decide) four_fifths, id⟩

/-- What the smallest window leaves to the context by default. -/
def roomyManager : ContextManager := ⟨budgetOf 128 (4 / 5) (by decide) (by norm_num), id⟩

/-- A run whose `advance` has just started. -/
def begun (manager : ContextManager) : ContextState :=
  noContext.step manager "run" (.started ⟨"item-0", 0⟩)

def firstSuccess : Success where
  taskId := "a"
  attemptCount := 1
  contextNote := "task completed"
  evidenceIds := []
  checkpointDue := true

def firstStamps : SuccessStamps where
  state := ⟨"item-1", 1⟩
  history := ⟨"item-2", 1⟩
  build := ⟨⟨"summary-1", 1⟩, ⟨"context-1", 1⟩⟩
  navigation := ⟨"item-3", 1⟩

theorem begun_reaches (manager : ContextManager) :
    Reaches manager "run" noContext (begun manager) := by
  apply Reaches.step Reaches.refl
  constructor
  · exact List.nodup_singleton _
  · simp [noContext]

theorem firstSuccess_fresh (manager : ContextManager) :
    (ContextEvent.succeeded firstSuccess firstStamps).Fresh (begun manager) := by
  constructor
  · decide
  · simp [ContextEvent.ids, SuccessStamps.ids, firstSuccess, firstStamps, begun, noContext,
      ContextState.step]

theorem firstSuccess_reaches (manager : ContextManager) :
    Reaches manager "run" noContext
      ((begun manager).step manager "run" (.succeeded firstSuccess firstStamps)) :=
  .step (begun_reaches manager) (firstSuccess_fresh manager)

/-- With a capacity that has room for the success. -/
theorem build_raises_iff_roomy :
    Affordable roomyManager.budget (itemsAfter {} firstSuccess firstStamps) ∧
      ¬ ∃ e, buildAfter roomyManager "run" {} firstSuccess firstStamps = .error e := by
  have hafford : Affordable roomyManager.budget (itemsAfter {} firstSuccess firstStamps) :=
    ⟨by decide +kernel, by decide +kernel⟩
  refine ⟨hafford, ?_⟩
  have hidle : (begun roomyManager).working = some {} := rfl
  rw [(build_raises_iff (noContext_unstarted "run") (begun_reaches _) hidle
    (firstSuccess_fresh _)).1, ← not_affordable, not_not]
  exact hafford

/-- The first success of a run with a capacity of one token is committed, and its build raises. -/
theorem success_without_context :
    Reaches tightManager "run" noContext (begun tightManager) ∧
      (∃ e, buildAfter tightManager "run" {} firstSuccess firstStamps = .error e) ∧
      ((begun tightManager).step tightManager "run"
        (.succeeded firstSuccess firstStamps)).written = [.committed "a"] := by
  have hover : ¬ Affordable tightManager.budget (itemsAfter {} firstSuccess firstStamps) :=
    (not_affordable _ _).mpr (.inl (by decide +kernel))
  obtain ⟨e, herror, hstep⟩ := @bookkeep_error "run" _ (begun tightManager) _ _ _ rfl hover
  exact ⟨begun_reaches _, ⟨e, herror⟩, by rw [hstep]; rfl⟩

end DurableAgent.Context
