import Mathlib.Logic.Function.Basic
import Mathlib.Tactic.Common

/-!
# Generations of a listing

Each generation of a listing gives the present value of every key that is there, and a tombstone
for every key that was there in the generation before and is gone. A tombstone is not carried on:
the next generation knows nothing of it.
-/

namespace DurableAgent.Library

variable {κ ν : Type}

/-- What a generation says of each key: its value, and whether it is a tombstone. -/
abbrev Generation (κ ν : Type) := κ → Option (ν × Bool)

namespace Generation

/-- The keys that are there, with their values. -/
def live (g : Generation κ ν) : κ → Option ν := fun k =>
  match g k with
  | some (v, false) => some v
  | _ => none

/-- The generation after the given one, for the present contents. -/
def next (g : Generation κ ν) (contents : κ → Option ν) : Generation κ ν := fun k =>
  match contents k with
  | some v => some (v, false)
  | none => (g.live k).map fun v => (v, true)

/-- Some key of the generation is a tombstone. -/
def Buries (g : Generation κ ν) : Prop := ∃ k v, g k = some (v, true)

variable {g : Generation κ ν} {contents : κ → Option ν}

theorem live_eq_some {k : κ} {v : ν} : g.live k = some v ↔ g k = some (v, false) := by
  unfold live
  split
  · next h => simp [h]
  · next h =>
    constructor
    · rintro ⟨⟩
    · intro hk
      exact absurd hk (h v)

theorem next_of_some {k : κ} {v : ν} (h : contents k = some v) :
    g.next contents k = some (v, false) := by
  simp [next, h]

theorem next_of_none {k : κ} (h : contents k = none) :
    g.next contents k = (g.live k).map fun v => (v, true) := by
  simp [next, h]

/-- What is there in the next generation is what is there at present. -/
@[simp] theorem live_next : (g.next contents).live = contents := by
  funext k
  cases h : contents k with
  | some v => exact live_eq_some.mpr (next_of_some h)
  | none =>
    cases hlive : (g.next contents).live k with
    | none => rfl
    | some v =>
      have hnext := live_eq_some.mp hlive
      rw [next_of_none h] at hnext
      obtain ⟨w, -, hw⟩ := Option.map_eq_some_iff.mp hnext
      simp at hw

/-- The next generation buries what was there and is gone. -/
theorem next_eq_tombstone {k : κ} {v : ν} :
    g.next contents k = some (v, true) ↔ contents k = none ∧ g.live k = some v := by
  cases h : contents k with
  | some w => simp [next_of_some h]
  | none => simp [next_of_none h]

/-- Over unchanged contents nothing is buried. -/
theorem not_buries_next : ¬ (g.next g.live).Buries := by
  rintro ⟨k, v, hk⟩
  obtain ⟨hnone, hsome⟩ := next_eq_tombstone.mp hk
  rw [hnone] at hsome
  cases hsome

/-- The next generation is the same exactly if the contents are and there was no tombstone. -/
theorem next_eq_iff : g.next contents = g ↔ contents = g.live ∧ ¬ g.Buries := by
  constructor
  · intro h
    have hlive : contents = g.live := by
      conv_rhs => rw [← h]
      exact live_next.symm
    subst hlive
    refine ⟨rfl, ?_⟩
    rw [← h]
    exact not_buries_next
  · rintro ⟨rfl, hnone⟩
    funext k
    cases hlive : g.live k with
    | some v => rw [next_of_some hlive, live_eq_some.mp hlive]
    | none =>
      rw [next_of_none hlive, hlive, Option.map_none]
      cases hk : g k with
      | none => rfl
      | some entry =>
        obtain ⟨v, deleted⟩ := entry
        cases deleted with
        | true => exact absurd ⟨k, v, hk⟩ hnone
        | false =>
          rw [live_eq_some.mpr hk] at hlive
          cases hlive

end Generation

/-! ## Changes of single keys -/

section Changes

variable [DecidableEq κ]

/-- The contents after changes of single keys: a new value, or none. -/
def applied (contents : κ → Option ν) (changes : List (κ × Option ν)) : κ → Option ν :=
  changes.foldl (fun contents change => Function.update contents change.1 change.2) contents

variable {contents : κ → Option ν} {changes : List (κ × Option ν)} {k : κ} {v : Option ν}

theorem applied_append (later : List (κ × Option ν)) :
    applied contents (changes ++ later) = applied (applied contents changes) later :=
  List.foldl_append

theorem applied_of_notMem (h : k ∉ changes.map Prod.fst) :
    applied contents changes k = contents k := by
  induction changes generalizing contents with
  | nil => rfl
  | cons change changes ih =>
    rw [List.map_cons, List.mem_cons, not_or] at h
    exact (ih h.2).trans (Function.update_of_ne h.1 change.2 contents)

/-- Of changes under distinct keys, each comes about. -/
theorem applied_of_mem (hnodup : (changes.map Prod.fst).Nodup) (h : (k, v) ∈ changes) :
    applied contents changes k = v := by
  induction changes generalizing contents with
  | nil => cases h
  | cons change changes ih =>
    rw [List.map_cons, List.nodup_cons] at hnodup
    obtain heq | hmem := List.mem_cons.mp h
    · subst heq
      exact (applied_of_notMem hnodup.1).trans (Function.update_self k v contents)
    · exact ih hnodup.2 hmem

end Changes

end DurableAgent.Library
