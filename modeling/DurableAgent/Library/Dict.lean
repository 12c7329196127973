import Mathlib.Data.List.Induction
import Mathlib.Data.List.Nodup
import Mathlib.Data.List.Basic

/-!
# Dictionaries in insertion order

A list of entries with distinct keys. Writing a present key replaces its value in place; writing
a new key appends it.
-/

namespace DurableAgent.Library

structure Dict (κ ν : Type) where
  entries : List (κ × ν)
  nodup_keys : (entries.map Prod.fst).Nodup
  deriving DecidableEq

namespace Dict

variable {κ ν : Type}

/-- A key has one value. -/
theorem value_unique (d : Dict κ ν) {k : κ} {v w : ν} (hv : (k, v) ∈ d.entries)
    (hw : (k, w) ∈ d.entries) : v = w := by
  have hinj := List.inj_on_of_nodup_map d.nodup_keys hv hw rfl
  exact (Prod.mk.inj hinj).2

variable [DecidableEq κ]

instance [DecidableEq ν] : DecidableEq (Dict κ ν) := fun d e =>
  decidable_of_iff (d.entries = e.entries) (by cases d; cases e; simp)

def empty : Dict κ ν := ⟨[], List.nodup_nil⟩

def keys (d : Dict κ ν) : List κ := d.entries.map Prod.fst

def values (d : Dict κ ν) : List ν := d.entries.map Prod.snd

/-- The entries with the value of one key replaced. -/
def replaced (entries : List (κ × ν)) (k : κ) (v : ν) : List (κ × ν) :=
  entries.map fun entry => if entry.1 = k then (k, v) else entry

theorem replaced_keys (entries : List (κ × ν)) (k : κ) (v : ν) :
    (replaced entries k v).map Prod.fst = entries.map Prod.fst := by
  rw [replaced, List.map_map]
  apply List.map_congr_left
  intro entry _
  by_cases hk : entry.1 = k
  · simp [hk]
  · simp [hk]

def set (d : Dict κ ν) (k : κ) (v : ν) : Dict κ ν :=
  if h : k ∈ d.entries.map Prod.fst then
    ⟨replaced d.entries k v, by rw [replaced_keys]; exact d.nodup_keys⟩
  else
    ⟨d.entries ++ [(k, v)], by
      rw [List.map_append]
      exact d.nodup_keys.append (List.nodup_singleton k) (by simpa using h)⟩

def get (d : Dict κ ν) (k : κ) : Option ν :=
  (d.entries.find? fun entry => entry.1 = k).map Prod.snd

theorem get_eq_some {d : Dict κ ν} {k : κ} {v : ν} : d.get k = some v ↔ (k, v) ∈ d.entries := by
  constructor
  · intro h
    obtain ⟨entry, hfind, rfl⟩ := Option.map_eq_some_iff.mp h
    have hkey : entry.1 = k := by simpa using List.find?_some hfind
    rw [← hkey]
    exact List.mem_of_find?_eq_some hfind
  · intro h
    unfold get
    cases hfind : d.entries.find? fun entry => entry.1 = k with
    | none => simpa using List.find?_eq_none.mp hfind _ h
    | some entry =>
      have hkey : entry.1 = k := by simpa using List.find?_some hfind
      have hmem : (k, entry.2) ∈ d.entries := hkey ▸ List.mem_of_find?_eq_some hfind
      exact congrArg some (d.value_unique hmem h)

theorem mem_set {d : Dict κ ν} {k j : κ} {v w : ν} :
    (j, w) ∈ (d.set k v).entries ↔ (j = k ∧ w = v) ∨ (j ≠ k ∧ (j, w) ∈ d.entries) := by
  unfold set
  split
  · next hk =>
    obtain ⟨old, hentry, hold⟩ := List.mem_map.mp hk
    unfold replaced
    rw [List.mem_map]
    constructor
    · rintro ⟨entry, hmem, heq⟩
      by_cases hkey : entry.1 = k
      · rw [if_pos hkey] at heq
        exact .inl ⟨(congrArg Prod.fst heq).symm, (congrArg Prod.snd heq).symm⟩
      · rw [if_neg hkey] at heq
        subst heq
        exact .inr ⟨hkey, hmem⟩
    · rintro (⟨rfl, rfl⟩ | ⟨hne, hmem⟩)
      · exact ⟨old, hentry, if_pos hold⟩
      · exact ⟨(j, w), hmem, if_neg hne⟩
  · next hk =>
    rw [List.mem_append, List.mem_singleton, Prod.mk.injEq]
    constructor
    · rintro (hmem | heq)
      · refine .inr ⟨?_, hmem⟩
        rintro rfl
        exact hk (List.mem_map_of_mem hmem)
      · exact .inl heq
    · rintro (heq | ⟨-, hmem⟩)
      · exact .inr heq
      · exact .inl hmem

theorem get_set (d : Dict κ ν) (k j : κ) (v : ν) :
    (d.set k v).get j = if j = k then some v else d.get j := by
  by_cases hj : j = k
  · rw [if_pos hj]
    exact get_eq_some.mpr (mem_set.mpr (.inl ⟨hj, rfl⟩))
  · rw [if_neg hj]
    ext w
    rw [get_eq_some, get_eq_some, mem_set]
    simp [hj]

theorem get_mem_values {d : Dict κ ν} {k : κ} {v : ν} (h : d.get k = some v) : v ∈ d.values :=
  List.mem_map_of_mem (get_eq_some.mp h)

@[simp] theorem get_empty (k : κ) : (empty : Dict κ ν).get k = none := rfl

/-- The pairs written one after the other. -/
def ofPairs (pairs : List (κ × ν)) : Dict κ ν := pairs.foldl (fun d p => d.set p.1 p.2) empty

theorem foldl_set_entries {pairs : List (κ × ν)} {d : Dict κ ν}
    (h : ((d.entries ++ pairs).map Prod.fst).Nodup) :
    (pairs.foldl (fun d p => d.set p.1 p.2) d).entries = d.entries ++ pairs := by
  induction pairs generalizing d with
  | nil => simp
  | cons p pairs ih =>
    have hnew : p.1 ∉ d.entries.map Prod.fst := by
      rw [List.map_append, List.map_cons] at h
      intro hp
      exact (List.nodup_append.mp h).2.2 p.1 hp p.1 List.mem_cons_self rfl
    have hset : (d.set p.1 p.2).entries = d.entries ++ [p] := by
      unfold set
      rw [dif_neg hnew]
    rw [List.foldl_cons, ih, hset]
    · simp
    · rw [hset]
      simpa using h

theorem ofPairs_concat (pairs : List (κ × ν)) (p : κ × ν) :
    ofPairs (pairs ++ [p]) = (ofPairs pairs).set p.1 p.2 := by
  simp [ofPairs]

/-- The last pair under a key gives its value. -/
theorem get_ofPairs (pairs : List (κ × ν)) (k : κ) :
    (ofPairs pairs).get k = (pairs.reverse.find? fun p => p.1 = k).map Prod.snd := by
  induction pairs using List.reverseRecOn with
  | nil => rfl
  | append_singleton pairs p ih =>
    rw [ofPairs_concat, get_set, List.reverse_concat, List.find?_cons, ih]
    by_cases hk : k = p.1
    · simp [hk]
    · simp [hk, Ne.symm hk]

theorem mem_keys {d : Dict κ ν} {k : κ} : k ∈ d.keys ↔ ∃ v, d.get k = some v := by
  simp [keys, get_eq_some]

theorem mem_keys_ofPairs {pairs : List (κ × ν)} {k : κ} :
    k ∈ (ofPairs pairs).keys ↔ k ∈ pairs.map Prod.fst := by
  rw [mem_keys, get_ofPairs, ← Option.isSome_iff_exists, Option.isSome_map, List.find?_isSome,
    List.mem_map]
  simp

/-- Pairs under distinct keys are the entries. -/
theorem ofPairs_entries {pairs : List (κ × ν)} (h : (pairs.map Prod.fst).Nodup) :
    (ofPairs pairs).entries = pairs :=
  (foldl_set_entries (d := empty) h).trans (List.nil_append pairs)

/-- A dictionary is made again from its entries. -/
theorem ofPairs_self (d : Dict κ ν) : ofPairs d.entries = d := by
  have h := ofPairs_entries d.nodup_keys
  generalize ofPairs d.entries = e at h
  cases d
  cases e
  simpa using h

end Dict

end DurableAgent.Library
