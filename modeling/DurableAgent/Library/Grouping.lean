import DurableAgent.Library.Dict

/-!
# Values collected under their keys

A dictionary is filled from pairs by adding each value to what stands under its key: afterwards
under a key stands what the values of that key, in their order, add up to.
-/

namespace DurableAgent.Library

/-- A list without repetition is longer than one just where two of its elements differ. -/
theorem one_lt_length_iff {α : Type} {l : List α} (h : l.Nodup) :
    1 < l.length ↔ ∃ a ∈ l, ∃ b ∈ l, a ≠ b := by
  match l, h with
  | [], _ => simp
  | [a], _ => simp
  | a :: b :: rest, h =>
    have hne : a ≠ b := by
      rintro rfl
      simp at h
    simp only [List.length_cons, Nat.lt_add_left_iff_pos, Nat.succ_pos, true_iff]
    exact ⟨a, List.mem_cons_self, b, List.mem_cons_of_mem a List.mem_cons_self, hne⟩

namespace Dict

variable {κ ν α : Type} [DecidableEq κ] (add : α → ν → α) (first : α)

/-- The pairs collected in turn; an absent key begins with `first`. -/
def collect (pairs : List (κ × ν)) : Dict κ α :=
  pairs.foldl (fun d p => d.set p.1 (add ((d.get p.1).getD first) p.2)) empty

/-- The values under a key, in their order. -/
def valuesUnder (pairs : List (κ × ν)) (k : κ) : List ν :=
  (pairs.filter fun p => p.1 = k).map Prod.snd

theorem mem_valuesUnder {pairs : List (κ × ν)} {k : κ} {v : ν} :
    v ∈ valuesUnder pairs k ↔ (k, v) ∈ pairs := by
  simp [valuesUnder]

theorem collect_concat (pairs : List (κ × ν)) (p : κ × ν) :
    collect add first (pairs ++ [p]) = (collect add first pairs).set p.1
      (add (((collect add first pairs).get p.1).getD first) p.2) := by
  simp [collect]

theorem get_collect (pairs : List (κ × ν)) (k : κ) :
    (collect add first pairs).get k =
      if k ∈ pairs.map Prod.fst then some ((valuesUnder pairs k).foldl add first) else none := by
  induction pairs using List.reverseRecOn with
  | nil => rfl
  | append_singleton pairs p ih =>
    rw [collect_concat, get_set]
    by_cases hk : k = p.1
    · rw [if_pos hk, if_pos (by simp [hk]), ← hk, ih]
      by_cases hmem : k ∈ pairs.map Prod.fst
      · rw [if_pos hmem]
        simp [valuesUnder, hk]
      · have hnone : valuesUnder pairs k = [] := by
          rw [List.eq_nil_iff_forall_not_mem]
          intro v hv
          exact hmem (List.mem_map_of_mem (mem_valuesUnder.mp hv))
        rw [if_neg hmem, valuesUnder, List.filter_append, List.map_append, ← valuesUnder, hnone]
        simp [hk]
    · have hmem : k ∈ (pairs ++ [p]).map Prod.fst ↔ k ∈ pairs.map Prod.fst := by
        simp [hk]
      have hvalues : valuesUnder (pairs ++ [p]) k = valuesUnder pairs k := by
        simp [valuesUnder, Ne.symm hk]
      rw [if_neg hk, ih, hvalues]
      simp only [hmem]

theorem mem_keys_collect {pairs : List (κ × ν)} {k : κ} :
    k ∈ (collect add first pairs).keys ↔ ∃ v, (k, v) ∈ pairs := by
  rw [mem_keys, get_collect]
  simp

theorem of_mem_ofPairs {pairs : List (κ × ν)} {p : κ × ν} (h : p ∈ (ofPairs pairs).entries) :
    p ∈ pairs := by
  have hget : (ofPairs pairs).get p.1 = some p.2 := get_eq_some.mpr h
  rw [get_ofPairs] at hget
  obtain ⟨q, hfind, hvalue⟩ := Option.map_eq_some_iff.mp hget
  have hkey : q.1 = p.1 := by simpa using List.find?_some hfind
  have hq := List.mem_of_find?_eq_some hfind
  rw [List.mem_reverse] at hq
  rwa [← Prod.ext hkey hvalue]

/-- Where pairs with one key are equal, the entries are the pairs. -/
theorem mem_ofPairs {pairs : List (κ × ν)} (h : ∀ p ∈ pairs, ∀ q ∈ pairs, p.1 = q.1 → p = q)
    {p : κ × ν} : p ∈ (ofPairs pairs).entries ↔ p ∈ pairs := by
  constructor
  · exact of_mem_ofPairs
  · intro hp
    obtain ⟨v, hv⟩ := mem_keys.mp (mem_keys_ofPairs.mpr (List.mem_map_of_mem hp))
    have hmem := get_eq_some.mp hv
    rwa [← h _ (of_mem_ofPairs hmem) p hp rfl]

/-- Values are appended to a list. -/
def group (pairs : List (κ × ν)) : Dict κ (List ν) := collect (fun vs v => vs ++ [v]) [] pairs

theorem foldl_concat (vs : List ν) (l : List ν) :
    l.foldl (fun vs v => vs ++ [v]) vs = vs ++ l := by
  induction l generalizing vs with
  | nil => simp
  | cons v l ih => simp [ih]

/-- A group is under its key with all that is under the key. -/
theorem mem_group {pairs : List (κ × ν)} {k : κ} {vs : List ν} :
    (k, vs) ∈ (group pairs).entries ↔ (∃ v, (k, v) ∈ pairs) ∧ vs = valuesUnder pairs k := by
  rw [← get_eq_some, group, get_collect, foldl_concat, List.nil_append]
  constructor
  · intro h
    split at h
    · next hmem => simpa [eq_comm] using And.intro (List.mem_map.mp hmem) (Option.some.inj h)
    · cases h
  · rintro ⟨⟨v, hv⟩, rfl⟩
    rw [if_pos (List.mem_map_of_mem hv)]

end Dict

end DurableAgent.Library
