import DurableAgent.Domain.CanonicalJson

/-!
# What canonical JSON leaves open

Values of one canonical text are the same up to the order in which the keys of objects were given,
and values that are the same up to that have one canonical text. Every comparison of digests rests
on the first, and every digest that is taken again on the second.
-/

namespace DurableAgent

namespace Json

/-- Two values that differ in the order of the members of objects, at any depth. -/
inductive Same : Json → Json → Prop where
  | refl (v : Json) : Same v v
  | symm {v w : Json} : Same v w → Same w v
  | trans {u v w : Json} : Same u v → Same v w → Same u w
  | item {v w : Json} (before after : List Json) : Same v w →
      Same (.arr (before ++ v :: after)) (.arr (before ++ w :: after))
  | member {v w : Json} (before after : List (String × Json)) (key : String) : Same v w →
      Same (.obj (before ++ (key, v) :: after)) (.obj (before ++ (key, w) :: after))
  | order {fields fields' : List (String × Json)} : fields.Perm fields' →
      Same (.obj fields) (.obj fields')

/-! ## Every value is the same as its sorted form -/

mutual

theorem same_sorted : ∀ v : Json, Same v v.sorted
  | .null => .refl _
  | .bool _ => .refl _
  | .int _ => .refl _
  | .str _ => .refl _
  | .arr items => same_sortedItems [] items
  | .obj fields => by
    have hperm := List.perm_insertionSort (fun a b : String × Json => a.1 ≤ b.1)
      (sortedFields fields)
    exact (same_sortedFields [] fields).trans (.order hperm.symm)

theorem same_sortedItems : ∀ before items : List Json,
    Same (.arr (before ++ items)) (.arr (before ++ sortedItems items))
  | _, [] => .refl _
  | before, item :: items => by
    have hrest := same_sortedItems (before ++ [item.sorted]) items
    rw [List.append_assoc, List.append_assoc] at hrest
    exact (Same.item before items (same_sorted item)).trans hrest

theorem same_sortedFields : ∀ before fields : List (String × Json),
    Same (.obj (before ++ fields)) (.obj (before ++ sortedFields fields))
  | _, [] => .refl _
  | before, (key, value) :: fields => by
    have hrest := same_sortedFields (before ++ [(key, value.sorted)]) fields
    rw [List.append_assoc, List.append_assoc] at hrest
    exact (Same.member before fields key (same_sorted value)).trans hrest

end

/-! ## Keys that occur once -/

mutual

/-- No object has two members of one key, as no dictionary has. -/
def Keyed : Json → Prop
  | .arr items => KeyedItems items
  | .obj fields => (fields.map Prod.fst).Nodup ∧ KeyedFields fields
  | _ => True

def KeyedItems : List Json → Prop
  | [] => True
  | item :: items => item.Keyed ∧ KeyedItems items

def KeyedFields : List (String × Json) → Prop
  | [] => True
  | (_, value) :: fields => value.Keyed ∧ KeyedFields fields

end

theorem keyedItems_iff {items : List Json} : KeyedItems items ↔ ∀ item ∈ items, item.Keyed := by
  induction items with
  | nil => simp [KeyedItems]
  | cons item items ih => rw [KeyedItems, ih, List.forall_mem_cons]

theorem keyedFields_iff {fields : List (String × Json)} :
    KeyedFields fields ↔ ∀ field ∈ fields, field.2.Keyed := by
  induction fields with
  | nil => simp [KeyedFields]
  | cons field fields ih =>
    obtain ⟨key, value⟩ := field
    rw [KeyedFields, ih, List.forall_mem_cons]

theorem sortedItems_append (xs ys : List Json) :
    sortedItems (xs ++ ys) = sortedItems xs ++ sortedItems ys := by
  induction xs with
  | nil => rfl
  | cons x xs ih => rw [List.cons_append, sortedItems, sortedItems, ih, List.cons_append]

theorem sortedFields_append (xs ys : List (String × Json)) :
    sortedFields (xs ++ ys) = sortedFields xs ++ sortedFields ys := by
  induction xs with
  | nil => rfl
  | cons x xs ih =>
    obtain ⟨key, value⟩ := x
    rw [List.cons_append, sortedFields, sortedFields, ih, List.cons_append]

theorem sortedFields_perm {xs ys : List (String × Json)} (h : xs.Perm ys) :
    (sortedFields xs).Perm (sortedFields ys) := by
  induction h with
  | nil => exact .refl _
  | cons x _ ih =>
    obtain ⟨key, value⟩ := x
    exact ih.cons (key, value.sorted)
  | swap x y l =>
    obtain ⟨key, value⟩ := x
    obtain ⟨key', value'⟩ := y
    exact .swap (key, value.sorted) (key', value'.sorted) (sortedFields l)
  | trans _ _ ih₁ ih₂ => exact ih₁.trans ih₂

theorem keys_sortedFields (fields : List (String × Json)) :
    (sortedFields fields).map Prod.fst = fields.map Prod.fst := by
  induction fields with
  | nil => rfl
  | cons field fields ih =>
    obtain ⟨key, value⟩ := field
    rw [sortedFields, List.map_cons, List.map_cons, ih]

/-- Members in another order are sorted alike, where no key occurs twice. -/
theorem sort_eq_of_perm {xs ys : List (String × Json)} (hkeys : (xs.map Prod.fst).Nodup)
    (h : xs.Perm ys) : (xs.insertionSort fun a b => a.1 ≤ b.1) =
      ys.insertionSort fun a b => a.1 ≤ b.1 := by
  have hperm := ((List.perm_insertionSort (fun a b : String × Json => a.1 ≤ b.1) xs).trans h).trans
    (List.perm_insertionSort (fun a b : String × Json => a.1 ≤ b.1) ys).symm
  apply List.Perm.eq_of_pairwise _ (List.pairwise_insertionSort _ _)
    (List.pairwise_insertionSort _ _) hperm
  intro a b ha hb hab hba
  rw [List.mem_insertionSort] at ha hb
  exact List.inj_on_of_nodup_map hkeys ha (h.mem_iff.mpr hb) (String.le_antisymm hab hba)

theorem Same.keyed_iff {v w : Json} (h : Same v w) : v.Keyed ↔ w.Keyed := by
  induction h with
  | refl => exact Iff.rfl
  | symm _ ih => exact ih.symm
  | trans _ _ ih₁ ih₂ => exact ih₁.trans ih₂
  | item before after _ ih =>
    simp only [Keyed, keyedItems_iff, List.forall_mem_append, List.forall_mem_cons, ih]
  | member before after key _ ih =>
    simp only [Keyed, keyedFields_iff, List.forall_mem_append, List.forall_mem_cons, ih,
      List.map_append, List.map_cons]
  | order hperm =>
    simp only [Keyed, keyedFields_iff]
    exact and_congr (hperm.map Prod.fst).nodup_iff
      ⟨fun h field hfield => h field (hperm.mem_iff.mpr hfield),
        fun h field hfield => h field (hperm.mem_iff.mp hfield)⟩

/-- Values that are the same up to the order of keys have one sorted form. -/
theorem Same.sorted_eq {v w : Json} (h : Same v w) (hv : v.Keyed) : v.sorted = w.sorted := by
  induction h with
  | refl => rfl
  | symm h ih => exact (ih (h.keyed_iff.mpr hv)).symm
  | trans h _ ih₁ ih₂ => exact (ih₁ hv).trans (ih₂ (h.keyed_iff.mp hv))
  | item before after _ ih =>
    rw [Keyed, keyedItems_iff, List.forall_mem_append, List.forall_mem_cons] at hv
    simp only [sorted, sortedItems_append, sortedItems]
    rw [ih hv.2.1]
  | member before after key _ ih =>
    rw [Keyed, keyedFields_iff, List.forall_mem_append, List.forall_mem_cons] at hv
    simp only [sorted, sortedFields_append, sortedFields]
    rw [ih hv.2.2.1]
  | order hperm =>
    have hkeys := hv.1
    rw [← keys_sortedFields] at hkeys
    simp only [sorted]
    rw [sort_eq_of_perm hkeys (sortedFields_perm hperm)]

end Json

/-! ## Canonical texts -/

/-- A value that can be given in the program: a dictionary has each key once. -/
abbrev JsonValue := { v : Json // v.Keyed }

/-- The bytes that `canonical_json` returns. -/
def canonicalBytes (v : Json) : ByteArray := (canonicalJson v).toUTF8

theorem canonicalBytes_eq_iff {v w : Json} :
    canonicalBytes v = canonicalBytes w ↔ canonicalJson v = canonicalJson w :=
  String.toByteArray_inj

theorem same_of_canonicalJson_eq {v w : Json} (h : canonicalJson v = canonicalJson w) :
    Json.Same v w := by
  have hsorted := sorted_eq_of_canonicalJson_eq h
  have hv := Json.same_sorted v
  rw [hsorted] at hv
  exact hv.trans (Json.same_sorted w).symm

theorem canonicalJson_eq_of_same {v w : Json} (hv : v.Keyed) (h : Json.Same v w) :
    canonicalJson v = canonicalJson w := by
  unfold canonicalJson
  rw [Json.canonical_eq_text, Json.canonical_eq_text, h.sorted_eq hv]

/-- Canonical texts are equal exactly for values that are the same up to the order of keys. -/
theorem canonicalJson_eq_iff (v w : JsonValue) :
    canonicalBytes v = canonicalBytes w ↔ Json.Same v w := by
  rw [canonicalBytes_eq_iff]
  exact ⟨same_of_canonicalJson_eq, canonicalJson_eq_of_same v.2⟩

/-- Digests of canonical texts are compared as the values are, if no two texts share a digest. -/
theorem digest_eq_iff {sha256Digest : String → String} (hinj : Function.Injective sha256Digest)
    (v w : JsonValue) : sha256Digest (canonicalJson v) = sha256Digest (canonicalJson w) ↔
      Json.Same v w := by
  rw [hinj.eq_iff]
  exact ⟨same_of_canonicalJson_eq, canonicalJson_eq_of_same v.2⟩

end DurableAgent
