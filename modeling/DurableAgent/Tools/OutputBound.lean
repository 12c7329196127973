import DurableAgent.Tools.AtMostOnce
import Mathlib.Data.String.Basic

/-!
# The size of a stored output

An output that is too large is stored as a preview of its bytes in an object of its own. The
preview alone takes the whole limit, and the object around it comes on top.
-/

namespace DurableAgent.Tools

open String (utf8Len)

variable {E : ToolExecutor} {value : Json}

/-! ## Bytes of texts -/

theorem preview_cons (budget : Nat) (c : Char) (rest : List Char) :
    preview (budget + 1) (c :: rest) = if c.utf8Size ≤ budget + 1
      then c :: preview (budget + 1 - c.utf8Size) rest else ['\uFFFD'] := rfl

/-- A preview takes the whole budget where the text does. -/
theorem le_utf8Len_preview {budget : Nat} {text : List Char} (h : budget ≤ utf8Len text) :
    budget ≤ utf8Len (preview budget text) := by
  induction text generalizing budget with
  | nil => exact h.trans (Nat.zero_le _)
  | cons c rest ih =>
    cases budget with
    | zero => exact Nat.zero_le _
    | succ budget =>
      rw [String.utf8Len_cons] at h
      rw [preview_cons]
      by_cases hfits : c.utf8Size ≤ budget + 1
      · rw [if_pos hfits, String.utf8Len_cons]
        have hrest := @ih (budget + 1 - c.utf8Size) (by omega)
        omega
      · -- what is cut through has at most three bytes left, and the replacement takes three
        rw [if_neg hfits]
        have hsize := c.utf8Size_le_four
        have hreplacement : utf8Len ['\uFFFD'] = 3 := rfl
        omega

theorem utf8Size_ascii {c : Char} (h : c.toNat < 128) : c.utf8Size = 1 := by
  rw [Char.utf8Size_eq_one_iff, UInt32.le_iff_toNat_le]
  exact Nat.le_of_lt_succ h

/-- Only characters of one byte are escaped. -/
theorem escapeChar_eq_or (c : Char) : Json.escapeChar c = [c] ∨ c.toNat < 128 := by
  unfold Json.escapeChar
  split_ifs with hquote hslash hn hr ht hb hf hcontrol
  all_goals first
    | exact .inl rfl
    | (right; subst c; decide)
    | (right; omega)

theorem utf8Size_le_escapeChar (c : Char) : c.utf8Size ≤ utf8Len (Json.escapeChar c) := by
  obtain hsame | hascii := escapeChar_eq_or c
  · rw [hsame, String.utf8Len_cons]
    exact Nat.le_add_left _ _
  · rw [utf8Size_ascii hascii, Nat.one_le_iff_ne_zero, Ne, String.utf8Len_eq_zero]
    unfold Json.escapeChar
    split_ifs <;> simp

theorem utf8Len_le_quote (s : String) : utf8Len s.toList ≤ utf8Len (Json.quote s) := by
  have hbody : utf8Len s.toList ≤ utf8Len (s.toList.flatMap Json.escapeChar) := by
    induction s.toList with
    | nil => exact Nat.zero_le _
    | cons c rest ih =>
      rw [List.flatMap_cons, String.utf8Len_append, String.utf8Len_cons]
      have hchar := utf8Size_le_escapeChar c
      omega
  rw [Json.quote, List.cons_append, String.utf8Len_cons, String.utf8Len_append]
  omega

theorem utf8ByteSize_canonicalJson (v : Json) :
    (canonicalJson v).utf8ByteSize = utf8Len v.canonical := String.utf8ByteSize_ofList _

theorem utf8Len_le_commaSeparated {text : List Char} {texts : List (List Char)}
    (h : text ∈ texts) : utf8Len text ≤ utf8Len (Json.commaSeparated texts) := by
  induction texts with
  | nil => cases h
  | cons first rest ih =>
    cases rest with
    | nil =>
      rw [List.mem_singleton.mp h]
      rfl
    | cons second rest =>
      rw [Json.commaSeparated, String.utf8Len_append, String.utf8Len_cons]
      · cases h with
        | head => omega
        | tail _ h =>
          have hrest := ih h
          omega
      · simp

theorem mem_canonicalFields {fields : List (String × Json)} {key : String} {value : Json}
    (h : (key, value) ∈ fields) : (key, value.canonical) ∈ Json.canonicalFields fields := by
  induction fields with
  | nil => cases h
  | cons field fields ih =>
    obtain ⟨key', value'⟩ := field
    rw [Json.canonicalFields]
    cases h with
    | head => exact List.mem_cons_self
    | tail _ h => exact List.mem_cons_of_mem _ (ih h)

/-- The object around a value comes on top of it. -/
theorem utf8Len_lt_obj {fields : List (String × Json)} {key : String} {value : Json}
    (h : (key, value) ∈ fields) :
    utf8Len value.canonical < utf8Len (Json.canonical (.obj fields)) := by
  have hmember : Json.quote key ++ ':' :: value.canonical ∈
      ((Json.canonicalFields fields).insertionSort fun a b => a.1 ≤ b.1).map
        fun field => Json.quote field.1 ++ ':' :: field.2 := by
    refine List.mem_map.mpr ⟨(key, value.canonical), ?_, rfl⟩
    rw [List.mem_insertionSort]
    exact mem_canonicalFields h
  have hmembers := utf8Len_le_commaSeparated hmember
  rw [String.utf8Len_append, String.utf8Len_cons] at hmembers
  have hcolon := Char.utf8Size_pos ':'
  rw [Json.canonical, List.cons_append, String.utf8Len_cons, String.utf8Len_append]
  omega

/-! ## What is stored -/

/-- An output as an object. -/
def outputFields : Json → List (String × Json)
  | .obj fields => fields
  | value => [("value", value)]

/-- The output can be stored as it is. -/
def Fits (E : ToolExecutor) (value : Json) : Prop :=
  (canonicalJson (.obj (outputFields value))).utf8ByteSize ≤ E.policy.maximumOutputBytes

theorem boundOutput_of_fits (h : Fits E value) :
    E.boundOutput value = (outputFields value, false) := by
  unfold ToolExecutor.boundOutput
  exact if_pos h

/-- What stands in for an output that is too large. -/
def truncatedOutput (E : ToolExecutor) (value : Json) : List (String × Json) :=
  let serialized := canonicalJson (.obj (outputFields value))
  [("truncated", .bool true), ("original_bytes", .int serialized.utf8ByteSize),
    ("preview", .str (String.ofList (preview E.policy.maximumOutputBytes serialized.toList)))]

theorem boundOutput_of_not_fits (h : ¬ Fits E value) :
    E.boundOutput value = (truncatedOutput E value, true) := by
  unfold ToolExecutor.boundOutput
  exact if_neg h

theorem lt_truncatedOutput (h : ¬ Fits E value) : E.policy.maximumOutputBytes <
    (canonicalJson (.obj (truncatedOutput E value))).utf8ByteSize := by
  unfold Fits at h
  rw [not_le, utf8ByteSize_canonicalJson] at h
  rw [utf8ByteSize_canonicalJson]
  have hpreview : ("preview", Json.str (String.ofList (preview E.policy.maximumOutputBytes
      (canonicalJson (.obj (outputFields value))).toList))) ∈ truncatedOutput E value := by
    simp [truncatedOutput]
  refine lt_of_le_of_lt ?_ (utf8Len_lt_obj hpreview)
  rw [Json.canonical]
  calc E.policy.maximumOutputBytes
      ≤ utf8Len (preview E.policy.maximumOutputBytes
          (canonicalJson (.obj (outputFields value))).toList) := by
        apply le_utf8Len_preview
        rw [canonicalJson, String.toList_ofList]
        exact h.le
    _ ≤ utf8Len (Json.quote (String.ofList (preview E.policy.maximumOutputBytes
          (canonicalJson (.obj (outputFields value))).toList))) := by
        have hquote := utf8Len_le_quote (String.ofList (preview E.policy.maximumOutputBytes
          (canonicalJson (.obj (outputFields value))).toList))
        rwa [String.toList_ofList] at hquote

/-- A stored output keeps to the limit, and is the output itself where that does, exactly where
the output fits as it is. -/
theorem stored_bounded_iff (E : ToolExecutor) (value : Json) :
    ((canonicalJson (.obj (E.boundOutput value).1)).utf8ByteSize ≤ E.policy.maximumOutputBytes ∧
      (Fits E value → E.boundOutput value = (outputFields value, false))) ↔ Fits E value := by
  constructor
  · rintro ⟨hbound, -⟩
    by_contra hlarge
    rw [boundOutput_of_not_fits hlarge] at hbound
    exact absurd hbound (not_le.mpr (lt_truncatedOutput hlarge))
  · intro hfits
    refine ⟨?_, boundOutput_of_fits⟩
    rw [boundOutput_of_fits hfits]
    exact hfits

/-- An output of one text, of as many bytes as are allowed. -/
def longOutput (size : Nat) : Json :=
  .obj [("text", .str (String.ofList (List.replicate size 'a')))]

theorem longOutput_not_fits (E : ToolExecutor) :
    ¬ Fits E (longOutput E.policy.maximumOutputBytes) := by
  have hlength (n : Nat) : utf8Len (List.replicate n 'a') = n := by
    induction n with
    | zero => rfl
    | succ n ih =>
      rw [List.replicate_succ, String.utf8Len_cons, ih, utf8Size_ascii (by decide)]
  have hquote := utf8Len_le_quote
    (String.ofList (List.replicate E.policy.maximumOutputBytes 'a'))
  rw [String.toList_ofList, hlength] at hquote
  have hobj := utf8Len_lt_obj (List.mem_singleton_self
    ("text", Json.str (String.ofList (List.replicate E.policy.maximumOutputBytes 'a'))))
  rw [Json.canonical] at hobj
  unfold Fits
  rw [utf8ByteSize_canonicalJson, not_le]
  exact lt_of_le_of_lt hquote hobj

/-- A text of as many bytes as are allowed is stored in more. -/
theorem longOutput_stored : echoExecutor.policy.maximumOutputBytes <
    (canonicalJson (.obj (echoExecutor.boundOutput
      (longOutput echoExecutor.policy.maximumOutputBytes)).1)).utf8ByteSize := by
  have hlarge := longOutput_not_fits echoExecutor
  rw [boundOutput_of_not_fits hlarge]
  exact lt_truncatedOutput hlarge

end DurableAgent.Tools
