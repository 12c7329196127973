import DurableAgent.Domain.CanonicalJson

/-!
# Reading texts of dumps

A text without blanks, as dumps are written, is read from the left into the value that it is the
text of. The members of an object stay in their order.
-/

namespace DurableAgent

namespace Json

/-! ## Reading -/

/-- The numeral at the beginning of a text, and what follows it. -/
def readDigits (cs : List Char) : Option (Nat × List Char) :=
  if cs.takeWhile Char.isDigit = [] then none
  else some (Nat.ofDigitChars 10 (cs.takeWhile Char.isDigit) 0, cs.dropWhile Char.isDigit)

def readInt : List Char → Option (Int × List Char)
  | '-' :: cs => (readDigits cs).map fun (n, rest) => (-n, rest)
  | cs => (readDigits cs).map fun (n, rest) => (n, rest)

/-- The characters of a string, after its opening quote. -/
def readBody : Nat → List Char → Option (List Char × List Char)
  | 0, _ => none
  | fuel + 1, cs =>
    match unescape cs with
    | some (c, rest) => (readBody fuel rest).map fun (body, rest) => (c :: body, rest)
    | none =>
      match cs with
      | '"' :: rest => some ([], rest)
      | _ => none

/-- A word that stands for a value. -/
def readWord (word : String) (v : Json) (cs : List Char) : Option (Json × List Char) :=
  if word.toList.isPrefixOf cs then some (v, cs.drop word.toList.length) else none

mutual

def readValue : Nat → List Char → Option (Json × List Char)
  | 0, _ => none
  | _ + 1, [] => none
  | fuel + 1, c :: cs =>
    match kindOfLead c with
    | 0 => readWord "null" .null (c :: cs)
    | 1 => readWord "true" (.bool true) (c :: cs) <|> readWord "false" (.bool false) (c :: cs)
    | 2 => (readInt (c :: cs)).map fun (n, rest) => (.int n, rest)
    | 3 => (readBody (cs.length + 1) cs).map fun (body, rest) => (.str (String.ofList body), rest)
    | 4 =>
      match cs with
      | ']' :: rest => some (.arr [], rest)
      | _ => (readItems fuel cs).map fun (items, rest) => (.arr items, rest)
    | _ =>
      match cs with
      | '\x7d' :: rest => some (.obj [], rest)
      | _ => (readFields fuel cs).map fun (fields, rest) => (.obj fields, rest)

/-- The items of an array, up to its closing bracket. -/
def readItems : Nat → List Char → Option (List Json × List Char)
  | 0, _ => none
  | fuel + 1, cs => do
    let (item, rest) ← readValue fuel cs
    match rest with
    | ',' :: rest => (readItems fuel rest).map fun (items, rest) => (item :: items, rest)
    | ']' :: rest => some ([item], rest)
    | _ => none

/-- The members of an object, up to its closing brace. -/
def readFields : Nat → List Char → Option (List (String × Json) × List Char)
  | 0, _ => none
  | fuel + 1, cs => do
    match cs with
    | '"' :: cs =>
      let (body, rest) ← readBody (cs.length + 1) cs
      match rest with
      | ':' :: rest =>
        let (value, rest) ← readValue fuel rest
        match rest with
        | ',' :: rest => (readFields fuel rest).map fun (fields, rest) =>
            ((String.ofList body, value) :: fields, rest)
        | '\x7d' :: rest => some ([(String.ofList body, value)], rest)
        | _ => none
      | _ => none
    | _ => none

end

/-- The value of a text, to the end of which it has to go. -/
def ofText (s : String) : Option Json :=
  match readValue s.toList.length s.toList with
  | some (v, []) => some v
  | _ => none

/-- The text of a dump, which has its members in the order of the fields. -/
def toText (v : Json) : String := String.ofList v.text

/-! ## What is read -/

theorem readDigits_toDigits (n : Nat) {r : List Char} (hr : Delimited r) :
    readDigits (Nat.toDigits 10 n ++ r) = some (n, r) := by
  have hdigits (c : Char) (hc : c ∈ Nat.toDigits 10 n) : c.isDigit = true :=
    Nat.isDigit_of_mem_toDigits (by decide) (by decide) hc
  have htake : (Nat.toDigits 10 n ++ r).takeWhile Char.isDigit = Nat.toDigits 10 n := by
    rw [List.takeWhile_append_of_pos hdigits]
    cases r with
    | nil => simp
    | cons c r =>
      have hc : c.isDigit = false := hr c rfl
      simp [hc]
  have hdrop : (Nat.toDigits 10 n ++ r).dropWhile Char.isDigit = r := by
    rw [List.dropWhile_append_of_pos hdigits]
    cases r with
    | nil => simp
    | cons c r =>
      have hc : c.isDigit = false := hr c rfl
      simp [hc]
  unfold readDigits
  rw [htake, hdrop, if_neg Nat.toDigits_ne_nil, Nat.ofDigitChars_ten_toDigits]

theorem readInt_toString (n : Int) {r : List Char} (hr : Delimited r) :
    readInt ((toString n).toList ++ r) = some (n, r) := by
  cases n with
  | ofNat n =>
    rw [toString_ofNat_toList]
    obtain ⟨c, l, hl, hc⟩ := digits_head n
    have hminus : c ≠ '-' := by
      rintro rfl
      exact absurd hc (by decide)
    have hread := readDigits_toDigits n hr
    rw [hl, List.cons_append] at hread ⊢
    unfold readInt
    split
    · next heq => exact absurd (List.cons.inj heq).1 hminus
    · rw [hread]
      rfl
  | negSucc n =>
    rw [toString_negSucc_toList, List.cons_append, readInt, readDigits_toDigits _ hr]
    rfl

theorem readBody_body {s r : List Char} {fuel : Nat} (h : (s.flatMap escapeChar).length < fuel) :
    readBody fuel (s.flatMap escapeChar ++ '"' :: r) = some (s, r) := by
  induction s generalizing fuel with
  | nil =>
    cases fuel with
    | zero => cases h
    | succ fuel => rfl
  | cons c s ih =>
    cases fuel with
    | zero => cases h
    | succ fuel =>
      have hpos : 0 < (escapeChar c).length := by
        unfold escapeChar
        split_ifs <;> simp
      rw [List.flatMap_cons, List.length_append] at h
      rw [List.flatMap_cons, List.append_assoc]
      unfold readBody
      rw [unescape_escapeChar]
      dsimp only
      rw [ih (by omega)]
      rfl

theorem readBody_quote (s : String) (r : List Char) {fuel : Nat}
    (h : ((s.toList.flatMap escapeChar ++ '"' :: r).length) < fuel) :
    readBody fuel (s.toList.flatMap escapeChar ++ '"' :: r) = some (s.toList, r) := by
  apply readBody_body
  rw [List.length_append] at h
  omega

/-! ## What is written is read -/

theorem textItems_cons (v : Json) (items : List Json) :
    members ']' (textItems (v :: items)) = v.text ++ membersAfter ']' (textItems items) := by
  rw [textItems, members_cons]

theorem textFields_cons (key : String) (v : Json) (fields : List (String × Json)) :
    members '\x7d' (textFields ((key, v) :: fields)) =
      quote key ++ ':' :: (v.text ++ membersAfter '\x7d' (textFields fields)) := by
  rw [textFields, members_cons, List.append_assoc, List.cons_append]

/-- What follows the first member begins with a comma, or is the end. -/
theorem membersAfter_eq (close : Char) (texts : List (List Char)) :
    membersAfter close texts = if texts = [] then [close] else ',' :: members close texts := by
  cases texts with
  | nil => rfl
  | cons t rest => rw [membersAfter_cons, if_neg (by simp), members_cons]

theorem text_length_pos (v : Json) : 0 < v.text.length := by
  obtain ⟨c, l, hl, -⟩ := text_head v
  rw [hl]
  exact Nat.succ_pos _

theorem membersAfter_length_pos (close : Char) (texts : List (List Char)) :
    0 < (membersAfter close texts).length := by
  cases texts <;> simp [membersAfter]

mutual

theorem readValue_text : ∀ (v : Json) {fuel : Nat} {r : List Char}, Delimited r →
    v.text.length ≤ fuel → readValue fuel (v.text ++ r) = some (v, r)
  | v, 0, _, _, h => absurd (text_length_pos v) (by omega)
  | .null, fuel + 1, r, _, _ => rfl
  | .bool b, fuel + 1, r, _, _ => by cases b <;> rfl
  | .int k, fuel + 1, r, hr, _ => by
    obtain ⟨c, l, hl, hkind, -⟩ := text_head (.int k)
    have hread := readInt_toString k hr
    rw [text] at hl
    rw [text, hl, List.cons_append]
    rw [hl, List.cons_append] at hread
    unfold readValue
    rw [hkind]
    change (readInt (c :: (l ++ r))).map _ = _
    rw [hread]
    rfl
  | .str s, fuel + 1, r, _, _ => by
    have htext : (Json.str s).text ++ r = '"' :: (s.toList.flatMap escapeChar ++ '"' :: r) := by
      simp [text, quote]
    rw [htext]
    change (readBody _ (s.toList.flatMap escapeChar ++ '"' :: r)).map _ = _
    rw [readBody_quote s r (Nat.lt_succ_self _), Option.map_some]
    dsimp only
    rw [String.ofList_toList]
  | .arr items, fuel + 1, r, _, h => by
    rw [text] at h ⊢
    rw [List.cons_append, ← members] at h ⊢
    by_cases hitems : items = []
    · rw [hitems]
      rfl
    · have hread := readItems_text items (r := r) hitems (Nat.le_of_succ_le_succ h)
      rw [List.cons_append]
      unfold readValue
      change (match members ']' (textItems items) ++ r with
        | ']' :: rest => some (Json.arr [], rest)
        | _ => (readItems fuel (members ']' (textItems items) ++ r)).map
          fun (items, rest) => (Json.arr items, rest)) = _
      split
      · next rest heq =>
        obtain ⟨v, rest', rfl⟩ := List.exists_cons_of_ne_nil hitems
        rw [textItems_cons, List.append_assoc] at heq
        exact absurd heq (text_ne_close v _ rest)
      · rw [hread]
        rfl
  | .obj fields, fuel + 1, r, _, h => by
    rw [text] at h ⊢
    rw [List.cons_append, ← members] at h ⊢
    by_cases hfields : fields = []
    · rw [hfields]
      rfl
    · have hread := readFields_text fields (r := r) hfields (Nat.le_of_succ_le_succ h)
      rw [List.cons_append]
      unfold readValue
      change (match members '\x7d' (textFields fields) ++ r with
        | '\x7d' :: rest => some (Json.obj [], rest)
        | _ => (readFields fuel (members '\x7d' (textFields fields) ++ r)).map
          fun (fields, rest) => (Json.obj fields, rest)) = _
      split
      · next rest heq =>
        obtain ⟨⟨key, v⟩, rest', rfl⟩ := List.exists_cons_of_ne_nil hfields
        rw [textFields_cons] at heq
        exact absurd (List.cons.inj heq).1 (by decide)
      · rw [hread]
        rfl

theorem readItems_text : ∀ (items : List Json) {fuel : Nat} {r : List Char}, items ≠ [] →
    (members ']' (textItems items)).length ≤ fuel →
      readItems fuel (members ']' (textItems items) ++ r) = some (items, r)
  | [], _, _, hne, _ => absurd rfl hne
  | v :: items, 0, _, _, h => by
    rw [textItems_cons, List.length_append] at h
    have hpos := text_length_pos v
    omega
  | v :: items, fuel + 1, r, _, h => by
    rw [textItems_cons, List.length_append] at h
    have hpos := text_length_pos v
    have hafter := membersAfter_length_pos ']' (textItems items)
    rw [textItems_cons, List.append_assoc]
    unfold readItems
    rw [readValue_text v (delimited_membersAfter rfl _ _) (by omega)]
    by_cases hitems : items = []
    · rw [hitems]
      rfl
    · obtain ⟨w, rest, rfl⟩ := List.exists_cons_of_ne_nil hitems
      rw [textItems, membersAfter_eq, if_neg (by simp), ← textItems, List.length_cons] at h
      have hread : readItems fuel (members ']' (textItems (w :: rest)) ++ r) =
          some (w :: rest, r) := readItems_text (w :: rest) hitems (by omega)
      rw [textItems, membersAfter_eq, if_neg (by simp), ← textItems]
      change (readItems fuel (members ']' (textItems (w :: rest)) ++ r)).map _ = _
      rw [hread]
      rfl

theorem readFields_text : ∀ (fields : List (String × Json)) {fuel : Nat} {r : List Char},
    fields ≠ [] → (members '\x7d' (textFields fields)).length ≤ fuel →
      readFields fuel (members '\x7d' (textFields fields) ++ r) = some (fields, r)
  | [], _, _, hne, _ => absurd rfl hne
  | (key, v) :: fields, 0, _, _, h => by
    rw [textFields_cons, quote] at h
    simp at h
  | (key, v) :: fields, fuel + 1, r, _, h => by
    rw [textFields_cons, List.length_append, List.length_cons, List.length_append] at h
    have hpos := text_length_pos v
    have hquote : 2 ≤ (quote key).length := by simp [quote]
    have hafter := membersAfter_length_pos '\x7d' (textFields fields)
    have htext : members '\x7d' (textFields ((key, v) :: fields)) ++ r =
        '"' :: (key.toList.flatMap escapeChar ++ '"' :: ':' ::
          (v.text ++ (membersAfter '\x7d' (textFields fields) ++ r))) := by
      rw [textFields_cons]
      simp [quote]
    rw [htext]
    unfold readFields
    change (readBody _ (key.toList.flatMap escapeChar ++ '"' :: ':' ::
      (v.text ++ (membersAfter '\x7d' (textFields fields) ++ r)))).bind _ = _
    rw [readBody_quote key _ (Nat.lt_succ_self _)]
    change (readValue fuel (v.text ++ (membersAfter '\x7d' (textFields fields) ++ r))).bind _ = _
    rw [readValue_text v (delimited_membersAfter rfl _ _) (by omega)]
    by_cases hfields : fields = []
    · rw [hfields]
      simp [membersAfter, textFields]
    · obtain ⟨⟨key', w⟩, rest, rfl⟩ := List.exists_cons_of_ne_nil hfields
      rw [textFields, membersAfter_eq, if_neg (by simp), ← textFields, List.length_cons] at h
      have hread : readFields fuel (members '\x7d' (textFields ((key', w) :: rest)) ++ r) =
          some ((key', w) :: rest, r) := readFields_text ((key', w) :: rest) hfields (by omega)
      rw [textFields, membersAfter_eq, if_neg (by simp), ← textFields]
      change (readFields fuel (members '\x7d' (textFields ((key', w) :: rest)) ++ r)).map _ = _
      rw [hread, Option.map_some, String.ofList_toList]

end

/-- The text of a value is read as that value. -/
theorem ofText_toText (v : Json) : ofText v.toText = some v := by
  have hread : readValue v.text.length (v.text ++ []) = some (v, []) :=
    readValue_text v (fun c hc => by cases hc) le_rfl
  rw [List.append_nil] at hread
  unfold ofText toText
  rw [String.toList_ofList, hread]

end Json

end DurableAgent
