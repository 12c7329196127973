import Mathlib.Data.List.Sort
import Mathlib.Data.List.TakeDrop
import DurableAgent.Domain.Base

/-!
# What canonical JSON determines

Two values have the same canonical text exactly when they are the same up to the order of the
members of their objects. A text is read from the left: no text of a value goes on where
another one has ended.
-/

namespace DurableAgent

namespace Json

mutual

/-- The value with the members of every object in the order of their keys. -/
def sorted : Json → Json
  | .null => .null
  | .bool b => .bool b
  | .int n => .int n
  | .str s => .str s
  | .arr items => .arr (sortedItems items)
  | .obj fields => .obj ((sortedFields fields).insertionSort fun a b => a.1 ≤ b.1)

def sortedItems : List Json → List Json
  | [] => []
  | item :: items => item.sorted :: sortedItems items

def sortedFields : List (String × Json) → List (String × Json)
  | [] => []
  | (key, value) :: fields => (key, value.sorted) :: sortedFields fields

end

/-! ## The text of a sorted value -/

mutual

/-- The text of a value with its members as they stand. -/
def text : Json → List Char
  | .null => "null".toList
  | .bool b => if b then "true".toList else "false".toList
  | .int n => (toString n).toList
  | .str s => quote s
  | .arr items => '[' :: commaSeparated (textItems items) ++ [']']
  | .obj fields => '{' :: commaSeparated (textFields fields) ++ ['}']

def textItems : List Json → List (List Char)
  | [] => []
  | item :: items => item.text :: textItems items

def textFields : List (String × Json) → List (List Char)
  | [] => []
  | (key, value) :: fields => (quote key ++ ':' :: value.text) :: textFields fields

end

theorem textFields_eq (fields : List (String × Json)) :
    textFields fields = fields.map fun field => quote field.1 ++ ':' :: field.2.text := by
  induction fields with
  | nil => rfl
  | cons field fields ih =>
    obtain ⟨key, value⟩ := field
    rw [textFields, ih, List.map_cons]

mutual

theorem canonical_eq_text : ∀ v : Json, v.canonical = v.sorted.text
  | .null => rfl
  | .bool _ => rfl
  | .int _ => rfl
  | .str _ => rfl
  | .arr items => by rw [canonical, sorted, text, canonicalItems_eq_text items]
  | .obj fields => by
    have hmap := List.map_insertionSort (r := fun a b : String × Json => a.1 ≤ b.1)
      (s := fun a b : String × List Char => a.1 ≤ b.1) (fun field => (field.1, field.2.text))
      (sortedFields fields) (fun _ _ _ _ => Iff.rfl)
    rw [canonical, sorted, text, textFields_eq, canonicalFields_eq_text fields, ← hmap,
      List.map_map]
    rfl

theorem canonicalItems_eq_text :
    ∀ items : List Json, canonicalItems items = textItems (sortedItems items)
  | [] => rfl
  | item :: items => by
    rw [canonicalItems, sortedItems, textItems, canonical_eq_text item,
      canonicalItems_eq_text items]

theorem canonicalFields_eq_text : ∀ fields : List (String × Json),
    canonicalFields fields = (sortedFields fields).map fun field => (field.1, field.2.text)
  | [] => rfl
  | (key, value) :: fields => by
    rw [canonicalFields, sortedFields, List.map_cons, canonical_eq_text value,
      canonicalFields_eq_text fields]

end

/-! ## Reading from the left -/

/-- The first character of a string body, read back from its escape. -/
def unescape : List Char → Option (Char × List Char)
  | '\\' :: 'n' :: rest => some ('\n', rest)
  | '\\' :: 'r' :: rest => some ('\r', rest)
  | '\\' :: 't' :: rest => some ('\t', rest)
  | '\\' :: 'b' :: rest => some (Char.ofNat 8, rest)
  | '\\' :: 'f' :: rest => some (Char.ofNat 12, rest)
  | '\\' :: 'u' :: '0' :: '0' :: high :: low :: rest =>
    some (Char.ofNat ("0123456789abcdef".toList.idxOf high * 16 +
      "0123456789abcdef".toList.idxOf low), rest)
  | '\\' :: c :: rest => some (c, rest)
  | '"' :: _ => none
  | c :: rest => some (c, rest)
  | [] => none

theorem unescape_control : ∀ n < 32, "0123456789abcdef".toList.idxOf (hexDigit (n / 16)) * 16 +
    "0123456789abcdef".toList.idxOf (hexDigit (n % 16)) = n := by decide

theorem unescape_escapeChar (c : Char) (rest : List Char) :
    unescape (escapeChar c ++ rest) = some (c, rest) := by
  unfold escapeChar
  split
  · next h => rw [h]; rfl
  · next hquote =>
    split
    · next h => rw [h]; rfl
    · next hback =>
      split
      · next h => rw [h]; rfl
      · next hn =>
        split
        · next h => rw [h]; rfl
        · next hr =>
          split
          · next h => rw [h]; rfl
          · next ht =>
            split
            · next h =>
              have hc : Char.ofNat 8 = c := by rw [← h, Char.ofNat_toNat]
              simpa [unescape] using hc
            · next hb =>
              split
              · next h =>
                have hc : Char.ofNat 12 = c := by rw [← h, Char.ofNat_toNat]
                simpa [unescape] using hc
              · next hf =>
                split
                · next hlt =>
                  simp only [List.cons_append, List.nil_append, unescape]
                  rw [unescape_control c.toNat hlt, Char.ofNat_toNat]
                · simp [unescape, hback]

/-- The bodies of two strings, each up to its closing quote. -/
theorem body_injective {s t : List Char} {r r' : List Char}
    (h : s.flatMap escapeChar ++ '"' :: r = t.flatMap escapeChar ++ '"' :: r') :
    s = t ∧ r = r' := by
  induction s generalizing t with
  | nil =>
    cases t with
    | nil => simpa using h
    | cons d t =>
      have hread := congrArg unescape h
      rw [List.flatMap_cons, List.append_assoc, unescape_escapeChar] at hread
      simp [unescape] at hread
  | cons c s ih =>
    rw [List.flatMap_cons, List.append_assoc] at h
    cases t with
    | nil =>
      have hread := congrArg unescape h
      rw [unescape_escapeChar] at hread
      simp [unescape] at hread
    | cons d t =>
      rw [List.flatMap_cons, List.append_assoc] at h
      have hread := congrArg unescape h
      rw [unescape_escapeChar, unescape_escapeChar] at hread
      obtain ⟨rfl, hrest⟩ := Prod.mk.inj (Option.some.inj hread)
      obtain ⟨rfl, hr⟩ := ih hrest
      exact ⟨rfl, hr⟩

theorem quote_injective {s t : String} {r r' : List Char} (h : quote s ++ r = quote t ++ r') :
    s = t ∧ r = r' := by
  simp only [quote, List.cons_append, List.append_assoc, List.nil_append, List.cons.injEq,
    true_and] at h
  obtain ⟨hst, hr⟩ := body_injective h
  exact ⟨String.toList_injective hst, hr⟩

/-- What may follow a value. -/
def Delimited (r : List Char) : Prop := ∀ c ∈ r.head?, c.isDigit = false

theorem digits_injective {n m : Nat} {r r' : List Char} (hr : Delimited r) (hr' : Delimited r')
    (h : Nat.toDigits 10 n ++ r = Nat.toDigits 10 m ++ r') : n = m ∧ r = r' := by
  have hdigits (k : Nat) (c : Char) (hc : c ∈ Nat.toDigits 10 k) : c.isDigit = true :=
    Nat.isDigit_of_mem_toDigits (by decide) (by decide) hc
  have hspan (k : Nat) {t : List Char} (ht : Delimited t) :
      (Nat.toDigits 10 k ++ t).span Char.isDigit = (Nat.toDigits 10 k, t) := by
    rw [List.span_eq_takeWhile_dropWhile, List.takeWhile_append_of_pos (hdigits k),
      List.dropWhile_append_of_pos (hdigits k)]
    cases t with
    | nil => simp
    | cons c t =>
      have hc : c.isDigit = false := ht c rfl
      simp [hc]
  have hsplit := hspan n hr
  rw [h, hspan m hr'] at hsplit
  obtain ⟨hnm, hrr⟩ := Prod.mk.inj hsplit
  have hvalue := congrArg (fun l => Nat.ofDigitChars 10 l 0) hnm
  simp only [Nat.ofDigitChars_ten_toDigits] at hvalue
  exact ⟨hvalue.symm, hrr.symm⟩

theorem toString_ofNat_toList (n : Nat) : (toString (Int.ofNat n)).toList = Nat.toDigits 10 n := by
  change (Nat.repr n).toList = _
  exact Nat.toList_repr

theorem toString_negSucc_toList (n : Nat) :
    (toString (Int.negSucc n)).toList = '-' :: Nat.toDigits 10 (n + 1) := by
  change ("-" ++ Nat.repr (n + 1)).toList = _
  rw [String.toList_append, Nat.toList_repr]
  rfl

/-- The first character of a numeral is a digit. -/
theorem digits_head (n : Nat) : ∃ c l, Nat.toDigits 10 n = c :: l ∧ c.isDigit = true := by
  cases h : Nat.toDigits 10 n with
  | nil => exact absurd h Nat.toDigits_ne_nil
  | cons c l =>
    exact ⟨c, l, rfl, Nat.isDigit_of_mem_toDigits (n := n) (b := 10) (by decide) (by decide)
      (by rw [h]; exact List.mem_cons_self)⟩

theorem int_injective {n m : Int} {r r' : List Char} (hr : Delimited r) (hr' : Delimited r')
    (h : (toString n).toList ++ r = (toString m).toList ++ r') : n = m ∧ r = r' := by
  have hminus (k : Nat) (t t' : List Char) : Nat.toDigits 10 k ++ t ≠ '-' :: t' := by
    obtain ⟨c, l, hkc, hc⟩ := digits_head k
    rw [hkc]
    rintro heq
    obtain ⟨rfl, -⟩ := List.cons.inj heq
    exact absurd hc (by decide)
  cases n with
  | ofNat n =>
    cases m with
    | ofNat m =>
      rw [toString_ofNat_toList, toString_ofNat_toList] at h
      obtain ⟨rfl, hrr⟩ := digits_injective hr hr' h
      exact ⟨rfl, hrr⟩
    | negSucc m =>
      rw [toString_ofNat_toList, toString_negSucc_toList] at h
      exact absurd h (hminus n r _)
  | negSucc n =>
    cases m with
    | ofNat m =>
      rw [toString_ofNat_toList, toString_negSucc_toList] at h
      exact absurd h.symm (hminus m r' _)
    | negSucc m =>
      rw [toString_negSucc_toList, toString_negSucc_toList] at h
      obtain ⟨hnm, hrr⟩ := digits_injective hr hr' (List.cons.inj h).2
      obtain rfl : n = m := by omega
      exact ⟨rfl, hrr⟩

/-- The kind of a value, which the first character of its text shows. -/
def kind : Json → Nat
  | .null => 0
  | .bool _ => 1
  | .int _ => 2
  | .str _ => 3
  | .arr _ => 4
  | .obj _ => 5

def kindOfLead (c : Char) : Nat :=
  if c = 'n' then 0 else if c = 't' ∨ c = 'f' then 1 else if c = '"' then 3
  else if c = '[' then 4 else if c = '{' then 5 else 2

theorem kindOfLead_digit {c : Char} (hc : c.isDigit = true) : kindOfLead c = 2 := by
  have hne (d : Char) (hd : d.isDigit = false) : c ≠ d := by
    rintro rfl
    rw [hc] at hd
    cases hd
  rw [kindOfLead, if_neg (hne 'n' rfl), if_neg (not_or.mpr ⟨hne 't' rfl, hne 'f' rfl⟩),
    if_neg (hne '"' rfl), if_neg (hne '[' rfl), if_neg (hne '{' rfl)]

theorem text_head (v : Json) : ∃ c l, v.text = c :: l ∧ kindOfLead c = v.kind ∧ c ≠ ']' := by
  cases v with
  | null => exact ⟨'n', _, rfl, rfl, by decide⟩
  | bool b => cases b <;> exact ⟨_, _, rfl, rfl, by decide⟩
  | int n =>
    cases n with
    | ofNat n =>
      obtain ⟨c, l, hl, hc⟩ := digits_head n
      refine ⟨c, l, by rw [text, toString_ofNat_toList, hl], kindOfLead_digit hc, ?_⟩
      rintro rfl
      exact absurd hc (by decide)
    | negSucc n => exact ⟨'-', _, by rw [text, toString_negSucc_toList], rfl, by decide⟩
  | str s => exact ⟨'"', _, rfl, rfl, by decide⟩
  | arr items => exact ⟨'[', _, rfl, rfl, by decide⟩
  | obj fields => exact ⟨'{', _, rfl, rfl, by decide⟩

theorem kind_eq {v w : Json} {r r' : List Char} (h : v.text ++ r = w.text ++ r') :
    v.kind = w.kind := by
  obtain ⟨c, l, hv, hc, _⟩ := text_head v
  obtain ⟨d, l', hw, hd, _⟩ := text_head w
  rw [hv, hw] at h
  obtain ⟨rfl, -⟩ := List.cons.inj h
  rw [← hc, hd]

theorem kind_null {w : Json} (h : w.kind = 0) : w = .null := by
  cases w <;> first | rfl | cases h

theorem kind_bool {w : Json} (h : w.kind = 1) : ∃ b, w = .bool b := by
  cases w <;> first | exact ⟨_, rfl⟩ | cases h

theorem kind_int {w : Json} (h : w.kind = 2) : ∃ n, w = .int n := by
  cases w <;> first | exact ⟨_, rfl⟩ | cases h

theorem kind_str {w : Json} (h : w.kind = 3) : ∃ s, w = .str s := by
  cases w <;> first | exact ⟨_, rfl⟩ | cases h

theorem kind_arr {w : Json} (h : w.kind = 4) : ∃ items, w = .arr items := by
  cases w <;> first | exact ⟨_, rfl⟩ | cases h

theorem kind_obj {w : Json} (h : w.kind = 5) : ∃ fields, w = .obj fields := by
  cases w <;> first | exact ⟨_, rfl⟩ | cases h

/-- No array begins where another one ends. -/
theorem text_ne_close (v : Json) (t r : List Char) : v.text ++ t ≠ ']' :: r := by
  obtain ⟨c, l, hv, _, hc⟩ := text_head v
  rw [hv]
  intro h
  exact hc (List.cons.inj h).1

/-- What follows the first member: the others, each after a comma, and the closing bracket. -/
def membersAfter (close : Char) : List (List Char) → List Char
  | [] => [close]
  | text :: rest => ',' :: text ++ membersAfter close rest

/-- The members with the closing bracket. -/
def members (close : Char) (texts : List (List Char)) : List Char :=
  commaSeparated texts ++ [close]

theorem membersAfter_cons (close : Char) (t : List Char) (rest : List (List Char)) :
    membersAfter close (t :: rest) = ',' :: (t ++ membersAfter close rest) := rfl

theorem members_cons (t : List Char) (rest : List (List Char)) (close : Char) :
    members close (t :: rest) = t ++ membersAfter close rest := by
  induction rest generalizing t with
  | nil => rfl
  | cons t' rest ih =>
    change (t ++ ',' :: commaSeparated (t' :: rest)) ++ [close] = _
    rw [List.append_assoc, List.cons_append, ← members, ih, membersAfter, List.cons_append]

theorem delimited_membersAfter {close : Char} (hclose : close.isDigit = false)
    (texts : List (List Char)) (r : List Char) : Delimited (membersAfter close texts ++ r) := by
  cases texts with
  | nil =>
    intro c hc
    obtain rfl := Option.some.inj hc
    exact hclose
  | cons t rest =>
    intro c hc
    obtain rfl := Option.some.inj hc
    rfl

mutual

/-- Two values whose texts begin one text are equal, and so is what follows them. -/
theorem text_injective : ∀ (v w : Json) {r r' : List Char}, Delimited r → Delimited r' →
    v.text ++ r = w.text ++ r' → v = w ∧ r = r'
  | .null, w, r, r', _, _, h => by
    obtain rfl := kind_null (kind_eq h).symm
    exact ⟨rfl, List.append_cancel_left h⟩
  | .bool b, w, r, r', _, _, h => by
    obtain ⟨b', rfl⟩ := kind_bool (kind_eq h).symm
    cases b <;> cases b' <;> simp [text] at h <;> exact ⟨rfl, h⟩
  | .int n, w, r, r', hr, hr', h => by
    obtain ⟨n', rfl⟩ := kind_int (kind_eq h).symm
    obtain ⟨rfl, hrr⟩ := int_injective hr hr' h
    exact ⟨rfl, hrr⟩
  | .str s, w, r, r', _, _, h => by
    obtain ⟨s', rfl⟩ := kind_str (kind_eq h).symm
    obtain ⟨rfl, hrr⟩ := quote_injective h
    exact ⟨rfl, hrr⟩
  | .arr items, w, r, r', _, _, h => by
    obtain ⟨items', rfl⟩ := kind_arr (kind_eq h).symm
    obtain ⟨rfl, hrr⟩ := items_injective items items' (List.cons.inj h).2
    exact ⟨rfl, hrr⟩
  | .obj fields, w, r, r', _, _, h => by
    obtain ⟨fields', rfl⟩ := kind_obj (kind_eq h).symm
    obtain ⟨rfl, hrr⟩ := fields_injective fields fields' (List.cons.inj h).2
    exact ⟨rfl, hrr⟩

theorem items_injective : ∀ (xs ys : List Json) {r r' : List Char},
    members ']' (textItems xs) ++ r = members ']' (textItems ys) ++ r' → xs = ys ∧ r = r'
  | [], [], _, _, h => ⟨rfl, (List.cons.inj h).2⟩
  | [], y :: ys, r, r', h => by
    rw [textItems, textItems, members_cons, List.append_assoc] at h
    exact absurd h.symm (text_ne_close y _ r)
  | x :: xs, [], r, r', h => by
    rw [textItems, textItems, members_cons, List.append_assoc] at h
    exact absurd h (text_ne_close x _ r')
  | x :: xs, y :: ys, r, r', h => by
    rw [textItems, textItems, members_cons, members_cons, List.append_assoc,
      List.append_assoc] at h
    obtain ⟨rfl, hrest⟩ := text_injective x y (delimited_membersAfter rfl _ _)
      (delimited_membersAfter rfl _ _) h
    obtain ⟨rfl, hrr⟩ := itemsAfter_injective xs ys hrest
    exact ⟨rfl, hrr⟩

theorem itemsAfter_injective : ∀ (xs ys : List Json) {r r' : List Char},
    membersAfter ']' (textItems xs) ++ r = membersAfter ']' (textItems ys) ++ r' →
      xs = ys ∧ r = r'
  | [], [], _, _, h => ⟨rfl, (List.cons.inj h).2⟩
  | [], y :: ys, _, _, h => absurd (List.cons.inj h).1 (by decide)
  | x :: xs, [], _, _, h => absurd (List.cons.inj h).1 (by decide)
  | x :: xs, y :: ys, r, r', h => by
    rw [textItems, textItems, membersAfter_cons, membersAfter_cons, List.cons_append,
      List.cons_append, List.append_assoc, List.append_assoc] at h
    obtain ⟨rfl, hrest⟩ := text_injective x y (delimited_membersAfter rfl _ _)
      (delimited_membersAfter rfl _ _) (List.cons.inj h).2
    obtain ⟨rfl, hrr⟩ := itemsAfter_injective xs ys hrest
    exact ⟨rfl, hrr⟩

theorem fields_injective : ∀ (xs ys : List (String × Json)) {r r' : List Char},
    members '\x7d' (textFields xs) ++ r = members '\x7d' (textFields ys) ++ r' → xs = ys ∧ r = r'
  | [], [], _, _, h => ⟨rfl, (List.cons.inj h).2⟩
  | [], (key, value) :: ys, r, r', h => by
    rw [textFields, textFields, members_cons] at h
    exact absurd (List.cons.inj h).1 (by decide)
  | (key, value) :: xs, [], r, r', h => by
    rw [textFields, textFields, members_cons] at h
    exact absurd (List.cons.inj h).1 (by decide)
  | (key, value) :: xs, (key', value') :: ys, r, r', h => by
    rw [textFields, textFields, members_cons, members_cons, List.append_assoc,
      List.append_assoc, List.append_assoc, List.append_assoc] at h
    obtain ⟨rfl, hvalue⟩ := quote_injective h
    obtain ⟨rfl, hrest⟩ := text_injective value value' (delimited_membersAfter rfl _ _)
      (delimited_membersAfter rfl _ _) (List.cons.inj hvalue).2
    obtain ⟨rfl, hrr⟩ := fieldsAfter_injective xs ys hrest
    exact ⟨rfl, hrr⟩

theorem fieldsAfter_injective : ∀ (xs ys : List (String × Json)) {r r' : List Char},
    membersAfter '\x7d' (textFields xs) ++ r = membersAfter '\x7d' (textFields ys) ++ r' →
      xs = ys ∧ r = r'
  | [], [], _, _, h => ⟨rfl, (List.cons.inj h).2⟩
  | [], (key, value) :: ys, _, _, h => absurd (List.cons.inj h).1 (by decide)
  | (key, value) :: xs, [], _, _, h => absurd (List.cons.inj h).1 (by decide)
  | (key, value) :: xs, (key', value') :: ys, r, r', h => by
    rw [textFields, textFields, membersAfter_cons, membersAfter_cons, List.cons_append,
      List.cons_append, List.append_assoc, List.append_assoc, List.append_assoc,
      List.append_assoc] at h
    obtain ⟨rfl, hvalue⟩ := quote_injective (List.cons.inj h).2
    obtain ⟨rfl, hrest⟩ := text_injective value value' (delimited_membersAfter rfl _ _)
      (delimited_membersAfter rfl _ _) (List.cons.inj hvalue).2
    obtain ⟨rfl, hrr⟩ := fieldsAfter_injective xs ys hrest
    exact ⟨rfl, hrr⟩

end

end Json

/-- Values of one canonical text are the same up to the order of the members of objects. -/
theorem sorted_eq_of_canonicalJson_eq {v w : Json} (h : canonicalJson v = canonicalJson w) :
    v.sorted = w.sorted := by
  have htext : v.sorted.text ++ [] = w.sorted.text ++ [] := by
    rw [List.append_nil, List.append_nil, ← Json.canonical_eq_text, ← Json.canonical_eq_text]
    exact String.ofList_injective h
  have hnil : Json.Delimited [] := fun c hc => by cases hc
  exact (Json.text_injective v.sorted w.sorted hnil hnil htext).1

end DurableAgent
