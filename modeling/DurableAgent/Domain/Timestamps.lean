import Mathlib.Algebra.Group.Nat.Defs
import DurableAgent.Domain.Base
import Mathlib.Tactic.Common

/-!
# Times and their texts

The text of a time determines it: days are counted back from the date, and numerals of a fixed width
are read back from the left. This holds of the times that a `datetime` can have.
-/

namespace DurableAgent

namespace Timestamp

/-- The times from the year 1 to the year 9999. -/
def Representable (t : Timestamp) : Prop :=
  -62135596800000000 ≤ t ∧ t ≤ 253402300799999999

instance (t : Timestamp) : Decidable (Representable t) := inferInstanceAs (Decidable (_ ∧ _))

/-! ## Dates -/

/-- The day count since the start of 1970 of a date, by eras of 400 years that start in March. -/
def ofCivil (year month day : Nat) : Int :=
  let shifted := if month ≤ 2 then year - 1 else year
  let march := if month ≤ 2 then month + 9 else month - 3
  let yearOfEra := shifted % 400
  let ofYear := (153 * march + 2) / 5 + (day - 1)
  (shifted / 400 : Nat) * 146097 +
    (365 * yearOfEra + yearOfEra / 4 - yearOfEra / 100 + ofYear : Nat) - 719468

/-- The year of an era is that of the last first of March. -/
theorem yearOfEra_spec {ofEra : Nat} (h : ofEra < 146097) :
    ∃ year, (ofEra - ofEra / 1460 + ofEra / 36524 - ofEra / 146096) / 365 = year ∧ year ≤ 399 ∧
      365 * year + year / 4 - year / 100 ≤ ofEra ∧
      ofEra ≤ 365 * year + year / 4 - year / 100 + 365 := by
  refine ⟨_, rfl, ?_⟩
  by_cases hlast : ofEra = 146096
  · subst hlast
    decide
  have hera : ofEra / 146096 = 0 := by omega
  -- the century, the leap cycle in the century and the year in the cycle
  obtain ⟨e, r, hdays, hr, he⟩ : ∃ e r, ofEra = 36524 * e + r ∧ r < 36524 ∧ e ≤ 3 :=
    ⟨ofEra / 36524, ofEra % 36524, by omega, by omega, by omega⟩
  have hcentury : ofEra / 36524 = e := by omega
  obtain ⟨k, j, hrest, hj, hk⟩ : ∃ k j, r = 1461 * k + j ∧ j < 1461 ∧ k ≤ 24 :=
    ⟨r / 1461, r % 1461, by omega, by omega, by omega⟩
  obtain ⟨t, ht, htie⟩ : ∃ t, ofEra / 1460 = 25 * e + k + t ∧ t = (24 * e + k + j) / 1460 :=
    ⟨_, by omega, rfl⟩
  obtain ⟨i, hi, hyear⟩ : ∃ i, i = (j - t) / 365 ∧
      (ofEra - ofEra / 1460 + ofEra / 36524 - ofEra / 146096) / 365 = 100 * e + 4 * k + i :=
    ⟨_, rfl, by omega⟩
  have hthree : i ≤ 3 := by omega
  have hfour : (100 * e + 4 * k + i) / 4 = 25 * e + k := by omega
  have hhundred : (100 * e + 4 * k + i) / 100 = e := by omega
  rw [hyear, hfour, hhundred, hdays, hrest]
  clear hyear hfour hhundred hcentury hera
  omega

/-- A date is that of one day. -/
theorem ofCivil_civil {day : Int} (h : -719162 ≤ day) (hday : day ≤ 2932896) :
    ofCivil (civil day).1 (civil day).2.1 (civil day).2.2 = day ∧ (civil day).1 < 10000 ∧
      (civil day).2.1 < 100 ∧ (civil day).2.2 < 100 := by
  obtain ⟨era, ofEra, hshift, hofEra⟩ :
      ∃ era ofEra : Nat, day + 719468 = era * 146097 + ofEra ∧ ofEra < 146097 :=
    ⟨((day + 719468) / 146097).toNat, ((day + 719468) % 146097).toNat, by omega, by omega⟩
  have hera : (day + 719468) / 146097 = era := by omega
  have hrest : ((day + 719468) % 146097).toNat = ofEra := by omega
  obtain ⟨year, hyear, hyear₄₀₀, hstart, hend⟩ := yearOfEra_spec hofEra
  obtain ⟨ofYear, hofYear⟩ : ∃ ofYear, ofEra = 365 * year + year / 4 - year / 100 + ofYear :=
    ⟨_, (Nat.add_sub_cancel' hstart).symm⟩
  have hsub : ofEra - (365 * year + year / 4 - year / 100) = ofYear := by omega
  have hcount : ((era : Int) * 400 + year).toNat = 400 * era + year := by omega
  obtain ⟨march, hmarch, hlast, hmonth⟩ : ∃ march, (5 * ofYear + 2) / 153 = march ∧ march ≤ 11 ∧
      (153 * march + 2) / 5 ≤ ofYear :=
    ⟨_, rfl, by omega, by omega⟩
  have hquotient : (400 * era + year) / 400 = era := by omega
  have hremainder : (400 * era + year) % 400 = year := by omega
  have heras : era ≤ 24 := by omega
  unfold civil
  dsimp only
  rw [hera, hrest, hyear, hsub, hcount, hmarch]
  unfold ofCivil
  dsimp only
  by_cases hten : march < 10
  · have hlate : ¬ march + 3 ≤ 2 := by omega
    simp only [if_pos hten, if_neg hlate, hquotient, hremainder]
    refine ⟨?_, ?_, ?_, ?_⟩ <;> omega
  · have hearly : march - 9 ≤ 2 := by omega
    simp only [if_neg hten, if_pos hearly, Nat.add_sub_cancel, hquotient, hremainder]
    refine ⟨?_, ?_, ?_, ?_⟩ <;> omega

/-! ## Numerals -/

/-- The characters of a numeral are looked at one by one. -/
@[reducible] def eachDigit (cs : List Char) : Decidable (∀ c ∈ cs, c.isDigit = true) :=
  List.decidableBAll _ cs

attribute [local instance] eachDigit

/-- A numeral of a given width at the beginning of a text, and what follows it. -/
def takeNat (width : Nat) (cs : List Char) : Option (Nat × List Char) :=
  if (cs.take width).length = width ∧ ∀ c ∈ cs.take width, c.isDigit = true then
    some (Nat.ofDigitChars 10 (cs.take width) 0, cs.drop width)
  else none

/-- What follows a separator. -/
def skip (separator : Char) : List Char → Option (List Char)
  | [] => none
  | c :: rest => if c = separator then some rest else none

@[simp] theorem skip_cons (separator : Char) (rest : List Char) :
    skip separator (separator :: rest) = some rest := if_pos rfl

theorem padded_toList (width n : Nat) : (padded width n).toList =
    List.replicate (width - (Nat.toDigits 10 n).length) '0' ++ Nat.toDigits 10 n := by
  have hdigits : (toString n).toList = Nat.toDigits 10 n := Nat.toList_repr
  unfold padded
  rw [String.toList_append, String.toList_ofList, hdigits, ← String.length_toList, hdigits]

theorem isDigit_of_mem_padded {width n : Nat} {c : Char} (h : c ∈ (padded width n).toList) :
    c.isDigit = true := by
  rw [padded_toList, List.mem_append] at h
  obtain h | h := h
  · rw [List.eq_of_mem_replicate h]
    decide
  · exact Nat.isDigit_of_mem_toDigits (by decide) (by decide) h

theorem takeNat_padded {width n : Nat} (hwidth : 0 < width) (h : n < 10 ^ width)
    (rest : List Char) : takeNat width ((padded width n).toList ++ rest) = some (n, rest) := by
  have hlength : (padded width n).toList.length = width := by
    have hle := (Nat.length_toDigits_le_iff (b := 10) (by decide) hwidth).mpr h
    rw [padded_toList, List.length_append, List.length_replicate]
    omega
  have hvalue : Nat.ofDigitChars 10 (padded width n).toList 0 = n := by
    rw [padded_toList, Nat.ofDigitChars_append, Nat.ofDigitChars_replicate_zero, Nat.mul_zero,
      Nat.ofDigitChars_ten_toDigits]
  unfold takeNat
  rw [List.take_left' hlength, List.drop_left' hlength,
    if_pos ⟨hlength, fun c hc => isDigit_of_mem_padded hc⟩, hvalue]

/-! ## Texts -/

/-- The fraction of a second, if there is one. -/
def takeFraction : List Char → Option (Nat × List Char)
  | '.' :: rest => takeNat 6 rest
  | rest => some (0, rest)

/-- The day of a date at the beginning of a text. -/
def takeDate (cs : List Char) : Option (Int × List Char) := do
  let (year, rest) ← takeNat 4 cs
  let rest ← skip '-' rest
  let (month, rest) ← takeNat 2 rest
  let rest ← skip '-' rest
  let (day, rest) ← takeNat 2 rest
  some (ofCivil year month day, rest)

/-- The seconds of a time of day at the beginning of a text. -/
def takeClock (cs : List Char) : Option (Nat × List Char) := do
  let (hour, rest) ← takeNat 2 cs
  let rest ← skip ':' rest
  let (minute, rest) ← takeNat 2 rest
  let rest ← skip ':' rest
  let (second, rest) ← takeNat 2 rest
  some ((hour * 60 + minute) * 60 + second, rest)

/-- The microseconds of a text as dumps have it. -/
def takeTime (cs : List Char) : Option (Timestamp × List Char) := do
  let (day, rest) ← takeDate cs
  let rest ← skip 'T' rest
  let (second, rest) ← takeClock rest
  let (fraction, rest) ← takeFraction rest
  let rest ← skip 'Z' rest
  some (day * 86400000000 + (second * 1000000 + fraction : Nat), rest)

/-- The time of a text, which has to be the text of that time. -/
def ofJsonFormat (text : String) : Option Timestamp :=
  ((takeTime text.toList).map Prod.fst).filter fun t => t.jsonFormat = text

/-- The part of a text for the fraction of a second. -/
def fractionText (fraction : Nat) : String :=
  if fraction = 0 then "" else s!".{padded 6 fraction}"

theorem toString_text (s : String) : toString s = s := rfl

theorem separators : "-".toList = ['-'] ∧ "T".toList = ['T'] ∧ ":".toList = [':'] ∧
    ".".toList = ['.'] ∧ "Z".toList = ['Z'] := by decide

theorem takeFraction_fractionText {fraction : Nat} (h : fraction < 1000000) :
    takeFraction ((fractionText fraction).toList ++ ['Z']) = some (fraction, ['Z']) := by
  unfold fractionText
  by_cases hzero : fraction = 0
  · rw [if_pos hzero, hzero]
    rfl
  · rw [if_neg hzero]
    have htext : (s!".{padded 6 fraction}").toList ++ ['Z'] =
        '.' :: ((padded 6 fraction).toList ++ ['Z']) := by
      simp only [String.toList_append, toString_text, separators, List.cons_append,
        List.nil_append]
    rw [htext, takeFraction]
    exact takeNat_padded (by decide) h ['Z']

theorem takeDate_civil {day : Int} (h : -719162 ≤ day) (hday : day ≤ 2932896)
    (rest : List Char) : takeDate ((padded 4 (civil day).1).toList ++ '-' ::
      ((padded 2 (civil day).2.1).toList ++ '-' ::
        ((padded 2 (civil day).2.2).toList ++ rest))) = some (day, rest) := by
  obtain ⟨hdate, hyear, hmonth, hday⟩ := ofCivil_civil h hday
  have hyear' : (civil day).1 < 10 ^ 4 := hyear
  have hmonth' : (civil day).2.1 < 10 ^ 2 := hmonth
  have hday' : (civil day).2.2 < 10 ^ 2 := hday
  simp only [takeDate, takeNat_padded (by decide) hyear', takeNat_padded (by decide) hmonth',
    takeNat_padded (by decide) hday', skip_cons, Option.bind_eq_bind, Option.bind_some, hdate]

theorem takeClock_padded {second : Nat} (h : second < 86400) (rest : List Char) :
    takeClock ((padded 2 (second / 3600)).toList ++ ':' ::
      ((padded 2 (second / 60 % 60)).toList ++ ':' ::
        ((padded 2 (second % 60)).toList ++ rest))) = some (second, rest) := by
  have hsum : (second / 3600 * 60 + second / 60 % 60) * 60 + second % 60 = second := by omega
  have hhour : second / 3600 < 10 ^ 2 := by omega
  have hminute : second / 60 % 60 < 10 ^ 2 := by omega
  have hsecond : second % 60 < 10 ^ 2 := by omega
  simp only [takeClock, takeNat_padded (by decide) hhour, takeNat_padded (by decide) hminute,
    takeNat_padded (by decide) hsecond, skip_cons, Option.bind_eq_bind, Option.bind_some, hsum]

theorem jsonFormat_toList (t : Timestamp) : t.jsonFormat.toList =
    (padded 4 (civil (t / 86400000000)).1).toList ++ '-' ::
    ((padded 2 (civil (t / 86400000000)).2.1).toList ++ '-' ::
    ((padded 2 (civil (t / 86400000000)).2.2).toList ++ 'T' ::
    ((padded 2 ((t % 86400000000).toNat / 1000000 / 3600)).toList ++ ':' ::
    ((padded 2 ((t % 86400000000).toNat / 1000000 / 60 % 60)).toList ++ ':' ::
    ((padded 2 ((t % 86400000000).toNat / 1000000 % 60)).toList ++
    ((fractionText ((t % 86400000000).toNat % 1000000)).toList ++ ['Z'])))))) := by
  simp only [jsonFormat, dateTime, fractionText, String.toList_append, List.append_assoc,
    toString_text, separators, List.cons_append, List.nil_append]

/-- A text of a time has no NUL. -/
theorem nul_notMem_jsonFormat (t : Timestamp) : '\x00' ∉ t.jsonFormat.toList := by
  have hpadded (width n : Nat) : '\x00' ∉ (padded width n).toList :=
    fun hmem => absurd (isDigit_of_mem_padded hmem) (by decide)
  have hfraction (n : Nat) : '\x00' ∉ (fractionText n).toList := by
    unfold fractionText
    split
    · simp
    · simp only [String.toList_append, toString_text, separators, List.mem_append]
      simp [hpadded]
  rw [jsonFormat_toList]
  simp [hpadded, hfraction]

theorem takeTime_jsonFormat {t : Timestamp} (h : Representable t) :
    takeTime t.jsonFormat.toList = some (t, []) := by
  have hfirst : (-62135596800000000 : Int) ≤ t := h.1
  have hlast : (253402300799999999 : Int) ≥ t := h.2
  have hrest : ((t % 86400000000).toNat : Int) = t % 86400000000 :=
    Int.toNat_of_nonneg (Int.emod_nonneg t (by decide))
  have hlt : t % 86400000000 < 86400000000 := Int.emod_lt_of_pos t (by decide)
  have hsplit : t / 86400000000 * 86400000000 + t % 86400000000 = t :=
    Int.ediv_mul_add_emod t 86400000000
  rw [← hrest] at hlt hsplit
  rw [jsonFormat_toList]
  obtain ⟨ofDay, hofDay⟩ : ∃ ofDay, (t % 86400000000).toNat = ofDay := ⟨_, rfl⟩
  rw [hofDay] at hlt hsplit ⊢
  have hbound : ofDay < 86400000000 := Int.ofNat_lt.mp hlt
  have hclock : ofDay / 1000000 * 1000000 + ofDay % 1000000 = ofDay := by omega
  have hseconds : ofDay / 1000000 < 86400 := by omega
  have hfraction : ofDay % 1000000 < 1000000 := by omega
  have hday : (-719162 : Int) ≤ t / 86400000000 := by omega
  have hday' : (2932896 : Int) ≥ t / 86400000000 := by omega
  simp only [takeTime, takeDate_civil hday hday', takeClock_padded hseconds,
    takeFraction_fractionText hfraction, skip_cons, Option.bind_eq_bind, Option.bind_some, hclock,
    hsplit]

/-- The text of a time is read as that time. -/
theorem ofJsonFormat_jsonFormat {t : Timestamp} (h : Representable t) :
    ofJsonFormat t.jsonFormat = some t := by
  unfold ofJsonFormat
  rw [takeTime_jsonFormat h, Option.map_some, Option.filter_some, if_pos (decide_eq_true rfl)]

/-- Times have different texts. -/
theorem jsonFormat_injective {t u : Timestamp} (ht : Representable t) (hu : Representable u)
    (h : t.jsonFormat = u.jsonFormat) : t = u := by
  have hread := ofJsonFormat_jsonFormat ht
  rw [h, ofJsonFormat_jsonFormat hu] at hread
  exact (Option.some.inj hread).symm

end Timestamp

end DurableAgent
