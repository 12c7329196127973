import Mathlib.Data.List.Sort

/-!
# Shared domain behaviour

Timestamps with their texts, and the canonical rendering of JSON-like data that every content
digest is taken of.
-/

namespace DurableAgent

/-- Microseconds of a UTC clock since the start of 1970. -/
abbrev Timestamp := Int

namespace Timestamp

/-- A decimal numeral padded with zeros to at least the given width. -/
def padded (width n : Nat) : String :=
  let digits := toString n
  String.ofList (List.replicate (width - digits.length) '0') ++ digits

/-- Year, month and day of a day count since the start of 1970, by eras of 400 years that start
in March. -/
def civil (day : Int) : Nat × Nat × Nat :=
  let shifted := day + 719468
  let era := shifted / 146097
  let ofEra := (shifted % 146097).toNat
  let yearOfEra := (ofEra - ofEra / 1460 + ofEra / 36524 - ofEra / 146096) / 365
  let ofYear := ofEra - (365 * yearOfEra + yearOfEra / 4 - yearOfEra / 100)
  let march := (5 * ofYear + 2) / 153
  let month := if march < 10 then march + 3 else march - 9
  let year := (era * 400 + yearOfEra).toNat
  (if month ≤ 2 then year + 1 else year, month, ofYear - (153 * march + 2) / 5 + 1)

/-- The date and the time of day, with the fraction of the second where it has one. -/
def dateTime (t : Timestamp) : String :=
  let (year, month, day) := civil (t / 86400000000)
  let ofDay := (t % 86400000000).toNat
  let second := ofDay / 1000000
  let fraction := ofDay % 1000000
  s!"{padded 4 year}-{padded 2 month}-{padded 2 day}T{padded 2 (second / 3600)}:" ++
    s!"{padded 2 (second / 60 % 60)}:{padded 2 (second % 60)}" ++
    if fraction = 0 then "" else s!".{padded 6 fraction}"

/-- `datetime.isoformat` of a UTC time -/
def isoformat (t : Timestamp) : String := t.dateTime ++ "+00:00"

/-- The form a UTC time has in a dump. -/
def jsonFormat (t : Timestamp) : String := t.dateTime ++ "Z"

example : isoformat 1709210096000007 = "2024-02-29T12:34:56.000007+00:00" := by decide

end Timestamp

/-- JSON-compatible data; an object keeps the order its keys were given in. -/
inductive Json where
  | null
  | bool (b : Bool)
  | int (n : Int)
  | str (s : String)
  | arr (items : List Json)
  | obj (fields : List (String × Json))

namespace Json

def hexDigit (n : Nat) : Char := "0123456789abcdef".toList.getD n '0'

/-- The escape of one character in a JSON string; all others above the controls stay. -/
def escapeChar (c : Char) : List Char :=
  if c = '"' then ['\\', '"']
  else if c = '\\' then ['\\', '\\']
  else if c = '\n' then ['\\', 'n']
  else if c = '\r' then ['\\', 'r']
  else if c = '\t' then ['\\', 't']
  else if c.toNat = 8 then ['\\', 'b']
  else if c.toNat = 12 then ['\\', 'f']
  else if c.toNat < 32 then
    ['\\', 'u', '0', '0', hexDigit (c.toNat / 16), hexDigit (c.toNat % 16)]
  else [c]

def quote (s : String) : List Char := '"' :: s.toList.flatMap escapeChar ++ ['"']

/-- The texts of the members of an object or array, separated by commas. -/
def commaSeparated : List (List Char) → List Char
  | [] => []
  | [text] => text
  | text :: rest => text ++ ',' :: commaSeparated rest

mutual

/-- The characters of `canonical_json`: keys sorted, no blanks, no ASCII escapes. -/
def canonical : Json → List Char
  | .null => "null".toList
  | .bool b => if b then "true".toList else "false".toList
  | .int n => (toString n).toList
  | .str s => quote s
  | .arr items => '[' :: commaSeparated (canonicalItems items) ++ [']']
  | .obj fields =>
    '{' :: commaSeparated (((canonicalFields fields).insertionSort fun a b => a.1 ≤ b.1).map
      fun field => quote field.1 ++ ':' :: field.2) ++ ['}']

def canonicalItems : List Json → List (List Char)
  | [] => []
  | item :: items => item.canonical :: canonicalItems items

def canonicalFields : List (String × Json) → List (String × List Char)
  | [] => []
  | (key, value) :: fields => (key, value.canonical) :: canonicalFields fields

end

/-- A string, or the null of a field that is not set. -/
def ofOption : Option String → Json
  | none => .null
  | some s => .str s

def ofStrings (items : List String) : Json := .arr (items.map .str)

end Json

/-- `canonical_json` -/
def canonicalJson (v : Json) : String := String.ofList v.canonical

example : canonicalJson (.obj [("b", .arr [.int (-3), .null]), ("a", .str "x\n")]) =
    "\x7b\"a\":\"x\\n\",\"b\":[-3,null]\x7d" := by decide

end DurableAgent
