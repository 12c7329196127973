import DurableAgent.Domain.Errors

/-!
# Confined paths

`resolve_within_root` and `open_readonly_no_follow` over the answers of a file system, which may
be in any state. Paths are those of `pathlib` on POSIX systems.
-/

namespace DurableAgent.Security

/-- A POSIX path: what it starts at (nothing, one slash or two) and its parts. -/
structure PurePath where
  root : String
  parts : List String
  deriving DecidableEq, Repr

namespace PurePath

/-- The segments between slashes. -/
def segments : List Char → List (List Char)
  | [] => [[]]
  | c :: rest =>
    if c = '/' then [] :: segments rest
    else
      match segments rest with
      | segment :: others => (c :: segment) :: others
      | [] => [[c]]

/-- Two slashes at the start are kept, and any other number is one. -/
def rootOf : List Char → String
  | '/' :: '/' :: '/' :: _ => "/"
  | '/' :: '/' :: _ => "//"
  | '/' :: _ => "/"
  | _ => ""

/-- `Path(text)`: empty segments and single dots vanish, and double dots stay. -/
def ofString (text : String) : PurePath :=
  ⟨rootOf text.toList, ((segments text.toList).filter fun segment =>
    segment ≠ [] ∧ segment ≠ ['.']).map String.ofList⟩

def isAbsolute (path : PurePath) : Bool := path.root ≠ ""

/-- A relative path taken from another. -/
def join (base path : PurePath) : PurePath := ⟨base.root, base.parts ++ path.parts⟩

def parent (path : PurePath) : PurePath := ⟨path.root, path.parts.dropLast⟩

/-- The last part, if there is one. -/
def name (path : PurePath) : PurePath := ⟨"", path.parts.getLast?.toList⟩

/-- The path below a base; none where it is not below it. -/
def relativeTo (path base : PurePath) : Option PurePath :=
  if path.root = base.root ∧ base.parts <+: path.parts then
    some ⟨"", path.parts.drop base.parts.length⟩
  else none

def asPosix (path : PurePath) : String :=
  if path.root = "" ∧ path.parts = [] then "."
  else path.root ++ "/".intercalate path.parts

end PurePath

open PurePath

example : ofString "/repo//./a/../b.txt" = ⟨"/", ["repo", "a", "..", "b.txt"]⟩ := by decide

/-- Why a call to the operating system fails: an `OSError` or `RuntimeError`, or a path that
cannot be one, which is a `ValueError`. -/
inductive OSFailure where
  | os (text : String)
  | value (text : String)
  deriving DecidableEq, Repr

/-- A file system as its answers: the strict resolution of a path and the one that need not
succeed, whether something is there, and the content of what is opened without following a link;
no content where it is no regular file. -/
structure FileSystem where
  resolve : PurePath → Except OSFailure PurePath
  resolveAny : PurePath → Except OSFailure PurePath
  isThere : PurePath → Except OSFailure Bool
  read : PurePath → Except OSFailure (Option (List UInt8))
  resolveAny_of_resolve : ∀ path resolved, resolve path = .ok resolved →
    resolveAny path = .ok resolved

/-- The content of a file in a directory. -/
def fileIn (path : PurePath) (files : List (String × List UInt8)) (p : PurePath) :
    Option (List UInt8) :=
  (files.find? fun file => path.join ⟨"", [file.1]⟩ = p).map Prod.snd

/-- One directory, with regular files in it and nothing else. -/
def directory (path : PurePath) (files : List (String × List UInt8)) : FileSystem where
  resolve p :=
    if p = path ∨ (fileIn path files p).isSome then .ok p
    else .error (.os s!"[Errno 2] No such file or directory: '{p.asPosix}'")
  resolveAny p := .ok p
  isThere p := .ok (p = path ∨ (fileIn path files p).isSome)
  read p :=
    match fileIn path files p with
    | some content => .ok (some content)
    | none =>
      if p = path then .ok none
      else .error (.os s!"[Errno 2] No such file or directory: '{p.asPosix}'")
  resolveAny_of_resolve p resolved h := by
    split at h
    · exact h
    · cases h

def OSFailure.exn : OSFailure → Exn
  | .os text => .other text
  | .value text => .other text

variable (fs : FileSystem)

/-- A failure of the operating system becomes a refusal, and any other passes. -/
def guarded {α : Type} (message : String) : Except OSFailure α → Except Exn α
  | .ok a => .ok a
  | .error (.os _) => .error (.of .securityPolicy message)
  | .error (.value text) => .error (.other text)

/-- `resolve_within_root`, for paths other than the root -/
def resolveWithinRoot (root : PurePath) (candidate : String) (mustExist : Bool) :
    Except Exn PurePath := do
  let rootResolved ← (fs.resolve root).mapError OSFailure.exn
  let raw := ofString candidate
  let combined := if raw.isAbsolute then raw else rootResolved.join raw
  let resolved ← guarded s!"path cannot be safely resolved: {candidate}"
    (if mustExist then fs.resolve combined
      else (fs.resolve combined.parent).map fun parent => parent.join combined.name)
  match resolved.relativeTo rootResolved with
  | none => .error (.of .securityPolicy s!"path escapes approved root: {candidate}")
  | some relative =>
    if relative.parts = [] then
      .error (.of .securityPolicy "operation on repository root itself is not allowed")
    else .ok resolved

/-- `open_readonly_no_follow` -/
def openReadonlyNoFollow (path : PurePath) : Except Exn (List UInt8) := do
  let opened ← guarded s!"unable to open file safely: {path.asPosix}" (fs.read path)
  match opened with
  | none => .error (.of .securityPolicy s!"not a regular file: {path.asPosix}")
  | some content => .ok content

/-! ## When a path is refused -/

/-- The path leads to a place below the root. -/
def Confined (root : PurePath) (candidate : String) (mustExist : Bool) (resolved : PurePath) :
    Prop :=
  ∃ rootResolved, fs.resolve root = .ok rootResolved ∧
    (let raw := ofString candidate
     let combined := if raw.isAbsolute then raw else rootResolved.join raw
     if mustExist then fs.resolve combined = .ok resolved
     else ∃ parent, fs.resolve combined.parent = .ok parent ∧
        resolved = parent.join combined.name) ∧
    ∃ relative, resolved.relativeTo rootResolved = some relative ∧ relative.parts ≠ []

variable {fs} {root resolved path : PurePath} {candidate : String} {mustExist : Bool}

theorem guarded_eq_ok {α : Type} {message : String} {r : Except OSFailure α} {a : α} :
    guarded message r = .ok a ↔ r = .ok a := by
  cases r with
  | ok b => simp [guarded]
  | error e => cases e <;> simp [guarded]

theorem mapError_eq_ok {ε ε' α : Type} {f : ε → ε'} {r : Except ε α} {a : α} :
    r.mapError f = .ok a ↔ r = .ok a := by
  cases r <;> simp [Except.mapError]

theorem map_eq_ok {ε α β : Type} {f : α → β} {r : Except ε α} {b : β} :
    r.map f = .ok b ↔ ∃ a, r = .ok a ∧ b = f a := by
  cases r with
  | error e => simp [Except.map]
  | ok a => simp [Except.map, eq_comm]

theorem bind_eq_ok {ε α β : Type} {r : Except ε α} {f : α → Except ε β} {b : β} :
    (r >>= f) = .ok b ↔ ∃ a, r = .ok a ∧ f a = .ok b := by
  constructor
  · exact of_bind_ok
  · rintro ⟨a, rfl, hf⟩
    exact hf

/-- A path is resolved exactly where it leads below the root. -/
theorem resolveWithinRoot_eq_ok :
    resolveWithinRoot fs root candidate mustExist = .ok resolved ↔
      Confined fs root candidate mustExist resolved := by
  unfold resolveWithinRoot Confined
  rw [bind_eq_ok]
  apply exists_congr
  intro rootResolved
  rw [mapError_eq_ok, bind_eq_ok]
  apply and_congr_right
  intro _
  have hbelow (path : PurePath) : (match path.relativeTo rootResolved with
      | none => .error (.of .securityPolicy s!"path escapes approved root: {candidate}")
      | some relative =>
        if relative.parts = [] then
          .error (.of .securityPolicy "operation on repository root itself is not allowed")
        else .ok path : Except Exn PurePath) = .ok resolved ↔ path = resolved ∧
      ∃ relative, resolved.relativeTo rootResolved = some relative ∧ relative.parts ≠ [] := by
    cases hrelative : path.relativeTo rootResolved with
    | none =>
      constructor
      · intro h
        cases h
      · rintro ⟨rfl, relative, hsome, -⟩
        rw [hrelative] at hsome
        cases hsome
    | some relative =>
      by_cases hparts : relative.parts = []
      · simp only [hparts, if_true]
        constructor
        · intro h
          cases h
        · rintro ⟨rfl, other, hsome, hother⟩
          rw [hrelative] at hsome
          rw [← Option.some.inj hsome] at hother
          exact absurd hparts hother
      · simp only [hparts, if_false, Except.ok.injEq]
        constructor
        · rintro rfl
          exact ⟨rfl, relative, hrelative, hparts⟩
        · exact And.left
  simp only [hbelow]
  cases mustExist with
  | true => simp [guarded_eq_ok]
  | false =>
    simp only [Bool.false_eq_true, if_false, guarded_eq_ok, map_eq_ok]
    constructor
    · rintro ⟨_, ⟨parent, hparent, rfl⟩, rfl, hrelative⟩
      exact ⟨⟨parent, hparent, rfl⟩, hrelative⟩
    · rintro ⟨⟨parent, hparent, rfl⟩, hrelative⟩
      exact ⟨_, ⟨parent, hparent, rfl⟩, rfl, hrelative⟩

/-- A file is read exactly where it is a regular one. -/
theorem openReadonlyNoFollow_eq_ok {content : List UInt8} :
    openReadonlyNoFollow fs path = .ok content ↔ fs.read path = .ok (some content) := by
  unfold openReadonlyNoFollow
  rw [bind_eq_ok]
  simp only [guarded_eq_ok]
  constructor
  · rintro ⟨opened, hread, h⟩
    cases opened with
    | none => cases h
    | some found =>
      rw [hread, Except.ok.inj h]
  · intro hread
    exact ⟨some content, hread, rfl⟩

end DurableAgent.Security
