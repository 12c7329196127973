import DurableAgent.Security.Paths

/-!
# A file tree with symbolic links

Directories, regular files and symbolic links by their places below the top, with what
`os.path.realpath`, `os.stat` and an opening that follows no link answer over them. A tree of this
kind is one of the file systems that confined paths are about.
-/

namespace DurableAgent.Security

/-- What a place of a tree holds. -/
inductive Node where
  | directory
  | file (content : List UInt8)
  | link (target : PurePath)
  deriving DecidableEq

structure FileTree where
  /-- What is at a place, the names that lead to it from the top; the top is a directory. -/
  node : List String → Option Node
  workingDirectory : List String := []
  /-- How many links a resolution follows before it counts as a circle. -/
  linkLimit : Nat := 40

namespace FileTree

/-- How a walk goes on at a link: from a place, by the names that are left. -/
abbrev AtLink := List String → List String → Except OSFailure (List String)

variable (tree : FileTree)

def isDirectory (place : List String) : Bool :=
  place = [] ∨ tree.node place = some .directory

def missing : OSFailure := .os "[Errno 2] No such file or directory"

def notDirectory : OSFailure := .os "[Errno 20] Not a directory"

def circle : OSFailure := .os "[Errno 40] Too many levels of symbolic links"

def embeddedNull : OSFailure := .value "embedded null byte"

/-- The place that names lead to from another place, up to the first link. The operating system
takes `..` from directories only, and `realpath` from any place. -/
def walkTo (system : Bool) (atLink : AtLink) :
    List String → List String → Except OSFailure (List String)
  | place, [] => .ok place
  | place, name :: rest =>
    if name = ".." then
      if system ∧ ¬ tree.isDirectory place then .error notDirectory
      else walkTo system atLink place.dropLast rest
    else if Char.ofNat 0 ∈ name.toList then .error embeddedNull
    else
      match tree.node (place ++ [name]) with
      | none => .error missing
      | some (.link target) =>
        atLink (if target.isAbsolute then [] else place) (target.parts ++ rest)
      | some _ => walkTo system atLink (place ++ [name]) rest

/-- The place that names lead to from another place. -/
def walk (system : Bool) : Nat → List String → List String → Except OSFailure (List String)
  | 0 => tree.walkTo system fun _ _ => .error circle
  | links + 1 => tree.walkTo system (walk system links)

/-- The same for names that need not lead anywhere, which then stand for themselves. -/
def walkAnyTo (atLink : AtLink) : List String → List String → Except OSFailure (List String)
  | place, [] => .ok place
  | place, name :: rest =>
    if name = ".." then walkAnyTo atLink place.dropLast rest
    else if Char.ofNat 0 ∈ name.toList then .error embeddedNull
    else
      match tree.node (place ++ [name]) with
      | some (.link target) =>
        atLink (if target.isAbsolute then [] else place) (target.parts ++ rest)
      | _ => walkAnyTo atLink (place ++ [name]) rest

def walkAny : Nat → List String → List String → Except OSFailure (List String)
  | 0 => tree.walkAnyTo fun place rest => .ok (place ++ rest)
  | links + 1 => tree.walkAnyTo (walkAny links)

/-- The names that lead to a path from the top. -/
def names (path : PurePath) : List String :=
  if path.isAbsolute then path.parts else tree.workingDirectory ++ path.parts

/-- `path.resolve(strict=True)` -/
def resolve (path : PurePath) : Except OSFailure PurePath :=
  (tree.walk false tree.linkLimit [] (tree.names path)).map fun place => ⟨"/", place⟩

/-- `path.resolve()` -/
def resolveAny (path : PurePath) : Except OSFailure PurePath :=
  (tree.walkAny tree.linkLimit [] (tree.names path)).map fun place => ⟨"/", place⟩

/-- `path.exists()` -/
def isThere (path : PurePath) : Bool :=
  (tree.walk true tree.linkLimit [] (tree.names path)).isOk

/-- What is opened at a place without following a link there. -/
def openAt (place : List String) : Except OSFailure (Option (List UInt8)) :=
  match tree.node place with
  | none => if place = [] then .ok none else .error missing
  | some .directory => .ok none
  | some (.file content) => .ok (some content)
  | some (.link _) => .error circle

/-- The content of what is opened without following a final link; none of a directory. -/
def read (path : PurePath) : Except OSFailure (Option (List UInt8)) :=
  match (tree.names path).getLast? with
  | some name =>
    if name = ".." then
      (tree.walk true tree.linkLimit [] (tree.names path)).map fun _ => none
    else do
      let place ← tree.walk true tree.linkLimit [] (tree.names path).dropLast
      if Char.ofNat 0 ∈ name.toList then .error embeddedNull
      else tree.openAt (place ++ [name])
  | none => .ok none

variable {tree}

theorem walkAnyTo_of_walkTo {atLink anyLink : AtLink} {place rest out : List String}
    (hlinks : ∀ place rest, atLink place rest = .ok out → anyLink place rest = .ok out)
    (h : tree.walkTo false atLink place rest = .ok out) :
    tree.walkAnyTo anyLink place rest = .ok out := by
  induction rest generalizing place with
  | nil => exact h
  | cons name rest ih =>
    rw [walkTo] at h
    rw [walkAnyTo]
    by_cases hdots : name = ".."
    · rw [if_pos hdots, if_neg (by simp)] at h
      rw [if_pos hdots]
      exact ih h
    · rw [if_neg hdots] at h
      rw [if_neg hdots]
      by_cases hnull : Char.ofNat 0 ∈ name.toList
      · rw [if_pos hnull] at h
        cases h
      · rw [if_neg hnull] at h
        rw [if_neg hnull]
        cases hnode : tree.node (place ++ [name]) with
        | none =>
          rw [hnode] at h
          cases h
        | some found =>
          rw [hnode] at h
          cases found with
          | directory => exact ih h
          | file content => exact ih h
          | link target => exact hlinks _ _ h

theorem walkAny_of_walk {links : Nat} {place rest out : List String}
    (h : tree.walk false links place rest = .ok out) : tree.walkAny links place rest = .ok out := by
  induction links generalizing place rest with
  | zero => exact walkAnyTo_of_walkTo (fun _ _ h => by cases h) h
  | succ links ih => exact walkAnyTo_of_walkTo (fun _ _ h => ih h) h

variable (tree) in
/-- The tree as the file system that paths are resolved in. -/
def fileSystem : FileSystem where
  resolve := tree.resolve
  resolveAny := tree.resolveAny
  isThere path := .ok (tree.isThere path)
  read := tree.read
  resolveAny_of_resolve path resolved h := by
    obtain ⟨place, hwalk, rfl⟩ := map_eq_ok.mp h
    exact map_eq_ok.mpr ⟨place, walkAny_of_walk hwalk, rfl⟩

/-! ## Real places -/

/-- Every name on the way to the place is that of something that is no link. -/
def Real (tree : FileTree) (place : List String) : Prop :=
  ∀ above name, above ++ [name] <+: place → name ≠ ".." ∧ Char.ofNat 0 ∉ name.toList ∧
    ∃ found, tree.node (above ++ [name]) = some found ∧ ∀ target, found ≠ .link target

theorem Real.nil : tree.Real [] := by
  intro above name h
  simp at h

theorem Real.of_prefix {place above : List String} (h : tree.Real place)
    (hleads : above <+: place) : tree.Real above :=
  fun inner name hinner => h inner name (hinner.trans hleads)

theorem Real.dropLast {place : List String} (h : tree.Real place) : tree.Real place.dropLast :=
  h.of_prefix (List.dropLast_prefix place)

theorem Real.concat {place : List String} {name : String} {found : Node}
    (h : tree.Real place) (hdots : name ≠ "..") (hnull : Char.ofNat 0 ∉ name.toList)
    (hnode : tree.node (place ++ [name]) = some found) (hlink : ∀ target, found ≠ .link target) :
    tree.Real (place ++ [name]) := by
  intro above other hleads
  obtain heq | hleads := List.prefix_concat_iff.mp hleads
  · obtain ⟨rfl, hother⟩ := List.append_inj' heq rfl
    obtain rfl := (List.cons.inj hother).1
    exact ⟨hdots, hnull, found, hnode, hlink⟩
  · exact h above other hleads

theorem walkTo_real {system : Bool} {atLink : AtLink} {place rest out : List String}
    (hlinks : ∀ place rest, tree.Real place → atLink place rest = .ok out → tree.Real out)
    (hreal : tree.Real place) (h : tree.walkTo system atLink place rest = .ok out) :
    tree.Real out := by
  induction rest generalizing place with
  | nil =>
    obtain rfl := Except.ok.inj h
    exact hreal
  | cons name rest ih =>
    rw [walkTo] at h
    by_cases hdots : name = ".."
    · rw [if_pos hdots] at h
      split at h
      · cases h
      · exact ih hreal.dropLast h
    · rw [if_neg hdots] at h
      by_cases hnull : Char.ofNat 0 ∈ name.toList
      · rw [if_pos hnull] at h
        cases h
      · rw [if_neg hnull] at h
        cases hnode : tree.node (place ++ [name]) with
        | none =>
          rw [hnode] at h
          cases h
        | some found =>
          rw [hnode] at h
          cases found with
          | directory => exact ih (hreal.concat hdots hnull hnode nofun) h
          | file content => exact ih (hreal.concat hdots hnull hnode nofun) h
          | link target =>
            by_cases habsolute : target.isAbsolute
            · exact hlinks [] _ Real.nil (by simpa [habsolute] using h)
            · exact hlinks place _ hreal (by simpa [habsolute] using h)

/-- Resolution comes to a real place. -/
theorem walk_real {system : Bool} {links : Nat} {place rest out : List String}
    (hreal : tree.Real place) (h : tree.walk system links place rest = .ok out) :
    tree.Real out := by
  induction links generalizing place rest with
  | zero => exact walkTo_real (fun _ _ _ h => by cases h) hreal h
  | succ links ih => exact walkTo_real (fun _ _ hreal h => ih hreal h) hreal h

/-- The names of a real place are taken as they are. -/
theorem walkTo_append {system : Bool} {atLink : AtLink} {place inner : List String}
    (h : tree.Real (place ++ inner)) (rest : List String) :
    tree.walkTo system atLink place (inner ++ rest) =
      tree.walkTo system atLink (place ++ inner) rest := by
  induction inner generalizing place with
  | nil =>
    rw [List.append_nil]
    rfl
  | cons name inner ih =>
    rw [List.append_cons] at h
    obtain ⟨hdots, hnull, found, hnode, hlink⟩ := h place name (List.prefix_append _ _)
    rw [List.cons_append, walkTo, if_neg hdots, if_neg hnull, hnode,
      List.append_cons place name inner]
    cases found with
    | directory => exact ih h
    | file content => exact ih h
    | link target => exact absurd rfl (hlink target)

/-- A walk below a real place. -/
theorem walk_append {system : Bool} {links : Nat} {place : List String} (h : tree.Real place)
    (rest : List String) : tree.walk system links [] (place ++ rest) =
      tree.walk system links place rest := by
  cases links <;> exact walkTo_append h rest

theorem walk_nil {system : Bool} {links : Nat} {place : List String} :
    tree.walk system links place [] = .ok place := by
  cases links <;> rfl

/-- A real place is resolved to itself. -/
theorem walk_self {system : Bool} {links : Nat} {place : List String} (h : tree.Real place) :
    tree.walk system links [] place = .ok place := by
  have happend := @walk_append tree system links place h []
  rw [List.append_nil, walk_nil] at happend
  exact happend

theorem resolve_eq_ok {path resolved : PurePath} (h : tree.resolve path = .ok resolved) :
    ∃ place, resolved = ⟨"/", place⟩ ∧ tree.Real place := by
  obtain ⟨place, hwalk, rfl⟩ := map_eq_ok.mp h
  exact ⟨place, rfl, walk_real Real.nil hwalk⟩

theorem Real.dots_notMem {place : List String} (h : tree.Real place) : ".." ∉ place := by
  intro hmem
  obtain ⟨above, below, rfl⟩ := List.append_of_mem hmem
  rw [List.append_cons] at h
  exact (h above ".." (List.prefix_append _ _)).1 rfl

/-! ## Names in real places -/

/-- Opening a name in a real place looks at the name alone. -/
theorem read_concat {above : List String} {name : String} (hreal : tree.Real above)
    (hdots : name ≠ "..") : tree.read ⟨"/", above ++ [name]⟩ =
      if Char.ofNat 0 ∈ name.toList then .error embeddedNull
      else tree.openAt (above ++ [name]) := by
  unfold read
  rw [show tree.names ⟨"/", above ++ [name]⟩ = above ++ [name] from rfl, List.getLast?_concat,
    List.dropLast_concat]
  dsimp only
  rw [if_neg hdots, walk_self hreal]
  rfl

theorem openAt_eq_some {place : List String} {content : List UInt8} :
    tree.openAt place = .ok (some content) ↔ tree.node place = some (.file content) := by
  unfold openAt
  cases hnode : tree.node place with
  | none =>
    by_cases hplace : place = [] <;> simp [hplace]
  | some found => cases found <;> simp

end FileTree

end DurableAgent.Security
