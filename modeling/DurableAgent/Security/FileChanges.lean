import DurableAgent.Security.FileTree

/-!
# Files that change

A tree in which regular files come and change. Resolutions that succeed are not touched by that:
whatever they pass through is still there, and nothing that was no link has become one.
-/

namespace DurableAgent.Security

namespace FileTree

/-- The tree with something else at a place, or with nothing there. -/
def put (tree : FileTree) (place : List String) (found : Option Node) : FileTree :=
  { tree with node := fun p => if p = place then found else tree.node p }

/-- `rename` within one file system -/
def rename (tree : FileTree) (source target : List String) : FileTree :=
  if source = target then tree else (tree.put target (tree.node source)).put source none

/-- Nothing is at the place, or a regular file. -/
def Plain (tree : FileTree) (place : List String) : Prop :=
  tree.node place = none ∨ ∃ content, tree.node place = some (.file content)

variable {tree : FileTree} {place other : List String} {content : List UInt8} {found : Option Node}

@[simp] theorem node_put_self : (tree.put place found).node place = found := if_pos rfl

theorem node_put_of_ne (h : other ≠ place) :
    (tree.put place found).node other = tree.node other := if_neg h

theorem put_put {found' : Option Node} :
    (tree.put place found).put place found' = tree.put place found' := by
  unfold put
  congr 1
  funext p
  by_cases hp : p = place <;> simp [hp]

theorem put_self : tree.put place (tree.node place) = tree := by
  unfold put
  congr 1
  funext p
  by_cases hp : p = place <;> simp [hp]

/-- What is found and is no link stays so when a plain place becomes a file. -/
theorem Plain.node_put (h : tree.Plain place) {there : Node}
    (hnode : tree.node other = some there) :
    (tree.put place (some (.file content))).node other = some there ∨
      (∃ before, there = .file before) ∧
        (tree.put place (some (.file content))).node other = some (.file content) := by
  by_cases hother : other = place
  · subst hother
    right
    rw [node_put_self]
    obtain hnone | ⟨before, hfile⟩ := h
    · rw [hnone] at hnode
      cases hnode
    · rw [hfile] at hnode
      exact ⟨⟨before, (Option.some.inj hnode).symm⟩, rfl⟩
  · left
    rw [node_put_of_ne hother]
    exact hnode

theorem Plain.isDirectory_put (h : tree.Plain place) (hdirectory : tree.isDirectory other = true) :
    (tree.put place (some (.file content))).isDirectory other = true := by
  simp only [isDirectory, decide_eq_true_eq] at hdirectory ⊢
  obtain hnil | hnode := hdirectory
  · exact .inl hnil
  · obtain hsame | ⟨⟨before, hfile⟩, -⟩ := @Plain.node_put _ _ _ content h _ hnode
    · exact .inr hsame
    · cases hfile

theorem Real.put (h : tree.Real other) (hplain : tree.Plain place) :
    (tree.put place (some (.file content))).Real other := by
  intro above name hleads
  obtain ⟨hdots, hnull, there, hnode, hlink⟩ := h above name hleads
  refine ⟨hdots, hnull, ?_⟩
  obtain hsame | ⟨-, hfile⟩ := @Plain.node_put _ _ _ content hplain _ hnode
  · exact ⟨there, hsame, hlink⟩
  · exact ⟨_, hfile, nofun⟩

theorem walkTo_put {system : Bool} {atLink atLink' : AtLink} {start rest out : List String}
    (hplain : tree.Plain place)
    (hlinks : ∀ start rest, atLink start rest = .ok out → atLink' start rest = .ok out)
    (h : tree.walkTo system atLink start rest = .ok out) :
    (tree.put place (some (.file content))).walkTo system atLink' start rest = .ok out := by
  induction rest generalizing start with
  | nil => exact h
  | cons name rest ih =>
    rw [walkTo] at h ⊢
    by_cases hdots : name = ".."
    · rw [if_pos hdots] at h ⊢
      split at h
      · cases h
      · next hallowed =>
        rw [if_neg]
        · exact ih h
        · rintro ⟨hsystem, houtside⟩
          apply hallowed
          refine ⟨hsystem, fun hdirectory => houtside ?_⟩
          exact hplain.isDirectory_put hdirectory
    · rw [if_neg hdots] at h ⊢
      by_cases hnull : Char.ofNat 0 ∈ name.toList
      · rw [if_pos hnull] at h
        cases h
      · rw [if_neg hnull] at h ⊢
        cases hnode : tree.node (start ++ [name]) with
        | none =>
          rw [hnode] at h
          cases h
        | some there =>
          rw [hnode] at h
          obtain hsame | ⟨⟨before, rfl⟩, hfile⟩ := @Plain.node_put _ _ _ content hplain _ hnode
          · rw [hsame]
            cases there with
            | directory => exact ih h
            | file before => exact ih h
            | link target => exact hlinks _ _ h
          · rw [hfile]
            exact ih h

/-- A resolution that succeeds goes on as before when a plain place becomes a file. -/
theorem walk_put {system : Bool} {links : Nat} {start rest out : List String}
    (hplain : tree.Plain place) (h : tree.walk system links start rest = .ok out) :
    (tree.put place (some (.file content))).walk system links start rest = .ok out := by
  induction links generalizing start rest with
  | zero => exact walkTo_put hplain (fun _ _ h => by cases h) h
  | succ links ih => exact walkTo_put hplain (fun _ _ h => ih h) h

theorem resolve_put {path resolved : PurePath} (hplain : tree.Plain place)
    (h : tree.resolve path = .ok resolved) :
    (tree.put place (some (.file content))).resolve path = .ok resolved := by
  obtain ⟨out, hwalk, rfl⟩ := map_eq_ok.mp h
  exact map_eq_ok.mpr ⟨out, walk_put hplain hwalk, rfl⟩

theorem walkTo_split {atLink : AtLink} {links : Nat} {start names rest out : List String}
    (hlinks : ∀ start names, atLink start (names ++ rest) = .ok out → ∃ above links',
      atLink start names = .ok above ∧ tree.walk false links' above rest = .ok out)
    (hwalk : ∀ start, tree.walkTo false atLink start rest = tree.walk false links start rest)
    (h : tree.walkTo false atLink start (names ++ rest) = .ok out) :
    ∃ above links', tree.walkTo false atLink start names = .ok above ∧
      tree.walk false links' above rest = .ok out := by
  induction names generalizing start with
  | nil => exact ⟨start, links, rfl, hwalk start ▸ h⟩
  | cons name names ih =>
    rw [List.cons_append, walkTo] at h
    rw [walkTo]
    by_cases hdots : name = ".."
    · rw [if_pos hdots, if_neg (by simp)] at h ⊢
      exact ih h
    · rw [if_neg hdots] at h ⊢
      by_cases hnull : Char.ofNat 0 ∈ name.toList
      · rw [if_pos hnull] at h
        cases h
      · rw [if_neg hnull] at h ⊢
        cases hnode : tree.node (start ++ [name]) with
        | none =>
          rw [hnode] at h
          cases h
        | some there =>
          rw [hnode] at h
          cases there with
          | directory => exact ih h
          | file before => exact ih h
          | link target =>
            dsimp only at h ⊢
            rw [← List.append_assoc] at h
            exact hlinks _ _ h

/-- The names of a walk that succeeds lead to a place from which the others lead on. -/
theorem walk_split {links : Nat} {start names rest out : List String}
    (h : tree.walk false links start (names ++ rest) = .ok out) :
    ∃ above links', tree.walk false links start names = .ok above ∧
      tree.walk false links' above rest = .ok out := by
  induction links generalizing start names with
  | zero =>
    exact @walkTo_split tree _ 0 _ _ _ _ (fun _ _ h => by cases h) (fun _ => rfl) h
  | succ links ih =>
    exact @walkTo_split tree _ (links + 1) _ _ _ _ (fun _ _ h => ih h) (fun _ => rfl) h

/-- A path within the root stays so when a plain place becomes a file. -/
theorem confined_put {root path : PurePath} {candidate : String} {mustExist : Bool}
    (hplain : tree.Plain place) (h : Confined tree.fileSystem root candidate mustExist path) :
    Confined (tree.put place (some (.file content))).fileSystem root candidate mustExist path := by
  obtain ⟨rootResolved, hroot, hresolved, hrelative⟩ := h
  refine ⟨rootResolved, resolve_put hplain hroot, ?_, hrelative⟩
  cases mustExist with
  | true => exact resolve_put hplain hresolved
  | false =>
    obtain ⟨parent, hparent, hpath⟩ := hresolved
    exact ⟨parent, resolve_put hplain hparent, hpath⟩

/-- A plain place is there where it holds a file and can be named. -/
theorem isThere_concat {above : List String} {name : String} (hreal : tree.Real above)
    (hdots : name ≠ "..") (hplain : tree.Plain (above ++ [name])) :
    tree.isThere ⟨"/", above ++ [name]⟩ = true ↔
      Char.ofNat 0 ∉ name.toList ∧
        ∃ content, tree.node (above ++ [name]) = some (.file content) := by
  unfold isThere
  rw [show tree.names ⟨"/", above ++ [name]⟩ = above ++ [name] from rfl, walk_append hreal]
  have hstep (atLink : AtLink) : (tree.walkTo true atLink above [name]).isOk = true ↔
      Char.ofNat 0 ∉ name.toList ∧
        ∃ content, tree.node (above ++ [name]) = some (.file content) := by
    rw [walkTo, if_neg hdots]
    by_cases hnull : Char.ofNat 0 ∈ name.toList
    · rw [if_pos hnull]
      simp [hnull, Except.isOk, Except.toBool]
    · rw [if_neg hnull]
      obtain hnone | ⟨content, hfile⟩ := hplain
      · simp [hnone, Except.isOk, Except.toBool]
      · simp [hfile, hnull, walkTo, Except.isOk, Except.toBool]
  cases tree.linkLimit <;> exact hstep _

end FileTree

end DurableAgent.Security
