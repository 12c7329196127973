import DurableAgent.Security.FileTree

/-!
# Where a confined path leads

`resolve_within_root` compares names. A path that need not exist ends in a name that has not been
resolved, and where that name is `..` the path leads out of the directory it seems to lie in.
-/

namespace DurableAgent.Security

open PurePath

namespace FileTree

variable {tree : FileTree} {root : PurePath} {candidate : String} {mustExist : Bool}
  {top parent : List String} {resolved : PurePath}

/-- The place that a path denotes once its dots and the links on the way are resolved; the final
link is followed or not. -/
def denoted (tree : FileTree) (follow : Bool) (path : PurePath) : Except OSFailure (List String) :=
  let above := tree.walk false tree.linkLimit [] (tree.names path).dropLast
  match (tree.names path).getLast? with
  | none => .ok []
  | some name =>
    if name = ".." then above.map List.dropLast
    else if follow then tree.walk false tree.linkLimit [] (tree.names path)
    else above.map fun place => place ++ [name]

/-- The place lies strictly below the top. -/
def Beneath (top place : List String) : Prop := top <+: place ∧ place ≠ top

/-- The path denotes a place strictly below the resolved root. -/
def LiesBeneath (tree : FileTree) (root : PurePath) (follow : Bool) (path : PurePath) : Prop :=
  ∃ top place, tree.resolve root = .ok ⟨"/", top⟩ ∧ tree.denoted follow path = .ok place ∧
    Beneath top place

/-- A candidate taken from the resolved root. -/
def combined (top : List String) (candidate : String) : PurePath :=
  if (ofString candidate).isAbsolute then ofString candidate
  else PurePath.join ⟨"/", top⟩ (ofString candidate)

/-- The candidate need not exist and ends in `..`, which is taken from the root or from a directory
right in it. -/
def StepsOut (tree : FileTree) (root : PurePath) (candidate : String) (mustExist : Bool) : Prop :=
  mustExist = false ∧ (ofString candidate).parts.getLast? = some ".." ∧
    ∃ top parent, tree.resolve root = .ok ⟨"/", top⟩ ∧
      tree.resolve (combined top candidate).parent = .ok ⟨"/", parent⟩ ∧
      top <+: parent ∧ parent.length ≤ top.length + 1

/-! ## Names and places -/

theorem names_absolute (place : List String) : tree.names ⟨"/", place⟩ = place := rfl

theorem denoted_concat (hreal : tree.Real parent) {name : String} (hdots : name ≠ "..") :
    tree.denoted false ⟨"/", parent ++ [name]⟩ = .ok (parent ++ [name]) := by
  unfold denoted
  rw [names_absolute, List.getLast?_concat, List.dropLast_concat]
  dsimp only
  rw [if_neg hdots, if_neg Bool.false_ne_true, walk_self hreal]
  rfl

theorem denoted_dots (hreal : tree.Real parent) (follow : Bool) :
    tree.denoted follow ⟨"/", parent ++ [".."]⟩ = .ok parent.dropLast := by
  unfold denoted
  rw [names_absolute, List.getLast?_concat, List.dropLast_concat]
  dsimp only
  rw [if_pos rfl, walk_self hreal]
  rfl

theorem denoted_real {place : List String} (hreal : tree.Real place) :
    tree.denoted true ⟨"/", place⟩ = .ok place := by
  unfold denoted
  rw [names_absolute]
  cases hlast : place.getLast? with
  | none =>
    rw [List.getLast?_eq_none_iff.mp hlast]
  | some name =>
    have hdots : name ≠ ".." := by
      rintro rfl
      exact hreal.dots_notMem (List.mem_of_getLast? hlast)
    dsimp only
    rw [if_neg hdots, if_pos rfl, walk_self hreal]

/-- Below a base are the paths that its names begin, and other ones than the base itself. -/
theorem relativeTo_below {place : List String} :
    (∃ relative, PurePath.relativeTo ⟨"/", place⟩ ⟨"/", top⟩ = some relative ∧
      relative.parts ≠ []) ↔ Beneath top place := by
  unfold PurePath.relativeTo Beneath
  by_cases hleads : top <+: place
  · obtain ⟨rest, rfl⟩ := hleads
    simp
  · simp [hleads]

theorem names_combined_self : tree.names (combined top candidate) =
    (combined top candidate).parts := by
  unfold combined names
  by_cases habsolute : (ofString candidate).isAbsolute
  · rw [if_pos habsolute]
    exact if_pos habsolute
  · rw [if_neg habsolute]
    rfl

theorem names_combined : tree.names (combined top candidate).parent =
    (combined top candidate).parts.dropLast := by
  unfold combined names
  by_cases habsolute : (ofString candidate).isAbsolute
  · rw [if_pos habsolute]
    exact if_pos habsolute
  · rw [if_neg habsolute]
    rfl

/-- A combined path ends in `..` exactly if its candidate does. -/
theorem combined_getLast? (hreal : tree.Real top) :
    (combined top candidate).parts.getLast? = some ".." ↔
      (ofString candidate).parts.getLast? = some ".." := by
  unfold combined
  by_cases habsolute : (ofString candidate).isAbsolute
  · rw [if_pos habsolute]
  · rw [if_neg habsolute]
    change (top ++ (ofString candidate).parts).getLast? = _ ↔ _
    cases hparts : (ofString candidate).parts with
    | nil =>
      rw [List.append_nil]
      simp only [List.getLast?_nil, reduceCtorEq, iff_false]
      exact fun hlast => hreal.dots_notMem (List.mem_of_getLast? hlast)
    | cons name rest =>
      rw [List.getLast?_append, List.getLast?_cons, Option.some_or]

/-! ## The law -/

/-- A candidate that need not exist and ends in `..` is returned where its directory is found at
the root or right below it. -/
theorem StepsOut.returned (h : tree.StepsOut root candidate mustExist) :
    ∃ top parent, tree.resolve root = .ok ⟨"/", top⟩ ∧ tree.Real parent ∧
      parent.length ≤ top.length + 1 ∧
      resolveWithinRoot tree.fileSystem root candidate mustExist =
        .ok ⟨"/", parent ++ [".."]⟩ := by
  obtain ⟨rfl, hlast, top, parent, hroot, hparent, hbelow, hshort⟩ := h
  obtain ⟨_, hplace, hreal⟩ := resolve_eq_ok hparent
  obtain rfl := (PurePath.mk.inj hplace).2
  obtain ⟨_, htop, htopReal⟩ := resolve_eq_ok hroot
  obtain rfl := (PurePath.mk.inj htop).2
  have hname : (combined top candidate).name = ⟨"", [".."]⟩ := by
    unfold PurePath.name
    rw [(combined_getLast? htopReal).mpr hlast]
    rfl
  refine ⟨top, parent, hroot, hreal, hshort, ?_⟩
  rw [resolveWithinRoot_eq_ok]
  refine ⟨⟨"/", top⟩, hroot, ?_, relativeTo_below.mpr ⟨hbelow.trans (List.prefix_append _ _), ?_⟩⟩
  · refine ⟨⟨"/", parent⟩, hparent, ?_⟩
    change _ = PurePath.join _ (combined top candidate).name
    rw [hname]
    rfl
  · rintro rfl
    exact htopReal.dots_notMem (by simp)

/-- A path that need not exist is returned as a name in a real place. -/
theorem confined_concat (h : Confined tree.fileSystem root candidate false resolved) :
    ∃ top parent name, tree.resolve root = .ok ⟨"/", top⟩ ∧ tree.Real top ∧
      tree.resolve (combined top candidate).parent = .ok ⟨"/", parent⟩ ∧ tree.Real parent ∧
      (combined top candidate).parts.getLast? = some name ∧
      resolved = ⟨"/", parent ++ [name]⟩ ∧ Beneath top (parent ++ [name]) := by
  obtain ⟨rootResolved, hroot, ⟨_, hparent, rfl⟩, hrelative⟩ := h
  obtain ⟨top, rfl, htopReal⟩ := resolve_eq_ok hroot
  change tree.resolve (combined top candidate).parent = _ at hparent
  change ∃ relative, PurePath.relativeTo (PurePath.join _ (combined top candidate).name) _ =
    some relative ∧ _ at hrelative
  change ∃ top' parent' name, _ ∧ _ ∧ _ ∧ _ ∧ _ ∧
    PurePath.join _ (combined top candidate).name = _ ∧ _
  obtain ⟨parent, rfl, hreal⟩ := resolve_eq_ok hparent
  unfold PurePath.name at hrelative ⊢
  cases hlast : (combined top candidate).parts.getLast? with
  | none =>
    rw [hlast] at hrelative
    have hnone := List.getLast?_eq_none_iff.mp hlast
    have hempty : parent = [] := by
      obtain ⟨place, hwalk, hplace⟩ := map_eq_ok.mp hparent
      rw [names_combined, hnone, List.dropLast_nil, walk_nil] at hwalk
      rw [(PurePath.mk.inj hplace).2, ← Except.ok.inj hwalk]
    obtain rfl := hempty
    obtain ⟨hleads, hne⟩ := relativeTo_below.mp hrelative
    exact absurd (List.prefix_nil.mp hleads).symm hne
  | some name =>
    rw [hlast] at hrelative
    exact ⟨top, parent, name, hroot, htopReal, hparent, hreal, hlast, rfl,
      relativeTo_below.mp hrelative⟩

/-- A returned path that does not step out denotes a place below the root. -/
theorem beneath_of_confined (h : Confined tree.fileSystem root candidate mustExist resolved)
    (hsteps : ¬ tree.StepsOut root candidate mustExist) :
    tree.LiesBeneath root mustExist resolved := by
  cases mustExist with
  | true =>
    obtain ⟨rootResolved, hroot, hresolved, hrelative⟩ := h
    obtain ⟨top, rfl, -⟩ := resolve_eq_ok hroot
    obtain ⟨place, rfl, hreal⟩ := resolve_eq_ok hresolved
    exact ⟨top, place, hroot, denoted_real hreal, relativeTo_below.mp hrelative⟩
  | false =>
    obtain ⟨top, parent, name, hroot, htopReal, hparent, hreal, hlast, rfl, hleads, hne⟩ :=
      confined_concat h
    by_cases hdots : name = ".."
    · obtain rfl := hdots
      -- the dots are none of the root's own names, so the directory lies at or below the root
      have hbelow : top <+: parent := by
        obtain heq | hbelow := List.prefix_concat_iff.mp hleads
        · exact absurd heq.symm hne
        · exact hbelow
      refine ⟨top, parent.dropLast, hroot, denoted_dots hreal false, ?_⟩
      have hlong : top.length + 1 < parent.length := by
        by_contra hshort
        exact hsteps ⟨rfl, (combined_getLast? htopReal).mp hlast, top, parent, hroot, hparent,
          hbelow, Nat.not_lt.mp hshort⟩
      constructor
      · apply List.prefix_of_prefix_length_le hbelow (List.dropLast_prefix parent)
        rw [List.length_dropLast]
        omega
      · intro heq
        have hlengths := congrArg List.length heq
        rw [List.length_dropLast] at hlengths
        omega
    · exact ⟨top, parent ++ [name], hroot, denoted_concat hreal hdots, hleads, hne⟩

/-- The directory of a candidate that steps out lies too high for `..` to stay below the root. -/
theorem StepsOut.not_beneath (h : tree.StepsOut root candidate mustExist) :
    ∃ resolved, resolveWithinRoot tree.fileSystem root candidate mustExist = .ok resolved ∧
      ¬ tree.LiesBeneath root mustExist resolved := by
  obtain ⟨top, parent, hroot, hreal, hshort, hreturned⟩ := h.returned
  refine ⟨_, hreturned, ?_⟩
  rintro ⟨_, place, hroot', hdenoted, hleads, hne⟩
  obtain rfl := (PurePath.mk.inj (Except.ok.inj (hroot.symm.trans hroot'))).2
  rw [denoted_dots hreal] at hdenoted
  obtain rfl := Except.ok.inj hdenoted
  have hlonger := hleads.length_le
  rw [List.length_dropLast] at hlonger
  exact hne (hleads.eq_of_length (by rw [List.length_dropLast]; omega)).symm

/-- A path that is returned denotes a place strictly below the root, unless its candidate steps
out of it. -/
theorem confined_iff (tree : FileTree) (root : PurePath) (candidate : String) (mustExist : Bool) :
    (∀ resolved, resolveWithinRoot tree.fileSystem root candidate mustExist = .ok resolved →
      tree.LiesBeneath root mustExist resolved) ↔ ¬ tree.StepsOut root candidate mustExist := by
  constructor
  · intro hall hsteps
    obtain ⟨resolved, hreturned, houtside⟩ := hsteps.not_beneath
    exact houtside (hall resolved hreturned)
  · intro hsteps resolved hreturned
    exact beneath_of_confined (resolveWithinRoot_eq_ok.mp hreturned) hsteps

/-- A repository in a directory, and nothing else. -/
def plainTree : FileTree where
  node place := if place = ["srv"] ∨ place = ["srv", "repo"] then some .directory else none

/-- The dots alone lead out of the repository. -/
theorem dots_outside : ∃ resolved,
    resolveWithinRoot plainTree.fileSystem ⟨"/", ["srv", "repo"]⟩ ".." false = .ok resolved ∧
      ¬ plainTree.LiesBeneath ⟨"/", ["srv", "repo"]⟩ false resolved := by
  apply StepsOut.not_beneath
  exact ⟨rfl, by decide, ["srv", "repo"], ["srv", "repo"], by rfl, by rfl, List.prefix_rfl,
    Nat.le_succ _⟩

end FileTree

end DurableAgent.Security
