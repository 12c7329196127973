import DurableAgent.Tools.Writing

/-!
# Patches of a unique fragment

The patch tool counts occurrences from the left without overlaps, and so does not see that a
fragment occurs twice where its occurrences overlap. A replay is told by the digests of the
contents before and after.
-/

namespace DurableAgent.Tools

open Library Security
open Toolkit (argument exists_fileResult)

/-! ## Texts and their bytes -/

theorem decodeUtf8_utf8 (text : String) : decodeUtf8 (utf8 text) = some text := by
  have hbytes : (utf8 text).toByteArray = text.toByteArray := String.utf8Encode_toList
  unfold decodeUtf8 String.fromUTF8?
  rw [hbytes, dif_pos text.isValidUTF8]
  rfl

theorem utf8_injective : Function.Injective utf8 := by
  intro a b h
  apply Option.some.inj
  rw [← decodeUtf8_utf8 a, h, decodeUtf8_utf8]

/-! ## The two resolutions of a path -/

section Paths

variable {tree : FileTree} {root path : PurePath} {candidate : String} {content : List UInt8}

/-- A path that leads to a file leads to it directly, or by a last name that is a link. -/
theorem direct_or_link (h : Confined tree.fileSystem root candidate true path)
    (hread : tree.read path = .ok (some content)) {path' : PurePath}
    (h' : Confined tree.fileSystem root candidate false path') :
    path' = path ∧ path.parts.getLast? ≠ some ".." ∧
        tree.node path.parts = some (.file content) ∨
      ∀ before, tree.read path' ≠ .ok (some before) := by
  obtain ⟨top, above, name, hroot, -, hparent, hreal, hlast, rfl, -⟩ := FileTree.confined_concat h'
  obtain ⟨_, hroot', hresolved, -⟩ := h
  obtain rfl := Except.ok.inj (hroot.symm.trans hroot')
  change tree.resolve (FileTree.combined top candidate) = _ at hresolved
  obtain ⟨place, hwalk, rfl⟩ := map_eq_ok.mp hresolved
  obtain ⟨above', hwalkParent, habove⟩ := map_eq_ok.mp hparent
  obtain rfl := (PurePath.mk.inj habove).2
  rw [FileTree.names_combined] at hwalkParent
  rw [FileTree.names_combined_self, ← List.dropLast_append_getLast? name hlast] at hwalk
  obtain ⟨above', links, habove', hname⟩ := FileTree.walk_split hwalk
  obtain rfl := Except.ok.inj (hwalkParent.symm.trans habove')
  have hstep : ∃ atLink, tree.walkTo false atLink above [name] = .ok place := by
    cases links with
    | zero => exact ⟨_, hname⟩
    | succ links => exact ⟨_, hname⟩
  obtain ⟨atLink, hstep⟩ := hstep
  by_cases hdots : name = ".."
  · subst hdots
    right
    intro before hbefore
    unfold FileTree.read at hbefore
    rw [FileTree.names_absolute, List.getLast?_concat] at hbefore
    obtain ⟨_, -, hnone⟩ := map_eq_ok.mp hbefore
    cases hnone
  · rw [FileTree.walkTo, if_neg hdots] at hstep
    by_cases hnull : Char.ofNat 0 ∈ name.toList
    · rw [if_pos hnull] at hstep
      cases hstep
    · rw [if_neg hnull] at hstep
      rw [FileTree.read_concat hreal hdots, if_neg hnull]
      simp only [ne_eq, FileTree.openAt_eq_some]
      cases hnode : tree.node (above ++ [name]) with
      | none =>
        rw [hnode] at hstep
        cases hstep
      | some there =>
        rw [hnode] at hstep
        cases there with
        | link link =>
          right
          intro before hfile
          cases hfile
        | directory =>
          obtain rfl := Except.ok.inj hstep
          rw [FileTree.read_concat hreal hdots, if_neg hnull, FileTree.openAt_eq_some,
            hnode] at hread
          cases hread
        | file there =>
          obtain rfl := Except.ok.inj hstep
          rw [FileTree.read_concat hreal hdots, if_neg hnull, FileTree.openAt_eq_some,
            hnode] at hread
          left
          refine ⟨rfl, ?_, hnode.trans hread⟩
          rw [List.getLast?_concat]
          exact fun heq => hdots (Option.some.inj heq)

end Paths

variable {P : PatchApplicationTool} {tree : FileTree} {call : ToolCall} {path : PurePath}
  {target : Json} {text old new expected expectedResult suffix : String}

/-- The arguments of a call that the schema accepts, with a path within the root at which there is
a file of this text. -/
structure Patches (P : PatchApplicationTool) (tree : FileTree) (call : ToolCall) (path : PurePath)
    (target : Json) (text old new expected expectedResult : String) : Prop where
  path_eq : argument call "path" = .ok target
  old_eq : argument call "old" = .ok (.str old)
  new_eq : argument call "new" = .ok (.str new)
  hash_eq : argument call "expected_hash" = .ok (.str expected)
  result_eq : argument call "expected_result_hash" = .ok (.str expectedResult)
  old_nonempty : old ≠ ""
  distinct : old ≠ new
  confined : resolveWithinRoot tree.fileSystem P.writer.toolkit.repositoryRoot
    (pyStr P.writer.toolkit.isPrintable target) true = .ok path
  file : tree.read path = .ok (some (utf8 text))

/-- The text with the leftmost occurrence replaced. -/
def patched (text old new : String) : String :=
  String.ofList (replaceFirst old.toList new.toList text.toList)

/-! ## What is checked before a patch -/

theorem isDigest_str {a b : String} : isDigest (.str a) b = decide (a = b) := rfl

theorem pyStr_str {isPrintable : Char → Bool} {s : String} : pyStr isPrintable (.str s) = s := rfl

/-- Under another digest than the expected one, the file has to have the digest of the result. -/
theorem Patches.check_stale
    (h : Patches P tree call path target text old new expected expectedResult)
    (hstale : expected ≠ P.writer.toolkit.sha256 (utf8 text)) : P.check tree call =
      if expectedResult = P.writer.toolkit.sha256 (utf8 text) then do
        let output ← P.writer.toolkit.fileResult (workspace tree) path (utf8 text)
        .ok (.inl (output ++ [("replacements", .int 0)]))
      else .error (.of .toolExecution "file changed since patch input was captured") := by
  have hopened : openReadonlyNoFollow tree.fileSystem path = .ok (utf8 text) :=
    openReadonlyNoFollow_eq_ok.mpr h.file
  unfold PatchApplicationTool.check
  simp only [h.path_eq, h.confined, hopened, h.hash_eq, h.result_eq, isDigest_str, bind,
    Except.bind, hstale, decide_false, if_true, decide_eq_true_eq]

/-- Under the expected digest, the fragment has to be counted once, and the result has to have the
digest that is expected of it. -/
theorem Patches.check_fresh
    (h : Patches P tree call path target text old new expected expectedResult)
    (hfresh : expected = P.writer.toolkit.sha256 (utf8 text)) : P.check tree call =
      if count old.toList text.toList ≠ 1 then
        .error (.of .toolExecution
          s!"patch fragment must occur exactly once; found {count old.toList text.toList}")
      else if expectedResult = P.writer.toolkit.sha256Digest (patched text old new) then
        .ok (.inr (patched text old new))
      else .error (.of .toolExecution "expected result hash does not match computed patch") := by
  have hopened : openReadonlyNoFollow tree.fileSystem path = .ok (utf8 text) :=
    openReadonlyNoFollow_eq_ok.mpr h.file
  unfold PatchApplicationTool.check
  simp only [h.path_eq, h.confined, hopened, h.hash_eq, h.result_eq, h.old_eq, h.new_eq,
    isDigest_str, bind, Except.bind, hfresh, decide_true, Bool.true_eq_false, if_false,
    decodeUtf8_utf8, decide_eq_true_eq, pyStr_str, patched]
  rfl

/-! ## What the patch tool does -/

/-- The call that is handed to the writer. -/
def writing (call : ToolCall) (target : Json) (updated expected : String) : ToolCall :=
  { call with
    arguments := .obj
      [("path", target), ("content", .str updated), ("expected_hash", .str expected)] }

theorem Patches.writeCall_eq
    (h : Patches P tree call path target text old new expected expectedResult) (updated : String) :
    PatchApplicationTool.writeCall call updated = .ok (writing call target updated expected) := by
  unfold PatchApplicationTool.writeCall
  simp only [h.path_eq, h.hash_eq, bind, Except.bind]
  rfl

/-- The path that the writer takes is that of the file that was read, or that of a link to it. -/
theorem Patches.direct
    (h : Patches P tree call path target text old new expected expectedResult) (updated : String)
    {path' : PurePath} (hpath : resolveWithinRoot tree.fileSystem
      P.writer.toolkit.repositoryRoot (pyStr P.writer.toolkit.isPrintable target) false =
        .ok path') :
    path' = path ∧ Targets P.writer tree (writing call target updated expected) path target
        (.str updated) (.str expected) ∨
      ∀ before, tree.read path' ≠ .ok (some before) := by
  obtain ⟨rfl, hnamed, hfile⟩ | hlink := direct_or_link (resolveWithinRoot_eq_ok.mp h.confined)
    h.file (resolveWithinRoot_eq_ok.mp hpath)
  · exact .inl ⟨rfl, rfl, rfl, rfl, hpath, hnamed, .inr ⟨_, hfile⟩⟩
  · exact .inr hlink

/-- The writer refuses the call, or the call is to the file that was read. -/
theorem Patches.writing_targets
    (h : Patches P tree call path target text old new expected expectedResult) (updated : String) :
    (∃ e, P.writer.check tree (writing call target updated expected) = .error e) ∨
      Targets P.writer tree (writing call target updated expected) path target (.str updated)
        (.str expected) := by
  have hcontent : argument (writing call target updated expected) "content" =
    .ok (.str updated) := rfl
  have htarget : argument (writing call target updated expected) "path" = .ok target := rfl
  have hhash : argument (writing call target updated expected) "expected_hash" =
    .ok (.str expected) := rfl
  have hrefused (hrest : ∀ result, P.writer.check tree (writing call target updated expected) ≠
      .ok result) : ∃ e, P.writer.check tree (writing call target updated expected) = .error e := by
    cases hcheck : P.writer.check tree (writing call target updated expected) with
    | error e => exact ⟨e, rfl⟩
    | ok result => exact absurd hcheck (hrest result)
  cases hpath : resolveWithinRoot tree.fileSystem P.writer.toolkit.repositoryRoot
      (pyStr P.writer.toolkit.isPrintable target) false with
  | error e =>
    left
    apply hrefused
    intro result hcheck
    unfold ControlledFileWriterTool.check at hcheck
    simp only [hcontent, htarget, hpath, bind, Except.bind] at hcheck
    split at hcheck <;> cases hcheck
  | ok path' =>
    obtain ⟨rfl, htargets⟩ | hlink := h.direct updated hpath
    · exact .inr htargets
    · left
      apply hrefused
      intro result hcheck
      unfold ControlledFileWriterTool.check at hcheck
      simp only [hcontent, htarget, hpath, hhash, bind, Except.bind] at hcheck
      split at hcheck
      · cases hcheck
      · split at hcheck
        · cases hopened : openReadonlyNoFollow tree.fileSystem path' with
          | error e =>
            rw [hopened] at hcheck
            cases hcheck
          | ok before => exact hlink before (openReadonlyNoFollow_eq_ok.mp hopened)
        · cases hcheck

/-- How often an output says that a fragment was replaced. -/
def replacements (output : List (String × Json)) : Option Int :=
  match output.lookup "replacements" with
  | some (.int n) => some n
  | _ => none

theorem replacements_fileResult {T : Toolkit} {ws : Workspace} {content : List UInt8}
    {output : List (String × Json)} (h : T.fileResult ws path content = .ok output) (n : Int) :
    replacements (output ++ [("replacements", .int n)]) = some n := by
  unfold Toolkit.fileResult at h
  obtain ⟨root, -, h⟩ := of_bind_ok h
  split at h
  · cases h
  · rw [← Except.ok.inj h]
    rfl

/-- What `execute` does: it raises, finds the file patched, or patches it. -/
inductive PatchExecuted (P : PatchApplicationTool) (tree : FileTree) (path : PurePath)
    (target : Json) (text old new expected expectedResult suffix : String) :
    FileExecution → Prop where
  | raised (left : List FileTree) (e : Exn) :
      PatchExecuted P tree path target text old new expected expectedResult suffix
        ⟨left, tree, .error e⟩
  | found (output : List (String × Json)) (houtput : replacements output = some 0)
      (hstale : expected ≠ P.writer.toolkit.sha256 (utf8 text))
      (hresult : expectedResult = P.writer.toolkit.sha256 (utf8 text)) :
      PatchExecuted P tree path target text old new expected expectedResult suffix
        ⟨[tree], tree, .ok output⟩
  | patched (left : List FileTree) (output : List (String × Json))
      (houtput : replacements output = some 1)
      (hfresh : expected = P.writer.toolkit.sha256 (utf8 text))
      (hcount : count old.toList text.toList = 1)
      (hresult : expectedResult = P.writer.toolkit.sha256Digest (patched text old new))
      (hsize : ¬ P.writer.maximumBytes < (utf8 (patched text old new)).length)
      (hdirect : resolveWithinRoot tree.fileSystem P.writer.toolkit.repositoryRoot
        (pyStr P.writer.toolkit.isPrintable target) false = .ok path)
      (hreplaceable : Replaceable tree path suffix) :
      PatchExecuted P tree path target text old new expected expectedResult suffix
        ⟨left, tree.put path.parts (some (.file (utf8 (patched text old new)))), .ok output⟩

theorem Patches.executed
    (h : Patches P tree call path target text old new expected expectedResult) :
    PatchExecuted P tree path target text old new expected expectedResult suffix
      (P.execute tree call suffix) := by
  unfold PatchApplicationTool.execute
  by_cases hfresh : expected = P.writer.toolkit.sha256 (utf8 text)
  · rw [h.check_fresh hfresh]
    by_cases hcount : count old.toList text.toList = 1
    · rw [if_neg (not_not.mpr hcount)]
      by_cases hresult : expectedResult = P.writer.toolkit.sha256Digest (patched text old new)
      · rw [if_pos hresult]
        dsimp only
        rw [h.writeCall_eq]
        dsimp only
        obtain ⟨e, hrefused⟩ | htargets := h.writing_targets (patched text old new)
        · unfold ControlledFileWriterTool.execute
          rw [hrefused]
          exact .raised _ _
        · by_cases hlarge : P.writer.maximumBytes < (utf8 (patched text old new)).length
          · unfold ControlledFileWriterTool.execute
            rw [htargets.check_large hlarge]
            exact .raised _ _
          · have hexecuted := @Targets.executed _ _ _ _ _ _ _ suffix htargets
            generalize P.writer.execute tree _ suffix = done at hexecuted
            cases hexecuted with
            | raised left e hleft => exact .raised left e
            | found output hread hdigest =>
              -- the digest of what is there is the expected one
              have hsame := Option.some.inj (Except.ok.inj (hread.symm.trans h.file))
              rw [hsame, isDigest_str, decide_eq_false_iff_not] at hdigest
              exact absurd hfresh hdigest
            | replaced left output hleft hreplaceable houtput =>
              obtain ⟨ws, houtput⟩ := houtput
              exact .patched left _ (replacements_fileResult houtput 1) hfresh hcount hresult
                hlarge htargets.confined hreplaceable
      · rw [if_neg hresult]
        exact .raised _ _
    · rw [if_pos hcount]
      exact .raised _ _
  · rw [h.check_stale hfresh]
    by_cases hresult : expectedResult = P.writer.toolkit.sha256 (utf8 text)
    · rw [if_pos hresult]
      obtain ⟨output, houtput⟩ := @exists_fileResult P.writer.toolkit (workspace tree) _ _ _
        (resolveWithinRoot_eq_ok.mp h.confined) (utf8 text)
      rw [houtput]
      exact .found _ (replacements_fileResult houtput 0) hfresh hresult
    · rw [if_neg hresult]
      exact .raised _ _

/-! ## The law of the patch tool -/

/-- The contract of the patch tool for one call. -/
structure UniquePatch (P : PatchApplicationTool) (tree : FileTree) (call : ToolCall)
    (path : PurePath) (text old new expectedResult suffix : String) : Prop where
  /-- What counts as one replacement replaces the only occurrence there is. -/
  unique : ∀ output, (P.execute tree call suffix).answer = .ok output →
    replacements output = some 1 → ∃ position, OccursAt old.toList text.toList position ∧
      (∀ other, OccursAt old.toList text.toList other → other = position) ∧
      (P.execute tree call suffix).tree.read path = .ok (some (utf8 (String.ofList
        (text.toList.take position ++ new.toList ++
          text.toList.drop (position + old.toList.length))))) ∧
      P.writer.toolkit.sha256 (utf8 (String.ofList (text.toList.take position ++ new.toList ++
        text.toList.drop (position + old.toList.length)))) = expectedResult
  /-- A call that raises has changed nothing. -/
  raised : ∀ e, (P.execute tree call suffix).answer = .error e →
    (P.execute tree call suffix).tree = tree
  /-- The same call again replaces nothing and changes nothing. -/
  again : ∀ output suffix', (P.execute tree call suffix).answer = .ok output →
    ∃ output', (P.execute (P.execute tree call suffix).tree call suffix').answer = .ok output' ∧
      replacements output' = some 0 ∧
      (P.execute (P.execute tree call suffix).tree call suffix').tree =
        (P.execute tree call suffix).tree

/-- The call is admitted, though the fragment that is counted once occurs at two positions. -/
structure Ambiguous (P : PatchApplicationTool) (tree : FileTree) (path : PurePath) (target : Json)
    (text old new expected expectedResult suffix : String) : Prop where
  counted : count old.toList text.toList = 1
  twice : ∃ one other, OccursAt old.toList text.toList one ∧
    OccursAt old.toList text.toList other ∧ one ≠ other
  expected : expected = P.writer.toolkit.sha256 (utf8 text)
  result : expectedResult = P.writer.toolkit.sha256 (utf8 (patched text old new))
  size : (utf8 (patched text old new)).length ≤ P.writer.maximumBytes
  direct : resolveWithinRoot tree.fileSystem P.writer.toolkit.repositoryRoot
    (pyStr P.writer.toolkit.isPrintable target) false = .ok path
  replaceable : Replaceable tree path suffix

/-- An ambiguous call counts as one replacement. -/
theorem Ambiguous.patched (hambiguous : Ambiguous P tree path target text old new expected
      expectedResult suffix)
    (h : Patches P tree call path target text old new expected expectedResult) :
    ∃ output, (P.execute tree call suffix).answer = .ok output ∧ replacements output = some 1 := by
  have hresult : expectedResult = P.writer.toolkit.sha256Digest (Tools.patched text old new) :=
    hambiguous.result
  unfold PatchApplicationTool.execute
  rw [h.check_fresh hambiguous.expected, if_neg (not_not.mpr hambiguous.counted),
    if_pos hresult]
  dsimp only
  rw [h.writeCall_eq]
  dsimp only
  obtain ⟨-, htargets⟩ | hlink := h.direct (Tools.patched text old new) hambiguous.direct
  · have hcheck := htargets.check_present (not_lt.mpr hambiguous.size) h.file
    rw [if_pos (by rw [isDigest_str, hambiguous.expected, decide_eq_true rfl])] at hcheck
    obtain ⟨output, houtput⟩ := @exists_fileResult P.writer.toolkit
      (workspace (tree.put path.parts (some (.file (utf8 (Tools.patched text old new)))))) _ _ _
      (resolveWithinRoot_eq_ok.mp (htargets.put htargets.plain _).confined)
      (utf8 (Tools.patched text old new))
    obtain ⟨-, ⟨hnot, -⟩ | ⟨-, hanswer, -⟩⟩ := @replaceFile_cases P.writer tree path suffix
      (utf8 (Tools.patched text old new)) htargets.plain
    · exact absurd hambiguous.replaceable hnot
    · refine ⟨output ++ [("replacements", .int 1)], ?_, replacements_fileResult houtput 1⟩
      unfold ControlledFileWriterTool.execute
      rw [hcheck]
      change ((P.writer.replaceFile tree path (utf8 (Tools.patched text old new)) suffix).answer.map
        fun output => output ++ [("replacements", .int 1)]) = _
      rw [hanswer, houtput]
      rfl
  · exact absurd h.file (hlink _)

/-- A call finds its file patched where the file has the digest of the result and not the one
before. -/
theorem Patches.found_again
    (h : Patches P tree call path target text old new expected expectedResult)
    (hstale : expected ≠ P.writer.toolkit.sha256 (utf8 text))
    (hresult : expectedResult = P.writer.toolkit.sha256 (utf8 text)) :
    ∃ output, (P.execute tree call suffix).answer = .ok output ∧ replacements output = some 0 ∧
      (P.execute tree call suffix).tree = tree := by
  obtain ⟨output, houtput⟩ := @exists_fileResult P.writer.toolkit (workspace tree) _ _ _
    (resolveWithinRoot_eq_ok.mp h.confined) (utf8 text)
  have hcheck := h.check_stale hstale
  rw [if_pos hresult, houtput] at hcheck
  unfold PatchApplicationTool.execute
  rw [hcheck]
  exact ⟨_, rfl, replacements_fileResult houtput 0, rfl⟩

/-- A patched text is another one. -/
theorem Patches.patched_ne
    (h : Patches P tree call path target text old new expected expectedResult)
    (hcount : count old.toList text.toList = 1) : patched text old new ≠ text := by
  obtain ⟨position, hposition⟩ := exists_occursAt_of_countFrom (by
    rw [show countFrom old.toList 0 text.toList = 1 from hcount]
    exact one_ne_zero)
  have hold : old.toList ≠ [] := fun hnil => h.old_nonempty (String.toList_injective hnil)
  have hnew : old.toList ≠ new.toList := fun heq => h.distinct (String.toList_injective heq)
  intro heq
  apply replaceFirst_ne hposition hold hnew
  have hlists := congrArg String.toList heq
  rwa [patched, String.toList_ofList] at hlists

/-- A call stays one of its file when that has been patched. -/
theorem Patches.put
    (h : Patches P tree call path target text old new expected expectedResult)
    (hdirect : resolveWithinRoot tree.fileSystem P.writer.toolkit.repositoryRoot
      (pyStr P.writer.toolkit.isPrintable target) false = .ok path)
    (hreplaceable : Replaceable tree path suffix) :
    Patches P (tree.put path.parts (some (.file (utf8 (patched text old new))))) call path target
      (patched text old new) old new expected expectedResult := by
  obtain ⟨-, htargets⟩ | hlink := h.direct (patched text old new) hdirect
  · have hconfined := @FileTree.confined_put _ _ (utf8 (patched text old new)) _ _ _ _
      htargets.plain (resolveWithinRoot_eq_ok.mp h.confined)
    exact ⟨h.path_eq, h.old_eq, h.new_eq, h.hash_eq, h.result_eq, h.old_nonempty, h.distinct,
      resolveWithinRoot_eq_ok.mpr hconfined, htargets.read_put hreplaceable.nameable⟩
  · exact absurd h.file (hlink _)

/-- A patch of a fragment that does not occur at two positions is that of its only occurrence. -/
theorem Patches.unique_patched
    (h : Patches P tree call path target text old new expected expectedResult)
    (hcount : count old.toList text.toList = 1)
    (hresult : expectedResult = P.writer.toolkit.sha256Digest (patched text old new))
    (hdirect : resolveWithinRoot tree.fileSystem P.writer.toolkit.repositoryRoot
      (pyStr P.writer.toolkit.isPrintable target) false = .ok path)
    (hreplaceable : Replaceable tree path suffix)
    (honce : ¬ ∃ one other, OccursAt old.toList text.toList one ∧
      OccursAt old.toList text.toList other ∧ one ≠ other) :
    ∃ position, OccursAt old.toList text.toList position ∧
      (∀ other, OccursAt old.toList text.toList other → other = position) ∧
      (tree.put path.parts (some (.file (utf8 (patched text old new))))).read path =
        .ok (some (utf8 (String.ofList (text.toList.take position ++ new.toList ++
          text.toList.drop (position + old.toList.length))))) ∧
      P.writer.toolkit.sha256 (utf8 (String.ofList (text.toList.take position ++ new.toList ++
        text.toList.drop (position + old.toList.length)))) = expectedResult := by
  obtain ⟨position, hposition⟩ := exists_occursAt_of_countFrom (by
    rw [show countFrom old.toList 0 text.toList = 1 from hcount]
    exact one_ne_zero)
  have honly (other : Nat) (hother : OccursAt old.toList text.toList other) : other = position := by
    by_contra hne
    exact honce ⟨other, position, hother, hposition, hne⟩
  have hold : old.toList ≠ [] := fun hnil => h.old_nonempty (String.toList_injective hnil)
  have hpatched := @replaceFirst_eq _ _ _ new.toList _ _ hposition
    (fun i hi hoccurs => absurd (honly i hoccurs) (Nat.ne_of_lt hi)) hold
  have htext : patched text old new = String.ofList (text.toList.take position ++ new.toList ++
      text.toList.drop (position + old.toList.length)) := congrArg String.ofList hpatched
  have hdigest : P.writer.toolkit.sha256 (utf8 (patched text old new)) = expectedResult :=
    hresult.symm
  have hread := (h.put hdirect hreplaceable).file
  rw [htext] at hdigest
  nth_rewrite 2 [htext] at hread
  exact ⟨position, hposition, honly, hread, hdigest⟩

/-- The patch tool keeps its contract, for files of any text, exactly for the calls that are not
ambiguous. -/
theorem execute_uniquePatch_iff (P : PatchApplicationTool) (tree : FileTree) (call : ToolCall)
    (path : PurePath) (target : Json) (text old new expected expectedResult suffix : String)
    (hsha : Function.Injective P.writer.toolkit.sha256)
    (h : Patches P tree call path target text old new expected expectedResult) :
    UniquePatch P tree call path text old new expectedResult suffix ↔
      ¬ Ambiguous P tree path target text old new expected expectedResult suffix := by
  constructor
  · intro hunique hambiguous
    obtain ⟨output, hok, hone⟩ := hambiguous.patched h
    obtain ⟨position, -, honly, -⟩ := hunique.unique output hok hone
    obtain ⟨one, other, hone, hother, hne⟩ := hambiguous.twice
    exact hne ((honly one hone).trans (honly other hother).symm)
  · intro hclear
    have hexecuted := @Patches.executed _ _ _ _ _ _ _ _ _ _ suffix h
    constructor
    · intro output hok hone
      generalize P.execute tree call suffix = done at hexecuted hok
      cases hexecuted with
      | raised left e => cases hok
      | found found houtput hstale hresult =>
        obtain rfl := Except.ok.inj hok
        rw [houtput] at hone
        cases hone
      | patched left _ houtput hfresh hcount hresult hsize hdirect hreplaceable =>
        exact h.unique_patched hcount hresult hdirect hreplaceable fun htwice =>
          hclear ⟨hcount, htwice, hfresh, hresult, not_lt.mp hsize, hdirect, hreplaceable⟩
    · intro e herror
      generalize P.execute tree call suffix = done at hexecuted herror
      cases hexecuted with
      | raised left e => rfl
      | found output houtput hstale hresult => rfl
      | patched left output houtput hfresh hcount hresult hsize hdirect hreplaceable => cases herror
    · intro output suffix' hok
      generalize hdone : P.execute tree call suffix = done at hexecuted hok
      cases hexecuted with
      | raised left e => cases hok
      | found output houtput hstale hresult => exact h.found_again hstale hresult
      | patched left output houtput hfresh hcount hresult hsize hdirect hreplaceable =>
        have hpatches := h.put hdirect hreplaceable
        apply hpatches.found_again
        · intro hstale
          apply h.patched_ne hcount
          exact utf8_injective (hsha (hstale.symm.trans hfresh))
        · exact hresult

/-! ## A fragment that overlaps itself -/

def openPatcher : PatchApplicationTool := ⟨openWriter⟩

theorem openToolkit_injective : Function.Injective openToolkit.sha256 := by
  intro a b h
  apply List.map_injective_iff.mpr _ (String.ofList_injective h)
  intro x y hxy
  have hchar (byte : UInt8) : (Char.ofNat byte.toNat).toNat = byte.toNat := by
    have hvalid : byte.toNat.isValidChar := .inl (Nat.lt_trans byte.toNat_lt (by decide))
    rw [Char.ofNat, dif_pos hvalid]
    rfl
  have hnat := congrArg Char.toNat hxy
  rw [hchar, hchar] at hnat
  exact UInt8.toNat_inj.mp hnat

/-- A patch of the file of this text, with the digests that belong to it. -/
def patchOf (text old new : String) : ToolCall :=
  fileCall "repository.patch"
    [("path", .str "f"), ("old", .str old), ("new", .str new),
      ("expected_hash", .str (openToolkit.sha256 (utf8 text))),
      ("expected_result_hash", .str (openToolkit.sha256 (utf8 (patched text old new))))]

theorem patches_patchOf {text old new : String} (hold : old ≠ "") (hnew : old ≠ new) :
    Patches openPatcher (repoTree "f" (some (utf8 text))) (patchOf text old new)
      ⟨"/", ["repo", "f"]⟩ (.str "f") text old new (openToolkit.sha256 (utf8 text))
      (openToolkit.sha256 (utf8 (patched text old new))) :=
  ⟨rfl, rfl, rfl, rfl, rfl, hold, hnew, by rfl, by rfl⟩

theorem execute_uniquePatch_iff_overlapping :
    UniquePatch openPatcher (repoTree "f" (some (utf8 "aaa"))) (patchOf "aaa" "aa" "b")
        ⟨"/", ["repo", "f"]⟩ "aaa" "aa" "b"
        (openToolkit.sha256 (utf8 (patched "aaa" "aa" "b"))) "t" ↔
      ¬ Ambiguous openPatcher (repoTree "f" (some (utf8 "aaa"))) ⟨"/", ["repo", "f"]⟩ (.str "f")
        "aaa" "aa" "b" (openToolkit.sha256 (utf8 "aaa"))
        (openToolkit.sha256 (utf8 (patched "aaa" "aa" "b"))) "t" :=
  execute_uniquePatch_iff _ _ _ _ _ _ _ _ _ _ _ openToolkit_injective
    (patches_patchOf (by decide) (by decide))

/-- Two occurrences that overlap pass for one. -/
theorem overlapping_patched :
    ¬ UniquePatch openPatcher (repoTree "f" (some (utf8 "aaa"))) (patchOf "aaa" "aa" "b")
      ⟨"/", ["repo", "f"]⟩ "aaa" "aa" "b"
      (openToolkit.sha256 (utf8 (patched "aaa" "aa" "b"))) "t" := by
  have hambiguous : Ambiguous openPatcher (repoTree "f" (some (utf8 "aaa"))) ⟨"/", ["repo", "f"]⟩
      (.str "f") "aaa" "aa" "b" (openToolkit.sha256 (utf8 "aaa"))
      (openToolkit.sha256 (utf8 (patched "aaa" "aa" "b"))) "t" :=
    ⟨by decide, ⟨0, 1, by decide, by decide, by decide⟩, rfl, rfl, by decide, by rfl,
      ⟨by rfl, by rfl, by simp [Nameable]⟩⟩
  intro hunique
  obtain ⟨output, hok, hone⟩ := hambiguous.patched (patches_patchOf (by decide) (by decide))
  obtain ⟨position, -, honly, -⟩ := hunique.unique output hok hone
  have hzero := honly 0 (by decide)
  have hone := honly 1 (by decide)
  omega

end DurableAgent.Tools
