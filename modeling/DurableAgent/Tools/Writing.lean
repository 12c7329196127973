import DurableAgent.Security.Confinement
import DurableAgent.Tools.Checking
import DurableAgent.Tools.Filesystem

/-!
# Writing by compare and swap

The writer replaces a file in one step, after it has written everything beside it. So a call that
raises has changed nothing, and at every point a crash leaves the file as it was or as it was to
be; `reconcile` tells the one from the other.
-/

namespace DurableAgent.Tools

open Security
open Toolkit (argument exists_fileResult)

variable {W : ControlledFileWriterTool} {tree : FileTree} {call : ToolCall} {path : PurePath}
  {target text expected : Json} {suffix : String} {content : List UInt8}

/-- The arguments of a call, with a path within the root at which there is nothing or a regular
file. -/
structure Targets (W : ControlledFileWriterTool) (tree : FileTree) (call : ToolCall)
    (path : PurePath) (target text expected : Json) : Prop where
  path_eq : argument call "path" = .ok target
  content_eq : argument call "content" = .ok text
  hash_eq : argument call "expected_hash" = .ok expected
  confined : resolveWithinRoot tree.fileSystem W.toolkit.repositoryRoot
    (pyStr W.toolkit.isPrintable target) false = .ok path
  named : path.parts.getLast? ≠ some ".."
  plain : tree.Plain path.parts

/-- The content that a call asks for. -/
def ControlledFileWriterTool.requested (W : ControlledFileWriterTool) (text : Json) : List UInt8 :=
  utf8 (pyStr W.toolkit.isPrintable text)

/-! ## The target -/

theorem Targets.concat (h : Targets W tree call path target text expected) :
    ∃ above name, path = ⟨"/", above ++ [name]⟩ ∧ tree.Real above ∧ name ≠ ".." := by
  obtain ⟨top, above, name, -, -, -, hreal, -, rfl, -⟩ :=
    FileTree.confined_concat (resolveWithinRoot_eq_ok.mp h.confined)
  refine ⟨above, name, rfl, hreal, ?_⟩
  rintro rfl
  exact h.named List.getLast?_concat

theorem Targets.read_eq_some (h : Targets W tree call path target text expected) :
    tree.read path = .ok (some content) ↔
      (∀ name ∈ path.parts.getLast?, Char.ofNat 0 ∉ name.toList) ∧
        tree.node path.parts = some (.file content) := by
  obtain ⟨above, name, rfl, hreal, hdots⟩ := h.concat
  rw [FileTree.read_concat hreal hdots, List.getLast?_concat]
  by_cases hnull : Char.ofNat 0 ∈ name.toList
  · rw [if_pos hnull]
    simp [hnull]
  · rw [if_neg hnull, FileTree.openAt_eq_some]
    simp [hnull]

theorem Targets.isThere_iff (h : Targets W tree call path target text expected) :
    tree.isThere path = true ↔ ∃ content, tree.read path = .ok (some content) := by
  simp only [h.read_eq_some, exists_and_left]
  obtain ⟨above, name, rfl, hreal, hdots⟩ := h.concat
  rw [FileTree.isThere_concat hreal hdots h.plain, List.getLast?_concat]
  simp

/-- The target stays one when files come and change. -/
theorem Targets.put (h : Targets W tree call path target text expected) {place : List String}
    (hplain : tree.Plain place) (part : List UInt8) :
    Targets W (tree.put place (some (.file part))) call path target text expected where
  path_eq := h.path_eq
  content_eq := h.content_eq
  hash_eq := h.hash_eq
  confined := resolveWithinRoot_eq_ok.mpr
    (FileTree.confined_put hplain (resolveWithinRoot_eq_ok.mp h.confined))
  named := h.named
  plain := by
    by_cases hplace : path.parts = place
    · exact .inr ⟨part, by rw [hplace]; exact FileTree.node_put_self⟩
    · unfold FileTree.Plain
      rw [FileTree.node_put_of_ne hplace]
      exact h.plain

/-! ## What is checked before a write -/

theorem Targets.check_large (h : Targets W tree call path target text expected)
    (hlarge : W.maximumBytes < (W.requested text).length) :
    W.check tree call = .error (.of .toolExecution "write exceeds file size limit") := by
  unfold ControlledFileWriterTool.check
  simp only [h.content_eq, bind, Except.bind]
  exact if_pos hlarge

/-- A file that is there decides by its digest, or is as the call asks for already. -/
theorem Targets.check_present (h : Targets W tree call path target text expected)
    (hsize : ¬ W.maximumBytes < (W.requested text).length) {current : List UInt8}
    (hcurrent : tree.read path = .ok (some current)) : W.check tree call =
      if isDigest expected (W.toolkit.sha256 current) then .ok (path, W.requested text, true)
      else if current = W.requested text then .ok (path, W.requested text, false)
      else .error (.of .toolExecution "file changed since expected hash was captured") := by
  have hthere := h.isThere_iff.mpr ⟨current, hcurrent⟩
  have hopened : openReadonlyNoFollow tree.fileSystem path = .ok current :=
    openReadonlyNoFollow_eq_ok.mpr hcurrent
  unfold ControlledFileWriterTool.check
  simp only [h.content_eq, h.path_eq, h.confined, h.hash_eq, bind, Except.bind, hthere, hopened,
    if_true]
  exact if_neg hsize

/-- A file that is missing must be expected to be. -/
theorem Targets.check_missing (h : Targets W tree call path target text expected)
    (hsize : ¬ W.maximumBytes < (W.requested text).length) (hmissing : tree.isThere path = false) :
    W.check tree call = match expected with
      | .null => .ok (path, W.requested text, true)
      | _ => .error (.of .toolExecution "expected hash supplied for a missing file") := by
  unfold ControlledFileWriterTool.check
  simp only [h.content_eq, h.path_eq, h.confined, h.hash_eq, bind, Except.bind, hmissing,
    Bool.false_eq_true, if_false]
  rw [if_neg (show ¬ (utf8 (pyStr W.toolkit.isPrintable text)).length > W.maximumBytes from hsize)]
  cases expected <;> rfl

/-- A check that is passed is of the target and the content, and says no only of a file that is as
the call asks for. -/
theorem Targets.check_ok (h : Targets W tree call path target text expected)
    {result : PurePath × List UInt8 × Bool} (hcheck : W.check tree call = .ok result) :
    (result = (path, W.requested text, true) ∨
      result = (path, W.requested text, false) ∧
        tree.read path = .ok (some (W.requested text)) ∧
        isDigest expected (W.toolkit.sha256 (W.requested text)) = false) ∧
      ¬ W.maximumBytes < (W.requested text).length := by
  by_cases hlarge : W.maximumBytes < (W.requested text).length
  · rw [h.check_large hlarge] at hcheck
    cases hcheck
  · refine ⟨?_, hlarge⟩
    cases hthere : tree.isThere path with
    | true =>
      obtain ⟨current, hcurrent⟩ := h.isThere_iff.mp hthere
      rw [h.check_present hlarge hcurrent] at hcheck
      split at hcheck
      · exact .inl (Except.ok.inj hcheck).symm
      · next hdigest =>
        split at hcheck
        · next hsame =>
          obtain rfl := hsame
          exact .inr ⟨(Except.ok.inj hcheck).symm, hcurrent, Bool.not_eq_true _ ▸ hdigest⟩
        · cases hcheck
    | false =>
      rw [h.check_missing hlarge hthere] at hcheck
      split at hcheck
      · exact .inl (Except.ok.inj hcheck).symm
      · cases hcheck

/-! ## The replacement -/

/-- The place that the writer writes at before it replaces the target. -/
def temporary (path : PurePath) (suffix : String) : List String :=
  path.parts.dropLast ++ [".durable-agent-" ++ suffix]

/-- The name of the target can be one. -/
def Nameable (path : PurePath) : Prop :=
  ∀ name ∈ path.parts, Char.ofNat 0 ∉ name.toList

/-- Where the target can be replaced at all. -/
structure Replaceable (tree : FileTree) (path : PurePath) (suffix : String) : Prop where
  directory : tree.isDirectory path.parts.dropLast = true
  fresh : tree.node (temporary path suffix) = none
  nameable : Nameable path

/-- A tree that the replacement leaves on its way. -/
inductive Left (tree : FileTree) (path : PurePath) (content : List UInt8) (suffix : String) :
    FileTree → Prop where
  | before : Left tree path content suffix tree
  | beside (part : List UInt8) (hfresh : tree.node (temporary path suffix) = none) :
      Left tree path content suffix (tree.put (temporary path suffix) (some (.file part)))
  | after : Left tree path content suffix (tree.put path.parts (some (.file content)))

theorem unlinked_eq (hfresh : tree.node (temporary path suffix) = none) :
    (tree.put (temporary path suffix) (some (.file content))).put (temporary path suffix) none =
      tree := by
  rw [FileTree.put_put, ← hfresh, FileTree.put_self]

theorem renamed_eq (hfresh : tree.node (temporary path suffix) = none) :
    (tree.put (temporary path suffix) (some (.file content))).rename (temporary path suffix)
      path.parts = tree.put path.parts (some (.file content)) := by
  unfold FileTree.rename
  by_cases hsame : temporary path suffix = path.parts
  · rw [if_pos hsame, hsame]
  · rw [if_neg hsame, FileTree.node_put_self]
    unfold FileTree.put
    congr 1
    funext p
    by_cases hp : p = temporary path suffix
    · have hne : p ≠ path.parts := fun h => hsame (hp.symm.trans h)
      simp [hp, hfresh, hsame]
    · simp [hp]

/-- Every tree on the way of a write beside the target. -/
theorem left_started (hfresh : tree.node (temporary path suffix) = none) {last t : FileTree}
    (hlast : Left tree path content suffix last)
    (h : t ∈ (tree :: content.inits.map fun part =>
      tree.put (temporary path suffix) (some (.file part))) ++ [last]) :
    Left tree path content suffix t := by
  rw [List.mem_append, List.mem_singleton, List.mem_cons, List.mem_map] at h
  obtain (rfl | ⟨part, -, rfl⟩) | rfl := h
  · exact .before
  · exact .beside part hfresh
  · exact hlast

/-- The replacement raises and leaves the tree as it was, or has replaced the target. -/
theorem replaceFile_cases (hplain : tree.Plain path.parts) :
    (∀ t ∈ (W.replaceFile tree path content suffix).left, Left tree path content suffix t) ∧
    (¬ Replaceable tree path suffix ∧ (∃ e, (W.replaceFile tree path content suffix).answer =
        .error e) ∧ (W.replaceFile tree path content suffix).tree = tree ∨
      Replaceable tree path suffix ∧
        (W.replaceFile tree path content suffix).answer = W.toolkit.fileResult
          (workspace (tree.put path.parts (some (.file content)))) path content ∧
        (W.replaceFile tree path content suffix).tree =
          tree.put path.parts (some (.file content))) := by
  have hstill (t : FileTree) (ht : t ∈ [tree]) : Left tree path content suffix t := by
    rw [List.mem_singleton.mp ht]
    exact .before
  unfold ControlledFileWriterTool.replaceFile
  dsimp only
  rw [show path.parts.dropLast ++ [".durable-agent-" ++ suffix] = temporary path suffix from rfl]
  by_cases hdirectory : tree.isDirectory path.parts.dropLast = true
  · rw [if_neg (not_not.mpr hdirectory)]
    by_cases hfresh : tree.node (temporary path suffix) = none
    · rw [if_neg (not_not.mpr hfresh)]
      by_cases hnull : (path.parts.any fun name => Char.ofNat 0 ∈ name.toList) = true
      · rw [if_pos hnull, unlinked_eq hfresh]
        refine ⟨fun t ht => left_started hfresh .before ht, .inl ⟨fun h => ?_, ⟨_, rfl⟩, rfl⟩⟩
        obtain ⟨name, hname, hzero⟩ := List.any_eq_true.mp hnull
        exact h.nameable name hname (of_decide_eq_true hzero)
      · have hfile : tree.node path.parts ≠ some .directory := by
          obtain hnone | ⟨before, hbefore⟩ := hplain
          · simp [hnone]
          · simp [hbefore]
        rw [if_neg hnull, if_neg hfile, renamed_eq hfresh]
        refine ⟨fun t ht => left_started hfresh .after ht,
          .inr ⟨⟨hdirectory, hfresh, ?_⟩, rfl, rfl⟩⟩
        intro name hname hzero
        exact hnull (List.any_eq_true.mpr ⟨name, hname, decide_eq_true hzero⟩)
    · rw [if_pos hfresh]
      exact ⟨hstill, .inl ⟨fun h => hfresh h.fresh, ⟨_, rfl⟩, rfl⟩⟩
  · rw [if_pos hdirectory]
    exact ⟨hstill, .inl ⟨fun h => hdirectory h.directory, ⟨_, rfl⟩, rfl⟩⟩

/-! ## The law of the writer -/

/-- What `execute` does: it raises, finds the file as it is to be, or replaces it. -/
inductive Executed (W : ControlledFileWriterTool) (tree : FileTree) (path : PurePath)
    (content : List UInt8) (expected : Json) (suffix : String) : FileExecution → Prop where
  | raised (left : List FileTree) (e : Exn)
      (hleft : ∀ t ∈ left, Left tree path content suffix t) :
      Executed W tree path content expected suffix ⟨left, tree, .error e⟩
  | found (output : List (String × Json)) (hread : tree.read path = .ok (some content))
      (hdigest : isDigest expected (W.toolkit.sha256 content) = false) :
      Executed W tree path content expected suffix ⟨[tree], tree, .ok output⟩
  | replaced (left : List FileTree) (output : List (String × Json))
      (hleft : ∀ t ∈ left, Left tree path content suffix t)
      (hreplaceable : Replaceable tree path suffix)
      (houtput : ∃ ws, W.toolkit.fileResult ws path content = .ok output) :
      Executed W tree path content expected suffix
        ⟨left, tree.put path.parts (some (.file content)), .ok output⟩

theorem Targets.executed (h : Targets W tree call path target text expected) :
    Executed W tree path (W.requested text) expected suffix (W.execute tree call suffix) := by
  unfold ControlledFileWriterTool.execute
  cases hcheck : W.check tree call with
  | error e =>
    refine .raised _ e fun t ht => ?_
    rw [List.mem_singleton.mp ht]
    exact .before
  | ok result =>
    obtain ⟨rfl | ⟨rfl, hread, hdigest⟩, -⟩ := h.check_ok hcheck
    · dsimp only
      obtain ⟨output, houtput⟩ := @exists_fileResult W.toolkit
        (workspace (tree.put path.parts (some (.file (W.requested text))))) _ _ _
        (resolveWithinRoot_eq_ok.mp (h.put h.plain _).confined) (W.requested text)
      obtain ⟨hleft, hcases⟩ := @replaceFile_cases W tree path suffix (W.requested text) h.plain
      generalize W.replaceFile tree path (W.requested text) suffix = done at hleft hcases
      obtain ⟨left, after, answer⟩ := done
      obtain ⟨-, ⟨e, rfl⟩, rfl⟩ | ⟨hreplaceable, hanswer, rfl⟩ := hcases
      · exact .raised left e hleft
      · obtain rfl := hanswer.trans houtput
        exact .replaced left output hleft hreplaceable ⟨_, houtput⟩
    · obtain ⟨output, houtput⟩ := @exists_fileResult W.toolkit (workspace tree) _ _ _
        (resolveWithinRoot_eq_ok.mp h.confined) (W.requested text)
      dsimp only
      rw [houtput]
      exact .found output hread hdigest

/-- A replaced file reads as it was written. -/
theorem Targets.read_put (h : Targets W tree call path target text expected)
    (hnameable : Nameable path) :
    (tree.put path.parts (some (.file content))).read path = .ok (some content) := by
  rw [(h.put h.plain content).read_eq_some]
  exact ⟨fun name hname => hnameable name (List.mem_of_getLast? hname), FileTree.node_put_self⟩

/-- A call that has been admitted finds the file as it is to be, or replaces it by itself. -/
theorem Targets.again (h : Targets W tree call path target text expected)
    (hsize : ¬ W.maximumBytes < (W.requested text).length)
    (hread : tree.read path = .ok (some (W.requested text)))
    (hreplaceable : isDigest expected (W.toolkit.sha256 (W.requested text)) = true →
      Replaceable tree path suffix) :
    ∃ output, (W.execute tree call suffix).answer = .ok output ∧
      (W.execute tree call suffix).tree = tree := by
  have hcheck := h.check_present hsize hread
  unfold ControlledFileWriterTool.execute
  by_cases hdigest : isDigest expected (W.toolkit.sha256 (W.requested text)) = true
  · rw [if_pos hdigest] at hcheck
    rw [hcheck]
    dsimp only
    obtain ⟨output, houtput⟩ := @exists_fileResult W.toolkit
      (workspace (tree.put path.parts (some (.file (W.requested text))))) _ _ _
      (resolveWithinRoot_eq_ok.mp (h.put h.plain _).confined) (W.requested text)
    obtain ⟨-, ⟨hnot, -⟩ | ⟨-, hanswer, htree⟩⟩ :=
      @replaceFile_cases W tree path suffix (W.requested text) h.plain
    · exact absurd (hreplaceable hdigest) hnot
    · refine ⟨output, hanswer.trans houtput, ?_⟩
      rw [htree, ← (h.read_eq_some.mp hread).2, FileTree.put_self]
  · rw [if_neg hdigest, if_pos rfl] at hcheck
    rw [hcheck]
    obtain ⟨output, houtput⟩ := @exists_fileResult W.toolkit (workspace tree) _ _ _
      (resolveWithinRoot_eq_ok.mp h.confined) (W.requested text)
    exact ⟨output, houtput, rfl⟩

/-- Reconciliation says that a call is done where the file is as the call asks for. -/
theorem Targets.reconciled_iff (h : Targets W tree call path target text expected)
    (now : Timestamp) :
    (∃ result, W.toolkit.reconcileWrite (workspace tree) now call = .ok (some result) ∧
        result.success = true) ↔ tree.read path = .ok (some (W.requested text)) := by
  constructor
  · rintro ⟨result, hsome, -⟩
    obtain ⟨⟨target', text', path', htarget, htext, hpath, -, hread⟩, -⟩ :=
      Toolkit.reconcileWrite_eq_some hsome
    obtain rfl := Except.ok.inj (h.path_eq.symm.trans htarget)
    obtain rfl := Except.ok.inj (h.content_eq.symm.trans htext)
    obtain rfl := Except.ok.inj (h.confined.symm.trans (resolveWithinRoot_eq_ok.mpr hpath))
    exact hread
  · intro hread
    obtain ⟨output, houtput⟩ := @exists_fileResult W.toolkit (workspace tree) _ _ _
      (resolveWithinRoot_eq_ok.mp h.confined) (W.requested text)
    refine ⟨W.toolkit.reconciledFile now call output, ?_, rfl⟩
    have hthere : (workspace tree).files.isThere path = .ok true := by
      rw [← h.isThere_iff.mpr ⟨_, hread⟩]
      rfl
    have hopened : openReadonlyNoFollow (workspace tree).files path = .ok (W.requested text) :=
      openReadonlyNoFollow_eq_ok.mpr hread
    have hconfined : resolveWithinRoot (workspace tree).files W.toolkit.repositoryRoot
      (pyStr W.toolkit.isPrintable target) false = .ok path := h.confined
    unfold Toolkit.reconcileWrite
    simp only [h.path_eq, h.content_eq, hconfined, hthere, hopened, bind, Except.bind,
      Except.mapError, if_true, ControlledFileWriterTool.requested, pure, Except.pure]
    rw [show utf8 (pyStr W.toolkit.isPrintable text) = W.requested text from rfl, houtput]

/-- The contract of the writer for one call. -/
structure CompareAndSwap (W : ControlledFileWriterTool) (tree : FileTree) (call : ToolCall)
    (path : PurePath) (text expected : Json) (suffix : String) : Prop where
  /-- A call that raises has changed nothing. -/
  raised : ∀ e, (W.execute tree call suffix).answer = .error e →
    (W.execute tree call suffix).tree = tree
  /-- A call that returns has written its file and no other. -/
  written : ∀ output, (W.execute tree call suffix).answer = .ok output →
    (W.execute tree call suffix).tree.read path = .ok (some (W.requested text)) ∧
      ∀ place, place ≠ path.parts → (W.execute tree call suffix).tree.node place = tree.node place
  /-- Another content under another digest than the expected one is not written over. -/
  conflict : ∀ current, tree.read path = .ok (some current) →
    isDigest expected (W.toolkit.sha256 current) = false → current ≠ W.requested text →
      ∃ e, (W.execute tree call suffix).answer = .error e
  /-- A file that is expected is not made. -/
  missing : tree.isThere path = false → expected ≠ .null →
    ∃ e, (W.execute tree call suffix).answer = .error e
  /-- The same call again returns and changes nothing, under a temporary name that is free. -/
  again : ∀ output suffix', (W.execute tree call suffix).answer = .ok output →
    (W.execute tree call suffix).tree.node (temporary path suffix') = none →
      ∃ output', (W.execute (W.execute tree call suffix).tree call suffix').answer = .ok output' ∧
        (W.execute (W.execute tree call suffix).tree call suffix').tree =
          (W.execute tree call suffix).tree
  /-- After a crash anywhere the call counts as done where the file is as it asks for. -/
  crashed : ∀ left ∈ (W.execute tree call suffix).left, ∀ now,
    (∃ result, W.toolkit.reconcileWrite (workspace left) now call = .ok (some result) ∧
      result.success = true) ↔ left.read path = .ok (some (W.requested text))

theorem answer_error (hfalse : ∀ result, W.check tree call ≠ .ok result) :
    ∃ e, (W.execute tree call suffix).answer = .error e := by
  unfold ControlledFileWriterTool.execute
  cases hcheck : W.check tree call with
  | error e => exact ⟨e, rfl⟩
  | ok result => exact absurd hcheck (hfalse result)

theorem Targets.left (h : Targets W tree call path target text expected) {t : FileTree}
    (hleft : Left tree path (W.requested text) suffix t) :
    Targets W t call path target text expected := by
  cases hleft with
  | before => exact h
  | beside part hfresh => exact h.put (.inl hfresh) part
  | after => exact h.put h.plain _

/-- The writer keeps its contract for every call whose path is within the root, whatever bytes the
file holds, or none. -/
theorem execute_compareAndSwap (W : ControlledFileWriterTool) (tree : FileTree) (call : ToolCall)
    (path : PurePath) (target text expected : Json) (suffix : String)
    (h : Targets W tree call path target text expected) :
    CompareAndSwap W tree call path text expected suffix := by
  have hexecuted := @Targets.executed _ _ _ _ _ _ _ suffix h
  constructor
  · intro e herror
    generalize W.execute tree call suffix = done at hexecuted herror
    cases hexecuted with
    | raised left e hleft => rfl
    | found output hread hdigest => cases herror
    | replaced left output hleft hreplaceable houtput => cases herror
  · intro output hok
    generalize W.execute tree call suffix = done at hexecuted hok
    cases hexecuted with
    | raised left e hleft => cases hok
    | found output hread hdigest => exact ⟨hread, fun place _ => rfl⟩
    | replaced left output hleft hreplaceable houtput =>
      exact ⟨h.read_put hreplaceable.nameable, fun place hplace => FileTree.node_put_of_ne hplace⟩
  · intro current hcurrent hdigest hother
    apply answer_error
    intro result hcheck
    obtain ⟨-, hsize⟩ := h.check_ok hcheck
    rw [h.check_present hsize hcurrent, hdigest, if_neg Bool.false_ne_true, if_neg hother] at hcheck
    cases hcheck
  · intro hmissing hexpected
    apply answer_error
    intro result hcheck
    obtain ⟨-, hsize⟩ := h.check_ok hcheck
    rw [h.check_missing hsize hmissing] at hcheck
    split at hcheck
    · exact hexpected rfl
    · cases hcheck
  · intro output suffix' hok
    have hsize : ¬ W.maximumBytes < (W.requested text).length := by
      intro hlarge
      unfold ControlledFileWriterTool.execute at hok
      rw [h.check_large hlarge] at hok
      cases hok
    generalize hdone : W.execute tree call suffix = done at hexecuted hok
    intro hfree
    cases hexecuted with
    | raised left e hleft => cases hok
    | found output hread hdigest =>
      refine h.again hsize hread fun hsame => ?_
      rw [hdigest] at hsame
      cases hsame
    | replaced left output hleft hreplaceable houtput =>
      refine (h.put h.plain _).again hsize (h.read_put hreplaceable.nameable) fun _ => ?_
      exact ⟨h.plain.isDirectory_put hreplaceable.directory, hfree, hreplaceable.nameable⟩
  · intro left hleft now
    have hon : Left tree path (W.requested text) suffix left := by
      generalize W.execute tree call suffix = done at hexecuted hleft
      cases hexecuted with
      | raised _ e hall => exact hall left hleft
      | found output hread hdigest =>
        rw [List.mem_singleton.mp hleft]
        exact .before
      | replaced _ output hall hreplaceable houtput => exact hall left hleft
    exact (h.left hon).reconciled_iff now

/-! ## A new file -/

/-- A repository with one name in it, under which there is a file or nothing. -/
def repoTree (name : String) (content : Option (List UInt8)) : FileTree where
  node place :=
    if place = ["repo"] then some .directory
    else if place = ["repo", name] then content.map .file
    else none

/-- A call with these arguments. -/
def fileCall (toolName : String) (fields : List (String × Json)) : ToolCall where
  toolCallId := "call"
  runId := "run"
  taskId := "task"
  toolName := toolName
  arguments := .obj fields
  argumentsHash := ""
  idempotencyKey := "key"
  sideEffectClass := .IDEMPOTENT
  createdAt := 0
  attempt_pos := counter_start

def openWriter : ControlledFileWriterTool := ⟨openToolkit, 2000000⟩

theorem execute_compareAndSwap_new : CompareAndSwap openWriter (repoTree "new" none)
    (fileCall "repository.write"
      [("path", .str "new"), ("content", .str "text"), ("expected_hash", .null)])
    ⟨"/", ["repo", "new"]⟩ (.str "text") .null "a" :=
  execute_compareAndSwap openWriter _ _ _ (.str "new") (.str "text") .null "a"
    ⟨rfl, rfl, rfl, by rfl, by decide, .inl rfl⟩

end DurableAgent.Tools
