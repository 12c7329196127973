import Mathlib.Algebra.GroupWithZero.Nat
import DurableAgent.Repository.RoundTrip

/-!
# Which trees can be indexed

A text file is indexed unless its path cannot be encoded, its text holds a NUL or the parser raises
something other than a syntax error; one such file fails the whole index. What a file holds behind
its first 8192 bytes is not looked at before.
-/

namespace DurableAgent.Repository

open Library ContentIndexer

variable {snapshotId : String}

/-! ## Strings without NULs -/

theorem hasNul_append (a b : String) : hasNul (a ++ b) = (hasNul a || hasNul b) := by
  simp [hasNul]

theorem hasNul_intercalate {separator : String} {items : List String}
    (hseparator : hasNul separator = false) (h : ∀ item ∈ items, hasNul item = false) :
    hasNul (separator.intercalate items) = false := by
  rw [hasNul_eq_false, String.toList_intercalate]
  intro hnul
  obtain hsep | ⟨piece, hpiece, hc⟩ := mem_intercalate hnul
  · exact hasNul_eq_false.mp hseparator hsep
  · obtain ⟨item, hitem, rfl⟩ := List.mem_map.mp hpiece
    exact hasNul_eq_false.mp (h item hitem) hc

theorem hasNul_nat (n : Nat) : hasNul (toString n) = false := by
  rw [hasNul_eq_false]
  intro hnul
  have hdigit := Nat.isDigit_of_mem_toDigits (by decide) (by decide) (Nat.toList_repr ▸ hnul)
  simp at hdigit

theorem mem_stripped {p : Char → Bool} {line : List Char} {c : Char} (h : c ∈ stripped p line) :
    c ∈ line := by
  have hfront := (List.dropWhile_sublist p).mem (List.mem_reverse.mp h)
  exact (List.dropWhile_sublist p).mem (List.mem_reverse.mp hfront)

theorem hasNul_openingOf {text : String} (h : hasNul text = false) (n : Nat) :
    hasNul (String.ofList ((openingOf text).take n)) = false := by
  rw [hasNul_eq_false, String.toList_ofList]
  intro hnul
  have hopening := List.mem_of_mem_take hnul
  unfold openingOf at hopening
  split at hopening
  · next line hline =>
    have hmem := mem_text_of_splitLines (List.mem_of_find?_eq_some hline) (mem_stripped hopening)
    exact hasNul_eq_false.mp h hmem
  · cases hopening

theorem hasNul_textOr {value : Option String} {fallback : String}
    (hfallback : hasNul fallback = false) (h : ∀ text ∈ value, hasNul text = false) :
    hasNul (textOr value fallback) = false := by
  unfold textOr
  split
  · exact hfallback
  · split
    · exact hfallback
    · exact h _ rfl

/-- A summary holds what the text, the symbols and the imports hold. -/
theorem hasNul_summarize {relative text : String} {language : Option String}
    {symbols imports : List String} (hrelative : hasNul relative = false)
    (hlanguage : ∀ name ∈ language, hasNul name = false) (htext : hasNul text = false)
    (hsymbols : ∀ name ∈ symbols, hasNul name = false)
    (himports : ∀ name ∈ imports, hasNul name = false) :
    hasNul (summarize relative language text symbols imports) = false := by
  have hlisted {names : List String} (h : ∀ name ∈ names, hasNul name = false) :
      hasNul (", ".intercalate (names.take 20)) = false :=
    hasNul_intercalate (by decide) fun name hname => h name (List.mem_of_mem_take hname)
  have hkind : hasNul (textOr language "text") = false := hasNul_textOr rfl hlanguage
  have htoString (s : String) : toString s = s := rfl
  unfold summarize
  dsimp only
  apply hasNul_intercalate (by decide)
  intro item hitem
  simp only [List.mem_append, List.mem_singleton] at hitem
  obtain ((rfl | hitem) | hitem) | hitem := hitem
  · simp only [hasNul_append, htoString, hrelative, hkind, hasNul_nat]
    decide
  · split at hitem
    · cases hitem
    · rw [List.mem_singleton.mp hitem]
      simp only [hasNul_append, htoString, hasNul_openingOf htext]
      decide
  · split at hitem
    · cases hitem
    · rw [List.mem_singleton.mp hitem]
      simp only [hasNul_append, htoString, hlisted hsymbols]
      decide
  · split at hitem
    · cases hitem
    · rw [List.mem_singleton.mp hitem]
      simp only [hasNul_append, htoString, hlisted himports]
      decide

/-! ## Chunks of a text with a NUL -/

section Chunks

variable {C : ContentIndexer} {file : TypedFile} {text : String} {chunks : List RepositoryChunk}
  {names imports : List String}

theorem strings_of_validated {chunk chunk' : RepositoryChunk} (h : chunk.validated = .ok chunk') :
    chunk.strings.any hasNul = false := by
  unfold RepositoryChunk.validated at h
  split at h
  · cases h
  · next hstrings => exact Bool.eq_false_iff.mpr hstrings

theorem of_mapM_validated {f : LineRange String → RepositoryChunk} {r : LineRange String}
    {ranges : List (LineRange String)}
    (h : (ranges.mapM fun r => (f r).validated) = .ok chunks) (hr : r ∈ ranges) :
    (f r).strings.any hasNul = false := by
  induction ranges generalizing chunks with
  | nil => cases hr
  | cons first ranges ih =>
    rw [List.mapM_cons] at h
    obtain ⟨chunk, hchunk, h⟩ := of_bind_ok h
    obtain ⟨rest, hrest, -⟩ := of_bind_ok h
    obtain rfl | hr := List.mem_cons.mp hr
    · exact strings_of_validated hchunk
    · exact ih hrest hr

theorem mem_intercalate_of_mem {separator piece : List Char} {pieces : List (List Char)} {c : Char}
    (hpiece : piece ∈ pieces) (hc : c ∈ piece) : c ∈ separator.intercalate pieces := by
  induction pieces with
  | nil => cases hpiece
  | cons first pieces ih =>
    by_cases hnil : pieces = []
    · subst hnil
      rw [List.intercalate_singleton]
      rwa [← List.mem_singleton.mp hpiece]
    · rw [List.intercalate_cons_of_ne_nil hnil, List.mem_append]
      obtain rfl | hpiece := List.mem_cons.mp hpiece
      · exact .inl (List.mem_append_left _ hc)
      · exact .inr (ih hpiece)

/-- A NUL of a text is in one of its lines. -/
theorem exists_line_of_hasNul (h : hasNul text = true) :
    ∃ line ∈ fileLines text, Char.ofNat 0 ∈ line := by
  have hmem : Char.ofNat 0 ∈ text.toList := by simpa [hasNul] using h
  obtain ⟨line, hline, hnul⟩ := @mem_splitLines isLineBreak _ _ hmem (by decide) (by decide)
    (by decide)
  unfold fileLines
  dsimp only
  split
  · next hnil =>
    rw [hnil] at hline
    cases hline
  · exact ⟨line, hline, hnul⟩

/-- The chunks of a text with a NUL are not made: one of them holds its line. -/
theorem text_of_chunksFor (hparse : C.ParsesLines)
    (h : C.chunksFor file text snapshotId = .ok (chunks, names, imports)) :
    hasNul text = false := by
  obtain ⟨body, hbody, h⟩ := of_bind_ok h
  obtain ⟨made, hmade, -⟩ := of_bind_ok h
  have hseparate := hparse.separate hbody
  by_contra hnul
  obtain ⟨line, hline, hc⟩ := exists_line_of_hasNul (Bool.not_eq_false _ ▸ hnul)
  have hslices := LineRange.flatMap_slice
    (fun r hr => (chunkRanges_within C.chunkLines_pos hseparate hr).1)
    (fun r hr => (chunkRanges_within C.chunkLines_pos hseparate hr).2)
    (flatMap_chunkRanges C.chunkLines_pos hseparate)
  rw [← hslices] at hline
  obtain ⟨r, hr, hslice⟩ := List.mem_flatMap.mp hline
  have hstrings := List.any_eq_false.mp (of_mapM_validated hmade hr)
    (joined (r.slice (fileLines text))) (by simp [RepositoryChunk.strings, chunkOf])
  rw [Bool.not_eq_true, hasNul_eq_false, joined, String.toList_ofList] at hstrings
  exact hstrings (mem_intercalate_of_mem hslice hc)

end Chunks

/-! ## One text file -/

namespace FullIndexer

variable {F : FullIndexer} {previous : PreviousRecords} {done done' : Contents}
  {file : WalkedFile} {walk : Walk}

/-- What the indexer is given by the file system and by libraries holds no NUL, and the parser's
definitions lie separate in the lines. -/
structure Reliable (F : FullIndexer) (snapshotId : String) (walk : Walk) : Prop where
  parses : F.ParsesLines
  symbols : ∀ text body, F.parse text = .tree body →
    ∀ symbol ∈ symbolsOf body, hasNul symbol.label = false
  imports : ∀ text body, F.parse text = .tree body → ∀ name ∈ importsOf body, hasNul name = false
  digests : ∀ content, hasNul (F.sha256Digest content) = false
  hashes : ∀ raw, hasNul (F.sha256 raw) = false
  guesses : ∀ name, ∀ guessed ∈ F.guessType name, hasNul guessed = false
  identifiers : ∀ relative, hasNul (F.newSummaryId relative) = false
  snapshot : hasNul snapshotId = false
  paths : ∀ file ∈ walk.files, hasNul file.relativePath = false

/-- A text file that the later stages take. -/
structure Acceptable (F : FullIndexer) (file : WalkedFile) : Prop where
  encodes : F.encodes file.relativePath = true
  text : hasNul (F.decodeText file.raw) = false
  parses : ∀ e, (F.detectType file.relativePath).1 = some "python" →
    F.parse (F.decodeText file.raw) ≠ .raised e

theorem hasNul_language {name : String}
    (h : (F.detectType file.relativePath).1 = some name) : hasNul name = false := by
  have hlanguages : ∀ entry ∈ languages, hasNul entry.2 = false := by decide
  unfold detectType at h
  dsimp only at h
  split at h
  · next language hlookup =>
    obtain rfl := Option.some.inj h
    obtain ⟨before, after, hentries, -⟩ := List.lookup_eq_some_iff.mp hlookup
    apply hlanguages (F.lower (String.ofList (suffixOf (nameOf file.relativePath))), language)
    rw [hentries]
    simp
  · split at h
    · rw [← Option.some.inj h]
      decide
    · cases h

theorem hasNul_mediaType (hguess : ∀ name, ∀ guessed ∈ F.guessType name, hasNul guessed = false) :
    hasNul (F.detectType file.relativePath).2 = false := by
  have hplain : hasNul "text/plain" = false := by decide
  have hguessed (name : String) : hasNul (textOr (F.guessType name) "text/plain") = false :=
    hasNul_textOr hplain (hguess name)
  exact iteInduction (motive := fun kind => hasNul kind = false) (fun _ => hplain)
    fun _ => hguessed _

theorem hasNul_stableFileId {fileId : String}
    (hdigests : ∀ content, hasNul (F.sha256Digest content) = false)
    (h : F.stableFileId file.relativePath = .ok fileId) : hasNul fileId = false := by
  unfold stableFileId at h
  split at h
  · cases h
  · have hshort : hasNul (F.shortDigest file.relativePath) = false := by
      rw [shortDigest, hasNul_eq_false, String.toList_ofList]
      intro hnul
      exact hasNul_eq_false.mp (hdigests _) (List.mem_of_mem_take hnul)
    rw [← Except.ok.inj h, hasNul_append, hshort]
    decide

/-- The record of a file is valid. -/
theorem validated_fileRecord (hF : F.Reliable snapshotId walk) (hfile : file ∈ walk.files)
    {fileId : String} (hid : F.stableFileId file.relativePath = .ok fileId) :
    (F.fileRecord previous snapshotId fileId file).validated =
      .ok (F.fileRecord previous snapshotId fileId file) := by
  have hstrings : (F.fileRecord previous snapshotId fileId file).strings.any hasNul = false := by
    rw [List.any_eq_false]
    intro s hs
    rw [Bool.not_eq_true]
    simp only [FileRecord.strings, fileRecord, List.mem_append, List.mem_cons, List.not_mem_nil,
      or_false, Option.mem_toList] at hs
    obtain (rfl | rfl | rfl | rfl | rfl) | hlanguage := hs
    · exact hasNul_stableFileId hF.digests hid
    · exact hF.snapshot
    · exact hF.paths file hfile
    · exact hF.hashes _
    · exact hasNul_mediaType hF.guesses
    · exact hasNul_language hlanguage
  unfold FileRecord.validated
  rw [hstrings]
  rfl

theorem exists_body (hF : F.Reliable snapshotId walk) (typedFile : TypedFile) (text : String)
    (h : ∀ e, typedFile.language = some "python" → F.parse text ≠ .raised e) :
    ∃ body, F.bodyOf typedFile text = .ok body ∧
      Separate (fileLines text).length (symbolsOf body) ∧
      (∀ symbol ∈ symbolsOf body, hasNul symbol.label = false) ∧
      ∀ name ∈ importsOf body, hasNul name = false := by
  have hnone : F.bodyOf typedFile text = .ok [] → ∃ body, F.bodyOf typedFile text = .ok body ∧
      Separate (fileLines text).length (symbolsOf body) ∧
      (∀ symbol ∈ symbolsOf body, hasNul symbol.label = false) ∧
      ∀ name ∈ importsOf body, hasNul name = false := by
    intro hbody
    exact ⟨[], hbody, hF.parses.separate hbody, by simp [symbolsOf], by simp [importsOf]⟩
  by_cases hpython : typedFile.language = some "python"
  · cases hparsed : F.parse text with
    | tree body =>
      have hbody : F.bodyOf typedFile text = .ok body := by
        unfold bodyOf
        rw [if_pos hpython, hparsed]
      exact ⟨body, hbody, hF.parses text body hparsed, hF.symbols text body hparsed,
        hF.imports text body hparsed⟩
    | syntaxError =>
      apply hnone
      unfold bodyOf
      rw [if_pos hpython, hparsed]
    | raised e => exact absurd hparsed (h e hpython)
  · apply hnone
    unfold bodyOf
    rw [if_neg hpython]

theorem validated_summaryOf (hF : F.Reliable snapshotId walk) (hfile : file ∈ walk.files)
    (htext : hasNul (F.decodeText file.raw) = false) {fileId : String} {body : List TopLevel}
    (hsymbols : ∀ symbol ∈ symbolsOf body, hasNul symbol.label = false)
    (himports : ∀ name ∈ importsOf body, hasNul name = false) :
    (F.summaryOf (F.fileRecord previous snapshotId fileId file) (F.decodeText file.raw) snapshotId
        ((symbolsOf body).map LineRange.label) (importsOf body)).validated =
      .ok (F.summaryOf (F.fileRecord previous snapshotId fileId file) (F.decodeText file.raw)
        snapshotId ((symbolsOf body).map LineRange.label) (importsOf body)) := by
  have hlabels : ∀ name ∈ (symbolsOf body).map LineRange.label, hasNul name = false := by
    intro name hname
    obtain ⟨symbol, hsymbol, rfl⟩ := List.mem_map.mp hname
    exact hsymbols symbol hsymbol
  have hsummary := hasNul_summarize (hF.paths file hfile)
    (fun name hname => @hasNul_language F file name hname) htext hlabels himports
  have hstrings : (F.summaryOf (F.fileRecord previous snapshotId fileId file)
      (F.decodeText file.raw) snapshotId ((symbolsOf body).map LineRange.label)
      (importsOf body)).strings.any hasNul = false := by
    rw [List.any_eq_false]
    intro s hs
    rw [Bool.not_eq_true]
    simp only [FileSummary.strings, summaryOf, fileRecord, List.mem_cons, List.not_mem_nil,
      or_false] at hs
    obtain rfl | rfl | rfl | rfl | rfl := hs
    · exact hF.identifiers _
    · exact hF.snapshot
    · exact hF.paths file hfile
    · exact hF.hashes _
    · exact hsummary
  unfold FileSummary.validated
  rw [hstrings]
  rfl

/-- A text file is taken exactly if it is acceptable. -/
theorem readText_returns_iff (hF : F.Reliable snapshotId walk) (hfile : file ∈ walk.files) :
    (∃ done', F.readText previous snapshotId done file = .ok done') ↔ F.Acceptable file := by
  constructor
  · rintro ⟨done', h⟩
    obtain ⟨fileId, hid, h⟩ := of_bind_ok h
    obtain ⟨record, hrecord, h⟩ := of_bind_ok h
    obtain ⟨⟨chunks, names, imports⟩, hchunks, -⟩ := of_bind_ok h
    obtain rfl := validated_record hrecord
    constructor
    · unfold stableFileId at hid
      split at hid
      · cases hid
      · next hencodes => exact Bool.not_eq_false _ ▸ hencodes
    · exact text_of_chunksFor hF.parses hchunks
    · intro e hpython hraised
      obtain ⟨body, hbody, -⟩ := of_bind_ok hchunks
      have hlanguage : (typed (F.fileRecord previous snapshotId fileId file)).language =
          some "python" := hpython
      unfold bodyOf at hbody
      rw [if_pos hlanguage, hraised] at hbody
      cases hbody
  · intro h
    obtain ⟨fileId, hid⟩ : ∃ fileId, F.stableFileId file.relativePath = .ok fileId := by
      rw [stableFileId, h.encodes]
      exact ⟨_, rfl⟩
    have hrecord := @validated_fileRecord _ F previous file walk hF hfile fileId hid
    obtain ⟨body, hbody, hseparate, hsymbols, himports⟩ := exists_body hF
      (typed (F.fileRecord previous snapshotId fileId file)) (F.decodeText file.raw) h.parses
    have hclean : F.Clean (typed (F.fileRecord previous snapshotId fileId file))
        (F.decodeText file.raw) snapshotId body := by
      constructor
      · exact h.text
      · intro name hname
        simp only [List.mem_cons, List.not_mem_nil, or_false] at hname
        obtain rfl | rfl | rfl := hname
        · exact hasNul_stableFileId hF.digests hid
        · exact hF.paths file hfile
        · exact hF.snapshot
      · exact fun language hlanguage => hasNul_language hlanguage
      · exact hsymbols
      · exact hF.digests
    obtain ⟨chunks, hchunks⟩ := chunksFor_returns hbody hseparate hclean
    have hsummary := @validated_summaryOf _ F previous file walk hF hfile h.text fileId body
      hsymbols himports
    unfold readText
    rw [hid]
    dsimp only [bind, Except.bind]
    rw [hrecord]
    dsimp only
    rw [hchunks]
    dsimp only
    rw [hsummary]
    exact ⟨_, rfl⟩

/-! ## The loop over the walk -/

/-- The file has not changed since its size was read. -/
def Static (F : FullIndexer) (file : WalkedFile) : Prop :=
  file.size ≤ F.maximumFileBytes → file.raw.length = file.size

/-- What a file counts towards the limit of the repository. -/
def counts (F : FullIndexer) (file : WalkedFile) : Nat :=
  if file.size ≤ F.maximumFileBytes then file.size else 0

theorem readText_totalBytes (h : F.readText previous snapshotId done file = .ok done') :
    done'.totalBytes = done.totalBytes + file.size := by
  obtain ⟨fileId, -, h⟩ := of_bind_ok h
  obtain ⟨record, -, h⟩ := of_bind_ok h
  obtain ⟨⟨chunks, names, imports⟩, -, h⟩ := of_bind_ok h
  obtain ⟨summary, -, h⟩ := of_bind_ok h
  rw [← Except.ok.inj h]

theorem readFile_totalBytes (h : F.readFile previous snapshotId done file = .ok done') :
    done'.totalBytes = done.totalBytes + F.counts file := by
  unfold readFile at h
  unfold counts
  split at h
  · next hsize =>
    rw [if_neg (by omega), ← Except.ok.inj h]
    rfl
  · next hsize =>
    rw [if_pos (by omega)]
    split at h
    · cases h
    · split at h
      · cases h
      · split at h
        · rw [← Except.ok.inj h]
        · exact readText_totalBytes h

/-- Within the limits a file is taken exactly if it is skipped or acceptable. -/
theorem readFile_returns_iff (hF : F.Reliable snapshotId walk) (hfile : file ∈ walk.files)
    (hstatic : F.Static file)
    (hlimit : done.totalBytes + F.counts file ≤ F.maximumRepositoryBytes) :
    (∃ done', F.readFile previous snapshotId done file = .ok done') ↔
      (F.keeps file = true → F.Acceptable file) := by
  unfold readFile
  by_cases hsize : file.size ≤ F.maximumFileBytes
  · rw [counts, if_pos hsize] at hlimit
    rw [if_neg (Nat.not_lt.mpr hsize), if_neg (Nat.not_lt.mpr hlimit),
      if_neg (not_not.mpr (hstatic hsize))]
    by_cases htext : decodesText file.raw = false
    · rw [if_pos htext]
      simp [LocalRepositoryIndexer.keeps, htext]
    · rw [if_neg htext, readText_returns_iff hF hfile]
      have hkeeps : F.keeps file = true := by
        simp [LocalRepositoryIndexer.keeps, hsize, htext]
      simp [hkeeps]
  · rw [if_pos (Nat.lt_of_not_le hsize)]
    simp [LocalRepositoryIndexer.keeps, hsize]

theorem readFiles_returns_iff {files : List WalkedFile} (hF : F.Reliable snapshotId walk)
    (hfiles : ∀ file ∈ files, file ∈ walk.files) (hstatic : ∀ file ∈ files, F.Static file)
    (hlimit : done.totalBytes + (files.map F.counts).sum ≤ F.maximumRepositoryBytes) :
    (∃ done', F.readFiles previous snapshotId files done = .ok done') ↔
      ∀ file ∈ files, F.keeps file = true → F.Acceptable file := by
  induction files generalizing done with
  | nil => simp [readFiles]
  | cons file files ih =>
    rw [List.map_cons, List.sum_cons] at hlimit
    have hhead := @readFile_returns_iff _ F previous done file walk hF
      (hfiles file List.mem_cons_self) (hstatic file List.mem_cons_self) (by omega)
    have htail (done₁ : Contents) (h : F.readFile previous snapshotId done file = .ok done₁) :=
      @ih done₁ (fun other hother => hfiles other (List.mem_cons_of_mem file hother))
        (fun other hother => hstatic other (List.mem_cons_of_mem file hother))
        (by rw [readFile_totalBytes h]; omega)
    rw [List.forall_mem_cons, ← hhead]
    constructor
    · rintro ⟨done', h⟩
      obtain ⟨done₁, hfile, hrest⟩ := of_bind_ok h
      exact ⟨⟨done₁, hfile⟩, (htail done₁ hfile).mp ⟨done', hrest⟩⟩
    · rintro ⟨⟨done₁, hfile⟩, hrest⟩
      obtain ⟨done', hdone'⟩ := (htail done₁ hfile).mpr hrest
      refine ⟨done', ?_⟩
      rw [readFiles, hfile]
      exact hdone'

/-! ## Every file is recorded or reported -/

def Recorded (files : List FileRecord) (file : WalkedFile) : Prop :=
  ∃ record ∈ files, record.relativePath = file.relativePath ∧ record.isDeleted = false

/-- A warning says that the file was skipped. -/
def Reported (warnings : List String) (file : WalkedFile) : Prop :=
  s!"skipped oversized file: {file.relativePath} ({file.size} bytes)" ∈ warnings ∨
    s!"skipped unsupported binary file: {file.relativePath}" ∈ warnings

/-- What a stage of the loop has recorded and reported is kept by the later ones. -/
structure Extends (done done' : Contents) : Prop where
  files : done.files ⊆ done'.files
  warnings : done.warnings ⊆ done'.warnings

theorem Recorded.mono {files files' : List FileRecord} (h : files ⊆ files')
    (hfile : Recorded files file) : Recorded files' file := by
  obtain ⟨record, hrecord, hpath⟩ := hfile
  exact ⟨record, h hrecord, hpath⟩

theorem Reported.mono {warnings warnings' : List String} (h : warnings ⊆ warnings')
    (hfile : Reported warnings file) : Reported warnings' file :=
  hfile.imp (fun hskipped => h hskipped) fun hskipped => h hskipped

theorem readFile_covers (h : F.readFile previous snapshotId done file = .ok done') :
    Extends done done' ∧ (Recorded done'.files file ∨ Reported done'.warnings file) := by
  unfold readFile at h
  split at h
  · rw [← Except.ok.inj h]
    refine ⟨⟨by simp, by simp⟩, .inr (.inl ?_)⟩
    simp
  · split at h
    · cases h
    · split at h
      · cases h
      · split at h
        · rw [← Except.ok.inj h]
          refine ⟨⟨by simp, by simp⟩, .inr (.inr ?_)⟩
          simp
        · obtain ⟨fileId, -, h⟩ := of_bind_ok h
          obtain ⟨record, hrecord, h⟩ := of_bind_ok h
          obtain ⟨⟨chunks, names, imports⟩, -, h⟩ := of_bind_ok h
          obtain ⟨summary, -, h⟩ := of_bind_ok h
          obtain rfl := validated_record hrecord
          rw [← Except.ok.inj h]
          refine ⟨⟨by simp, by simp⟩, .inl ?_⟩
          exact ⟨_, List.mem_append_right _ List.mem_cons_self, rfl, rfl⟩

theorem readFiles_covers {files : List WalkedFile}
    (h : F.readFiles previous snapshotId files done = .ok done') :
    Extends done done' ∧
      ∀ file ∈ files, Recorded done'.files file ∨ Reported done'.warnings file := by
  induction files generalizing done with
  | nil =>
    rw [← Except.ok.inj h]
    exact ⟨⟨fun _ => id, fun _ => id⟩, by simp⟩
  | cons file files ih =>
    obtain ⟨done₁, hfile, hrest⟩ := of_bind_ok h
    obtain ⟨hstep, hcovered⟩ := readFile_covers hfile
    obtain ⟨hsteps, hothers⟩ := ih hrest
    refine ⟨⟨List.Subset.trans hstep.files hsteps.files,
      List.Subset.trans hstep.warnings hsteps.warnings⟩, ?_⟩
    rw [List.forall_mem_cons]
    exact ⟨hcovered.imp (Recorded.mono hsteps.files) (Reported.mono hsteps.warnings), hothers⟩

/-! ## The index -/

/-- `index` of a tree. The walk raises where a line of a `.gitignore` is no pattern. -/
def recordTree (F : FullIndexer) (root : String) (walk : Except Exn Walk)
    (previous : Option IndexRecord) (snapshotId : String) : Except Exn IndexRecord := do
  let walk ← walk
  F.record root walk previous snapshotId

/-- A snapshot identifier that the indexer takes. -/
def Identifies (snapshotId : String) : Prop :=
  ¬ (snapshotId.toList.all isSpace ∨ 256 < snapshotId.length)

theorem record_returns_iff {root : String} {prior : Option IndexRecord}
    (hid : Identifies snapshotId) (hF : F.Reliable snapshotId walk)
    (hstatic : ∀ file ∈ walk.files, F.Static file)
    (hlimit : (walk.files.map F.counts).sum ≤ F.maximumRepositoryBytes) :
    (∃ index, F.record root walk prior snapshotId = .ok index) ↔
      ∀ file ∈ walk.files.filter F.keeps, F.Acceptable file := by
  have hloop := @readFiles_returns_iff _ F (previousRecords prior) {} walk walk.files hF
    (fun _ => id) hstatic (by simpa using hlimit)
  simp only [List.mem_filter, and_imp]
  rw [← hloop]
  unfold FullIndexer.record
  rw [if_neg hid]
  constructor
  · rintro ⟨index, h⟩
    obtain ⟨done, hdone, -⟩ := of_bind_ok h
    exact ⟨done, hdone⟩
  · rintro ⟨done, hdone⟩
    rw [hdone]
    exact ⟨_, rfl⟩

theorem record_covers {root : String} {prior : Option IndexRecord} {index : IndexRecord}
    (h : F.record root walk prior snapshotId = .ok index) (hfile : file ∈ walk.files) :
    Recorded index.snapshot.files file ∨ Reported index.warnings file := by
  unfold FullIndexer.record at h
  split at h
  · cases h
  · obtain ⟨done, hdone, h⟩ := of_bind_ok h
    rw [← Except.ok.inj h]
    apply ((readFiles_covers hdone).2 file hfile).imp
    · apply Recorded.mono
      intro record hrecord
      exact (List.mem_insertionSort _).mpr (List.mem_append_left _ hrecord)
    · exact Reported.mono (List.subset_append_left _ _)

/-- A tree that does not change, within the limits. -/
structure Settled (F : FullIndexer) (snapshotId : String) (walk : Walk) : Prop
    extends F.Reliable snapshotId walk where
  static : ∀ file ∈ walk.files, F.Static file
  limit : (walk.files.map F.counts).sum ≤ F.maximumRepositoryBytes

/-- A tree is indexed, with every file recorded or reported, exactly if the walk returns and every
text file is acceptable. -/
theorem recordTree_total_iff (F : FullIndexer) (root : String) (tree : Except Exn Walk)
    (prior : Option IndexRecord) (snapshotId : String) (hid : Identifies snapshotId)
    (htree : ∀ walk, tree = .ok walk → F.Settled snapshotId walk) :
    (∃ index walk, tree = .ok walk ∧ F.recordTree root tree prior snapshotId = .ok index ∧
      ∀ file ∈ walk.files, Recorded index.snapshot.files file ∨ Reported index.warnings file) ↔
    ∃ walk, tree = .ok walk ∧ ∀ file ∈ walk.files.filter F.keeps, F.Acceptable file := by
  cases tree with
  | error e => simp
  | ok walk =>
    have hsettled := htree walk rfl
    have hreturns := @record_returns_iff _ F walk root prior hid hsettled.toReliable
      hsettled.static hsettled.limit
    simp only [Except.ok.injEq, exists_eq_left']
    rw [← hreturns]
    constructor
    · rintro ⟨index, h, -⟩
      exact ⟨index, h⟩
    · rintro ⟨index, h⟩
      exact ⟨index, h, fun file hfile => record_covers h hfile⟩

/-! ## A late NUL -/

/-- The bytes of a text of so many letters and a NUL. -/
def lateNulRaw (n : Nat) : List UInt8 := List.replicate n 97 ++ [0]

def lateNulFile (n : Nat) : WalkedFile :=
  { relativePath := "n", size := n + 1, raw := lateNulRaw n }

def lateNulWalk (n : Nat) : Walk := { files := [lateNulFile n], nodup_paths := by simp }

def lateNulText (n : Nat) : String := String.ofList (List.replicate n 'a' ++ [Char.ofNat 0])

variable {n : Nat}

theorem toByteArray_lateNulRaw : (lateNulRaw n).toByteArray = (lateNulText n).toByteArray := by
  have hraw : lateNulRaw n = (lateNulText n).toList.flatMap String.utf8EncodeChar := by
    rw [lateNulText, String.toList_ofList, List.flatMap_append, List.flatMap_replicate,
      show String.utf8EncodeChar 'a' = [97] by decide, List.flatten_replicate_singleton]
    rfl
  rw [hraw]
  exact String.utf8Encode_toList

theorem keeps_lateNulFile (hn : 8192 ≤ n) (hsize : n + 1 ≤ 2000000) :
    clocklessIndexer.keeps (lateNulFile n) = true := by
  have hstart : (0 : UInt8) ∉ (lateNulRaw n).take 8192 := by
    rw [lateNulRaw, List.take_append_of_le_length (by simpa using hn), List.take_replicate,
      List.mem_replicate]
    rintro ⟨-, hzero⟩
    cases hzero
  have hvalid : (ByteArray.mk (lateNulRaw n).toArray).validateUTF8 = true := by
    rw [← List.data_toByteArray]
    change (lateNulRaw n).toByteArray.validateUTF8 = true
    rw [toByteArray_lateNulRaw, ByteArray.validateUTF8_eq_true_iff]
    exact (lateNulText n).isValidUTF8
  have hdecodes : decodesText (lateNulRaw n) = true := by
    unfold decodesText
    dsimp only
    rw [if_neg hstart, if_pos hvalid]
  rw [LocalRepositoryIndexer.keeps, decide_eq_true_eq]
  exact ⟨hsize, hdecodes⟩

theorem decodeText_lateNulRaw (hn : n ≠ 0) :
    clocklessIndexer.decodeText (lateNulRaw n) = lateNulText n := by
  have hdecoded : String.fromUTF8? (lateNulRaw n).toByteArray = some (lateNulText n) := by
    rw [toByteArray_lateNulRaw, String.fromUTF8?, dif_pos (lateNulText n).isValidUTF8]
    rfl
  obtain ⟨m, rfl⟩ := Nat.exists_eq_succ_of_ne_zero hn
  have hlist : (lateNulText (m + 1)).toList = 'a' :: (List.replicate m 'a' ++ [Char.ofNat 0]) :=
    String.toList_ofList
  unfold decodeText
  rw [hdecoded]
  dsimp only
  rw [hlist]
  exact if_neg (by decide)

theorem not_indexed_of_late (hn : 8192 ≤ n) (hsize : n + 1 ≤ 2000000) :
    clocklessIndexer.Static (lateNulFile n) ∧
      ((lateNulWalk n).files.map clocklessIndexer.counts).sum ≤
        clocklessIndexer.maximumRepositoryBytes ∧
      ¬ ∃ index, clocklessIndexer.recordTree "." (.ok (lateNulWalk n)) none "s" = .ok index := by
  refine ⟨?_, ?_, ?_⟩
  · intro _
    simp [lateNulFile, lateNulRaw]
  · change (if n + 1 ≤ 2000000 then n + 1 else 0) + 0 ≤ 100000000
    rw [if_pos hsize]
    omega
  · rintro ⟨index, h⟩
    obtain ⟨pieces, hpieces, -⟩ := @record_ok _ "s" clocklessIndexer "." (lateNulWalk n) none h
    rw [lateNulWalk, List.filter_cons_of_pos (keeps_lateNulFile hn hsize),
      List.filter_nil] at hpieces
    cases hpieces with
    | cons hmade _ =>
      obtain ⟨fileId, names, imports, -, -, hchunks⟩ := hmade
      have htext := text_of_chunksFor (fun text body hbody => by cases hbody) hchunks
      change hasNul (clocklessIndexer.decodeText (lateNulRaw n)) = false at htext
      rw [decodeText_lateNulRaw (by omega), hasNul_eq_false, lateNulText,
        String.toList_ofList] at htext
      simp at htext

/-- A tree of one small file, which the detector takes for a text, is not indexed. -/
theorem lateNul_not_indexed :
    clocklessIndexer.Static (lateNulFile 8192) ∧
      ((lateNulWalk 8192).files.map clocklessIndexer.counts).sum ≤
        clocklessIndexer.maximumRepositoryBytes ∧
      ¬ ∃ index,
        clocklessIndexer.recordTree "." (.ok (lateNulWalk 8192)) none "s" = .ok index :=
  not_indexed_of_late (by decide) (by decide)

theorem hasNul_hexDigest (codes : List Nat) : hasNul (hexDigest codes) = false := by
  have hdigits : ∀ digit < 16, Json.hexDigit digit ≠ Char.ofNat 0 := by decide
  rw [hasNul_eq_false, hexDigest, String.toList_ofList, List.mem_map]
  rintro ⟨code, -, hcode⟩
  exact hdigits (code % 16) (Nat.mod_lt code (by decide)) hcode

theorem settled_flatWalk : clocklessIndexer.Settled "s" flatWalk where
  parses text body hbody := by cases hbody
  symbols text body hbody := by cases hbody
  imports text body hbody := by cases hbody
  digests content := hasNul_hexDigest _
  hashes raw := hasNul_hexDigest _
  guesses name guessed hguessed := by cases hguessed
  identifiers relative := by
    change hasNul ("reposum-" ++ hexDigest _) = false
    rw [hasNul_append, hasNul_hexDigest]
    decide
  snapshot := by decide
  paths := by decide
  static := by
    intro file hfile _
    simp only [flatWalk, List.mem_cons, List.not_mem_nil, or_false] at hfile
    obtain rfl | rfl := hfile <;> rfl
  limit := by decide

/-- Two empty files are indexed. -/
theorem recordTree_total_flat : ∃ index,
    clocklessIndexer.recordTree "." (.ok flatWalk) none "s" = .ok index ∧
      ∀ file ∈ flatWalk.files,
        Recorded index.snapshot.files file ∨ Reported index.warnings file := by
  have h := (recordTree_total_iff clocklessIndexer "." (.ok flatWalk) none "s"
    (by unfold Identifies; decide)
    (fun walk hwalk => by rw [← Except.ok.inj hwalk]; exact settled_flatWalk)).mpr
    ⟨flatWalk, rfl, by
      intro file hfile
      have hmem := List.mem_of_mem_filter hfile
      simp only [flatWalk, List.mem_cons, List.not_mem_nil, or_false] at hmem
      obtain rfl | rfl := hmem
      · exact ⟨rfl, by decide +kernel, fun e _ hraised => by cases hraised⟩
      · exact ⟨rfl, by decide +kernel, fun e _ hraised => by cases hraised⟩⟩
  obtain ⟨index, walk, hwalk, hindex, hcovered⟩ := h
  rw [← Except.ok.inj hwalk] at hcovered
  exact ⟨index, hindex, hcovered⟩

end FullIndexer

end DurableAgent.Repository
