import DurableAgent.Repository.Partition

/-!
# The lines of a definition

The parser counts fewer line ends than the indexer splits at. The chunk of a definition holds the
lines of the definition exactly if no further line break stands before its end.
-/

namespace DurableAgent.Repository

open Library

/-- Where some lines of a text begin and end. -/
def placeOf (breaks : Char → Bool) (text : String) (first last : Nat) : Option (Nat × Nat) := do
  let spans := lineSpans breaks 0 text.toList
  let start ← spans[first - 1]?
  let stop ← spans[last - 1]?
  some (start.1, stop.2)

/-- Where a line of a text ends. -/
def lineEnd (breaks : Char → Bool) (text : String) (line : Nat) : Nat :=
  ((lineSpans breaks 0 text.toList)[line - 1]?.map Prod.snd).getD 0

/-- A chunk is of the lines of a definition, as the parser counts them. -/
structure Traced (text : String) (symbol : LineRange String) (chunk : RepositoryChunk) : Prop where
  lines : chunk.startLine = symbol.first ∧ chunk.endLine = symbol.last
  place : placeOf isLineBreak text chunk.startLine chunk.endLine =
    placeOf endsParsedLine text symbol.first symbol.last
  content : chunk.content =
    ContentIndexer.joined (symbol.slice (splitLines endsParsedLine text.toList))

/-- Up to the end of a definition the text has no line break that the parser does not count. -/
def PlainUpTo (text : String) (line : Nat) : Prop :=
  ∀ c ∈ text.toList.take (lineEnd endsParsedLine text line),
    isLineBreak c = true → endsParsedLine c = true

variable {text : String} {symbol : LineRange String} {k : Nat}

theorem isLineBreak_of_endsParsedLine {c : Char} (h : endsParsedLine c = true) :
    isLineBreak c = true := by
  obtain rfl | rfl := of_decide_eq_true h <;> rfl

theorem meets_text {span : Nat × Nat}
    (h : (lineSpans endsParsedLine 0 text.toList)[k]? = some span) :
    Meets isLineBreak endsParsedLine text.toList 0 (lineSpans isLineBreak 0 text.toList) k span :=
  meets_lineSpans (fun _ => isLineBreak_of_endsParsedLine) rfl rfl h

theorem length_splitLines (breaks : Char → Bool) (chars : List Char) :
    (splitLines breaks chars).length = (lineSpans breaks 0 chars).length := by
  rw [splitLines_eq, List.length_map]

/-- The last line of a definition, as the parser has it. -/
theorem exists_lastSpan (hfirst : 1 ≤ symbol.first) (hle : symbol.first ≤ symbol.last)
    (hlast : symbol.last ≤ (splitLines endsParsedLine text.toList).length) :
    ∃ span, (lineSpans endsParsedLine 0 text.toList)[symbol.last - 1]? = some span ∧
      lineEnd endsParsedLine text symbol.last = span.2 := by
  rw [length_splitLines] at hlast
  have hspan := List.getElem?_eq_getElem
    (show symbol.last - 1 < (lineSpans endsParsedLine 0 text.toList).length by omega)
  refine ⟨_, hspan, ?_⟩
  rw [lineEnd, hspan]
  rfl

/-- Lines that end before a further break are the same. -/
theorem spans_eq_of_plain (h : PlainUpTo text symbol.last) (hfirst : 1 ≤ symbol.first)
    (hle : symbol.first ≤ symbol.last)
    (hlast : symbol.last ≤ (splitLines endsParsedLine text.toList).length) (hk : k < symbol.last) :
    (lineSpans isLineBreak 0 text.toList)[k]? = (lineSpans endsParsedLine 0 text.toList)[k]? := by
  obtain ⟨stop, hstop, hend⟩ := exists_lastSpan hfirst hle hlast
  rw [length_splitLines] at hlast
  have hspan := List.getElem?_eq_getElem (Nat.lt_of_lt_of_le hk hlast)
  obtain ⟨other, hother, ⟨-, heq⟩ | ⟨hnot, -⟩⟩ := meets_text hspan
  · rw [hother, hspan, heq]
  · refine absurd (fun c hc => h c ?_) hnot
    rw [hend]
    exact List.take_subset_take_left _
      (getElem_lineSpans_le (Nat.le_sub_one_of_lt hk) hspan hstop) hc

/-- The lines of the file are the parser's up to the end of the definition. -/
theorem slice_eq_of_plain (h : PlainUpTo text symbol.last) (hfirst : 1 ≤ symbol.first)
    (hle : symbol.first ≤ symbol.last)
    (hlast : symbol.last ≤ (splitLines endsParsedLine text.toList).length) :
    symbol.slice (fileLines text) = symbol.slice (splitLines endsParsedLine text.toList) := by
  have htake : (splitLines isLineBreak text.toList).take symbol.last =
      (splitLines endsParsedLine text.toList).take symbol.last := by
    apply List.ext_getElem?
    intro k
    by_cases hk : k < symbol.last
    · rw [List.getElem?_take_of_lt hk, List.getElem?_take_of_lt hk, splitLines_eq, splitLines_eq,
        List.getElem?_map, List.getElem?_map, spans_eq_of_plain h hfirst hle hlast hk]
    · rw [List.getElem?_take_eq_none (Nat.not_lt.mp hk),
        List.getElem?_take_eq_none (Nat.not_lt.mp hk)]
  have hne : splitLines isLineBreak text.toList ≠ [] := by
    intro hnil
    rw [length_splitLines] at hlast
    rw [← List.length_eq_zero_iff, length_splitLines, List.length_eq_zero_iff,
      lineSpans_eq_nil] at hnil
    rw [hnil, lineSpans_eq_nil.mpr rfl, List.length_nil] at hlast
    omega
  unfold LineRange.slice fileLines
  rw [if_neg hne, htake]

theorem placeOf_eq_of_plain (h : PlainUpTo text symbol.last) (hfirst : 1 ≤ symbol.first)
    (hle : symbol.first ≤ symbol.last)
    (hlast : symbol.last ≤ (splitLines endsParsedLine text.toList).length) :
    placeOf isLineBreak text symbol.first symbol.last =
      placeOf endsParsedLine text symbol.first symbol.last := by
  unfold placeOf
  dsimp only
  rw [spans_eq_of_plain h hfirst hle hlast (show symbol.first - 1 < symbol.last by omega),
    spans_eq_of_plain h hfirst hle hlast (show symbol.last - 1 < symbol.last by omega)]

/-- Lines of the same place as those of the definition end where it does. -/
theorem plain_of_placeOf_eq (hfirst : 1 ≤ symbol.first) (hle : symbol.first ≤ symbol.last)
    (hlast : symbol.last ≤ (splitLines endsParsedLine text.toList).length)
    (h : placeOf isLineBreak text symbol.first symbol.last =
      placeOf endsParsedLine text symbol.first symbol.last) : PlainUpTo text symbol.last := by
  obtain ⟨stop, hstop, hend⟩ := exists_lastSpan hfirst hle hlast
  rw [length_splitLines] at hlast
  have hstart := List.getElem?_eq_getElem
    (show symbol.first - 1 < (lineSpans endsParsedLine 0 text.toList).length by omega)
  obtain ⟨start', hstart', -⟩ := meets_text hstart
  obtain ⟨stop', hstop', ⟨hagrees, -⟩ | ⟨-, hlt⟩⟩ := meets_text hstop
  · unfold PlainUpTo
    rw [hend]
    exact hagrees
  · unfold placeOf at h
    dsimp only at h
    rw [hstart', hstop', hstart, hstop] at h
    obtain ⟨-, hsame⟩ := Prod.mk.inj (Option.some.inj h)
    omega

namespace ContentIndexer

variable {C : ContentIndexer} {file : TypedFile} {snapshotId : String}

/-- The definitions of a module, as the parser yields them: named, in lines that it counts. -/
structure ParsedSymbols (text : String) (symbols : List (LineRange String)) : Prop where
  named : ∀ symbol ∈ symbols, symbol.label ≠ ""
  lines : ∀ symbol ∈ symbols, 1 ≤ symbol.first ∧ symbol.first ≤ symbol.last ∧
    symbol.last ≤ (splitLines endsParsedLine text.toList).length

/-- The chunk labelled with a definition holds its lines exactly if the text has no further line
break before the definition ends. -/
theorem symbol_traced_iff (C : ContentIndexer) (file : TypedFile) (text snapshotId : String)
    (body : List TopLevel) (chunks : List RepositoryChunk) (names imports : List String)
    (symbol : LineRange String) (hbody : C.bodyOf file text = .ok body)
    (hparsed : ParsedSymbols text (symbolsOf body))
    (h : C.chunksFor file text snapshotId = .ok (chunks, names, imports))
    (hsymbol : symbol ∈ symbolsOf body) :
    (∃ chunk ∈ chunks, chunk.symbolName = some symbol.label ∧ Traced text symbol chunk) ↔
      PlainUpTo text symbol.last := by
  obtain ⟨hfirst, hle, hlast⟩ := hparsed.lines symbol hsymbol
  constructor
  · rintro ⟨chunk, -, -, htraced⟩
    have hplace := htraced.place
    rw [htraced.lines.1, htraced.lines.2] at hplace
    exact plain_of_placeOf_eq hfirst hle hlast hplace
  · intro hplain
    obtain ⟨rfl, -, -⟩ := chunksFor_ok hbody h
    have hranges : symbol ∈ chunkRanges C.chunkLines (fileLines text).length (symbolsOf body) := by
      rw [chunkRanges_perm.mem_iff, unsortedRanges, if_pos (List.ne_nil_of_mem hsymbol)]
      exact List.mem_append_left _ hsymbol
    refine ⟨_, List.mem_map_of_mem hranges, if_neg (hparsed.named symbol hsymbol),
      ⟨rfl, rfl⟩, ?_, ?_⟩
    · exact placeOf_eq_of_plain hplain hfirst hle hlast
    · exact congrArg joined (slice_eq_of_plain hplain hfirst hle hlast)

/-- A comment with a form feed before the function. -/
def formFeedText : String := "# a\x0cb\ndef f():\n    return 1\n"

theorem exists_chunks_formFeed : ∃ chunks names imports,
    smallIndexer.chunksFor smallFile formFeedText "s" = .ok (chunks, names, imports) ∧
      ∃ chunk ∈ chunks, chunk.symbolName = some "f" ∧ chunk.content = "b\ndef f():" := by
  have h : (smallIndexer.chunksFor smallFile formFeedText "s").toOption.any (fun result =>
      result.1.any fun chunk => chunk.symbolName = some "f" ∧ chunk.content = "b\ndef f():") =
        true := by
    decide +kernel
  cases hchunks : smallIndexer.chunksFor smallFile formFeedText "s" with
  | error e =>
    rw [hchunks] at h
    cases h
  | ok result =>
    rw [hchunks] at h
    obtain ⟨chunk, hchunk, hcontent⟩ := List.any_eq_true.mp h
    exact ⟨_, _, _, rfl, chunk, hchunk, of_decide_eq_true hcontent⟩

theorem symbol_traced_iff_formFeed : ∃ chunks names imports,
    smallIndexer.chunksFor smallFile formFeedText "s" = .ok (chunks, names, imports) ∧
      ((∃ chunk ∈ chunks, chunk.symbolName = some "f" ∧ Traced formFeedText ⟨"f", 2, 3⟩ chunk) ↔
        PlainUpTo formFeedText 3) := by
  obtain ⟨chunks, names, imports, h, -⟩ := exists_chunks_formFeed
  refine ⟨chunks, names, imports, h, ?_⟩
  apply symbol_traced_iff smallIndexer smallFile formFeedText "s" [.definition "f" 2 3] chunks
    names imports ⟨"f", 2, 3⟩ rfl ⟨by decide, by decide +kernel⟩ h List.mem_cons_self

/-- The chunk labelled with the function begins a line before it and lacks its last. -/
theorem formFeed_shifts : ∃ chunks names imports,
    smallIndexer.chunksFor smallFile formFeedText "s" = .ok (chunks, names, imports) ∧
      ∃ chunk ∈ chunks, chunk.symbolName = some "f" ∧
        ¬ Traced formFeedText ⟨"f", 2, 3⟩ chunk := by
  obtain ⟨chunks, names, imports, h, chunk, hchunk, hnamed, hcontent⟩ := exists_chunks_formFeed
  refine ⟨chunks, names, imports, h, chunk, hchunk, hnamed, fun htraced => ?_⟩
  have hother := htraced.content
  rw [hcontent] at hother
  revert hother
  decide +kernel

end ContentIndexer

end DurableAgent.Repository
