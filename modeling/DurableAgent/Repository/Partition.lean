import DurableAgent.Domain.CanonicalJson
import DurableAgent.Library.Lines
import DurableAgent.Repository.Chunking
import Mathlib.Data.List.Perm.Lattice

/-!
# The chunks of a file partition it

The gaps between the definitions are cut into ranges that name each of their lines once; with the
definitions they name every line of the file, in order. So nothing is lost and nothing is said
twice.
-/

namespace DurableAgent.Repository

open Library LineRange

variable {chunkLines count start last line : Nat} {r : LineRange String}
  {symbols : List (LineRange String)} {lines : List Nat}

/-! ## Gaps -/

theorem numbers_succ (h : start ≤ last + 1) :
    List.range' start (last + 1 + 1 - start) =
      List.range' start (last + 1 - start) ++ [last + 1] := by
  rw [show last + 1 + 1 - start = last + 1 - start + 1 by omega, List.range'_1_concat,
    show start + (last + 1 - start) = last + 1 by omega]

/-- The ranges name the lines, whatever lines these are. -/
theorem flatMap_gapsFrom (h : start ≤ last) :
    (gapsFrom chunkLines start last lines).flatMap numbers =
      List.range' start (last + 1 - start) ++ lines := by
  induction lines generalizing start last with
  | nil => simp [gapsFrom, numbers]
  | cons line lines ih =>
    rw [gapsFrom]
    by_cases hnext : line = last + 1 ∧ last - start + 1 < chunkLines
    · rw [if_pos hnext, ih (by omega), hnext.1, numbers_succ (by omega), List.append_assoc]
      rfl
    · rw [if_neg hnext, List.flatMap_cons, ih (le_refl line)]
      simp [numbers]

theorem flatMap_gaps : (gaps chunkLines lines).flatMap numbers = lines := by
  cases lines with
  | nil => rfl
  | cons line lines =>
    rw [gaps, flatMap_gapsFrom (le_refl line)]
    simp

/-- A range of a gap is not empty, and not longer than a chunk may be. -/
def Bounded (chunkLines : Nat) (r : LineRange String) : Prop :=
  r.first ≤ r.last ∧ r.last + 1 - r.first ≤ chunkLines

theorem bounded_gapsFrom (hpos : 0 < chunkLines) (h : start ≤ last)
    (hlen : last + 1 - start ≤ chunkLines) (hr : r ∈ gapsFrom chunkLines start last lines) :
    Bounded chunkLines r := by
  induction lines generalizing start last with
  | nil =>
    obtain rfl := List.mem_singleton.mp hr
    exact ⟨h, hlen⟩
  | cons line lines ih =>
    rw [gapsFrom] at hr
    by_cases hnext : line = last + 1 ∧ last - start + 1 < chunkLines
    · rw [if_pos hnext] at hr
      exact ih (by omega) (by omega) hr
    · rw [if_neg hnext, List.mem_cons] at hr
      obtain rfl | hr := hr
      · exact ⟨h, hlen⟩
      · exact ih (le_refl line) (by omega) hr

theorem bounded_gaps (hpos : 0 < chunkLines) (hr : r ∈ gaps chunkLines lines) :
    Bounded chunkLines r := by
  cases lines with
  | nil => cases hr
  | cons line lines => exact bounded_gapsFrom hpos (le_refl line) (by omega) hr

/-! ## Blocks -/

theorem bounded_blocks (hpos : 0 < chunkLines) (hr : r ∈ blocks chunkLines count) :
    Bounded chunkLines r := by
  obtain ⟨start, hstart, rfl⟩ := List.mem_map.mp hr
  obtain ⟨i, hi, rfl⟩ := List.mem_range'.mp hstart
  have hwithin := (Nat.le_div_iff_mul_le hpos).mp (Nat.succ_le_of_lt hi)
  rw [Nat.succ_mul, Nat.mul_comm i] at hwithin
  constructor <;> dsimp only <;> omega

/-- Blocks from a line on name the lines from there to the last. -/
theorem flatMap_blocks_from (hpos : 0 < chunkLines) (m : Nat)
    (hall : count + 1 - start ≤ m * chunkLines) :
    ((List.range' start m chunkLines).map fun start =>
        (⟨"", start, min (start + chunkLines - 1) count⟩ : LineRange String)).flatMap numbers =
      List.range' start (count + 1 - start) := by
  induction m generalizing start with
  | zero =>
    have hnone : count + 1 - start = 0 := by omega
    simp [hnone]
  | succ m ih =>
    rw [Nat.succ_mul] at hall
    rw [List.range'_succ, List.map_cons, List.flatMap_cons, ih (by omega), numbers]
    dsimp only
    by_cases hshort : count + 1 - start ≤ chunkLines
    · rw [show min (start + chunkLines - 1) count + 1 - start = count + 1 - start by omega,
        show count + 1 - (start + chunkLines) = 0 by omega]
      simp
    · rw [show min (start + chunkLines - 1) count + 1 - start = chunkLines by omega,
        List.range'_append_1]
      congr 1
      omega

theorem flatMap_blocks (hpos : 0 < chunkLines) :
    (blocks chunkLines count).flatMap numbers = List.range' 1 count := by
  unfold blocks
  rw [flatMap_blocks_from hpos, Nat.add_sub_cancel]
  have hdiv := Nat.div_add_mod (count + chunkLines - 1) chunkLines
  have hmod := Nat.mod_lt (count + chunkLines - 1) hpos
  rw [Nat.mul_comm] at hdiv
  omega

/-! ## Definitions and gaps -/

/-- Definitions within the lines of a file, no line in two of them. -/
structure Separate (count : Nat) (symbols : List (LineRange String)) : Prop where
  within : ∀ symbol ∈ symbols, 1 ≤ symbol.first ∧ symbol.first ≤ symbol.last ∧ symbol.last ≤ count
  disjoint : symbols.Pairwise fun a b => a.last < b.first ∨ b.last < a.first

theorem mem_uncovered :
    line ∈ uncovered count symbols ↔
      (1 ≤ line ∧ line ≤ count) ∧ line ∉ symbols.flatMap numbers := by
  unfold uncovered
  rw [List.mem_filter, List.mem_range'_1, List.mem_flatMap]
  simp only [decide_eq_true_eq, List.any_eq_true, mem_numbers, not_exists, not_and]
  constructor
  · rintro ⟨hline, hnot⟩
    refine ⟨by omega, fun symbol hsymbol hfirst hlast => ?_⟩
    exact hnot symbol hsymbol hfirst (by omega)
  · rintro ⟨hline, hnot⟩
    refine ⟨by omega, fun symbol hsymbol hfirst hlast => ?_⟩
    exact hnot symbol hsymbol hfirst (by omega)

theorem Separate.nodup (h : Separate count symbols) : (symbols.flatMap numbers).Nodup := by
  rw [List.nodup_flatMap]
  refine ⟨fun symbol _ => List.nodup_range' 1, h.disjoint.imp fun hab i hi hj => ?_⟩
  rw [mem_numbers] at hi hj
  omega

/-- The ranges before they are sorted. -/
def unsortedRanges (chunkLines count : Nat) (symbols : List (LineRange String)) :
    List (LineRange String) :=
  if symbols ≠ [] then symbols ++ gaps chunkLines (uncovered count symbols)
  else blocks chunkLines count

theorem chunkRanges_perm : (chunkRanges chunkLines count symbols).Perm
    (unsortedRanges chunkLines count symbols) := List.perm_insertionSort _ _

/-- The definitions and the gaps name every line once. -/
theorem perm_unsortedRanges (hpos : 0 < chunkLines) (h : Separate count symbols) :
    ((unsortedRanges chunkLines count symbols).flatMap numbers).Perm (List.range' 1 count) := by
  unfold unsortedRanges
  by_cases hsymbols : symbols = []
  · rw [if_neg (not_not.mpr hsymbols), flatMap_blocks hpos]
  · rw [if_pos hsymbols, List.flatMap_append, flatMap_gaps]
    apply (List.perm_ext_iff_of_nodup _ (List.nodup_range' 1)).mpr
    · intro i
      rw [List.mem_append, mem_uncovered, List.mem_range'_1]
      constructor
      · rintro (hi | ⟨hi, -⟩)
        · obtain ⟨symbol, hsymbol, hi⟩ := List.mem_flatMap.mp hi
          have hwithin := h.within symbol hsymbol
          rw [mem_numbers] at hi
          omega
        · omega
      · intro hi
        by_cases hcovered : i ∈ symbols.flatMap numbers
        · exact .inl hcovered
        · exact .inr ⟨by omega, hcovered⟩
    · apply List.Nodup.append h.nodup ((List.nodup_range' 1).filter _)
      intro i hi hgap
      exact ((mem_uncovered).mp hgap).2 hi

/-- A range is that of a definition, or bounded. -/
theorem mem_chunkRanges (hpos : 0 < chunkLines) (h : Separate count symbols)
    (hr : r ∈ chunkRanges chunkLines count symbols) :
    r.first ≤ r.last ∧ (r ∈ symbols ∨ r.last + 1 - r.first ≤ chunkLines) := by
  rw [chunkRanges_perm.mem_iff, unsortedRanges] at hr
  by_cases hsymbols : symbols = []
  · rw [if_neg (not_not.mpr hsymbols)] at hr
    exact (bounded_blocks hpos hr).imp_right .inr
  · rw [if_pos hsymbols, List.mem_append] at hr
    obtain hr | hr := hr
    · exact ⟨(h.within r hr).2.1, .inl hr⟩
    · exact (bounded_gaps hpos hr).imp_right .inr

theorem sorted_chunkRanges : (chunkRanges chunkLines count symbols).Pairwise fun a b =>
    a.first ≤ b.first := by
  have hsorted : (chunkRanges chunkLines count symbols).Pairwise fun a b =>
      rangeKey a ≤ rangeKey b := List.pairwise_insertionSort _ _
  apply hsorted.imp
  intro a b hab
  obtain hlt | ⟨heq, -⟩ := Prod.Lex.le_iff.mp hab
  · exact Nat.le_of_lt hlt
  · exact Nat.le_of_eq heq

/-- The ranges name the lines of the file in their order. -/
theorem flatMap_chunkRanges (hpos : 0 < chunkLines) (h : Separate count symbols) :
    (chunkRanges chunkLines count symbols).flatMap numbers = List.range' 1 count :=
  flatMap_numbers (fun _ hr => (mem_chunkRanges hpos h hr).1) sorted_chunkRanges
    ((chunkRanges_perm.flatMap_right numbers).trans (perm_unsortedRanges hpos h))

theorem chunkRanges_within (hpos : 0 < chunkLines) (h : Separate count symbols)
    (hr : r ∈ chunkRanges chunkLines count symbols) : 1 ≤ r.first ∧ r.last ≤ count := by
  have hle := (mem_chunkRanges hpos h hr).1
  have hnumbers (i : Nat) (hi : i ∈ r.numbers) : 1 ≤ i ∧ i ≤ count := by
    have hmem := List.mem_flatMap.mpr ⟨r, hr, hi⟩
    rw [flatMap_chunkRanges hpos h, List.mem_range'_1] at hmem
    omega
  exact ⟨(hnumbers _ (mem_numbers.mpr ⟨le_refl _, hle⟩)).1,
    (hnumbers _ (mem_numbers.mpr ⟨hle, le_refl _⟩)).2⟩

/-- The ranges begin one after the other. -/
theorem ascending_chunkRanges (hpos : 0 < chunkLines) (h : Separate count symbols) :
    (chunkRanges chunkLines count symbols).Pairwise fun a b => a.first < b.first := by
  have hascending := List.pairwise_lt_range' (s := 1) (n := count) 1 (by decide)
  rw [← flatMap_chunkRanges hpos h, List.pairwise_flatMap] at hascending
  apply List.Pairwise.imp_of_mem _ hascending.2
  intro a b ha hb hab
  have hfirst {r : LineRange String} (hr : r ∈ chunkRanges chunkLines count symbols) :
      r.first ∈ r.numbers := mem_numbers.mpr ⟨le_refl _, (mem_chunkRanges hpos h hr).1⟩
  exact hab _ (hfirst ha) _ (hfirst hb)

/-! ## Chunks -/

namespace ContentIndexer

variable {C : ContentIndexer} {file : TypedFile} {text snapshotId : String}
  {body : List TopLevel} {chunks : List RepositoryChunk} {names imports : List String}

/-- A chunk that passes the checks is the one that was checked. -/
theorem validated_ok {chunk chunk' : RepositoryChunk} (h : chunk.validated = .ok chunk') :
    chunk = chunk' := by
  unfold RepositoryChunk.validated at h
  split at h
  · cases h
  · split at h
    · cases h
    · split at h
      · cases h
      · exact Except.ok.inj h

theorem mapM_validated {f : LineRange String → RepositoryChunk} {ranges : List (LineRange String)}
    (h : (ranges.mapM fun r => (f r).validated) = .ok chunks) : chunks = ranges.map f := by
  induction ranges generalizing chunks with
  | nil => exact (Except.ok.inj h).symm
  | cons r ranges ih =>
    rw [List.mapM_cons] at h
    obtain ⟨chunk, hchunk, h⟩ := of_bind_ok h
    obtain ⟨rest, hrest, h⟩ := of_bind_ok h
    rw [← Except.ok.inj h, List.map_cons, validated_ok hchunk, ih hrest]

/-- The chunks are those of the ranges, in their order. -/
theorem chunksFor_ok (hbody : C.bodyOf file text = .ok body)
    (h : C.chunksFor file text snapshotId = .ok (chunks, names, imports)) :
    chunks = (chunkRanges C.chunkLines (fileLines text).length (symbolsOf body)).map
      (C.chunkOf file (fileLines text) (importsOf body) snapshotId) ∧
    names = (symbolsOf body).map LineRange.label ∧ imports = importsOf body := by
  obtain ⟨body', hbody', h⟩ := of_bind_ok h
  obtain rfl := Except.ok.inj (hbody.symm.trans hbody')
  obtain ⟨chunks', hchunks, h⟩ := of_bind_ok h
  obtain ⟨rfl, hrest⟩ := Prod.mk.inj (Except.ok.inj h)
  obtain ⟨rfl, rfl⟩ := Prod.mk.inj hrest
  exact ⟨mapM_validated hchunks, rfl, rfl⟩

theorem chunkName_injective {relative : String} {a b a' b' : Nat}
    (h : chunkName snapshotId relative a b = chunkName snapshotId relative a' b') :
    a = a' ∧ b = b' := by
  have hlists := congrArg String.toList h
  have hdigits (n : Nat) : (toString n).toList = Nat.toDigits 10 n := Nat.toList_repr
  simp only [chunkName, String.toList_append, List.append_assoc, List.append_cancel_left_eq,
    hdigits] at hlists
  have hcolon (t : List Char) : Json.Delimited ((toString ":").toList ++ t) := by
    intro c hc
    obtain rfl := Option.some.inj hc
    rfl
  obtain ⟨hfirst, hrest⟩ := Json.digits_injective (hcolon _) (hcolon _) hlists
  rw [List.append_cancel_left_eq, ← List.append_nil (Nat.toDigits 10 b),
    ← List.append_nil (Nat.toDigits 10 b')] at hrest
  have hnil : Json.Delimited [] := by simp [Json.Delimited]
  exact ⟨hfirst, (Json.digits_injective hnil hnil hrest).1⟩

/-- The digests tell the names of the chunks of a file apart. -/
def TellsApart (C : ContentIndexer) (snapshotId relative : String) (count : Nat) : Prop :=
  ∀ b ≤ count, ∀ a ≤ b, ∀ b' ≤ count, ∀ a' ≤ b',
    C.shortDigest (chunkName snapshotId relative a b) =
      C.shortDigest (chunkName snapshotId relative a' b') →
    chunkName snapshotId relative a b = chunkName snapshotId relative a' b'

theorem stableChunkId_injective {relative : String} {a b a' b' : Nat}
    (hdigest : C.TellsApart snapshotId relative count) (ha : a ≤ b) (hb : b ≤ count)
    (ha' : a' ≤ b') (hb' : b' ≤ count)
    (h : C.stableChunkId snapshotId relative a b = C.stableChunkId snapshotId relative a' b') :
    a = a' ∧ b = b' := by
  have hlists := congrArg String.toList h
  simp only [stableChunkId, String.toList_append, List.append_cancel_left_eq] at hlists
  exact chunkName_injective (hdigest b hb a ha b' hb' a' ha' (String.toList_injective hlists))

theorem fileLines_ne_nil (text : String) : fileLines text ≠ [] := by
  unfold fileLines
  dsimp only
  split <;> simp [*]

/-- The chunks of a file: every line once and in order, with nothing lost between them. -/
structure Partitions (C : ContentIndexer) (lines : List (List Char))
    (symbols : List (LineRange String)) (chunks : List RepositoryChunk) : Prop where
  ordered : ∀ chunk ∈ chunks, 1 ≤ chunk.startLine ∧ chunk.startLine ≤ chunk.endLine
  numbers : (chunks.flatMap fun chunk =>
      List.range' chunk.startLine (chunk.endLine + 1 - chunk.startLine)) =
    List.range' 1 lines.length
  contents : joined (chunks.map fun chunk => chunk.content.toList) = joined lines
  bounded : ∀ chunk ∈ chunks, (∀ symbol ∈ symbols,
      ¬ (symbol.first = chunk.startLine ∧ symbol.last = chunk.endLine)) →
    chunk.endLine + 1 - chunk.startLine ≤ C.chunkLines
  identified : (chunks.map RepositoryChunk.chunkId).Nodup

theorem partitions_chunkRanges (C : ContentIndexer) (file : TypedFile)
    (lines : List (List Char)) (symbols : List (LineRange String)) (imports : List String)
    (snapshotId : String) (h : Separate lines.length symbols)
    (hdigest : C.TellsApart snapshotId file.relativePath lines.length) :
    C.Partitions lines symbols ((chunkRanges C.chunkLines lines.length symbols).map
      (C.chunkOf file lines imports snapshotId)) := by
  have hnumbers := flatMap_chunkRanges C.chunkLines_pos h
  have hwithin (r : LineRange String) (hr : r ∈ chunkRanges C.chunkLines lines.length symbols) :=
    chunkRanges_within C.chunkLines_pos h hr
  constructor
  · intro chunk hchunk
    obtain ⟨r, hr, rfl⟩ := List.mem_map.mp hchunk
    exact ⟨(hwithin r hr).1, (mem_chunkRanges C.chunkLines_pos h hr).1⟩
  · rw [← hnumbers, List.flatMap_map]
    rfl
  · have hpieces (piece : List (List Char))
        (hpiece : piece ∈ (chunkRanges C.chunkLines lines.length symbols).map (slice lines)) :
        piece ≠ [] := by
      obtain ⟨r, hr, rfl⟩ := List.mem_map.mp hpiece
      exact slice_ne_nil (hwithin r hr).1 (mem_chunkRanges C.chunkLines_pos h hr).1 (hwithin r hr).2
    have hslices := flatMap_slice (fun r hr => (hwithin r hr).1) (fun r hr => (hwithin r hr).2)
      hnumbers
    have hjoined := intercalate_flatten ['\n'] hpieces
    rw [← List.flatMap_def, hslices, List.map_map] at hjoined
    unfold joined
    rw [List.map_map, ← hjoined]
    congr 2
    apply List.map_congr_left
    intro r _
    exact String.toList_ofList
  · intro chunk hchunk hnot
    obtain ⟨r, hr, rfl⟩ := List.mem_map.mp hchunk
    obtain hsymbol | hbounded := (mem_chunkRanges C.chunkLines_pos h hr).2
    · exact absurd ⟨rfl, rfl⟩ (hnot r hsymbol)
    · exact hbounded
  · rw [List.map_map, List.Nodup, List.pairwise_map]
    apply List.Pairwise.imp_of_mem _ (ascending_chunkRanges C.chunkLines_pos h)
    intro a b ha hb hlt hid
    have hale := (mem_chunkRanges C.chunkLines_pos h ha).1
    have hble := (mem_chunkRanges C.chunkLines_pos h hb).1
    obtain ⟨hfirst, -⟩ := stableChunkId_injective hdigest hale (hwithin a ha).2 hble
      (hwithin b hb).2 hid
    omega

/-! ## Chunks that can be made -/

/-- Nothing that the chunks of a file are made of holds a NUL. -/
structure Clean (C : ContentIndexer) (file : TypedFile) (text snapshotId : String)
    (body : List TopLevel) : Prop where
  text : hasNul text = false
  names : ∀ name ∈ [file.fileId, file.relativePath, snapshotId], hasNul name = false
  language : ∀ language ∈ file.language, hasNul language = false
  symbols : ∀ symbol ∈ symbolsOf body, hasNul symbol.label = false
  digests : ∀ content, hasNul (C.sha256Digest content) = false

theorem hasNul_eq_false {s : String} : hasNul s = false ↔ Char.ofNat 0 ∉ s.toList := by
  simp [hasNul]

theorem mem_text_of_splitLines {breaks : Char → Bool} {chars line : List Char} {c : Char}
    (hline : line ∈ splitLines breaks chars) (hc : c ∈ line) : c ∈ chars := by
  rw [splitLines_eq] at hline
  obtain ⟨span, -, rfl⟩ := List.mem_map.mp hline
  exact List.mem_of_mem_drop (List.mem_of_mem_take hc)

/-- The content of a chunk holds no NUL if the text does not. -/
theorem hasNul_joined (h : hasNul text = false) (r : LineRange String) :
    hasNul (joined (r.slice (fileLines text))) = false := by
  rw [hasNul_eq_false] at h ⊢
  rw [joined, String.toList_ofList]
  intro hnul
  obtain hsep | ⟨line, hline, hc⟩ := mem_intercalate hnul
  · simp at hsep
  · have hmem := List.mem_of_mem_take (List.mem_of_mem_drop hline)
    unfold fileLines at hmem
    dsimp only at hmem
    split at hmem
    · rw [List.mem_singleton.mp hmem] at hc
      cases hc
    · exact h (mem_text_of_splitLines hmem hc)

theorem hasNul_stableChunkId (h : ∀ content, hasNul (C.sha256Digest content) = false)
    (relative : String) (a b : Nat) :
    hasNul (C.stableChunkId snapshotId relative a b) = false := by
  rw [hasNul_eq_false, stableChunkId, String.toList_append, List.mem_append, not_or]
  refine ⟨by decide, fun hnul => ?_⟩
  rw [shortDigest, String.toList_ofList] at hnul
  exact hasNul_eq_false.mp (h _) (List.mem_of_mem_take hnul)

theorem validated_chunkOf (hclean : C.Clean file text snapshotId body) {r : LineRange String}
    (hfirst : 1 ≤ r.first) (hle : r.first ≤ r.last) (hlabel : hasNul r.label = false) :
    (C.chunkOf file (fileLines text) imports snapshotId r).validated =
      .ok (C.chunkOf file (fileLines text) imports snapshotId r) := by
  have hstrings : (C.chunkOf file (fileLines text) imports snapshotId r).strings.any hasNul =
      false := by
    rw [List.any_eq_false]
    intro s hs
    rw [Bool.not_eq_true]
    simp only [RepositoryChunk.strings, chunkOf, List.mem_append, List.mem_cons,
      List.not_mem_nil, or_false, Option.mem_toList] at hs
    obtain ((rfl | rfl | rfl | rfl | rfl | rfl) | hsymbol) | hlanguage := hs
    · exact hasNul_stableChunkId hclean.digests _ _ _
    · exact hclean.names _ (by simp)
    · exact hclean.names _ (by simp)
    · exact hclean.names _ (by simp)
    · exact hasNul_joined hclean.text r
    · exact hclean.digests _
    · split at hsymbol
      · cases hsymbol
      · rwa [← Option.some.inj hsymbol]
    · exact hclean.language s hlanguage
  have hpositive : ¬ ((C.chunkOf file (fileLines text) imports snapshotId r).startLine < 1 ∨
      (C.chunkOf file (fileLines text) imports snapshotId r).endLine < 1) := by
    change ¬ (r.first < 1 ∨ r.last < 1)
    omega
  unfold RepositoryChunk.validated
  rw [hstrings, if_neg Bool.false_ne_true, if_neg hpositive]
  exact if_neg (Nat.not_lt.mpr hle)

theorem mapM_ok {f : LineRange String → RepositoryChunk} {ranges : List (LineRange String)}
    (h : ∀ r ∈ ranges, (f r).validated = .ok (f r)) :
    (ranges.mapM fun r => (f r).validated) = .ok (ranges.map f) := by
  induction ranges with
  | nil => rfl
  | cons r ranges ih =>
    rw [List.mapM_cons, h r List.mem_cons_self,
      ih fun r' hr' => h r' (List.mem_cons_of_mem r hr')]
    rfl

theorem label_chunkRanges (hr : r ∈ chunkRanges chunkLines count symbols) :
    r ∈ symbols ∨ r.label = "" := by
  have hgaps {start last : Nat} {lines : List Nat}
      (hr : r ∈ gapsFrom chunkLines start last lines) : r.label = "" := by
    induction lines generalizing start last with
    | nil =>
      rw [List.mem_singleton.mp hr]
    | cons line lines ih =>
      rw [gapsFrom] at hr
      split at hr
      · exact ih hr
      · obtain rfl | hr := List.mem_cons.mp hr
        · rfl
        · exact ih hr
  rw [chunkRanges_perm.mem_iff, unsortedRanges] at hr
  split at hr
  · obtain hr | hr := List.mem_append.mp hr
    · exact .inl hr
    · right
      unfold gaps at hr
      split at hr
      · cases hr
      · exact hgaps hr
  · obtain ⟨start, -, rfl⟩ := List.mem_map.mp hr
    exact .inr rfl

/-- The chunks of a file without NULs are made. -/
theorem chunksFor_returns (hbody : C.bodyOf file text = .ok body)
    (hsymbols : Separate (fileLines text).length (symbolsOf body))
    (hclean : C.Clean file text snapshotId body) :
    ∃ chunks, C.chunksFor file text snapshotId =
      .ok (chunks, (symbolsOf body).map LineRange.label, importsOf body) := by
  have hvalid (r : LineRange String)
      (hr : r ∈ chunkRanges C.chunkLines (fileLines text).length (symbolsOf body)) :
      (C.chunkOf file (fileLines text) (importsOf body) snapshotId r).validated =
        .ok (C.chunkOf file (fileLines text) (importsOf body) snapshotId r) := by
    have hwithin := chunkRanges_within C.chunkLines_pos hsymbols hr
    have hle := (mem_chunkRanges C.chunkLines_pos hsymbols hr).1
    apply validated_chunkOf hclean hwithin.1 hle
    obtain hsymbol | hnone := label_chunkRanges hr
    · exact hclean.symbols r hsymbol
    · rw [hnone]
      rfl
  have hchunks := mapM_ok hvalid
  refine ⟨(chunkRanges C.chunkLines (fileLines text).length (symbolsOf body)).map
    (C.chunkOf file (fileLines text) (importsOf body) snapshotId), ?_⟩
  unfold chunksFor
  rw [hbody]
  dsimp only [bind, Except.bind]
  rw [hchunks]

/-- Whatever the text and the definitions that lie separate in its lines, the chunks partition the
file; and they are made unless something holds a NUL. -/
theorem chunksFor_partitions (C : ContentIndexer) (file : TypedFile) (text snapshotId : String)
    (body : List TopLevel) (hbody : C.bodyOf file text = .ok body)
    (hsymbols : Separate (fileLines text).length (symbolsOf body))
    (hdigest : C.TellsApart snapshotId file.relativePath (fileLines text).length) :
    (∀ chunks names imports, C.chunksFor file text snapshotId = .ok (chunks, names, imports) →
      C.Partitions (fileLines text) (symbolsOf body) chunks) ∧
    (C.Clean file text snapshotId body → ∃ chunks,
      C.chunksFor file text snapshotId =
        .ok (chunks, (symbolsOf body).map LineRange.label, importsOf body)) := by
  constructor
  · intro chunks names imports h
    obtain ⟨rfl, -, -⟩ := chunksFor_ok hbody h
    exact partitions_chunkRanges C file _ _ _ snapshotId hsymbols hdigest
  · exact chunksFor_returns hbody hsymbols

/-! ## A small module -/

/-- A module with a function in its second and third lines, and one line in a chunk. -/
def smallIndexer : ContentIndexer where
  sha256 raw := String.ofList (raw.map fun byte => Char.ofNat byte.toNat)
  sha256Digest := id
  injectionIndicators _ _ := 0
  chunkLines := 1
  parse _ := .tree [.definition "f" 2 3]

def smallFile : TypedFile := { fileId := "file-m", relativePath := "m", language := "python" }

def smallText : String := "# a\ndef f():\n    return 1\n# b\n# c"

theorem chunksFor_partitions_small :
    (∀ chunks names imports,
      smallIndexer.chunksFor smallFile smallText "s" = .ok (chunks, names, imports) →
        smallIndexer.Partitions (fileLines smallText) [⟨"f", 2, 3⟩] chunks) ∧
    (smallIndexer.Clean smallFile smallText "s" [.definition "f" 2 3] → ∃ chunks,
      smallIndexer.chunksFor smallFile smallText "s" = .ok (chunks, ["f"], [])) := by
  have hcount : (fileLines smallText).length = 5 := by decide +kernel
  apply chunksFor_partitions smallIndexer smallFile smallText "s" [.definition "f" 2 3] rfl
  · rw [hcount]
    exact ⟨by decide, by decide⟩
  · rw [hcount]
    unfold TellsApart
    decide +kernel

end ContentIndexer

end DurableAgent.Repository
