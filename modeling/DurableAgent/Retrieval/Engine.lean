import Mathlib.Algebra.Order.Field.Basic
import Mathlib.Analysis.SpecialFunctions.Log.Basic
import Mathlib.Data.Prod.Lex
import Mathlib.Data.String.Basic
import Mathlib.Tactic.Linarith
import DurableAgent.Domain.Errors
import DurableAgent.Domain.Models
import DurableAgent.Library.Patterns
import DurableAgent.Library.Ranking
import DurableAgent.Repository.Chunking

/-!
# Keyword, semantic, and reciprocal-rank hybrid retrieval

`retrieval/engine.py` over an ordered field of scores. The two rankings are sorted by score, path
and line and cut; hybrid retrieval fuses what is left by reciprocal ranks and cuts again. It says
the same of the chunks in any order, and keeps the order in which both rankings agree.
-/

namespace DurableAgent.Retrieval

open Library Repository

/-- `_TERM.findall` -/
def findTerms (text : String) : List String :=
  let starts : Char → Bool := fun c => c.isAlpha ∨ c = '_'
  let continues : Char → Bool := fun c => c.isAlphanum ∨ c = '_'
  ((Pattern.seq (.one starts) (.many true 1 none continues)).findAll (fun _ => false)
    text.toList).map fun m => String.ofList m.taken

/-- `xs[:limit]` -/
def upTo {α : Type} (limit : Int) (items : List α) : List α :=
  if 0 ≤ limit then items.take limit.toNat else items.take (items.length - (-limit).toNat)

/-- The items that `_item` makes name the symbol and the language of their chunk. -/
abbrev Item (K : Type) := RetrievalItem K (List (String × Option String))

structure RetrievalEngine (K : Type) where
  chunks : List RepositoryChunk
  embeddings : Option (List String → List (List K)) := none

variable {K : Type} [Field K] [LinearOrder K]

/-- `_item` -/
def itemOf (chunk : RepositoryChunk) (score : K) : Item K where
  itemId := chunk.chunkId
  sourceType := "repository_chunk"
  source := chunk.relativePath
  sourceLocation := s!"{chunk.relativePath}:{chunk.startLine}-{chunk.endLine}"
  content := chunk.content
  contentHash := chunk.contentHash
  score := score
  snapshotId := some chunk.snapshotId
  metadata := [("symbol", chunk.symbolName), ("language", chunk.language)]

/-- The key by which scored chunks are sorted. -/
def rankKey (ranked : K × RepositoryChunk) : K ×ₗ String ×ₗ Nat :=
  toLex (-ranked.1, toLex (ranked.2.relativePath, ranked.2.startLine))

/-- The items of scored chunks, best first. -/
def rankedItems (limit : Int) (ranked : List (K × RepositoryChunk)) : List (Item K) :=
  (upTo limit (sortOn rankKey ranked)).map fun r => itemOf r.2 r.1

section Scores

variable (lower : String → String) (log1p sqrt : K → K)

/-- The terms of a text with how often each occurs, in the order of their first occurrences. -/
def counter (text : String) : List (String × Nat) :=
  let terms := (findTerms text).map lower
  terms.eraseDups.map fun term => (term, terms.count term)

/-- What the terms of a query score in a chunk, before the length of the chunk counts. -/
def termScore (terms contentTerms : List (String × Nat)) (path symbol : String) : K :=
  (terms.map fun (term, count) =>
    (count : K) * log1p (((contentTerms.lookup term).getD 0 : Nat) : K) +
      (if term.toList <:+: path.toList then 2 else 0) +
      (if term.toList <:+: symbol.toList then 3 else 0)).sum

/-- The score of a chunk, where any term of the query is in it. -/
def keywordScore (terms : List (String × Nat)) (chunk : RepositoryChunk) :
    Option (K × RepositoryChunk) :=
  let contentTerms := counter lower chunk.content
  let score := termScore log1p terms contentTerms (lower chunk.relativePath)
    (lower (chunk.symbolName.getD ""))
  if score ≠ 0 then some (score / sqrt ((max contentTerms.length 1 : Nat) : K), chunk) else none

/-- `keyword` -/
def RetrievalEngine.keyword (engine : RetrievalEngine K) (query : String) (limit : Int) :
    Except Exn (List (Item K)) :=
  if limit < 1 then .error (.other "limit must be positive")
  else
    let terms := counter lower query
    if terms = [] then .ok []
    else .ok (rankedItems limit (engine.chunks.filterMap (keywordScore lower log1p sqrt terms)))

/-- `_cosine` -/
def cosine (left right : List K) : Except Exn K :=
  if left.length ≠ right.length ∨ left = [] then
    .error (.other "embedding vectors must have equal non-zero dimensions")
  else
    let numerator := (List.zipWith (· * ·) left right).sum
    let leftNorm := sqrt (left.map fun value => value * value).sum
    let rightNorm := sqrt (right.map fun value => value * value).sum
    .ok (if leftNorm = 0 ∨ rightNorm = 0 then 0 else numerator / (leftNorm * rightNorm))

/-- `semantic` -/
def RetrievalEngine.semantic (engine : RetrievalEngine K) (query : String) (limit : Int) :
    Except Exn (List (Item K)) :=
  match engine.embeddings with
  | none => .ok []
  | some embed =>
    match embed (query :: engine.chunks.map RepositoryChunk.content) with
    | [] => .error (.other "embedding provider returned an unexpected vector count")
    | queryVector :: vectors =>
      if vectors.length ≠ engine.chunks.length then
        .error (.other "embedding provider returned an unexpected vector count")
      else do
        let ranked ← (vectors.zip engine.chunks).mapM fun (vector, chunk) => do
          let score ← cosine sqrt queryVector vector
          return (score, chunk)
        return rankedItems limit (ranked.filter fun r => 0 < r.1)

/-- The weight of a rank. -/
def reciprocalRank (rank : Nat) : K := 1 / (60 + rank)

/-- The sums of the reciprocal ranks of the items. -/
def fuse (keyword semantic : List (Item K)) : Dict String K :=
  addRanking RetrievalItem.itemId reciprocalRank
    (addRanking RetrievalItem.itemId reciprocalRank Dict.empty keyword 1) semantic 1

/-- The number under an item. -/
def fusedScoreOf (keyword semantic : List (Item K)) (itemId : String) : K :=
  ((fuse keyword semantic).get itemId).getD 0

/-- The items by their sums, greatest first. -/
def fusedOrder (keyword semantic : List (Item K)) : List String :=
  sortOn (fun itemId => toLex (-fusedScoreOf keyword semantic itemId, itemId))
    (fuse keyword semantic).keys

/-- The item of an ID, with its sum as score; the semantic item stands for both. -/
def fusedItem (keyword semantic : List (Item K)) (itemId : String) : Except Exn (Item K) :=
  let byId := Dict.ofPairs ((keyword ++ semantic).map fun item => (item.itemId, item))
  match byId.get itemId with
  | some item => .ok { item with score := fusedScoreOf keyword semantic itemId }
  | none => .error (.other itemId)

/-- `hybrid` -/
def RetrievalEngine.hybrid (engine : RetrievalEngine K) (query : String) (limit : Int) :
    Except Exn (List (Item K)) := do
  let keyword ← engine.keyword lower log1p sqrt query (max (limit * 3) 10)
  let semantic ← engine.semantic sqrt query (max (limit * 3) 10)
  if semantic = [] then return upTo limit keyword
  (upTo limit (fusedOrder keyword semantic)).mapM (fusedItem keyword semantic)

end Scores

/-! ## What is ranked -/

/-- An engine whose embedding is a function of each text alone. -/
def engineOf (chunks : List RepositoryChunk) (embed : Option (String → List K)) :
    RetrievalEngine K := ⟨chunks, embed.map List.map⟩

/-- Chunk IDs are distinct, and so are the places at which chunks begin. -/
structure DistinctChunks (chunks : List RepositoryChunk) : Prop where
  chunkIds : (chunks.map RepositoryChunk.chunkId).Nodup
  places : (chunks.map fun chunk => (chunk.relativePath, chunk.startLine)).Nodup

/-- An item has the content, the hash, the location and the snapshot of a chunk. -/
structure Describes (item : Item K) (chunk : RepositoryChunk) : Prop where
  itemId : item.itemId = chunk.chunkId
  content : item.content = chunk.content
  contentHash : item.contentHash = chunk.contentHash
  source : item.source = chunk.relativePath
  sourceLocation :
    item.sourceLocation = s!"{chunk.relativePath}:{chunk.startLine}-{chunk.endLine}"
  snapshotId : item.snapshotId = some chunk.snapshotId

/-- Items of chunks, none twice. -/
structure RanksChunks (chunks : List RepositoryChunk) (items : List (Item K)) : Prop where
  distinct : (items.map RetrievalItem.itemId).Nodup
  provenance : ∀ item ∈ items, ∃ chunk ∈ chunks, Describes item chunk

section Ranking

variable {chunks chunks' : List RepositoryChunk} {limit : Int}
  {ranked ranked' : List (K × RepositoryChunk)}

theorem upTo_of_nonneg {α : Type} (hlimit : 0 ≤ limit) (items : List α) :
    upTo limit items = items.take limit.toNat := if_pos hlimit

omit [Field K] [LinearOrder K] in
theorem describes_itemOf (chunk : RepositoryChunk) (score : K) :
    Describes (itemOf chunk score) chunk := ⟨rfl, rfl, rfl, rfl, rfl, rfl⟩

omit [Field K] [LinearOrder K] in
theorem RanksChunks.take {items : List (Item K)} (h : RanksChunks chunks items) (n : Nat) :
    RanksChunks chunks (items.take n) where
  distinct := by
    rw [List.map_take]
    exact h.distinct.sublist (List.take_sublist n _)
  provenance item hitem := h.provenance item (List.mem_of_mem_take hitem)

theorem rankedItems_ranks (hdistinct : DistinctChunks chunks)
    (hsub : (ranked.map Prod.snd).Sublist chunks) (hlimit : 0 ≤ limit) :
    RanksChunks chunks (rankedItems limit ranked) := by
  have hperm := sortOn_perm rankKey ranked
  unfold rankedItems
  rw [upTo_of_nonneg hlimit]
  constructor
  · have hids : (ranked.map fun r => r.2.chunkId).Nodup := by
      have hmap := hdistinct.chunkIds.sublist (hsub.map RepositoryChunk.chunkId)
      rwa [List.map_map] at hmap
    have hsorted := ((hperm.map fun r => r.2.chunkId).nodup_iff).mpr hids
    rw [List.map_map]
    exact hsorted.sublist ((List.take_sublist _ _).map _)
  · intro item hitem
    obtain ⟨r, hr, rfl⟩ := List.mem_map.mp hitem
    have hmem := hperm.mem_iff.mp (List.mem_of_mem_take hr)
    exact ⟨r.2, hsub.subset (List.mem_map_of_mem hmem), describes_itemOf r.2 r.1⟩

/-- The items do not depend on the order in which the chunks were scored. -/
theorem rankedItems_eq_of_perm [IsStrictOrderedRing K] (hdistinct : DistinctChunks chunks)
    (hsub : (ranked.map Prod.snd).Sublist chunks) (hperm : ranked.Perm ranked') :
    rankedItems limit ranked = rankedItems limit ranked' := by
  unfold rankedItems
  rw [sortOn_eq_of_perm rankKey hperm]
  intro r hr s hs hkey
  obtain ⟨hscore, hplace⟩ := Prod.mk.inj (toLex.injective hkey)
  have hchunk : r.2 = s.2 := List.inj_on_of_nodup_map hdistinct.places
    (hsub.subset (List.mem_map_of_mem hr)) (hsub.subset (List.mem_map_of_mem hs))
    (toLex.injective hplace)
  exact Prod.ext (neg_injective hscore) hchunk

end Ranking

/-! ## The two rankings -/

section Rankings

variable {lower : String → String} {log1p sqrt : K → K} {chunks chunks' : List RepositoryChunk}
  {embed : Option (String → List K)} {query : String} {limit : Int} {items : List (Item K)}

theorem keywordScore_sublist (terms : List (String × Nat)) (chunks : List RepositoryChunk) :
    ((chunks.filterMap (keywordScore lower log1p sqrt terms)).map Prod.snd).Sublist chunks := by
  induction chunks with
  | nil => exact List.nil_sublist _
  | cons chunk chunks ih =>
    by_cases hscore : termScore log1p terms (counter lower chunk.content)
        (lower chunk.relativePath) (lower (chunk.symbolName.getD "")) ≠ 0
    · simpa [keywordScore, hscore] using ih
    · rw [not_not] at hscore
      simpa [keywordScore, hscore] using ih.cons chunk

theorem keyword_ranks (hdistinct : DistinctChunks chunks)
    (h : (engineOf chunks embed).keyword lower log1p sqrt query limit = .ok items) :
    RanksChunks chunks items := by
  unfold RetrievalEngine.keyword at h
  by_cases hlimit : limit < 1
  · rw [if_pos hlimit] at h
    cases h
  · rw [if_neg hlimit] at h
    dsimp only at h
    split at h
    · rw [← Except.ok.inj h]
      exact ⟨List.nodup_nil, fun item hitem => absurd hitem List.not_mem_nil⟩
    · rw [← Except.ok.inj h]
      exact rankedItems_ranks hdistinct (keywordScore_sublist _ chunks) (by omega)

theorem keyword_perm [IsStrictOrderedRing K] (hdistinct : DistinctChunks chunks)
    (hperm : chunks.Perm chunks') :
    (engineOf chunks embed).keyword lower log1p sqrt query limit =
      (engineOf chunks' embed).keyword lower log1p sqrt query limit := by
  unfold RetrievalEngine.keyword engineOf
  dsimp only
  rw [rankedItems_eq_of_perm hdistinct (keywordScore_sublist _ chunks) (hperm.filterMap _)]

/-- Where one error is all that an element can raise, it is raised if any element raises it. -/
theorem mapM_if {α β ε : Type} {f : α → Except ε β} {bad : α → Prop} [DecidablePred bad]
    {e : ε} {g : α → β} (h : ∀ a, f a = if bad a then .error e else .ok (g a)) (l : List α) :
    l.mapM f = if ∃ a ∈ l, bad a then .error e else .ok (l.map g) := by
  induction l with
  | nil =>
    rw [if_neg (by simp)]
    rfl
  | cons a l ih =>
    rw [List.mapM_cons, ih, h a]
    by_cases ha : bad a
    · have hsome : ∃ b ∈ a :: l, bad b := ⟨a, List.mem_cons_self, ha⟩
      rw [if_pos ha, if_pos hsome]
      rfl
    · by_cases hl : ∃ a ∈ l, bad a
      · simp only [List.mem_cons, exists_eq_or_imp, ha, hl, if_false, if_true, or_true]
        rfl
      · simp only [List.mem_cons, exists_eq_or_imp, ha, hl, if_false, or_self, List.map_cons]
        rfl

/-- What `_cosine` gives for vectors that can be compared. -/
def similarity (sqrt : K → K) (left right : List K) : K :=
  let leftNorm := sqrt (left.map fun value => value * value).sum
  let rightNorm := sqrt (right.map fun value => value * value).sum
  if leftNorm = 0 ∨ rightNorm = 0 then 0
  else (List.zipWith (· * ·) left right).sum / (leftNorm * rightNorm)

def dimensionsError : Exn := .other "embedding vectors must have equal non-zero dimensions"

/-- The vectors of a query and of a text have one dimension, and have any. -/
def Comparable (embed : String → List K) (query : String) (chunk : RepositoryChunk) : Prop :=
  (embed query).length = (embed chunk.content).length ∧ embed query ≠ []

instance (embed : String → List K) (query : String) (chunk : RepositoryChunk) :
    Decidable (Comparable embed query chunk) :=
  inferInstanceAs (Decidable (_ ∧ _))

/-- The chunks that are similar to a query. -/
def similarChunks (sqrt : K → K) (embed : String → List K) (query : String)
    (chunks : List RepositoryChunk) : List (K × RepositoryChunk) :=
  (chunks.map fun chunk => (similarity sqrt (embed query) (embed chunk.content), chunk)).filter
    fun r => 0 < r.1

theorem similarChunks_sublist (embed : String → List K) (query : String)
    (chunks : List RepositoryChunk) :
    ((similarChunks sqrt embed query chunks).map Prod.snd).Sublist chunks := by
  have hsub := (List.filter_sublist (p := fun r : K × RepositoryChunk => decide (0 < r.1))
    (l := chunks.map fun chunk =>
      (similarity sqrt (embed query) (embed chunk.content), chunk))).map Prod.snd
  have hchunks : (chunks.map fun chunk =>
      (similarity sqrt (embed query) (embed chunk.content), chunk)).map Prod.snd = chunks := by
    rw [List.map_map]
    exact List.map_id chunks
  rwa [hchunks] at hsub

theorem semantic_eq (embed : String → List K) :
    (engineOf chunks (some embed)).semantic sqrt query limit =
      if ∃ chunk ∈ chunks, ¬ Comparable embed query chunk then .error dimensionsError
      else .ok (rankedItems limit (similarChunks sqrt embed query chunks)) := by
  have hzip : ((chunks.map RepositoryChunk.content).map embed).zip chunks =
      chunks.map fun chunk => (embed chunk.content, chunk) := by
    rw [List.map_map, List.zip_map_left, List.zip_eq_zipWith, List.zipWith_self, List.map_map]
    rfl
  have hcosine (chunk : RepositoryChunk) :
      (do
        let score ← cosine sqrt (embed query) (embed chunk.content)
        return (score, chunk) : Except Exn (K × RepositoryChunk)) =
      if ¬ Comparable embed query chunk then .error dimensionsError
      else .ok (similarity sqrt (embed query) (embed chunk.content), chunk) := by
    by_cases hcomparable : Comparable embed query chunk
    · obtain ⟨hlength, hne⟩ := hcomparable
      have hgood : ¬ ((embed query).length ≠ (embed chunk.content).length ∨ embed query = []) := by
        tauto
      rw [if_neg (not_not.mpr ⟨hlength, hne⟩), cosine, if_neg hgood]
      rfl
    · have hbad : (embed query).length ≠ (embed chunk.content).length ∨ embed query = [] := by
        unfold Comparable at hcomparable
        tauto
      rw [if_pos hcomparable, cosine, if_pos hbad]
      rfl
  unfold RetrievalEngine.semantic engineOf
  simp only [Option.map_some, List.map_cons, List.length_map, ne_eq, not_true_eq_false, if_false]
  rw [hzip, List.mapM_map]
  simp only [Function.comp_def]
  rw [mapM_if hcosine]
  by_cases hbad : ∃ chunk ∈ chunks, ¬ Comparable embed query chunk
  · rw [if_pos hbad, if_pos hbad]
    rfl
  · rw [if_neg hbad, if_neg hbad]
    rfl

theorem semantic_ranks (hdistinct : DistinctChunks chunks) (hlimit : 0 ≤ limit)
    (h : (engineOf chunks embed).semantic sqrt query limit = .ok items) :
    RanksChunks chunks items := by
  cases embed with
  | none =>
    rw [← Except.ok.inj h]
    exact ⟨List.nodup_nil, fun item hitem => absurd hitem List.not_mem_nil⟩
  | some embed =>
    rw [semantic_eq] at h
    split at h
    · cases h
    · rw [← Except.ok.inj h]
      exact rankedItems_ranks hdistinct (similarChunks_sublist embed query chunks) hlimit

theorem semantic_perm [IsStrictOrderedRing K] (hdistinct : DistinctChunks chunks)
    (hperm : chunks.Perm chunks') :
    (engineOf chunks embed).semantic sqrt query limit =
      (engineOf chunks' embed).semantic sqrt query limit := by
  cases embed with
  | none => rfl
  | some embed =>
    have hranked : (similarChunks sqrt embed query chunks).Perm
        (similarChunks sqrt embed query chunks') := (hperm.map _).filter _
    rw [semantic_eq, semantic_eq,
      rankedItems_eq_of_perm hdistinct (similarChunks_sublist embed query chunks) hranked]
    apply if_congr _ rfl rfl
    simp only [hperm.mem_iff]

end Rankings

/-! ## Their fusion -/

section Hybrid

def idsOf (items : List (Item K)) : List String := items.map RetrievalItem.itemId

/-- One item stands before another in both rankings, or in one of them where the other ranking
has only the first. -/
def Dominates (a b : String) (keyword semantic : List (Item K)) : Prop :=
  (Precedes a b (idsOf keyword) ∧ Precedes a b (idsOf semantic)) ∨
    (a ∈ idsOf keyword ∧ b ∉ idsOf keyword ∧ Precedes a b (idsOf semantic)) ∨
    (a ∈ idsOf semantic ∧ b ∉ idsOf semantic ∧ Precedes a b (idsOf keyword))

/-- What the result has of the chunks and of the two rankings. -/
structure Fuses (chunks : List RepositoryChunk) (limit : Int)
    (keyword semantic result : List (Item K)) : Prop extends RanksChunks chunks result where
  bounded : result.length ≤ limit
  dominance : ∀ a b, Dominates a b keyword semantic → b ∈ idsOf result →
    Precedes a b (idsOf result)

variable {chunks chunks' : List RepositoryChunk} {keyword semantic : List (Item K)}
  {a b : String} {limit : Int}

omit [Field K] [LinearOrder K] in
/-- Wherever the dominated item is ranked, the other stands before it. -/
theorem Dominates.precedes (h : Dominates a b keyword semantic) :
    ∀ ids ∈ [idsOf keyword, idsOf semantic], b ∈ ids → Precedes a b ids := by
  intro ids hids hb
  rw [List.mem_cons, List.mem_singleton] at hids
  obtain ⟨hkeyword, hsemantic⟩ | ⟨-, hnot, hsemantic⟩ | ⟨-, hnot, hkeyword⟩ := h
  · obtain rfl | rfl := hids
    · exact hkeyword
    · exact hsemantic
  · obtain rfl | rfl := hids
    · exact absurd hb hnot
    · exact hsemantic
  · obtain rfl | rfl := hids
    · exact hkeyword
    · exact absurd hb hnot

omit [LinearOrder K] in
theorem mem_keys_fuse : a ∈ (fuse keyword semantic).keys ↔
    ∃ ids ∈ [idsOf keyword, idsOf semantic], a ∈ ids := by
  unfold fuse
  rw [mem_keys_addRanking, mem_keys_addRanking]
  simp [Dict.mem_keys, idsOf]

omit [LinearOrder K] in
/-- The sum of an item is that of its reciprocal ranks. -/
theorem fusedScoreOf_eq (hkeyword : (idsOf keyword).Nodup) (hsemantic : (idsOf semantic).Nodup)
    (itemId : String) : fusedScoreOf keyword semantic itemId =
      fusedScore reciprocalRank [idsOf keyword, idsOf semantic] itemId := by
  unfold fusedScoreOf fuse
  rw [getD_addRanking itemId hsemantic, getD_addRanking itemId hkeyword]
  simp [fusedScore, contribution, idsOf]

theorem mem_fusedOrder : a ∈ fusedOrder keyword semantic ↔ a ∈ (fuse keyword semantic).keys :=
  (sortOn_perm _ _).mem_iff

theorem nodup_fusedOrder (keyword semantic : List (Item K)) :
    (fusedOrder keyword semantic).Nodup :=
  (sortOn_perm _ _).nodup_iff.mpr (fuse keyword semantic).nodup_keys

omit [LinearOrder K] in
/-- Each key of the sums has an item, which describes a chunk. -/
theorem exists_fusedItem (hkeyword : RanksChunks chunks keyword)
    (hsemantic : RanksChunks chunks semantic) (h : a ∈ (fuse keyword semantic).keys) :
    ∃ item, fusedItem keyword semantic a = .ok item ∧ item.itemId = a ∧
      ∃ chunk ∈ chunks, Describes item chunk := by
  have hpairs : ((keyword ++ semantic).map fun item => (item.itemId, item)).map Prod.fst =
      idsOf keyword ++ idsOf semantic := by
    unfold idsOf
    rw [List.map_map, ← List.map_append]
    rfl
  have hkey : a ∈ (Dict.ofPairs ((keyword ++ semantic).map fun item =>
      (item.itemId, item))).keys := by
    rw [Dict.mem_keys_ofPairs, hpairs, List.mem_append]
    simpa using mem_keys_fuse.mp h
  obtain ⟨item, hget⟩ := Dict.mem_keys.mp hkey
  have hitem : fusedItem keyword semantic a =
      .ok { item with score := fusedScoreOf keyword semantic a } := by
    rw [fusedItem, hget]
  rw [Dict.get_ofPairs] at hget
  obtain ⟨pair, hfind, rfl⟩ := Option.map_eq_some_iff.mp hget
  have hid := List.find?_some hfind
  rw [decide_eq_true_eq] at hid
  have hmem := List.mem_of_find?_eq_some hfind
  rw [List.mem_reverse] at hmem
  obtain ⟨item, hranked, rfl⟩ := List.mem_map.mp hmem
  have hchunk : ∃ chunk ∈ chunks, Describes item chunk := by
    rcases List.mem_append.mp hranked with hranked | hranked
    · exact hkeyword.provenance item hranked
    · exact hsemantic.provenance item hranked
  obtain ⟨chunk, hchunk, hdescribes⟩ := hchunk
  exact ⟨_, hitem, hid, chunk, hchunk, { hdescribes with }⟩

omit [Field K] [LinearOrder K] in
/-- IDs that each have an item give these items. -/
theorem exists_mapM {f : String → Except Exn (Item K)} {ids : List String}
    (h : ∀ itemId ∈ ids, ∃ item, f itemId = .ok item ∧ item.itemId = itemId ∧
      ∃ chunk ∈ chunks, Describes item chunk) :
    ∃ items, ids.mapM f = .ok items ∧ idsOf items = ids ∧
      ∀ item ∈ items, ∃ chunk ∈ chunks, Describes item chunk := by
  induction ids with
  | nil => exact ⟨[], rfl, rfl, fun item hitem => absurd hitem List.not_mem_nil⟩
  | cons itemId ids ih =>
    obtain ⟨item, hitem, hid, hchunk⟩ := h itemId List.mem_cons_self
    obtain ⟨items, hitems, hids, hchunks⟩ := ih fun i hi => h i (List.mem_cons_of_mem itemId hi)
    refine ⟨item :: items, ?_, ?_, ?_⟩
    · rw [List.mapM_cons, hitem, hitems]
      rfl
    · rw [idsOf, List.map_cons, hid]
      exact congrArg (itemId :: ·) hids
    · intro i hi
      obtain rfl | hi := List.mem_cons.mp hi
      · exact hchunk
      · exact hchunks i hi

omit [Field K] [LinearOrder K] in
/-- The beginning of the keyword ranking keeps the order of two items. -/
theorem fuses_take (hlimit : 0 ≤ limit) (h : RanksChunks chunks keyword) :
    Fuses chunks limit keyword semantic (keyword.take limit.toNat) where
  toRanksChunks := h.take limit.toNat
  bounded := by
    have hlength := List.length_take_le limit.toNat keyword
    omega
  dominance a b h hb := by
    unfold idsOf at *
    rw [List.map_take] at *
    exact (h.precedes _ List.mem_cons_self (List.mem_of_mem_take hb)).take hb

variable [IsStrictOrderedRing K]

theorem reciprocalRank_nonneg (rank : Nat) : (0 : K) ≤ reciprocalRank rank := by
  unfold reciprocalRank
  positivity

theorem reciprocalRank_lt (r s : Nat) (h : r < s) : (reciprocalRank s : K) < reciprocalRank r := by
  have hcast : (r : K) < s := Nat.cast_lt.mpr h
  have hpos : (0 : K) < 60 + r := by positivity
  unfold reciprocalRank
  apply one_div_lt_one_div_of_lt hpos
  linarith

/-- The sums keep the order of two items in which every ranking has them. -/
theorem precedes_fusedOrder (hkeyword : (idsOf keyword).Nodup)
    (hsemantic : (idsOf semantic).Nodup) (h : Dominates a b keyword semantic)
    (hb : b ∈ fusedOrder keyword semantic) : Precedes a b (fusedOrder keyword semantic) := by
  have hranked := mem_keys_fuse.mp (mem_fusedOrder.mp hb)
  have ha : a ∈ fusedOrder keyword semantic := by
    obtain ⟨ids, hids, hmem⟩ := hranked
    exact mem_fusedOrder.mpr (mem_keys_fuse.mpr ⟨ids, hids, (h.precedes ids hids hmem).mem_left⟩)
  have hlt : fusedScore (reciprocalRank : Nat → K) [idsOf keyword, idsOf semantic] b <
      fusedScore reciprocalRank [idsOf keyword, idsOf semantic] a :=
    fusedScore_lt reciprocalRank_lt reciprocalRank_nonneg h.precedes hranked
  rw [← fusedScoreOf_eq hkeyword hsemantic, ← fusedScoreOf_eq hkeyword hsemantic] at hlt
  exact precedes_of_lt (sortOn_pairwise _ _) ha hb (Prod.Lex.left _ _ (neg_lt_neg hlt))

/-- The items of the greatest sums are what the two rankings fuse to. -/
theorem exists_fused (hlimit : 0 ≤ limit) (hkeyword : RanksChunks chunks keyword)
    (hsemantic : RanksChunks chunks semantic) :
    ∃ result, ((fusedOrder keyword semantic).take limit.toNat).mapM (fusedItem keyword semantic) =
      .ok result ∧ Fuses chunks limit keyword semantic result := by
  have hitems : ∀ itemId ∈ (fusedOrder keyword semantic).take limit.toNat,
      ∃ item, fusedItem keyword semantic itemId = .ok item ∧ item.itemId = itemId ∧
        ∃ chunk ∈ chunks, Describes item chunk := fun itemId hid =>
    exists_fusedItem hkeyword hsemantic (mem_fusedOrder.mp (List.mem_of_mem_take hid))
  obtain ⟨result, hresult, hids, hprovenance⟩ := exists_mapM hitems
  have hlength := congrArg List.length hids
  rw [idsOf, List.length_map] at hlength
  have htake := List.length_take_le limit.toNat (fusedOrder keyword semantic)
  refine ⟨result, hresult, ⟨?_, hprovenance⟩, by omega, ?_⟩
  · change (idsOf result).Nodup
    rw [hids]
    exact (nodup_fusedOrder keyword semantic).sublist (List.take_sublist _ _)
  · intro a b h hb
    rw [hids] at hb ⊢
    exact (precedes_fusedOrder hkeyword.distinct hsemantic.distinct h
      (List.mem_of_mem_take hb)).take hb

variable {lower : String → String} {log1p sqrt : K → K} {embed : Option (String → List K)}
  {query : String}

/-- What hybrid retrieval makes of two rankings. -/
theorem hybrid_of_rankings (hdistinct : DistinctChunks chunks) (hlimit : 0 ≤ limit)
    (hkeyword : (engineOf chunks embed).keyword lower log1p sqrt query (max (limit * 3) 10) =
      .ok keyword)
    (hsemantic : (engineOf chunks embed).semantic sqrt query (max (limit * 3) 10) =
      .ok semantic) :
    ∃ result, (engineOf chunks embed).hybrid lower log1p sqrt query limit = .ok result ∧
      Fuses chunks limit keyword semantic result := by
  have hranksKeyword := keyword_ranks hdistinct hkeyword
  have hranksSemantic := semantic_ranks hdistinct (by omega) hsemantic
  unfold RetrievalEngine.hybrid
  rw [hkeyword, hsemantic]
  dsimp only [bind, Except.bind]
  by_cases hempty : semantic = []
  · rw [if_pos hempty, upTo_of_nonneg hlimit]
    exact ⟨_, rfl, fuses_take hlimit hranksKeyword⟩
  · rw [if_neg hempty, upTo_of_nonneg hlimit]
    exact exists_fused hlimit hranksKeyword hranksSemantic

omit [IsStrictOrderedRing K] in
/-- A positive limit is accepted by the keyword ranking. -/
theorem exists_keyword (engine : RetrievalEngine K) (hlimit : 1 ≤ limit) :
    ∃ items, engine.keyword lower log1p sqrt query limit = .ok items := by
  unfold RetrievalEngine.keyword
  rw [if_neg (by omega)]
  dsimp only
  split
  · exact ⟨_, rfl⟩
  · exact ⟨_, rfl⟩

omit [IsStrictOrderedRing K] in
/-- The semantic ranking is made where every chunk can be compared with the query. -/
theorem exists_semantic
    (h : ∀ embedding ∈ embed, ∀ chunk ∈ chunks, Comparable embedding query chunk) :
    ∃ items, (engineOf chunks embed).semantic sqrt query limit = .ok items := by
  cases embed with
  | none => exact ⟨_, rfl⟩
  | some embedding =>
    rw [semantic_eq, if_neg]
    · exact ⟨_, rfl⟩
    · rintro ⟨chunk, hchunk, hnot⟩
      exact hnot (h embedding rfl chunk hchunk)

end Hybrid

/-- Hybrid retrieval returns where every chunk can be compared with the query. What it returns are
so many items of distinct chunks, in an order that both rankings keep to, and it is the same for
the chunks in any order. -/
theorem hybrid_fuses [IsStrictOrderedRing K] (lower : String → String) (log1p sqrt : K → K)
    {chunks : List RepositoryChunk} (hdistinct : DistinctChunks chunks)
    (embed : Option (String → List K)) (query : String) {limit : Int} (hlimit : 1 ≤ limit) :
    ((∀ embedding ∈ embed, ∀ chunk ∈ chunks, Comparable embedding query chunk) →
      ∃ result, (engineOf chunks embed).hybrid lower log1p sqrt query limit = .ok result) ∧
    (∀ result, (engineOf chunks embed).hybrid lower log1p sqrt query limit = .ok result →
      ∃ keyword semantic,
        (engineOf chunks embed).keyword lower log1p sqrt query (max (limit * 3) 10) =
          .ok keyword ∧
        (engineOf chunks embed).semantic sqrt query (max (limit * 3) 10) = .ok semantic ∧
        Fuses chunks limit keyword semantic result) ∧
    ∀ chunks', chunks.Perm chunks' →
      (engineOf chunks' embed).hybrid lower log1p sqrt query limit =
        (engineOf chunks embed).hybrid lower log1p sqrt query limit := by
  refine ⟨fun h => ?_, fun result hresult => ?_, fun chunks' hperm => ?_⟩
  · obtain ⟨keyword, hkeyword⟩ : ∃ keyword, (engineOf chunks embed).keyword lower log1p sqrt query
        (max (limit * 3) 10) = .ok keyword := exists_keyword _ (by omega)
    obtain ⟨semantic, hsemantic⟩ : ∃ semantic, (engineOf chunks embed).semantic sqrt query
        (max (limit * 3) 10) = .ok semantic := exists_semantic h
    obtain ⟨result, hresult, -⟩ := hybrid_of_rankings hdistinct (by omega) hkeyword hsemantic
    exact ⟨result, hresult⟩
  · have hbind := hresult
    unfold RetrievalEngine.hybrid at hbind
    obtain ⟨keyword, hkeyword, hbind⟩ := of_bind_ok hbind
    obtain ⟨semantic, hsemantic, -⟩ := of_bind_ok hbind
    obtain ⟨result', hresult', hfuses⟩ :=
      hybrid_of_rankings hdistinct (by omega) hkeyword hsemantic
    obtain rfl := Except.ok.inj (hresult.symm.trans hresult')
    exact ⟨keyword, semantic, hkeyword, hsemantic, hfuses⟩
  · unfold RetrievalEngine.hybrid
    rw [keyword_perm hdistinct hperm, semantic_perm hdistinct hperm]

/-- The chunks of a file and of a note. -/
def retryChunks : List RepositoryChunk :=
  [{ chunkId := "retry", fileId := "f1", snapshotId := "s1", relativePath := "service/retry.py"
     content := "configure retry limit attempts", contentHash := "a", startLine := 2, endLine := 5
     symbolName := some "RetryPolicy" },
    { chunkId := "docs", fileId := "f2", snapshotId := "s1", relativePath := "README.md"
      content := "service documentation and examples", contentHash := "b", startLine := 1
      endLine := 3 }]

/-- Two chunks are retrieved, whichever is given first. -/
theorem hybrid_fuses_retry :
    (∃ result, (engineOf retryChunks (some fun text => [(text.length : ℝ), 1])).hybrid
      String.toLower (fun x => Real.log (1 + x)) Real.sqrt "retry attempts" 10 = .ok result) ∧
    (engineOf retryChunks.reverse (some fun text => [(text.length : ℝ), 1])).hybrid
        String.toLower (fun x => Real.log (1 + x)) Real.sqrt "retry attempts" 10 =
      (engineOf retryChunks (some fun text => [(text.length : ℝ), 1])).hybrid
        String.toLower (fun x => Real.log (1 + x)) Real.sqrt "retry attempts" 10 := by
  have hdistinct : DistinctChunks retryChunks := ⟨by decide, by decide⟩
  obtain ⟨hreturns, -, hperm⟩ := hybrid_fuses String.toLower (fun x => Real.log (1 + x)) Real.sqrt
    hdistinct (some fun text => [(text.length : ℝ), 1]) "retry attempts"
    (by decide : (1 : Int) ≤ 10)
  refine ⟨hreturns ?_, hperm _ (List.reverse_perm _).symm⟩
  rintro embedding ⟨⟩ chunk -
  exact ⟨rfl, List.cons_ne_nil _ _⟩

end DurableAgent.Retrieval
