import DurableAgent.Library.LineSpans
import DurableAgent.Library.Ranges
import DurableAgent.Repository.Indexer
import Mathlib.Data.Prod.Lex
import Mathlib.Data.String.Basic

/-!
# Chunks of a file

`LocalRepositoryIndexer._chunks_for`: one chunk for each definition at the top level of a Python
module, and chunks of a bounded length for what lies between them.
-/

namespace DurableAgent.Repository

open Library

/-- Line-addressable repository content with provenance. -/
structure RepositoryChunk where
  chunkId : String
  fileId : String
  snapshotId : String
  relativePath : String
  content : String
  contentHash : String
  startLine : Nat
  endLine : Nat
  symbolName : Option String := none
  language : Option String := none
  imports : List String := []
  deriving DecidableEq

/-- A statement at the top level of a module. -/
inductive TopLevel where
  /-- `FunctionDef`, `AsyncFunctionDef` or `ClassDef` -/
  | definition (name : String) (lineno endLineno : Nat)
  | imports (names : List String)
  | importFrom (module : Option String)
  | other

/-- What `ast.parse` comes to. -/
inductive Parsed where
  | tree (body : List TopLevel)
  | syntaxError
  | raised (e : Exn)

/-- The characters at which `str.splitlines` splits. -/
def isLineBreak (c : Char) : Bool :=
  (10 ≤ c.toNat ∧ c.toNat ≤ 13) ∨ (28 ≤ c.toNat ∧ c.toNat ≤ 30) ∨ c.toNat = 0x85 ∨
    c.toNat = 0x2028 ∨ c.toNat = 0x2029

/-- The line ends that the parser counts. -/
def endsParsedLine (c : Char) : Bool := c = '\n' ∨ c = '\r'

/-- The lines of a file, at least one. -/
def fileLines (text : String) : List (List Char) :=
  let lines := splitLines isLineBreak text.toList
  if lines = [] then [[]] else lines

/-- The definitions at the top level, with their lines. -/
def symbolsOf (body : List TopLevel) : List (LineRange String) :=
  body.filterMap fun
    | .definition name lineno endLineno => some ⟨name, lineno, endLineno⟩
    | _ => none

/-- The sorted names of what is imported. -/
def importsOf (body : List TopLevel) : List String :=
  let names := body.flatMap fun
    | .imports names => names
    | .importFrom (some module) => if module = "" then [] else [module]
    | _ => []
  names.dedup.insertionSort (· ≤ ·)

/-- The lines that no definition covers. -/
def uncovered (count : Nat) (symbols : List (LineRange String)) : List Nat :=
  (List.range' 1 count).filter fun line =>
    ¬ symbols.any fun symbol => symbol.first ≤ line ∧ line ≤ min symbol.last count

/-- The range that has come from `start` to `last`, and those of the lines after it. -/
def gapsFrom (chunkLines : Nat) (start last : Nat) : List Nat → List (LineRange String)
  | [] => [⟨"", start, last⟩]
  | line :: rest =>
    if line = last + 1 ∧ last - start + 1 < chunkLines then gapsFrom chunkLines start line rest
    else ⟨"", start, last⟩ :: gapsFrom chunkLines line line rest

/-- The ranges of the lines that no definition covers. -/
def gaps (chunkLines : Nat) : List Nat → List (LineRange String)
  | [] => []
  | line :: rest => gapsFrom chunkLines line line rest

/-- The ranges of a file without definitions. -/
def blocks (chunkLines count : Nat) : List (LineRange String) :=
  (List.range' 1 ((count + chunkLines - 1) / chunkLines) chunkLines).map fun start =>
    ⟨"", start, min (start + chunkLines - 1) count⟩

/-- The key that the ranges are sorted by. -/
def rangeKey (r : LineRange String) : ℕ ×ₗ ℕ ×ₗ String := toLex (r.first, toLex (r.last, r.label))

/-- The ranges of a file in their order. -/
def chunkRanges (chunkLines count : Nat) (symbols : List (LineRange String)) :
    List (LineRange String) :=
  let ranges :=
    if symbols ≠ [] then symbols ++ gaps chunkLines (uncovered count symbols)
    else blocks chunkLines count
  ranges.insertionSort fun a b => rangeKey a ≤ rangeKey b

/-- What `_chunks_for` reads of a file. -/
structure TypedFile where
  fileId : String
  relativePath : String
  language : Option String := none

/-- `DomainModel.reject_nul_strings` -/
def hasNul (text : String) : Bool := Char.ofNat 0 ∈ text.toList

namespace RepositoryChunk

/-- The strings of a chunk, each a field of its own. -/
def strings (chunk : RepositoryChunk) : List String :=
  [chunk.chunkId, chunk.fileId, chunk.snapshotId, chunk.relativePath, chunk.content,
    chunk.contentHash] ++ chunk.symbolName.toList ++ chunk.language.toList

/-- The checks of the model; a digest always is one. -/
def validated (chunk : RepositoryChunk) : Except Exn RepositoryChunk :=
  if chunk.strings.any hasNul then .error (.other "NUL bytes are not allowed")
  else if chunk.startLine < 1 ∨ chunk.endLine < 1 then
    .error (.other "Input should be greater than or equal to 1")
  else if chunk.endLine < chunk.startLine then
    .error (.other "end_line must be at or after start_line")
  else .ok chunk

end RepositoryChunk

/-- The indexer with what it reads the contents of a file with. -/
structure ContentIndexer extends LocalRepositoryIndexer where
  chunkLines : Nat := 80
  /-- `ast.parse` -/
  parse : String → Parsed
  chunkLines_pos : 0 < chunkLines := by decide

namespace ContentIndexer

variable (C : ContentIndexer)

/-- What is between the fields of a chunk's name. -/
def chunkName (snapshotId relative : String) (start last : Nat) : String :=
  s!"{snapshotId}:{relative}:{start}:{last}"

/-- The part of a digest that identifiers are made of. -/
def shortDigest (text : String) : String :=
  String.ofList ((C.sha256Digest text).toList.take 24)

/-- `_stable_chunk_id` -/
def stableChunkId (snapshotId relative : String) (start last : Nat) : String :=
  "chunk-" ++ C.shortDigest (chunkName snapshotId relative start last)

/-- The texts of some lines, joined by line feeds. -/
def joined (lines : List (List Char)) : String := String.ofList (['\n'].intercalate lines)

/-- The chunk of a range, before it is checked. -/
def chunkOf (file : TypedFile) (lines : List (List Char)) (imports : List String)
    (snapshotId : String) (r : LineRange String) : RepositoryChunk :=
  let content := joined (r.slice lines)
  { chunkId := C.stableChunkId snapshotId file.relativePath r.first r.last
    fileId := file.fileId, snapshotId, relativePath := file.relativePath, content
    contentHash := C.sha256Digest content, startLine := r.first, endLine := r.last
    symbolName := if r.label = "" then none else some r.label
    language := file.language, imports }

/-- What is at the top level of a file, if it is one of Python. -/
def bodyOf (file : TypedFile) (text : String) : Except Exn (List TopLevel) :=
  if file.language = some "python" then
    match C.parse text with
    | .tree body => .ok body
    | .syntaxError => .ok []
    | .raised e => .error e
  else .ok []

/-- `_chunks_for`: the chunks, the symbols and the imports. -/
def chunksFor (file : TypedFile) (text snapshotId : String) :
    Except Exn (List RepositoryChunk × List String × List String) := do
  let lines := fileLines text
  let body ← C.bodyOf file text
  let symbols := symbolsOf body
  let imports := importsOf body
  let chunks ← (chunkRanges C.chunkLines lines.length symbols).mapM fun r =>
    (C.chunkOf file lines imports snapshotId r).validated
  .ok (chunks, symbols.map LineRange.label, imports)

end ContentIndexer

end DurableAgent.Repository
