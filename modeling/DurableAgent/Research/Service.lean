import Mathlib.Data.Prod.Lex
import Mathlib.Data.Rat.Defs
import Mathlib.Algebra.Order.Field.Rat
import Mathlib.Data.String.Basic
import DurableAgent.Domain.Models
import DurableAgent.Library.Grouping
import DurableAgent.Library.LineSpans
import DurableAgent.Library.Ranking
import DurableAgent.Repository.Chunking
import DurableAgent.Security.Network
import DurableAgent.Security.Redaction

/-!
# Research ingestion, deduplication, facts, and conflicts

`research/service.py`. A service keeps the sources it has made under the digests of their
normalized contents; a result whose content is there already is that source. Facts are the claim
lines of the sources, grouped by key and value, and conflicts are keys with several values.
-/

namespace DurableAgent.Research

open Library Repository Security

/-! ## Texts -/

/-- What an HTML parser hands to its handlers. -/
inductive HtmlEvent where
  | startTag (tag : String)
  | endTag (tag : String)
  | data (text : String)

/-- `_TextExtractor`: the parts, and how many elements without text are open. -/
structure TextExtractor where
  parts : List String := []
  ignored : Nat := 0

namespace TextExtractor

def silentTags : List String := ["script", "style", "noscript"]

def handle (extractor : TextExtractor) : HtmlEvent → TextExtractor
  | .startTag tag =>
    if tag ∈ silentTags then { extractor with ignored := extractor.ignored + 1 }
    else if tag ∈ ["p", "br", "li", "h1", "h2", "h3", "h4", "tr"] then
      { extractor with parts := extractor.parts ++ ["\n"] }
    else extractor
  | .endTag tag =>
    if tag ∈ silentTags ∧ extractor.ignored ≠ 0 then
      { extractor with ignored := extractor.ignored - 1 }
    else if tag ∈ ["p", "li", "h1", "h2", "h3", "h4", "tr"] then
      { extractor with parts := extractor.parts ++ ["\n"] }
    else extractor
  | .data text =>
    if extractor.ignored = 0 then { extractor with parts := extractor.parts ++ [text] }
    else extractor

end TextExtractor

/-- `" ".join(text.split())` -/
def collapsed (text : List Char) : List Char :=
  [' '].intercalate ((text.splitOnP isSpace).filter fun word => word ≠ [])

/-- `text.replace("\r\n", "\n").replace("\r", "\n")` -/
def unixLines : List Char → List Char
  | [] => []
  | '\r' :: '\n' :: rest => '\n' :: unixLines rest
  | c :: rest => (if c = '\r' then '\n' else c) :: unixLines rest

/-- The lines without blank ones at the beginning and after blank ones. -/
def thinned (lines : List (List Char)) : List (List Char) :=
  lines.foldl (fun output line =>
    if line ≠ [] ∨ (output ≠ [] ∧ output.getLast? ≠ some []) then output ++ [line] else output) []

/-- `text.strip()` -/
def stripSpace (text : List Char) : List Char :=
  ((text.dropWhile isSpace).reverse.dropWhile isSpace).reverse

/-- `<html[\s>]` under `re.I` -/
def htmlPattern : Pattern Char :=
  inTurn [.one (· = '<'), anyCase "html", .one fun c => isSpace c ∨ c = '>']

/-- `_CLAIM_LINE` without what it begins and ends with -/
def claimLine : Pattern Char :=
  let spaces := Pattern.many true 0 none isSpace
  inTurn [spaces, .alt (anyCase "claim") (anyCase "fact"), spaces, .one (· = ':'), spaces,
    .group 1 (.many true 1 none fun c => c ∉ "=:\n".toList), spaces,
    .one (fun c => c = '=' ∨ c = ':'), spaces,
    .group 2 (.many false 1 none fun c => c ≠ '\n'), spaces]

/-- `^` and `$` under `re.M` -/
def atLineEdge (c : Option Char) : Bool := c.all (· = '\n')

/-- What a group of a match took. -/
def groupText (n : Nat) (m : Match Char) : List Char := (m.groups.lookup n).getD []

/-- `_INJECTION_PATTERNS`, each with its text -/
def injectionPatterns : List (String × Pattern Char) :=
  let anything (most : Nat) := Pattern.many true 0 (some most) fun c => c ≠ '\n'
  [("(?i)ignore (?:all |the )?(?:previous|prior|system) instructions",
      inTurn [anyCase "ignore ", .alt (.alt (anyCase "all ") (anyCase "the ")) .empty,
        .alt (anyCase "previous") (.alt (anyCase "prior") (anyCase "system")),
        anyCase " instructions"]),
    ("(?i)(?:system|developer) (?:message|prompt|instructions?)",
      inTurn [.alt (anyCase "system") (anyCase "developer"), anyCase " ",
        .alt (anyCase "message") (.alt (anyCase "prompt") (anyCase "instruction"))]),
    ("(?i)(?:reveal|exfiltrate|print|send).\x7b0,30\x7d(?:secret|token|password|credential)",
      inTurn [.alt (anyCase "reveal") (.alt (anyCase "exfiltrate")
          (.alt (anyCase "print") (anyCase "send"))), anything 30,
        .alt (anyCase "secret") (.alt (anyCase "token")
          (.alt (anyCase "password") (anyCase "credential")))]),
    ("(?i)(?:run|execute).\x7b0,20\x7d(?:shell|command|curl|wget)",
      inTurn [.alt (anyCase "run") (anyCase "execute"), anything 20,
        .alt (anyCase "shell") (.alt (anyCase "command")
          (.alt (anyCase "curl") (anyCase "wget")))])]

/-- `classify_untrusted(...).injection_indicators` -/
def injectionIndicators (content : String) : List String :=
  (injectionPatterns.filter fun p => p.2.search (fun _ => false) none content.toList).map Prod.fst

/-! ## Records -/

/-- A value of the metadata of a result. -/
inductive Metadatum where
  | null
  | bool (b : Bool)
  | int (n : Int)
  | float (x : ℚ)
  | text (s : String)
  | datetime (t : Timestamp)
  | other (text : String)

abbrev ProviderItem := RetrievalItem ℚ (Dict String Metadatum)

structure ResearchSource where
  sourceId : String
  url : Option String
  title : String
  normalizedContent : String
  contentHash : String
  author : Option String
  publisher : Option String
  publishedAt : Option Timestamp
  retrievedAt : Timestamp
  mediaType : String
  qualityScore : ℚ
  qualityNotes : List String
  injectionIndicators : List String

structure ResearchFact where
  factId : String
  key : String
  value : String
  sourceIds : List String
  verified : Bool := false
  agentInference : Bool := false

structure ResearchConflict where
  conflictId : String
  key : String
  values : Dict String (List String)
  explanation : String
  resolved : Bool := false

/-- What `research` returns. -/
structure Findings where
  sources : List ResearchSource
  facts : List ResearchFact
  conflicts : List ResearchConflict

/-- The checks of the model; a digest and a quality always are ones. -/
def ResearchSource.validated (source : ResearchSource) : Except Exn ResearchSource :=
  let strings := [source.sourceId, source.title, source.normalizedContent, source.contentHash,
    source.mediaType] ++ source.author.toList ++ source.publisher.toList
  if strings.any hasNul then .error (.other "NUL bytes are not allowed") else .ok source

/-! ## The service -/

/-- Identifiers that differ from all that were given out for the same kind of thing. -/
structure IdentifierGenerator (σ : Type) where
  new : σ → String → String × σ
  issued : σ → String → Set String
  fresh : ∀ s kind, (new s kind).1 ∉ issued s kind
  hasNul_new : ∀ s kind, hasNul kind = false → hasNul (new s kind).1 = false
  issued_new : ∀ s kind other, issued (new s kind).2 other =
    if other = kind then insert (new s kind).1 (issued s kind) else issued s other

/-- What a service calls. -/
structure ResearchContext (σ : Type) where
  identifiers : IdentifierGenerator σ
  now : σ → Timestamp
  /-- `HTMLParser.feed` -/
  feed : String → List HtmlEvent
  /-- `html.unescape` -/
  unescape : String → String
  lower : String → String
  repr : String → String
  /-- `str(value)` -/
  str : Metadatum → String
  sha256Digest : String → String
  urlsplit : String → Except Exn SplitResult
  urlunsplit : SplitResult → String
  /-- `HttpUrl` -/
  httpUrl : String → Except Exn String

/-- The state of what identifiers are drawn from, and `_sources_by_hash`. -/
structure ResearchService (σ : Type) where
  ids : σ
  sourcesByHash : Dict String ResearchSource

namespace ResearchContext

variable {σ : Type} (R : ResearchContext σ)

/-- `normalize` -/
def normalize (content mediaType : String) : String :=
  let isHtml := "html".toList <:+: (R.lower mediaType).toList ∨
    htmlPattern.search (fun _ => false) none content.toList
  let content := if isHtml then
      "".intercalate ((R.feed content).foldl TextExtractor.handle {}).parts
    else content
  let lines := (splitLines isLineBreak (unixLines (R.unescape content).toList)).map collapsed
  String.ofList (stripSpace (['\n'].intercalate (thinned lines)))

/-- `_canonical_url` -/
def canonicalUrl (url : String) : Except Exn String := do
  let parts ← R.urlsplit url
  return R.urlunsplit
    { parts with scheme := R.lower parts.scheme, netloc := R.lower parts.netloc, fragment := "" }

/-- `_quality` -/
def quality (item : ProviderItem) : ℚ × List String :=
  let clipped (declared : ℚ) := (max 0 (min declared 1), ["provider-declared quality"])
  match item.metadata.get "quality_score" with
  | some (.float declared) => clipped declared
  | some (.int declared) => clipped declared
  | _ =>
    if "https://".toList.isPrefixOf item.source.toList then
      (6 / 10, ["HTTPS source; authority not independently verified"])
    else (4 / 10, ["local or non-HTTPS source"])

/-- `_optional_text(item.metadata.get(name))` -/
def optionalText (item : ProviderItem) (name : String) : Option String :=
  match item.metadata.get name with
  | some .null => none
  | value => value.map R.str

def mediaTypeOf (item : ProviderItem) : String :=
  ((item.metadata.get "media_type").map R.str).getD "text/plain"

/-- The normalized content of a result. -/
def normalizedOf (item : ProviderItem) : String := R.normalize item.content (R.mediaTypeOf item)

/-- The URL of a result that has one. -/
def urlOf (item : ProviderItem) : Except Exn (Option String) :=
  if "http://".toList.isPrefixOf item.source.toList ∨
      "https://".toList.isPrefixOf item.source.toList then do
    let canonical ← R.canonicalUrl item.source
    let url ← R.httpUrl canonical
    return some url
  else .ok none

/-- The source that is made of a result. -/
def sourceOf (item : ProviderItem) (sourceId : String) (retrievedAt : Timestamp) :
    Except Exn ResearchSource := do
  let url ← R.urlOf item
  ResearchSource.validated {
    sourceId, url, retrievedAt
    title := ((item.metadata.get "title").map R.str).getD item.source
    normalizedContent := R.normalizedOf item
    contentHash := R.sha256Digest (R.normalizedOf item)
    author := R.optionalText item "author"
    publisher := R.optionalText item "publisher"
    publishedAt := match item.metadata.get "published_at" with
      | some (.datetime t) => some t
      | _ => none
    mediaType := R.mediaTypeOf item
    qualityScore := (quality item).1
    qualityNotes := (quality item).2
    injectionIndicators := injectionIndicators (R.normalizedOf item) }

/-- `ingest` -/
def ingest (service : ResearchService σ) (item : ProviderItem) :
    Except Exn ResearchSource × ResearchService σ :=
  let digest := R.sha256Digest (R.normalizedOf item)
  match service.sourcesByHash.get digest with
  | some existing => (.ok existing, service)
  | none =>
    let (sourceId, ids) := R.identifiers.new service.ids "source"
    match R.sourceOf item sourceId (R.now ids) with
    | .error e => (.error e, { service with ids })
    | .ok source => (.ok source, ⟨ids, service.sourcesByHash.set digest source⟩)

/-- The results one after the other, until one is refused. -/
def ingestAll (service : ResearchService σ) :
    List ProviderItem → Except Exn (List ResearchSource) × ResearchService σ
  | [] => (.ok [], service)
  | item :: items =>
    match R.ingest service item with
    | (.error e, service) => (.error e, service)
    | (.ok source, service) =>
      let (rest, service) := ingestAll service items
      (rest.map (source :: ·), service)

/-- The keys and values that the claim lines of a text assert. -/
def assertions (content : String) : List (String × String) :=
  (claimLine.findFrom (fun _ => false) atLineEdge atLineEdge 0 none content.toList).map fun m =>
    (String.ofList (collapsed (R.lower (String.ofList (groupText 1 m))).toList),
      String.ofList (collapsed (groupText 2 m)))

/-- What the sources assert, with the source. -/
def assertedBy (sources : List ResearchSource) : List ((String × String) × String) :=
  sources.flatMap fun source =>
    (R.assertions source.normalizedContent).map fun claim => (claim, source.sourceId)

/-- A fact for each group, in their order. -/
def factsOf : σ → List ((String × String) × List String) → List ResearchFact × σ
  | ids, [] => ([], ids)
  | ids, ((key, value), sourceIds) :: groups =>
    let (factId, ids) := R.identifiers.new ids "fact"
    let (facts, ids) := factsOf ids groups
    ({ factId, key, value, sourceIds := sortOn (fun id => id) sourceIds.dedup } :: facts, ids)

/-- `extract_facts` -/
def extractFacts (ids : σ) (sources : List ResearchSource) : List ResearchFact × σ :=
  R.factsOf ids (sortOn (fun group => toLex group.1) (Dict.group (R.assertedBy sources)).entries)

/-- The values of each key, with the sources of each value. -/
def valuesOf (facts : List ResearchFact) : Dict String (Dict String (List String)) :=
  Dict.collect (fun byValue p => byValue.set p.1 p.2) Dict.empty
    (facts.map fun fact => (fact.key, (fact.value, fact.sourceIds)))

/-- A conflict for each key, in their order. -/
def conflictsOf : σ → List (String × Dict String (List String)) → List ResearchConflict × σ
  | ids, [] => ([], ids)
  | ids, (key, byValue) :: keys =>
    let (conflictId, ids) := R.identifiers.new ids "conflict"
    let (conflicts, ids) := conflictsOf ids keys
    ({ conflictId, key, values := byValue
       explanation := s!"Sources assert {byValue.entries.length} incompatible values for " ++
        s!"{R.repr key}." } :: conflicts, ids)

/-- `detect_conflicts` -/
def detectConflicts (ids : σ) (facts : List ResearchFact) : List ResearchConflict × σ :=
  R.conflictsOf ids ((sortOn Prod.fst (valuesOf facts).entries).filter fun entry =>
    1 < entry.2.entries.length)

/-- Whether a fact is verified, given the keys in conflict. -/
def verify (conflictingKeys : List String) (fact : ResearchFact) : ResearchFact :=
  { fact with verified := 1 < fact.sourceIds.length ∧ fact.key ∉ conflictingKeys }

/-- `research`, given what the provider found -/
def research (service : ResearchService σ) (items : List ProviderItem) :
    Except Exn Findings × ResearchService σ :=
  match R.ingestAll service items with
  | (.error e, service) => (.error e, service)
  | (.ok sources, service) =>
    let unique := (Dict.ofPairs (sources.map fun source => (source.sourceId, source))).values
    let (facts, ids) := R.extractFacts service.ids unique
    let (conflicts, ids) := R.detectConflicts ids facts
    let conflictingKeys := conflicts.map ResearchConflict.key
    (.ok ⟨unique, facts.map (verify conflictingKeys), conflicts⟩, { service with ids })

/-- The states of a service: identifiers are drawn by others too. -/
inductive Reachable : ResearchService σ → Prop where
  | new (ids : σ) : Reachable ⟨ids, Dict.empty⟩
  | draw {service : ResearchService σ} (kind : String) (h : Reachable service) :
    Reachable { service with ids := (R.identifiers.new service.ids kind).2 }
  | ingest {service : ResearchService σ} (item : ProviderItem) (h : Reachable service) :
    Reachable (R.ingest service item).2
  | research {service : ResearchService σ} (items : List ProviderItem) (h : Reachable service) :
    Reachable (R.research service items).2

end ResearchContext

end DurableAgent.Research
