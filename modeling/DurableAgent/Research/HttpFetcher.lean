import DurableAgent.Domain.Models
import DurableAgent.Security.Network

/-!
# Bounded HTTP document fetching

`HttpDocumentFetcher.fetch` against any resolver and any server. Whatever they answer, the fetcher
issues one request more than it may follow redirects at most, each just after the URL was accepted,
and what it returns is a body within its limit.
-/

namespace DurableAgent.Research

open Library Security

/-- Why a request or the reading of its body ends. -/
inductive Fault where
  | timeout
  | network
  | raised (e : Exn)

/-- What the fetcher reads of a response. -/
structure Response where
  statusCode : Nat
  location : Option String := none
  contentType : Option String := none
  contentLength : Option String := none
  encoding : Option String := none
  /-- What `aiter_bytes` gives, and what it raises behind it. -/
  chunks : List (List UInt8) := []
  fault : Option Fault := none

/-- What the fetcher calls from outside. -/
inductive FetchOp : Type → Type where
  | lookup (hostname : String) (port : Nat) : FetchOp (Option (List SocketAddress))
  /-- `client.stream("GET", url)` -/
  | request (url : String) : FetchOp (Except Fault Response)
  | newId (kind : String) : FetchOp String
  | now : FetchOp Timestamp

def FetchOp.ofNetwork : (δ : Type) → NetworkOp δ → FetchOp δ
  | _, .lookup hostname port => .lookup hostname port

structure WebMetadata where
  mediaType : String
  retrievedAt : Timestamp
  statusCode : Nat

structure HttpDocumentFetcher extends UrlChecks where
  enabled : Bool
  maximumBytes : Nat := 2000000
  maximumRedirects : Nat := 3
  urljoin : String → String → Except Exn String
  /-- `int(text)` -/
  parseInt : String → Option Int
  decode : List UInt8 → String → Except Exn String
  sha256Digest : List UInt8 → String
  maximumBytes_pos : 1 ≤ maximumBytes := by decide

def Fault.handled : Fault → Exn
  | .timeout => .of .providerRetryable "HTTP source request timed out"
  | .network => .of .providerRetryable "HTTP source network failure"
  | .raised e => e

def sizeError : Exn := refused "HTTP document exceeds configured size limit"

def redirectError : Exn := refused "HTTP redirect limit exceeded"

/-- `_supported_media_type` -/
def supportedMediaType (mediaType : String) : Bool :=
  "text/".toList.isPrefixOf mediaType.toList ∨
    mediaType ∈ ["application/json", "application/xml", "application/xhtml+xml"]

/-- `media_type` is the part before the parameters. -/
def mediaTypeOf (response : Response) : String :=
  String.ofList ((response.contentType.getD "text/plain").toList.takeWhile (· ≠ ';'))

/-- The chunks are collected until there are too many bytes. -/
def readBody (maximumBytes : Nat) (fault : Option Fault) :
    List (List UInt8) → List UInt8 → Except Exn (List UInt8)
  | [], body => match fault with
    | none => .ok body
    | some fault => .error fault.handled
  | chunk :: chunks, body =>
    if maximumBytes < (body ++ chunk).length then .error sizeError
    else readBody maximumBytes fault chunks (body ++ chunk)

/-- A declared length is a number within the limit. -/
def checkLength (parseInt : String → Option Int) (maximumBytes : Nat) :
    Option String → Except Exn Unit
  | none => .ok ()
  | some declared => match parseInt declared with
    | none => .error (refused "HTTP source returned an invalid content length")
    | some size => if size < 0 ∨ (maximumBytes : Int) < size then .error sizeError else .ok ()

namespace HttpDocumentFetcher

variable (F : HttpDocumentFetcher)

/-- The body and the content of a response that is no redirect. -/
def readDocument (response : Response) : Except Exn (List UInt8 × String) := do
  if response.statusCode = 429 ∨ 500 ≤ response.statusCode then
    .error (.of .providerRetryable s!"HTTP source returned {response.statusCode}")
  else if 400 ≤ response.statusCode then
    .error (.of .toolExecution s!"HTTP source returned {response.statusCode}")
  else if supportedMediaType (mediaTypeOf response) = false then
    .error (refused s!"unsupported fetched media type: {mediaTypeOf response}")
  else do
    checkLength F.parseInt F.maximumBytes response.contentLength
    let body ← readBody F.maximumBytes response.fault response.chunks []
    let encoding := if truthy response.encoding then response.encoding.getD "" else "utf-8"
    let content ← F.decode body encoding
    .ok (body, content)

/-- The item of a response that is no redirect. -/
def itemOf (current : String) (response : Response) :
    Prog FetchOp Exn (RetrievalItem Nat WebMetadata) := do
  let (body, content) ← Prog.ofExcept (F.readDocument response)
  let itemId ← Prog.perform (.newId "web")
  let retrievedAt ← Prog.perform .now
  return {
    itemId, sourceType := "web", source := current, sourceLocation := current, content
    contentHash := F.sha256Digest body, score := 1
    metadata := ⟨mediaTypeOf response, retrievedAt, response.statusCode⟩ }

/-- Where a redirect leads to, after so many redirects. -/
def redirectTarget (redirectCount : Nat) (current : String) (response : Response) :
    Except Exn String :=
  if truthy response.location = false ∨ F.maximumRedirects ≤ redirectCount then
    .error redirectError
  else F.urljoin current (response.location.getD "")

/-- The passes of the loop that remain, after so many redirects. -/
def fetchFrom : Nat → Nat → String → Prog FetchOp Exn (RetrievalItem Nat WebMetadata)
  | 0, _, _ => .raise redirectError
  | remaining + 1, redirectCount, current => do
    let _ ← (F.validatePublicHttpUrl current).mapOp FetchOp.ofNetwork
    match ← Prog.perform (.request current) with
    | .error fault => .raise fault.handled
    | .ok response =>
      if response.statusCode ∈ [301, 302, 303, 307, 308] then do
        let next ← Prog.ofExcept (F.redirectTarget redirectCount current response)
        fetchFrom remaining (redirectCount + 1) next
      else F.itemOf current response

/-- `fetch` -/
def fetch (url : String) : Prog FetchOp Exn (RetrievalItem Nat WebMetadata) :=
  if F.enabled = false then .raise (refused "network access is disabled")
  else F.fetchFrom (F.maximumRedirects + 1) 0 url

end HttpDocumentFetcher

/-! ## The body -/

/-- A body that is read is what the chunks are together, and within the limit. -/
theorem readBody_ok {maximumBytes : Nat} {fault : Option Fault} {chunks : List (List UInt8)}
    {body result : List UInt8} (h : readBody maximumBytes fault chunks body = .ok result)
    (hbody : body.length ≤ maximumBytes) :
    result = body ++ chunks.flatten ∧ result.length ≤ maximumBytes := by
  induction chunks generalizing body with
  | nil =>
    cases fault with
    | none =>
      obtain rfl := Except.ok.inj h
      simpa using hbody
    | some fault => cases h
  | cons chunk chunks ih =>
    rw [readBody] at h
    by_cases hsize : maximumBytes < (body ++ chunk).length
    · rw [if_pos hsize] at h
      cases h
    · rw [if_neg hsize] at h
      obtain ⟨hresult, hlength⟩ := ih h (Nat.not_lt.mp hsize)
      rw [hresult, List.append_assoc, List.flatten_cons] at *
      exact ⟨rfl, hlength⟩

theorem HttpDocumentFetcher.readDocument_ok {F : HttpDocumentFetcher} {response : Response}
    {body : List UInt8} {content : String} (h : F.readDocument response = .ok (body, content)) :
    body = response.chunks.flatten ∧ body.length ≤ F.maximumBytes := by
  unfold readDocument at h
  split at h
  · cases h
  split at h
  · cases h
  split at h
  · cases h
  obtain ⟨_, -, h⟩ := of_bind_ok h
  obtain ⟨body', hbody, h⟩ := of_bind_ok h
  obtain ⟨content', -, h⟩ := of_bind_ok h
  obtain ⟨rfl, -⟩ := Prod.mk.inj (Except.ok.inj h)
  exact readBody_ok hbody (Nat.zero_le _)

/-! ## What a run does -/

/-- A call with its answer. -/
inductive Event where
  | lookup (hostname : String) (port : Nat) (answer : Except Exn (Option (List SocketAddress)))
  | request (url : String) (answer : Except Exn (Except Fault Response))
  | newId (kind : String) (answer : Except Exn String)
  | now (answer : Except Exn Timestamp)

def FetchOp.event : (δ : Type) → FetchOp δ → Except Exn δ → Event
  | _, .lookup hostname port, x => .lookup hostname port x
  | _, .request url, x => .request url x
  | _, .newId kind, x => .newId kind x
  | _, .now, x => .now x

/-- The calls are answered in any way, and written down. -/
def traced : Exec FetchOp Exn (List Event) := fun δ op trace x trace' =>
  trace' = trace ++ [op.event δ x]

def Event.isRequest : Event → Bool
  | .request _ _ => true
  | _ => false

/-- How many requests there are. -/
def requests (trace : List Event) : Nat := trace.countP Event.isRequest

section Traces

variable {F : HttpDocumentFetcher} {trace events : List Event} {e : Event} {url : String}
  {answer : Except Exn (Except Fault Response)}

/-- Just before each request its URL was accepted: the event before it is the lookup of the host,
and the URL with the addresses that this gave is accepted. -/
def Guarded (F : HttpDocumentFetcher) (trace : List Event) : Prop :=
  ∀ before url answer after, trace = before ++ .request url answer :: after →
    ∃ earlier hostname port addresses,
      before = earlier ++ [.lookup hostname port (.ok (some addresses))] ∧
        F.Accepts url hostname port addresses

theorem guarded_nil : Guarded F [] := by
  intro before url answer after h
  simp at h

theorem concat_eq_split {before after : List Event} {r : Event}
    (h : trace ++ [e] = before ++ r :: after) :
    (trace = before ∧ e = r) ∨ ∃ rest, trace = before ++ r :: rest := by
  rcases List.eq_nil_or_concat after with rfl | ⟨rest, last, rfl⟩
  · obtain ⟨htrace, hlast⟩ := List.append_inj' h rfl
    exact .inl ⟨htrace, List.cons.inj hlast |>.1⟩
  · have hsplit : trace ++ [e] = (before ++ r :: rest) ++ [last] := by
      rw [h]
      simp
    exact .inr ⟨rest, (List.append_inj' hsplit rfl).1⟩

theorem Guarded.concat (h : Guarded F trace) (he : e.isRequest = false) :
    Guarded F (trace ++ [e]) := by
  intro before url answer after hsplit
  rcases concat_eq_split hsplit with ⟨-, rfl⟩ | ⟨rest, htrace⟩
  · cases he
  · exact h before url answer rest htrace

theorem Guarded.append (h : Guarded F trace) (hevents : ∀ e ∈ events, e.isRequest = false) :
    Guarded F (trace ++ events) := by
  induction events generalizing trace with
  | nil => simpa using h
  | cons e events ih =>
    have hrest := ih (h.concat (hevents e List.mem_cons_self)) fun e' he' =>
      hevents e' (List.mem_cons_of_mem e he')
    simpa using hrest

/-- A request follows the lookup with which its URL was accepted. -/
theorem Guarded.request {hostname : String} {port : Nat} {addresses : List SocketAddress}
    (h : Guarded F trace) (haccepts : F.Accepts url hostname port addresses) :
    Guarded F (trace ++ [.lookup hostname port (.ok (some addresses)), .request url answer]) := by
  have hlookup : Guarded F (trace ++ [.lookup hostname port (.ok (some addresses))]) :=
    h.concat rfl
  intro before url' answer' after hsplit
  have hconcat : (trace ++ [.lookup hostname port (.ok (some addresses))]) ++
      [.request url answer] = before ++ .request url' answer' :: after := by
    rw [← hsplit]
    simp
  rcases concat_eq_split hconcat with ⟨rfl, hrequest⟩ | ⟨rest, htrace⟩
  · obtain ⟨rfl, -⟩ := Event.request.inj hrequest
    exact ⟨trace, hostname, port, addresses, rfl, haccepts⟩
  · exact hlookup before url' answer' rest htrace

theorem requests_append (trace events : List Event) :
    requests (trace ++ events) = requests trace + requests events := List.countP_append

theorem requests_eq_zero (h : ∀ e ∈ events, e.isRequest = false) : requests events = 0 := by
  apply List.countP_eq_zero.mpr
  intro e he
  simp [h e he]

end Traces

/-! ## The passes of the loop -/

namespace HttpDocumentFetcher

variable {F : HttpDocumentFetcher} {trace : List Event} {current : String}
  {Q : Except Exn (RetrievalItem Nat WebMetadata) → List Event → Prop}

/-- What comes after a URL is checked meets a lookup with which the URL was accepted. -/
theorem wp_validated {f : String → Prog FetchOp Exn (RetrievalItem Nat WebMetadata)}
    (hrefused : ∀ e events, (∀ event ∈ events, event.isRequest = false) →
      Q (.error e) (trace ++ events))
    (haccepted : ∀ hostname port addresses, F.Accepts current hostname port addresses →
      (f current).wp traced Q (trace ++ [.lookup hostname port (.ok (some addresses))])) :
    (((F.validatePublicHttpUrl current).mapOp FetchOp.ofNetwork) >>= f).wp traced Q trace := by
  have hlookup (hostname : String) (port : Nat)
      (answer : Except Exn (Option (List SocketAddress))) :
      ∀ event ∈ [Event.lookup hostname port answer], event.isRequest = false := by
    intro event hevent
    rw [List.mem_singleton.mp hevent]
    rfl
  unfold UrlChecks.validatePublicHttpUrl
  cases hendpoint : F.endpoint current with
  | error e =>
    have hnone := hrefused e [] (by simp)
    rw [List.append_nil] at hnone
    exact hnone
  | ok endpoint =>
    obtain ⟨hostname, port⟩ := endpoint
    rintro x trace' rfl
    cases x with
    | error e => exact hrefused e _ (hlookup hostname port _)
    | ok answer =>
      cases hjudged : F.judge current answer with
      | error e =>
        change (((Prog.ofExcept (F.judge current answer)).mapOp FetchOp.ofNetwork) >>= f).wp
          traced Q _
        rw [hjudged]
        exact hrefused e _ (hlookup hostname port _)
      | ok accepted =>
        cases answer with
        | none => cases hjudged
        | some addresses =>
          have hurl : accepted = current := by
            cases addresses with
            | nil => cases hjudged
            | cons address addresses =>
              obtain ⟨_, -, h⟩ := of_bind_ok hjudged
              exact (Except.ok.inj h).symm
          rw [hurl] at hjudged
          change (((Prog.ofExcept (F.judge current (some addresses))).mapOp FetchOp.ofNetwork) >>=
            f).wp traced Q _
          rw [hjudged]
          exact haccepted hostname port addresses ⟨hendpoint, hjudged⟩

/-- An item carries the digest of the body of a response, which is within the limit. -/
def HasBody (F : HttpDocumentFetcher) (response : Response)
    (item : RetrievalItem Nat WebMetadata) : Prop :=
  ∃ body, item.contentHash = F.sha256Digest body ∧ body.length ≤ F.maximumBytes ∧
    body = response.chunks.flatten

theorem wp_itemOf {response : Response}
    (h : ∀ result events, (∀ event ∈ events, event.isRequest = false) →
      (∀ item, result = .ok item → item.source = current ∧ F.HasBody response item) →
      Q result (trace ++ events)) : (F.itemOf current response).wp traced Q trace := by
  unfold itemOf
  cases hdocument : F.readDocument response with
  | error e =>
    have hnone := h (.error e) [] (by simp) fun item hitem => by cases hitem
    rw [List.append_nil] at hnone
    exact hnone
  | ok document =>
    obtain ⟨body, content⟩ := document
    rintro x trace' rfl
    cases x with
    | error e =>
      refine h (.error e) [.newId "web" (.error e)] ?_ fun item hitem => by cases hitem
      simp [Event.isRequest]
    | ok itemId =>
      rintro x trace' rfl
      rw [List.append_assoc]
      cases x with
      | error e =>
        refine h (.error e) [.newId "web" (.ok itemId), .now (.error e)] ?_
          fun item hitem => by cases hitem
        simp [Event.isRequest]
      | ok retrievedAt =>
        refine h _ [.newId "web" (.ok itemId), .now (.ok retrievedAt)] ?_ fun item hitem => ?_
        · simp [Event.isRequest]
        · obtain rfl := Except.ok.inj hitem
          obtain ⟨hbody, hlength⟩ := readDocument_ok hdocument
          exact ⟨rfl, body, rfl, hlength, hbody⟩

/-- What a run has done that may still issue so many requests. -/
structure Fetched (F : HttpDocumentFetcher) (limit : Nat)
    (result : Except Exn (RetrievalItem Nat WebMetadata)) (trace : List Event) : Prop where
  bounded : requests trace ≤ limit
  guarded : Guarded F trace
  body : ∀ item, result = .ok item → ∃ response,
    .request item.source (.ok (.ok response)) ∈ trace ∧ F.HasBody response item

theorem Fetched.error {limit : Nat} {e : Exn} (h : Guarded F trace)
    (hlimit : requests trace ≤ limit) : Fetched F limit (.error e) trace where
  bounded := hlimit
  guarded := h
  body := by
    intro item hitem
    cases hitem

/-- The passes that remain issue one request each at most. -/
theorem wp_fetchFrom (remaining redirectCount : Nat) (h : Guarded F trace) :
    (F.fetchFrom remaining redirectCount current).wp traced
      (Fetched F (requests trace + remaining)) trace := by
  induction remaining generalizing redirectCount current trace with
  | zero => exact Fetched.error h le_rfl
  | succ remaining ih =>
    apply wp_validated
    · intro e events hevents
      apply Fetched.error (h.append hevents)
      rw [requests_append, requests_eq_zero hevents]
      omega
    intro hostname port addresses haccepts x trace' htrace
    have hguarded : Guarded F trace' := by
      rw [htrace, List.append_assoc]
      exact h.request haccepts
    have hrequests : requests trace' = requests trace + 1 := by
      rw [htrace, List.append_assoc, requests_append]
      rfl
    cases x with
    | error e => exact Fetched.error hguarded (by omega)
    | ok answer =>
      cases answer with
      | error fault => exact Fetched.error hguarded (by omega)
      | ok response =>
        change Prog.wp traced (if response.statusCode ∈ [301, 302, 303, 307, 308] then
          (Prog.ofExcept (F.redirectTarget redirectCount current response)) >>= fun next =>
            F.fetchFrom remaining (redirectCount + 1) next
          else F.itemOf current response) _ trace'
        by_cases hredirect : response.statusCode ∈ [301, 302, 303, 307, 308]
        · rw [if_pos hredirect]
          cases F.redirectTarget redirectCount current response with
          | error e => exact Fetched.error hguarded (by omega)
          | ok next =>
            have hnext : (F.fetchFrom remaining (redirectCount + 1) next).wp traced
                (Fetched F (requests trace' + remaining)) trace' := ih (redirectCount + 1) hguarded
            rwa [hrequests, Nat.add_right_comm] at hnext
        · rw [if_neg hredirect]
          apply wp_itemOf
          intro result events hevents hitem
          refine ⟨?_, hguarded.append hevents, fun item hresult => ?_⟩
          · rw [requests_append, requests_eq_zero hevents]
            omega
          · obtain ⟨hsource, hbody⟩ := hitem item hresult
            refine ⟨response, ?_, hbody⟩
            rw [hsource, htrace]
            simp [FetchOp.event]

end HttpDocumentFetcher

/-- Whatever the resolver and the server answer: there is at most one request more than redirects
may be followed; just before each request its URL was accepted, which is one over HTTP or HTTPS
whose host was resolved to public addresses only; and the digest of an item is that of a body
within the limit. -/
theorem fetch_bounded {F : HttpDocumentFetcher} {url : String} {trace : List Event}
    {result : Except Exn (RetrievalItem Nat WebMetadata)}
    (h : Runs traced (F.fetch url) [] result trace) :
    requests trace ≤ F.maximumRedirects + 1 ∧
      (∀ before requested answer after, trace = before ++ .request requested answer :: after →
        ∃ earlier hostname port addresses,
          before = earlier ++ [.lookup hostname port (.ok (some addresses))] ∧
            F.Accepts requested hostname port addresses ∧
            (∃ parsed, F.urlsplit requested = .ok parsed ∧ parsed.scheme ∈ ["http", "https"] ∧
              parsed.hostname = some hostname) ∧
            ∀ address ∈ addresses, ∃ text, address = .host text ∧ F.isGlobal text = .ok true) ∧
      ∀ item, result = .ok item → ∃ body, item.contentHash = F.sha256Digest body ∧
        body.length ≤ F.maximumBytes := by
  have hfetched : F.Fetched (F.maximumRedirects + 1) result trace := by
    unfold HttpDocumentFetcher.fetch at h
    by_cases henabled : F.enabled = false
    · rw [if_pos henabled] at h
      obtain ⟨rfl, rfl⟩ := runs_raise.mp h
      exact HttpDocumentFetcher.Fetched.error guarded_nil (Nat.zero_le _)
    · rw [if_neg henabled] at h
      have hwp := (HttpDocumentFetcher.wp_fetchFrom (F.maximumRedirects + 1) 0 guarded_nil).runs h
      have hnone : requests [] = 0 := rfl
      rwa [hnone, Nat.zero_add] at hwp
  refine ⟨hfetched.bounded, fun before requested answer after hsplit => ?_, fun item hitem => ?_⟩
  · obtain ⟨earlier, hostname, port, addresses, hbefore, haccepts⟩ :=
      hfetched.guarded before requested answer after hsplit
    obtain ⟨parsed, hparsed, hscheme, hhost, -⟩ := UrlChecks.endpoint_ok haccepts.endpoint
    exact ⟨earlier, hostname, port, addresses, hbefore, haccepts, ⟨parsed, hparsed, hscheme, hhost⟩,
      haccepts.public.2⟩
  · obtain ⟨response, -, body, hdigest, hlength, -⟩ := hfetched.body item hitem
    exact ⟨body, hdigest, hlength⟩

/-- A fetcher of a test, with what is read of two URLs. -/
def documentFetcher : HttpDocumentFetcher where
  urlsplit url := .ok {
    scheme := "https", netloc := "example.test", query := "", fragment := ""
    path := if url = "https://example.test/document" then "/document" else "/moved"
    hostname := some "example.test" }
  isGlobal host := .ok (host ≠ "127.0.0.1")
  enabled := true
  urljoin _ location := .ok ("https://example.test" ++ location)
  parseInt _ := none
  decode body _ := .ok (String.ofList (body.map fun byte => Char.ofNat byte.toNat))
  sha256Digest body := String.ofList (body.map fun byte => Char.ofNat byte.toNat)

def lookupExample : Event := .lookup "example.test" 443 (.ok (some [.host "93.184.216.34"]))

def movedResponse : Response := { statusCode := 302, location := some "/moved" }

def documentResponse : Response :=
  { statusCode := 200, contentType := some "text/html; charset=utf-8"
    chunks := [[84, 101], [115, 116]] }

/-- One redirect is followed to a document of four bytes. -/
def documentTrace : List Event :=
  [lookupExample, .request "https://example.test/document" (.ok (.ok movedResponse)),
    lookupExample, .request "https://example.test/moved" (.ok (.ok documentResponse)),
    .newId "web" (.ok "web-1"), .now (.ok 0)]

def documentItem : RetrievalItem Nat WebMetadata where
  itemId := "web-1"
  sourceType := "web"
  source := "https://example.test/moved"
  sourceLocation := "https://example.test/moved"
  content := "Test"
  contentHash := "Test"
  score := 1
  metadata := ⟨"text/html", 0, 200⟩

theorem readDocument_example : documentFetcher.readDocument documentResponse =
    .ok ([84, 101, 115, 116], "Test") := by
  rfl

theorem itemOf_example : Runs traced
    (documentFetcher.itemOf "https://example.test/moved" documentResponse)
    (documentTrace.take 4) (.ok documentItem) documentTrace := by
  unfold HttpDocumentFetcher.itemOf
  rw [readDocument_example]
  exact .call (x := .ok "web-1") rfl (.call (x := .ok 0) rfl (.done _ _))

theorem fetch_example : Runs traced (documentFetcher.fetch "https://example.test/document") []
    (.ok documentItem) documentTrace :=
  .call (x := .ok (some [.host "93.184.216.34"])) rfl <|
    .call (x := .ok (.ok movedResponse)) rfl <|
    .call (x := .ok (some [.host "93.184.216.34"])) rfl <|
    .call (x := .ok (.ok documentResponse)) rfl itemOf_example

/-- A redirect to a document takes two requests, and four bytes are hashed. -/
theorem fetch_bounded_document : requests documentTrace ≤ 4 ∧
    ∃ body, documentItem.contentHash = documentFetcher.sha256Digest body ∧
      body.length ≤ 2000000 :=
  ⟨(fetch_bounded fetch_example).1, (fetch_bounded fetch_example).2.2 documentItem rfl⟩

end DurableAgent.Research
