import DurableAgent.Domain.Errors
import DurableAgent.Library.Program

/-!
# SSRF-resistant URL validation

`validate_public_http_url` with the answer of the resolver left open. A URL that it accepts names
a host over HTTP or HTTPS, without credentials and on a standard port, and every address that the
host was resolved to is public.
-/

namespace DurableAgent.Security

open Library

/-- What `urlsplit` finds in a URL; the port may be no number. -/
structure SplitResult where
  scheme : String
  netloc : String
  path : String
  query : String
  fragment : String
  hostname : Option String := none
  username : Option String := none
  password : Option String := none
  port : Except Exn (Option Nat) := .ok none

/-- What a resolver may give as the socket address of an address. -/
inductive SocketAddress where
  /-- A tuple that begins with a host. -/
  | host (text : String)
  /-- No tuple, or an empty one. -/
  | invalid
  /-- There is no socket address at all. -/
  | missing
  deriving DecidableEq

/-- The resolver; `none` is an `OSError`. -/
inductive NetworkOp : Type → Type where
  | lookup (hostname : String) (port : Nat) : NetworkOp (Option (List SocketAddress))

/-- The functions of `urllib.parse` and of `ipaddress` that URLs are checked with. -/
structure UrlChecks where
  urlsplit : String → Except Exn SplitResult
  /-- `ipaddress.ip_address(host).is_global` -/
  isGlobal : String → Except Exn Bool

abbrev refused (message : String) : Exn := .of .securityPolicy message

/-- A value that Python takes for true. -/
def truthy (text : Option String) : Bool := text.any fun s => s ≠ ""

namespace UrlChecks

variable (U : UrlChecks)

/-- The checks of the addresses, in their order. -/
def checkAddresses : List SocketAddress → Except Exn Unit
  | [] => .ok ()
  | .missing :: _ => .error (.other "tuple index out of range")
  | .invalid :: _ => .error (refused "URL resolver returned an invalid address")
  | .host text :: rest => do
    if (← U.isGlobal text) then checkAddresses rest
    else .error (refused s!"URL resolves to a non-public address: {text}")

/-- The host and the port that are to be resolved. -/
def endpoint (url : String) : Except Exn (String × Nat) := do
  let parsed ← U.urlsplit url
  if parsed.scheme ∉ ["http", "https"] ∨ truthy parsed.hostname = false then
    .error (refused "only absolute HTTP(S) URLs are allowed")
  else if truthy parsed.username ∨ truthy parsed.password then
    .error (refused "URL credentials are not allowed")
  else do
    let declared ← parsed.port
    if declared.any fun port => port ∉ [80, 443] then
      .error (refused "non-standard network ports are not allowed")
    else
      .ok (parsed.hostname.getD "", declared.getD (if parsed.scheme = "https" then 443 else 80))

/-- What becomes of the answer of the resolver. -/
def judge (url : String) : Option (List SocketAddress) → Except Exn String
  | none => .error (refused "URL hostname could not be resolved")
  | some [] => .error (refused "URL hostname resolved to no addresses")
  | some (address :: addresses) => do
    U.checkAddresses (address :: addresses)
    .ok url

/-- `validate_public_http_url` -/
def validatePublicHttpUrl (url : String) : Prog NetworkOp Exn String := do
  let (hostname, port) ← Prog.ofExcept (U.endpoint url)
  let addresses ← Prog.perform (.lookup hostname port)
  Prog.ofExcept (U.judge url addresses)

/-- A URL with a resolved address that is accepted. -/
structure Accepts (url hostname : String) (port : Nat) (addresses : List SocketAddress) :
    Prop where
  endpoint : U.endpoint url = .ok (hostname, port)
  judged : U.judge url (some addresses) = .ok url

variable {U} {url hostname : String} {port : Nat} {addresses : List SocketAddress}

theorem checkAddresses_ok (h : U.checkAddresses addresses = .ok ()) :
    ∀ address ∈ addresses, ∃ text, address = .host text ∧ U.isGlobal text = .ok true := by
  induction addresses with
  | nil => exact fun address hmem => absurd hmem List.not_mem_nil
  | cons address addresses ih =>
    cases address with
    | missing => cases h
    | invalid => cases h
    | host text =>
      obtain ⟨isGlobal, hglobal, hrest⟩ := of_bind_ok h
      cases isGlobal with
      | false => cases hrest
      | true =>
        intro address hmem
        obtain rfl | hmem := List.mem_cons.mp hmem
        · exact ⟨text, rfl, hglobal⟩
        · exact ih hrest address hmem

/-- What is looked up belongs to a URL over HTTP or HTTPS without credentials. -/
theorem endpoint_ok (h : U.endpoint url = .ok (hostname, port)) :
    ∃ parsed, U.urlsplit url = .ok parsed ∧ parsed.scheme ∈ ["http", "https"] ∧
      parsed.hostname = some hostname ∧ hostname ≠ "" ∧ truthy parsed.username = false ∧
      truthy parsed.password = false ∧ port ∈ [80, 443] := by
  obtain ⟨parsed, hparsed, h⟩ := of_bind_ok h
  split at h
  · cases h
  · next hscheme =>
    rw [not_or, not_not] at hscheme
    split at h
    · cases h
    · next hcredentials =>
      rw [not_or, Bool.not_eq_true, Bool.not_eq_true] at hcredentials
      obtain ⟨declared, -, h⟩ := of_bind_ok h
      split at h
      · cases h
      · next hport =>
        obtain ⟨rfl, rfl⟩ := Prod.mk.inj (Except.ok.inj h)
        refine ⟨parsed, hparsed, hscheme.1, ?_, ?_, hcredentials.1, hcredentials.2, ?_⟩
        · cases hhost : parsed.hostname with
          | none => simp [hhost, truthy] at hscheme
          | some host => rfl
        · cases hhost : parsed.hostname with
          | none => simp [hhost, truthy] at hscheme
          | some host => simpa [hhost, truthy] using hscheme.2
        · cases declared with
          | none =>
            by_cases hs : parsed.scheme = "https"
            · simp [hs]
            · simp [hs]
          | some port => simpa [or_iff_not_imp_left] using hport

/-- The check of an accepted URL looks up its host, and with these addresses returns the URL. -/
theorem Accepts.validates (h : U.Accepts url hostname port addresses) :
    ∃ k, U.validatePublicHttpUrl url = .call (.lookup hostname port) k ∧
      k (.ok (some addresses)) = .done (.ok url) := by
  unfold validatePublicHttpUrl
  rw [h.endpoint]
  refine ⟨_, rfl, ?_⟩
  change (.done (U.judge url (some addresses)) : Prog NetworkOp Exn String) = _
  rw [h.judged]

/-- An accepted URL leads to public addresses. -/
theorem Accepts.public (h : U.Accepts url hostname port addresses) :
    addresses ≠ [] ∧
      ∀ address ∈ addresses, ∃ text, address = .host text ∧ U.isGlobal text = .ok true := by
  have hjudged := h.judged
  cases addresses with
  | nil => cases hjudged
  | cons address addresses =>
    obtain ⟨_, hchecked, -⟩ := of_bind_ok hjudged
    exact ⟨List.cons_ne_nil _ _, checkAddresses_ok hchecked⟩

end UrlChecks

end DurableAgent.Security
