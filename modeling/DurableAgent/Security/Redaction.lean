import DurableAgent.Domain.Plan
import DurableAgent.Library.Occurrences
import DurableAgent.Library.Patterns

/-!
# Redaction of secrets

No configured secret is left in a text that has been redacted, nor in what it is nested in, save in
the keys of mappings: these are looked at but not redacted.
-/

namespace DurableAgent.Security

open Library

/-- What is redacted: texts in containers. A mapping has its keys as `str` shows them, each once. -/
inductive Value (α : Type) where
  | text (s : String)
  | mapping (items : List (String × Value α))
  | list (items : List (Value α))
  | tuple (items : List (Value α))
  | other (value : α)

def marker : String := "[REDACTED]"

/-! ## Patterns -/

/-- A character is the same lower-case letter under `re.IGNORECASE`. -/
def sameLetter (letter c : Char) : Bool :=
  c.toLower = letter ∨ (letter = 'i' ∧ (c.toNat = 0x130 ∨ c.toNat = 0x131)) ∨
    (letter = 's' ∧ c.toNat = 0x17f) ∨ (letter = 'k' ∧ c.toNat = 0x212a)

def anyCase (letters : String) : Pattern Char :=
  letters.toList.foldr (fun letter p => .seq (.one (sameLetter letter)) p) .empty

def exactly (letters : String) : Pattern Char :=
  letters.toList.foldr (fun letter p => .seq (.one (· = letter)) p) .empty

/-- The one pattern after the other. -/
def inTurn (patterns : List (Pattern Char)) : Pattern Char := patterns.foldr .seq .empty

/-- `[A-Za-z0-9._~+/=-]` under `re.IGNORECASE` -/
def isBearerCharacter (c : Char) : Bool :=
  c.isAlphanum ∨ c ∈ "._~+/=-".toList ∨ c.toNat ∈ [0x130, 0x131, 0x17f, 0x212a]

/-- `[_-]?` -/
def joint : Pattern Char := .many true 0 (some 1) fun c => c = '_' ∨ c = '-'

/-- `_KEY_PATTERN` -/
def keyPattern : Pattern Char :=
  .alt (inTurn [anyCase "api", joint, anyCase "key"]) <| .alt (anyCase "authorization") <|
    .alt (anyCase "password") <| .alt (anyCase "passwd") <| .alt (anyCase "secret") <|
    .alt (anyCase "token") <| .alt (anyCase "credential") <|
    inTurn [anyCase "private", joint, anyCase "key"]

def bearerPattern : Pattern Char :=
  inTurn [.boundary, anyCase "bearer", .many true 1 none isSpace,
    .many true 8 none isBearerCharacter]

def tokenPattern : Pattern Char :=
  inTurn [.boundary, .alt (exactly "sk") (.alt (exactly "ghp") (exactly "github_pat")), exactly "_",
    .many true 12 none fun c => c.isAlphanum ∨ c = '_' ∨ c = '-']

def privateKeyPattern : Pattern Char :=
  let label : Pattern Char := .many true 0 none fun c => c.isUpper ∨ c = ' '
  inTurn [exactly "-----BEGIN ", label, exactly "PRIVATE KEY-----",
    .many false 0 none fun _ => true, exactly "-----END ", label, exactly "PRIVATE KEY-----"]

def urlPattern : Pattern Char :=
  .seq (.group 1 (inTurn [exactly "://",
      .many true 1 none fun c => c ≠ ':' ∧ c ≠ '/' ∧ isSpace c = false, exactly ":"]))
    (.seq (.group 2 (.many true 1 none fun c => c ≠ '@' ∧ c ≠ '/' ∧ isSpace c = false))
      (.group 3 (exactly "@")))

/-- `_VALUE_PATTERNS` -/
def valuePatterns : List (Pattern Char) :=
  [bearerPattern, tokenPattern, privateKeyPattern, urlPattern]

/-! ## The redactor -/

structure SecretRedactor where
  /-- What `\w` matches. -/
  isWord : Char → Bool
  secrets : List String

namespace SecretRedactor

/-- `SecretRedactor.__init__` -/
def init (isWord : Char → Bool) (explicitSecrets : List String) : SecretRedactor where
  isWord := isWord
  secrets := (explicitSecrets.filter fun item => item ≠ "").mergeSort fun a b =>
    b.length ≤ a.length

/-- `r"\1[REDACTED]\3"`, or the marker alone -/
def template (p : Pattern Char) (m : Match Char) : List Char :=
  if p.groups = 3 then
    (m.groups.lookup 1).getD [] ++ marker.toList ++ (m.groups.lookup 3).getD []
  else marker.toList

/-- `redact_text` -/
def redactText (R : SecretRedactor) (value : String) : String :=
  let plain := replaceAll [Char.ofNat 0] [] (replaceAll ['\r'] ['\\', 'r'] value.toList)
  let unnamed := R.secrets.foldl (fun result secret =>
    replaceAll secret.toList marker.toList result) plain
  String.ofList <| valuePatterns.foldl (fun result p => p.sub R.isWord (template p) result) unnamed

/-- The value under this key is a credential. -/
def isCredential (R : SecretRedactor) (key : String) : Bool :=
  keyPattern.search R.isWord none key.toList

variable {α : Type}

mutual

def redact (R : SecretRedactor) : Value α → Value α
  | .text s => .text (R.redactText s)
  | .mapping items => .mapping (R.redactItems items)
  | .list items => .list (R.redactAll items)
  | .tuple items => .tuple (R.redactAll items)
  | .other value => .other value

def redactItems (R : SecretRedactor) : List (String × Value α) → List (String × Value α)
  | [] => []
  | (key, item) :: items =>
    (key, if R.isCredential key then .text marker else R.redact item) :: R.redactItems items

def redactAll (R : SecretRedactor) : List (Value α) → List (Value α)
  | [] => []
  | item :: items => R.redact item :: R.redactAll items

end

end SecretRedactor

namespace Value

variable {α : Type}

mutual

/-- Every text in a value, the keys of its mappings among them. -/
def strings : Value α → List String
  | .text s => [s]
  | .mapping items => stringsItems items
  | .list items => stringsAll items
  | .tuple items => stringsAll items
  | .other _ => []

def stringsItems : List (String × Value α) → List String
  | [] => []
  | (key, item) :: items => key :: (item.strings ++ stringsItems items)

def stringsAll : List (Value α) → List String
  | [] => []
  | item :: items => item.strings ++ stringsAll items

end

mutual

/-- The keys of the mappings in a value, save in what lies under the key of a credential. -/
def reachedKeys (R : SecretRedactor) : Value α → List String
  | .text _ => []
  | .mapping items => reachedKeysItems R items
  | .list items => reachedKeysAll R items
  | .tuple items => reachedKeysAll R items
  | .other _ => []

def reachedKeysItems (R : SecretRedactor) : List (String × Value α) → List String
  | [] => []
  | (key, item) :: items =>
    key :: ((if R.isCredential key then [] else item.reachedKeys R) ++ reachedKeysItems R items)

def reachedKeysAll (R : SecretRedactor) : List (Value α) → List String
  | [] => []
  | item :: items => item.reachedKeys R ++ reachedKeysAll R items

end

end Value

/-! ## Texts without secrets -/

/-- A secret that the marker cannot bring back. -/
structure Removable (secret : String) : Prop where
  opening : '[' ∉ secret.toList
  closing : ']' ∉ secret.toList
  unmarked : ¬ secret.toList <:+: marker.toList

theorem Removable.ne_nil {secret : String} (h : Removable secret) : secret.toList ≠ [] := by
  intro hnil
  apply h.unmarked
  rw [hnil]
  exact List.nil_infix

theorem marker_eq : marker.toList = '[' :: ("REDACTED".toList ++ [']']) := rfl

theorem Removable.unmarked_mid {secret : String} (h : Removable secret) :
    ¬ secret.toList <:+: "REDACTED".toList := by
  intro hmid
  exact h.unmarked (hmid.trans ⟨['['], [']'], rfl⟩)

/-- What a pattern matches becomes the marker, between texts that were matched. -/
theorem marks_template {p : Pattern Char} (hp : p ∈ valuePatterns) {isWord : Char → Bool}
    {before : Option Char} {text : List Char} {m : Match Char} (hm : m ∈ p.run isWord before text) :
    Pattern.Marks '[' ']' "REDACTED".toList (SecretRedactor.template p) m := by
  by_cases hgroups : p.groups = 3
  · have hurl : p = urlPattern := by
      simp only [valuePatterns, List.mem_cons, List.not_mem_nil, or_false] at hp
      obtain rfl | rfl | rfl | rfl := hp
      · cases hgroups
      · cases hgroups
      · cases hgroups
      · rfl
    subst hurl
    obtain ⟨x, y, z, htaken, hfound⟩ := Pattern.exists_of_run_groups (by rfl) (by rfl) (by rfl) hm
    refine ⟨x, z, (if_pos hgroups).trans ?_, ?_, ?_⟩
    · rw [hfound, marker_eq]
      simp [List.lookup_cons]
    · rw [htaken]
      exact List.prefix_append x (y ++ z)
    · rw [htaken, ← List.append_assoc]
      exact List.suffix_append (x ++ y) z
  · exact ⟨[], [], if_neg hgroups, List.nil_prefix, List.nil_suffix⟩

namespace SecretRedactor

variable {R : SecretRedactor} {secret value : String}

/-- A configured secret is gone when its turn has come, and no other brings it back. -/
theorem not_infix_unnamed (hsecret : secret ∈ R.secrets) (h : Removable secret)
    (plain : List Char) : ¬ secret.toList <:+: R.secrets.foldl (fun result secret =>
      replaceAll secret.toList marker.toList result) plain := by
  obtain ⟨earlier, later, hsecrets⟩ := List.append_of_mem hsecret
  rw [hsecrets, List.foldl_append, List.foldl_cons]
  apply List.foldlRecOn (motive := fun result => ¬ secret.toList <:+: result) later
  · exact not_infix_replaceFrom h.opening h.closing h.ne_nil h.unmarked_mid 0
  · intro result hresult other _ hinfix
    rw [marker_eq, replaceAll] at hinfix
    obtain hmid | hbefore := infix_of_replaceFrom h.opening h.closing h.ne_nil hinfix
    · exact h.unmarked_mid hmid
    · exact hresult hbefore

theorem not_infix_redactText (hsecret : secret ∈ R.secrets) (h : Removable secret) :
    ¬ secret.toList <:+: (R.redactText value).toList := by
  unfold redactText
  rw [String.toList_ofList]
  apply List.foldlRecOn (motive := fun result => ¬ secret.toList <:+: result) valuePatterns
  · exact not_infix_unnamed hsecret h _
  · intro result hresult p hp hinfix
    have hmarks (before : Option Char) (text : List Char) (m : Match Char)
        (hm : m ∈ p.run R.isWord before text) :
        Pattern.Marks '[' ']' "REDACTED".toList (template p) m := marks_template hp hm
    obtain hmid | hbefore := @Pattern.infix_of_subFrom _ _ _ _ _ _ _ _ _ h.opening h.closing
      h.ne_nil 0 none [] hmarks hinfix
    · exact h.unmarked_mid hmid
    · exact hresult hbefore

/-! ## Values without secrets -/

variable {α : Type} {t : String}

/-- A text after the redaction: a key as it was, the marker, or a text that has been redacted. -/
def Redacted (R : SecretRedactor) (keys : List String) (t : String) : Prop :=
  t ∈ keys ∨ t = marker ∨ ∃ s, t = R.redactText s

theorem Redacted.mono {keys keys' : List String} (h : R.Redacted keys t) (hkeys : keys ⊆ keys') :
    R.Redacted keys' t := h.imp_left fun hmem => hkeys hmem

mutual

theorem redacted_of_mem : ∀ v : Value α, t ∈ (R.redact v).strings → R.Redacted (v.reachedKeys R) t
  | .text s, h => by
    rw [redact, Value.strings, List.mem_singleton] at h
    exact .inr (.inr ⟨s, h⟩)
  | .mapping items, h => redacted_of_mem_items items h
  | .list items, h => redacted_of_mem_all items h
  | .tuple items, h => redacted_of_mem_all items h
  | .other _, h => by cases h

theorem redacted_of_mem_items : ∀ items : List (String × Value α),
    t ∈ Value.stringsItems (R.redactItems items) → R.Redacted (Value.reachedKeysItems R items) t
  | [], h => by cases h
  | (key, item) :: items, h => by
    rw [redactItems, Value.stringsItems, List.mem_cons, List.mem_append] at h
    rw [Value.reachedKeysItems]
    obtain rfl | h | h := h
    · exact .inl List.mem_cons_self
    · by_cases hcredential : R.isCredential key = true
      · rw [if_pos hcredential, Value.strings, List.mem_singleton] at h
        exact .inr (.inl h)
      · rw [if_neg hcredential] at h ⊢
        apply (redacted_of_mem item h).mono
        exact fun k hk => List.mem_cons_of_mem key (List.mem_append_left _ hk)
    · apply (redacted_of_mem_items items h).mono
      exact fun k hk => List.mem_cons_of_mem key (List.mem_append_right _ hk)

theorem redacted_of_mem_all : ∀ items : List (Value α),
    t ∈ Value.stringsAll (R.redactAll items) → R.Redacted (Value.reachedKeysAll R items) t
  | [], h => by cases h
  | item :: items, h => by
    rw [redactAll, Value.stringsAll, List.mem_append] at h
    rw [Value.reachedKeysAll]
    obtain h | h := h
    · exact (redacted_of_mem item h).mono (List.subset_append_left _ _)
    · exact (redacted_of_mem_all items h).mono (List.subset_append_right _ _)

end

mutual

/-- Every key that is reached is a text of what has been redacted. -/
theorem reachedKeys_subset : ∀ v : Value α, v.reachedKeys R ⊆ (R.redact v).strings
  | .text _ => List.nil_subset _
  | .mapping items => reachedKeysItems_subset items
  | .list items => reachedKeysAll_subset items
  | .tuple items => reachedKeysAll_subset items
  | .other _ => List.nil_subset _

theorem reachedKeysItems_subset : ∀ items : List (String × Value α),
    Value.reachedKeysItems R items ⊆ Value.stringsItems (R.redactItems items)
  | [] => List.nil_subset _
  | (key, item) :: items => by
    rw [redactItems, Value.stringsItems, Value.reachedKeysItems]
    apply List.cons_subset_cons
    by_cases hcredential : R.isCredential key = true
    · rw [if_pos hcredential, List.nil_append]
      exact List.subset_append_of_subset_right _ (reachedKeysItems_subset items)
    · rw [if_neg hcredential, if_neg hcredential]
      exact List.append_subset.mpr
        ⟨List.subset_append_of_subset_left _ (reachedKeys_subset item),
          List.subset_append_of_subset_right _ (reachedKeysItems_subset items)⟩

theorem reachedKeysAll_subset : ∀ items : List (Value α),
    Value.reachedKeysAll R items ⊆ Value.stringsAll (R.redactAll items)
  | [] => List.nil_subset _
  | item :: items => by
    rw [redactAll, Value.stringsAll, Value.reachedKeysAll]
    exact List.append_subset.mpr
      ⟨List.subset_append_of_subset_left _ (reachedKeys_subset item),
        List.subset_append_of_subset_right _ (reachedKeysAll_subset items)⟩

end

theorem mem_secrets_init {isWord : Char → Bool} {explicitSecrets : List String} :
    secret ∈ (init isWord explicitSecrets).secrets ↔ secret ∈ explicitSecrets ∧ secret ≠ "" := by
  simp [init]

/-- No configured secret is in any text of a redacted value, if none is in a key that is reached,
and only then. -/
theorem redact_complete_iff (isWord : Char → Bool) (explicitSecrets : List String) (v : Value α)
    (h : ∀ secret ∈ explicitSecrets, Removable secret) :
    (∀ secret ∈ explicitSecrets, ∀ t ∈ ((init isWord explicitSecrets).redact v).strings,
        ¬ secret.toList <:+: t.toList) ↔
      ∀ secret ∈ explicitSecrets, ∀ key ∈ v.reachedKeys (init isWord explicitSecrets),
        ¬ secret.toList <:+: key.toList := by
  constructor
  · intro hnone secret hsecret key hkey
    exact hnone secret hsecret key (reachedKeys_subset v hkey)
  · intro hkeys secret hsecret t ht
    have hremovable := h secret hsecret
    obtain hkey | rfl | ⟨s, rfl⟩ := redacted_of_mem v ht
    · exact hkeys secret hsecret t hkey
    · exact hremovable.unmarked
    · apply not_infix_redactText _ hremovable
      apply mem_secrets_init.mpr ⟨hsecret, ?_⟩
      rintro rfl
      exact hremovable.ne_nil rfl

/-- A value with a secret in a key, and beside it. -/
def namedSecret : Value Unit := .mapping [("unique-value", .text "unique-value")]

def asciiRedactor : SecretRedactor :=
  init (fun c => c.isAlphanum ∨ c = '_') ["unique-value"]

theorem removable_unique : Removable "unique-value" := ⟨by decide, by decide, by decide⟩

theorem redact_complete_iff_named :
    (∀ secret ∈ ["unique-value"], ∀ t ∈ (asciiRedactor.redact namedSecret).strings,
        ¬ secret.toList <:+: t.toList) ↔
      ∀ secret ∈ ["unique-value"], ∀ key ∈ namedSecret.reachedKeys asciiRedactor,
        ¬ secret.toList <:+: key.toList := by
  apply redact_complete_iff
  intro secret hsecret
  obtain rfl := List.mem_singleton.mp hsecret
  exact removable_unique

/-- The key of a mapping keeps the secret. -/
theorem key_keeps_secret : Removable "unique-value" ∧
    ∃ t ∈ (asciiRedactor.redact namedSecret).strings, "unique-value".toList <:+: t.toList :=
  ⟨removable_unique, "unique-value", List.mem_cons_self, List.infix_rfl⟩

end SecretRedactor

end DurableAgent.Security
