import ContinuityLedger.Foundations.Checks
import ContinuityLedger.Mcp.Dispatch

/-! Which credential a request carries: the gate of the tool and MCP routes, the gate of the ledger routes, and the binding of
the request's identity. Each compares the same headers with the same keys by rules of its own. -/

namespace ContinuityLedger.Access

open Foundations

inductive Raised
  | typeError
deriving DecidableEq

/-! ### Settings and headers -/

/-- What the gates read from the environment. -/
structure Settings where
  jarvisApiKey : Option String
  emrRecallApiKey : Option String
  emrWriterApiKey : Option String
  jarvisAllowUnauthenticated : Option String
  jarvisPublicMode : Option String
  jarvisAuthMode : Option String

structure Headers where
  authorization : Option String
  xEmrRecallKey : Option String
  xApiKey : Option String
  xEmrWriterKey : Option String

/-- `(value or "").strip()`. -/
def stripped (value : Option String) : String := PyText.strip (value.getD "")

def keyOf (value : Option String) : Option String := if stripped value = "" then none else some (stripped value)

namespace Settings

def configuredApiKey (s : Settings) : Option String := keyOf s.jarvisApiKey
def recallKey (s : Settings) : Option String := keyOf s.emrRecallApiKey
def writerKey (s : Settings) : Option String := keyOf s.emrWriterApiKey

def isPublicDeployment (s : Settings) : Bool := ["1", "true", "yes"].contains (PyText.lower (s.jarvisPublicMode.getD ""))

def allowUnauthenticated (s : Settings) : Bool :=
  ["1", "true", "yes", "on"].contains (PyText.lower (stripped s.jarvisAllowUnauthenticated))

def authMode (s : Settings) : String :=
  let mode := s.jarvisAuthMode.getD ""
  PyText.lower (PyText.strip (if mode = "" then "operator" else mode))

def oauthEnabled (s : Settings) : Bool := s.authMode = "oauth"

end Settings

/-! ### Comparing -/

def isAscii (s : String) : Bool := s.toList.all fun c => c.toNat < 128

/-- `secrets.compare_digest` of two texts. -/
def compareDigest (a b : String) : Except Raised Bool :=
  if isAscii a && isAscii b then .ok (a == b) else .error .typeError

def extractBearer (authorization : Option String) : Option String :=
  let value := authorization.getD ""
  if PyText.startsWith (PyText.lower value) "bearer " then some (PyText.strip (String.ofList (value.toList.drop 7))) else none

/-- `bearer or (header or "").strip()`. -/
def tokenOf (bearer header : Option String) : String := if bearer.getD "" = "" then stripped header else bearer.getD ""

/-- `bool(key and token and compare_digest(token, key))`. -/
def presents (key : Option String) (token : String) : Except Raised Bool :=
  match key with
  | none => .ok false
  | some key => if token = "" then .ok false else compareDigest token key

/-- `any(compare_digest(p, key) for p in presented)`. -/
def anyEqual (key : String) : List String → Except Raised Bool
  | [] => .ok false
  | p :: ps => do if ← compareDigest p key then return true else anyEqual key ps

/-- `any(t and compare_digest(t, key) for t in tokens)`. -/
def anyPresented (key : String) : List String → Except Raised Bool
  | [] => .ok false
  | t :: ts => do
    if ← presents (some key) t then return true else anyPresented key ts

/-! ### The gates -/

def credentialKind (s : Settings) (h : Headers) : Except Raised (Option Mcp.Credential) := do
  let bearer := extractBearer h.authorization
  let recallMatch ← presents s.recallKey (tokenOf bearer h.xEmrRecallKey)
  let writerMatch ← presents s.writerKey (tokenOf bearer h.xEmrWriterKey)
  if s.isPublicDeployment then return if recallMatch then some .operator else none
  let narrow := if writerMatch then some .writer else if recallMatch then some .recall else none
  match s.configuredApiKey with
  | none =>
    if s.recallKey.isSome || s.writerKey.isSome then return narrow
    return if s.allowUnauthenticated then some .operator else none
  | some ledger =>
    if ← anyPresented ledger [bearer.getD "", stripped h.xApiKey] then return some .operator
    return narrow

def presentedLedgerCandidates (h : Headers) : List String :=
  let bearer := (extractBearer h.authorization).getD ""
  let headerKey := stripped h.xApiKey
  (if bearer = "" then [] else [bearer]) ++ (if headerKey = "" then [] else [headerKey])

def publicPaths : List String :=
  ["/", "/health", "/ready", "/docs", "/openapi.json", "/redoc", "/api/jarvis/tools", "/.well-known/oauth-protected-resource",
    "/.well-known/oauth-protected-resource/mcp", "/privacy", "/terms"]

def ledgerKeyExemptPrefixes : List String := ["/api/jarvis/tools/", "/api/jarvis/rag/", "/mcp"]

def pathIsPublic (path : String) : Bool := publicPaths.contains path

def pathIsLedgerKeyExempt (path : String) : Bool :=
  pathIsPublic path || ledgerKeyExemptPrefixes.any (PyText.startsWith path)

def isToolPath (path : String) : Bool := ["/api/jarvis/tools/", "/mcp"].any (PyText.startsWith path)

inductive Verdict
  | admitted
  | refused (status : ℕ) (detail : String)
deriving DecidableEq

/-- `ApiKeyMiddleware.dispatch`; `tenantBound` where the identity middleware has bound a tenant's own key. -/
def apiKeyMiddleware (s : Settings) (tenantBound : Bool) (method path : String) (h : Headers) : Except Raised Verdict := do
  if s.oauthEnabled || tenantBound then return .admitted
  if method = "OPTIONS" || pathIsLedgerKeyExempt path then return .admitted
  match s.configuredApiKey with
  | some expected =>
    if ← anyEqual expected (presentedLedgerCandidates h) then return .admitted
    return .refused 401 "Invalid or missing API key"
  | none =>
    if s.allowUnauthenticated then return .admitted
    return .refused 401 "API key required. Set JARVIS_API_KEY, or for local dev only set JARVIS_ALLOW_UNAUTHENTICATED=1."

/-- The end of `credential_is_operator`. -/
def carriesLedgerKey (s : Settings) (h : Headers) : Except Raised Bool :=
  match s.configuredApiKey with
  | none => .ok s.allowUnauthenticated
  | some expected => anyEqual expected (presentedLedgerCandidates h)

def credentialIsOperator (s : Settings) (h : Headers) (path : String) : Except Raised Bool := do
  if s.oauthEnabled || PyText.startsWith path "/api/jarvis/rag/" then return false
  let bearer := extractBearer h.authorization
  if isToolPath path then
    if ← presents s.recallKey (tokenOf bearer h.xEmrRecallKey) then return true
    if s.isPublicDeployment then return false
    if ← presents s.writerKey (tokenOf bearer h.xEmrWriterKey) then return true
  carriesLedgerKey s h

/-! ### A deployment by shared keys -/

/-- No public deployment, no opt-out, and no user tokens; the keys are any, each set or not. -/
structure SharedKeys where
  settings : Settings
  private_mode : settings.isPublicDeployment = false
  authenticated : settings.allowUnauthenticated = false
  operator_mode : settings.oauthEnabled = false

def LedgerPath (path : String) : Prop := pathIsLedgerKeyExempt path = false

/-- The values in which a request can show the ledger key. -/
def shown (h : Headers) : List String := [(extractBearer h.authorization).getD "", stripped h.xApiKey]

/-- The three gates answer, and agree. `OPTIONS` is the preflight that carries no credential. -/
structure Agree (c : SharedKeys) (h : Headers) : Prop where
  kind : ∃ kind, credentialKind c.settings h = .ok kind
  identity : ∀ path, ∃ operator, credentialIsOperator c.settings h path = .ok operator
  middleware : ∀ method path, ∃ verdict, apiKeyMiddleware c.settings false method path h = .ok verdict
  tools : ∀ path, isToolPath path = true →
    ((∃ kind, credentialKind c.settings h = .ok (some kind)) ↔ credentialIsOperator c.settings h path = .ok true)
  ledger : ∀ method path, method ≠ "OPTIONS" → LedgerPath path →
    (apiKeyMiddleware c.settings false method path h = .ok .admitted ↔ credentialIsOperator c.settings h path = .ok true)
  withoutKey : (∀ key, c.settings.configuredApiKey = some key → key ∉ shown h) →
    credentialKind c.settings h ≠ .ok (some .operator) ∧ ∀ method path, method ≠ "OPTIONS" → LedgerPath path →
      apiKeyMiddleware c.settings false method path h ≠ .ok .admitted

def recallToken (h : Headers) : String := tokenOf (extractBearer h.authorization) h.xEmrRecallKey
def writerToken (h : Headers) : String := tokenOf (extractBearer h.authorization) h.xEmrWriterKey

/-- A token that is compared with a key is ASCII, and so is the key. -/
def Comparable (key : Option String) (token : String) : Prop :=
  ∀ k, key = some k → token ≠ "" → isAscii token = true ∧ isAscii k = true

/-- Whatever is compared is ASCII. Behind a bearer token that is the ledger key `X-API-Key` is not compared. -/
structure AllAscii (s : Settings) (h : Headers) : Prop where
  recallShown : Comparable s.recallKey (recallToken h)
  writer : Comparable s.writerKey (writerToken h)
  bearer : Comparable s.configuredApiKey ((extractBearer h.authorization).getD "")
  apiKey : s.configuredApiKey ≠ some ((extractBearer h.authorization).getD "") → Comparable s.configuredApiKey (stripped h.xApiKey)

variable {s : Settings} {c : SharedKeys} {h : Headers} {key token : String} {k : Option String}

lemma compareDigest_isOk : (∃ b, compareDigest token key = .ok b) ↔ isAscii token = true ∧ isAscii key = true := by
  rw [compareDigest, ← Bool.and_eq_true]
  split_ifs with hc <;> simp [hc]

lemma presents_isOk : (∃ b, presents k token = .ok b) ↔ Comparable k token := by
  unfold Comparable
  cases k with
  | none => simp [presents]
  | some key =>
    by_cases ht : token = ""
    · simp [presents, ht]
    · rw [presents, if_neg ht, compareDigest_isOk]
      simp [ht]

def keyShown (k : Option String) (token : String) : Bool := token ≠ "" && k == some token

lemma presents_eq (hc : Comparable k token) : presents k token = .ok (keyShown k token) := by
  cases k with
  | none => simp [presents, keyShown]
  | some key =>
    by_cases ht : token = ""
    · simp [presents, keyShown, ht]
    · obtain ⟨htoken, hkey⟩ := hc key rfl ht
      rw [presents, if_neg ht, compareDigest, htoken, hkey, Bool.and_self, if_pos rfl, keyShown, Option.some_beq_some, BEq.comm]
      simp [ht]

lemma keyOf_ne_empty {value : Option String} (h : keyOf value = some key) : key ≠ "" := by
  unfold keyOf at h
  split_ifs at h with hv
  exact Option.some.inj h ▸ hv

lemma anyEqual_filter (tokens : List String) : anyEqual key (tokens.filter (· ≠ "")) = anyPresented key tokens := by
  induction tokens with
  | nil => rfl
  | cons t ts ih =>
    by_cases ht : t = ""
    · rw [List.filter_cons_of_neg (by simp [ht]), ih, anyPresented, presents, if_pos ht]
      rfl
    · rw [List.filter_cons_of_pos (by simp [ht]), anyEqual, ih, anyPresented, presents, if_neg ht]

lemma candidates_eq (h : Headers) : presentedLedgerCandidates h = (shown h).filter (· ≠ "") := by
  unfold presentedLedgerCandidates shown
  by_cases hb : (extractBearer h.authorization).getD "" = "" <;> by_cases hk : stripped h.xApiKey = "" <;> simp [hb, hk]

lemma anyPresented_eq {first second : String} (hkey : key ≠ "") (hc : Comparable (some key) first)
    (hrest : some key ≠ some first → Comparable (some key) second) :
    anyPresented key [first, second] = .ok ([first, second].contains key) := by
  rw [anyPresented, presents_eq hc]
  by_cases hfirst : key = first
  · subst hfirst
    simp [keyShown, hkey, bind, Except.bind, pure, Except.pure]
  · rw [anyPresented, presents_eq (hrest fun heq => hfirst (Option.some.inj heq))]
    by_cases hsecond : key = second
    · subst hsecond
      simp [keyShown, hkey, hfirst, bind, Except.bind, pure, Except.pure]
    · simp [anyPresented, keyShown, hfirst, hsecond, bind, Except.bind]

/-- Where the first of two tokens is the key the second is not compared. -/
lemma comparable_of_anyPresented {first second : String} {b : Bool} (hb : anyPresented key [first, second] = .ok b) :
    Comparable (some key) first ∧ (some key ≠ some first → Comparable (some key) second) := by
  rw [anyPresented] at hb
  obtain ⟨shown, hshown, hb⟩ := Checks.bind_ok hb
  have hc := presents_isOk.mp ⟨_, hshown⟩
  refine ⟨hc, fun hne => ?_⟩
  have hnot : shown = false := by
    obtain rfl := Except.ok.inj ((presents_eq hc).symm.trans hshown)
    simpa [keyShown] using fun _ => fun heq => hne (congrArg some heq)
  rw [hnot, if_neg Bool.false_ne_true, anyPresented] at hb
  obtain ⟨shown', hshown', -⟩ := Checks.bind_ok hb
  exact presents_isOk.mp ⟨_, hshown'⟩

/-! ### What the gates say -/

def ledgerShown (s : Settings) (h : Headers) : Bool := s.configuredApiKey.any fun key => (shown h).contains key

lemma AllAscii.ledger (hc : AllAscii s h) (hkey : s.configuredApiKey = some key) :
    anyPresented key (shown h) = .ok (ledgerShown s h) := by
  have hbearer := hc.bearer
  have hapi := hc.apiKey
  rw [hkey] at hbearer hapi
  rw [shown, anyPresented_eq (keyOf_ne_empty hkey) hbearer hapi, ledgerShown, hkey]
  rfl

lemma AllAscii.candidates (hc : AllAscii s h) (hkey : s.configuredApiKey = some key) :
    anyEqual key (presentedLedgerCandidates h) = .ok (ledgerShown s h) := by
  rw [candidates_eq, anyEqual_filter, hc.ledger hkey]

lemma isSome_of_keyShown (hk : keyShown k token = true) : k.isSome = true := by
  cases k with
  | none => simp [keyShown] at hk
  | some key => rfl

/-- The ledger key wins, then the writer key. -/
def strongest (ledger writer recalled : Bool) : Option Mcp.Credential :=
  if ledger then some .operator else if writer then some .writer else if recalled then some .recall else none

lemma AllAscii.kind (hc : AllAscii c.settings h) : credentialKind c.settings h = .ok (strongest (ledgerShown c.settings h)
    (keyShown c.settings.writerKey (writerToken h)) (keyShown c.settings.recallKey (recallToken h))) := by
  have hrecall := presents_eq hc.recallShown
  have hwriter := presents_eq hc.writer
  have hrecallSet : keyShown c.settings.recallKey (recallToken h) = true → c.settings.recallKey.isSome = true := isSome_of_keyShown
  have hwriterSet : keyShown c.settings.writerKey (writerToken h) = true → c.settings.writerKey.isSome = true := isSome_of_keyShown
  rw [recallToken] at hrecall hrecallSet
  rw [writerToken] at hwriter hwriterSet
  simp only [credentialKind, hrecall, hwriter, c.private_mode, c.authenticated, bind, Except.bind, pure, Except.pure,
    Bool.false_eq_true, if_false, recallToken, writerToken]
  generalize keyShown c.settings.recallKey (tokenOf (extractBearer h.authorization) h.xEmrRecallKey) = recalled at hrecallSet
  generalize keyShown c.settings.writerKey (tokenOf (extractBearer h.authorization) h.xEmrWriterKey) = writer at hwriterSet
  cases hkey : c.settings.configuredApiKey with
  | none =>
    have hshown : ledgerShown c.settings h = false := by rw [ledgerShown, hkey, Option.any_none]
    rw [hshown]
    cases recalled <;> cases writer <;> simp [strongest, hrecallSet, hwriterSet]
  | some key =>
    have hledger := hc.ledger hkey
    rw [shown] at hledger
    simp only [hledger]
    cases ledgerShown c.settings h <;> rfl

lemma AllAscii.carries (hc : AllAscii c.settings h) : carriesLedgerKey c.settings h = .ok (ledgerShown c.settings h) := by
  rw [carriesLedgerKey]
  cases hkey : c.settings.configuredApiKey with
  | none => rw [c.authenticated, ledgerShown, hkey, Option.any_none]
  | some key => exact hc.candidates hkey

lemma AllAscii.identity (hc : AllAscii c.settings h) (path : String) : credentialIsOperator c.settings h path = .ok
    (!PyText.startsWith path "/api/jarvis/rag/" && (isToolPath path && (keyShown c.settings.recallKey (recallToken h) ||
      keyShown c.settings.writerKey (writerToken h)) || ledgerShown c.settings h)) := by
  have hrecall := presents_eq hc.recallShown
  have hwriter := presents_eq hc.writer
  rw [recallToken] at hrecall
  rw [writerToken] at hwriter
  simp only [credentialIsOperator, hrecall, hwriter, hc.carries, c.private_mode, c.operator_mode, Bool.false_or, bind, Except.bind,
    pure, Except.pure, Bool.false_eq_true, if_false, recallToken, writerToken]
  cases PyText.startsWith path "/api/jarvis/rag/" <;> cases isToolPath path <;>
    cases keyShown c.settings.recallKey (tokenOf (extractBearer h.authorization) h.xEmrRecallKey) <;>
    cases keyShown c.settings.writerKey (tokenOf (extractBearer h.authorization) h.xEmrWriterKey) <;> rfl

/-- The gate of a path that the ledger key applies to. -/
lemma AllAscii.gate (hc : AllAscii c.settings h) {method path : String} (hmethod : method ≠ "OPTIONS") (hpath : LedgerPath path) :
    ∃ detail, apiKeyMiddleware c.settings false method path h =
      .ok (if ledgerShown c.settings h then .admitted else .refused 401 detail) := by
  have hexempt : pathIsLedgerKeyExempt path = false := hpath
  simp only [apiKeyMiddleware, c.operator_mode, c.authenticated, hexempt, decide_eq_false hmethod, Bool.or_self, Bool.false_eq_true,
    if_false]
  cases hkey : c.settings.configuredApiKey with
  | none =>
    rw [ledgerShown, hkey, Option.any_none]
    exact ⟨_, rfl⟩
  | some key =>
    simp only [hc.candidates hkey]
    refine ⟨"Invalid or missing API key", ?_⟩
    cases ledgerShown c.settings h <;> rfl

lemma AllAscii.admits_iff (hc : AllAscii c.settings h) {method path : String} (hmethod : method ≠ "OPTIONS")
    (hpath : LedgerPath path) :
    apiKeyMiddleware c.settings false method path h = .ok .admitted ↔ ledgerShown c.settings h = true := by
  obtain ⟨detail, hgate⟩ := hc.gate hmethod hpath
  rw [hgate]
  cases ledgerShown c.settings h <;> simp

lemma LedgerPath.plain {path : String} (hpath : LedgerPath path) :
    PyText.startsWith path "/api/jarvis/rag/" = false ∧ isToolPath path = false := by
  have hexempt : pathIsLedgerKeyExempt path = false := hpath
  simp only [pathIsLedgerKeyExempt, ledgerKeyExemptPrefixes, List.any_cons, List.any_nil, Bool.or_false, Bool.or_eq_false_iff] at hexempt
  obtain ⟨-, htools, hrag, hmcp⟩ := hexempt
  exact ⟨hrag, by simp [isToolPath, htools, hmcp]⟩

/-- The routes of the tools are none of the RAG. -/
lemma rag_of_tool {path : String} (hpath : isToolPath path = true) : PyText.startsWith path "/api/jarvis/rag/" = false := by
  have happart : ∀ start : String, ¬ start.toList <+: "/api/jarvis/rag/".toList → ¬ "/api/jarvis/rag/".toList <+: start.toList →
      PyText.startsWith path start = true → PyText.startsWith path "/api/jarvis/rag/" = false := by
    intro start hleft hright hstart
    rw [Bool.eq_false_iff]
    intro hrag
    rw [PyText.startsWith, List.isPrefixOf_iff_prefix] at hstart hrag
    exact (List.prefix_or_prefix_of_prefix hstart hrag).elim hleft hright
  simp only [isToolPath, List.any_cons, List.any_nil, Bool.or_false, Bool.or_eq_true] at hpath
  rcases hpath with hpath | hpath
  · exact happart _ (by decide) (by decide) hpath
  · exact happart _ (by decide) (by decide) hpath

/-- The gate of the tools answers only where all that it compares is ASCII. -/
lemma ascii_of_kind {kind : Option Mcp.Credential} (hkind : credentialKind c.settings h = .ok kind) : AllAscii c.settings h := by
  rw [credentialKind] at hkind
  obtain ⟨recalled, hrecall, hkind⟩ := Checks.bind_ok hkind
  obtain ⟨writer, hwriter, hkind⟩ := Checks.bind_ok hkind
  rw [c.private_mode, if_neg Bool.false_ne_true] at hkind
  have hledger : Comparable c.settings.configuredApiKey ((extractBearer h.authorization).getD "") ∧
      (c.settings.configuredApiKey ≠ some ((extractBearer h.authorization).getD "") →
        Comparable c.settings.configuredApiKey (stripped h.xApiKey)) := by
    cases hkey : c.settings.configuredApiKey with
    | none => exact ⟨fun k hk => (Option.some_ne_none k hk.symm).elim, fun _ k hk => (Option.some_ne_none k hk.symm).elim⟩
    | some key =>
      rw [hkey] at hkind
      obtain ⟨shown, hshown, -⟩ := Checks.bind_ok hkind
      exact comparable_of_anyPresented hshown
  exact ⟨presents_isOk.mp ⟨_, hrecall⟩, presents_isOk.mp ⟨_, hwriter⟩, hledger.1, hledger.2⟩

/-- The gates of a deployment by shared keys answer, and agree, where all that is compared is ASCII, and only there. -/
theorem credentials_agree (c : SharedKeys) (h : Headers) : Agree c h ↔ AllAscii c.settings h := by
  constructor
  · intro hagree
    obtain ⟨kind, hkind⟩ := hagree.kind
    exact ascii_of_kind hkind
  intro hc
  refine ⟨⟨_, hc.kind⟩, fun path => ⟨_, hc.identity path⟩, fun method path => ?_, fun path hpath => ?_, fun method path hmethod hpath => ?_,
    fun hwithout => ?_⟩
  · by_cases hfree : method = "OPTIONS" ∨ pathIsLedgerKeyExempt path = true
    · refine ⟨.admitted, ?_⟩
      simp only [apiKeyMiddleware, c.operator_mode, Bool.or_self, Bool.false_eq_true, if_false]
      rw [if_pos (by simpa using hfree)]
      rfl
    · obtain ⟨hmethod, hpath⟩ := not_or.mp hfree
      obtain ⟨detail, hgate⟩ := hc.gate hmethod (Bool.eq_false_iff.mpr hpath)
      exact ⟨_, hgate⟩
  · rw [hc.kind, hc.identity path, rag_of_tool hpath, hpath]
    cases ledgerShown c.settings h <;> cases keyShown c.settings.writerKey (writerToken h) <;>
      cases keyShown c.settings.recallKey (recallToken h) <;> simp [strongest]
  · obtain ⟨hrag, htool⟩ := hpath.plain
    rw [hc.admits_iff hmethod hpath, hc.identity path, hrag, htool]
    simp
  · have hshown : ledgerShown c.settings h = false := by
      cases hkey : c.settings.configuredApiKey with
      | none => rw [ledgerShown, hkey, Option.any_none]
      | some key => simpa [ledgerShown, hkey] using hwithout key hkey
    refine ⟨?_, fun method path hmethod hpath => ?_⟩
    · rw [hc.kind, hshown]
      cases keyShown c.settings.writerKey (writerToken h) <;> cases keyShown c.settings.recallKey (recallToken h) <;> simp [strongest]
    · rw [ne_eq, hc.admits_iff hmethod hpath, hshown]
      exact Bool.false_ne_true

/-- The ledger key alone is set. -/
def ledgerOnly : SharedKeys where
  settings := ⟨some "ledger-key-0123456789abcdef01234", none, none, none, none, none⟩
  private_mode := by decide
  authenticated := by decide
  operator_mode := by decide

/-- A token that is not ASCII ends in an exception, not in a refusal. -/
theorem nonAscii_raises : ¬ Agree ledgerOnly ⟨some "Bearer \u00e9", none, none, none⟩ := by
  intro hagree
  obtain ⟨kind, hkind⟩ := hagree.kind
  have hraised : credentialKind ledgerOnly.settings ⟨some "Bearer \u00e9", none, none, none⟩ = .error .typeError := by decide
  exact absurd (hkind.symm.trans hraised) (by simp)

end ContinuityLedger.Access
