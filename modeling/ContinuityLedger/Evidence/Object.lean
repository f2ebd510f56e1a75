import ContinuityLedger.Foundations.Checks
import ContinuityLedger.Foundations.JsonBytes

/-! Evidence objects: their canonical bytes, the id that is the hash of these, the minimal local CES schemas, and the
checks of a stored object. -/

namespace ContinuityLedger.Evidence

open Foundations Foundations.Sha256

/-- What the interpreter decides beside JSON: which texts `fromisoformat` reads, `repr`, and the text of a `ValueError`
that serialising raises. -/
structure Runtime extends Python where
  isoformat : PyStr → Bool
  repr : String → PyStr
  valueErrorText : Json → PyStr

inductive Exn
  | value
  | type
  | recursion
deriving DecidableEq

abbrev Payload := Dict PyStr Json

structure EvidenceObject where
  id : String
  schemaId : String
  payload : Payload
  pointer : Option Payload
  sizeBytes : ℕ
  createdAt : String
  createdBy : String

structure EvidenceObjectCreate where
  schemaId : String
  payload : Payload
  pointer : Option Payload
  sourceAgent : String
  id : Option String

def idPrefix : String := "eo:sha256:"
def cesDecision : String := "CES.Local.DecisionEvidence.v1"
def cesFact : String := "CES.Local.FactEvidence.v1"
def cesReplayReceipt : String := "CES.Local.ReplayReceipt.v1"
def knownSchemas : List String := [cesDecision, cesFact, cesReplayReceipt]

/-- In sorted order. -/
def factMethods : List String :=
  ["command", "commit", "doc", "document", "file", "issue", "log", "pr", "receipt", "test", "url"]

/-- `^eo:sha256:[0-9a-f]{64}$`. -/
def matchesId (s : String) : Bool :=
  PyText.startsWith s idPrefix && PyText.matchesHex64 (String.ofList (s.toList.drop idPrefix.length))

def text (s : String) : PyStr := PyStr.ofString s

def commaList (xs : List PyStr) : PyStr := (text ", ").intercalate xs

/-! ### Canonical form -/

def maxDepth : ℕ := 8
def maxNodes : ℕ := 2000

/-- The values counted so far, and the problems. -/
structure Walked where
  counter : ℕ
  problems : List PyStr

def Walked.report (w : Walked) (problem : PyStr) : Walked := { w with problems := w.problems ++ [problem] }

def limits (w : Walked) (depth : ℕ) (path : PyStr) : Option Walked :=
  if maxNodes < w.counter then some (w.report (text "payload has too many values"))
  else if maxDepth < depth then some (w.report (path ++ text (": nested too deeply (limit " ++ toString maxDepth ++ ")")))
  else none

mutual

def walk (value : Json) (depth : ℕ) (path : PyStr) (before : Walked) : Walked :=
  let w := { before with counter := before.counter + 1 }
  (limits w depth path).getD <|
    match value with
    | .float t =>
      w.report (path ++ text (": " ++ (if Json.nonFinite t then "NaN/Infinity" else "a floating-point number") ++
        " is not allowed (use a string or an integer so the hash is stable)"))
    | .arr items => walkItems items 0 (depth + 1) path w
    | .obj members => walkMembers members (depth + 1) path w
    | _ => w

def walkItems (items : List Json) (i depth : ℕ) (path : PyStr) (w : Walked) : Walked :=
  match items with
  | [] => w
  | j :: js => walkItems js (i + 1) depth path (walk j depth (path ++ text ("[" ++ toString i ++ "]")) w)

def walkMembers (members : List (PyStr × Json)) (depth : ℕ) (path : PyStr) (w : Walked) : Walked :=
  match members with
  | [] => w
  | (k, j) :: ms => walkMembers ms depth path (walk j depth (path ++ text "." ++ k) w)

end

def walkProblems (payload : Payload) (name : String) : List PyStr := (walk (.obj payload) 0 (text name) ⟨0, []⟩).problems

def envelope (schemaId : String) (payload : Payload) (pointer : Option Payload) : Json :=
  .obj ([(text "schema_id", .str (text schemaId)), (text "payload", .obj payload)] ++
    (pointer.map fun p => (text "pointer", Json.obj p)).toList)

/-- With `allow_nan=False`; an `UnicodeEncodeError` is a `ValueError` too. -/
def canonicalBytes (py : Python) (schemaId : String) (payload : Payload) (pointer : Option Payload) :
    Except Exn Bytes :=
  if !Json.finite (envelope schemaId payload pointer) then .error .value else
  match Json.dumps py (envelope schemaId payload pointer) with
  | .error .recursion => .error .recursion
  | .error _ => .error .value
  | .ok s => match s.encode with
    | none => .error .value
    | some data => .ok data

def objectId (py : Python) (schemaId : String) (payload : Payload) (pointer : Option Payload) : Except Exn String :=
  (canonicalBytes py schemaId payload pointer).map fun data => idPrefix ++ (hexdigest data).text

/-! ### The minimal local CES -/

/-- `value.replace("Z", "+00:00")`. -/
def zoned (s : PyStr) : PyStr := s.flatMap fun p => if p = .scalar 'Z' then text "+00:00" else [p]

def isIso (rt : Runtime) : Json → Bool
  | .str s => s ≠ [] && rt.isoformat (zoned s)
  | _ => false

/-- `not value.strip()`. -/
def blank (s : PyStr) : Bool := s.all fun p => match p with
  | .scalar c => PyText.isspace c
  | .surrogate _ => false

/-- `payload.get(key)`, where a missing key and `null` look alike. -/
def field (payload : Payload) (key : String) : Option Json :=
  match Dict.get payload (text key) with
  | none | some .null => none
  | some j => some j

def textProblems (payload : Payload) (key : String) (limit : ℕ) (required : Bool) : List PyStr :=
  match field payload key with
  | none => if required then [text ("payload." ++ key ++ " is required")] else []
  | some (.str s) =>
    if blank s then [text ("payload." ++ key ++ " must be a non-empty string")]
    else if limit < s.length then [text ("payload." ++ key ++ " is longer than " ++ toString limit ++ " characters")]
    else []
  | some _ => [text ("payload." ++ key ++ " must be a non-empty string")]

def isoProblems (rt : Runtime) (payload : Payload) (key : String) : List PyStr :=
  match Dict.get payload (text key) with
  | none => []
  | some j => if isIso rt j then [] else [text ("payload." ++ key ++ " must be an ISO-8601 timestamp")]

/-- Asking whether a list or a dict is in a set raises. -/
def methodProblems (payload : Payload) : Except Exn (List PyStr) :=
  match field payload "method" with
  | none => .ok [text "payload.method is required"]
  | some (.arr _) => .error .type
  | some (.obj _) => .error .type
  | some (.str s) =>
    .ok (if s ∈ factMethods.map text then []
      else [text "payload.method must be one of: " ++ commaList (factMethods.map text)])
  | some _ => .ok [text "payload.method must be one of: " ++ commaList (factMethods.map text)]

def integerProblems (payload : Payload) (key : String) (floor : ℤ) : List PyStr :=
  match Dict.get payload (text key) with
  | some (.int n) =>
    if floor ≤ n then [] else [text ("payload." ++ key ++ " must be an integer of at least " ++ toString floor)]
  | _ => [text ("payload." ++ key ++ " must be an integer of at least " ++ toString floor)]

def characters : PyStr → Option (List Char)
  | [] => some []
  | .scalar c :: s => (characters s).map (c :: ·)
  | .surrogate _ :: _ => none

def isHexText : Json → Bool
  | .str s => (characters s).any fun cs => PyText.matchesHex64 (String.ofList cs)
  | _ => false

def hexProblems (payload : Payload) (key : String) : List PyStr :=
  if (Dict.get payload (text key)).any isHexText then []
  else [text ("payload." ++ key ++ " must be 64 lowercase hex characters")]

def sortedKeys (payload : Payload) (known : List String) : List PyStr :=
  ((payload.map Prod.fst).filter fun k => k ∉ known.map text).mergeSort fun a b => a.map PyStr.code ≤ b.map PyStr.code

def receiptFields : List String :=
  ["contract", "contract_version", "tenant", "at_seq", "block_height", "block_hash", "state_root", "record_count",
    "deleted_count"]

def extraProblems (payload : Payload) : List PyStr :=
  let extra := sortedKeys payload receiptFields
  if extra = [] then [] else [text "payload has fields a receipt does not have: " ++ commaList extra]

def validatePayload (rt : Runtime) (schemaId : String) (payload : Payload) : Except Exn (List PyStr) :=
  if schemaId = cesDecision then
    .ok (textProblems payload "statement" 4000 true ++ textProblems payload "authority" 200 true ++
      textProblems payload "source" 1000 true ++ isoProblems rt payload "decided_at")
  else if schemaId = cesFact then do
    let method ← methodProblems payload
    pure (textProblems payload "observation" 4000 true ++ textProblems payload "source" 1000 true ++
      textProblems payload "excerpt" 4000 false ++ method ++ isoProblems rt payload "observed_at")
  else if schemaId = cesReplayReceipt then
    .ok (textProblems payload "contract" 64 true ++ textProblems payload "tenant" 128 true ++
      integerProblems payload "contract_version" 1 ++ integerProblems payload "at_seq" 0 ++
      integerProblems payload "block_height" 1 ++ integerProblems payload "record_count" 0 ++
      integerProblems payload "deleted_count" 0 ++ hexProblems payload "block_hash" ++
      hexProblems payload "state_root" ++ extraProblems payload)
  else .ok [text "unknown schema_id " ++ rt.repr schemaId]

def validatePointer (pointer : Payload) : List PyStr :=
  (sortedKeys pointer ["uri", "sha256", "size_bytes", "media_type"]).map
    (fun k => text "pointer." ++ k ++ text " is not allowed") ++
  (match Dict.get pointer (text "uri") with
    | some (.str s) => if 1 ≤ s.length ∧ s.length ≤ 1000 then [] else [text "pointer.uri must be a string of 1 to 1000 characters"]
    | _ => [text "pointer.uri must be a string of 1 to 1000 characters"]) ++
  (if (Dict.get pointer (text "sha256")).any isHexText then []
    else [text "pointer.sha256 must be 64 lowercase hex characters (the hash of the external content)"]) ++
  (match Dict.get pointer (text "size_bytes") with
    | some (.int n) => if 0 ≤ n then [] else [text "pointer.size_bytes must be an integer >= 0"]
    | _ => [text "pointer.size_bytes must be an integer >= 0"]) ++
  (match field pointer "media_type" with
    | none => []
    | some (.str s) =>
      if s.length ≤ 200 then [] else [text "pointer.media_type must be a string of at most 200 characters"]
    | some _ => [text "pointer.media_type must be a string of at most 200 characters"])

/-! ### Creating and checking -/

def inlineLimitBytes : ℕ := 64 * 1024

structure Reason where
  code : String
  ref : Option String
  message : PyStr
deriving DecidableEq

structure EvidenceError where
  code : String
  message : PyStr
  reasons : List Reason
  status : ℕ
deriving DecidableEq

/-- A refusal, or an exception that nothing here catches. -/
inductive Refusal
  | evidence (e : EvidenceError)
  | raised (e : Exn)
deriving DecidableEq

def problemReasons (problems : List PyStr) : List Reason := problems.map fun p => ⟨"evidence_payload_invalid", none, p⟩

def refuseIf (c : Prop) [Decidable c] (e : EvidenceError) : Except Refusal Unit :=
  if c then .error (.evidence e) else .ok ()

def walkAll (req : EvidenceObjectCreate) : List PyStr :=
  let problems := walkProblems req.payload "payload"
  match req.pointer with
  | none => problems
  | some p => (walk (.obj p) 0 (text "pointer") ⟨0, problems⟩).problems

def buildObject (rt : Runtime) (req : EvidenceObjectCreate) : Except Refusal (String × Bytes) := do
  refuseIf (req.schemaId ∉ knownSchemas) ⟨"evidence_schema_unknown", text "unknown schema_id " ++ rt.repr req.schemaId ++
    text "; known: " ++ commaList (knownSchemas.map text), [], 422⟩
  refuseIf (walkAll req ≠ []) ⟨"evidence_payload_invalid", text "the payload cannot be hashed stably",
    problemReasons (walkAll req), 422⟩
  let schema ← (validatePayload rt req.schemaId req.payload).mapError Refusal.raised
  let problems := schema ++ (req.pointer.map validatePointer).getD []
  refuseIf (problems ≠ []) ⟨"evidence_payload_invalid", text ("the payload does not satisfy " ++ req.schemaId),
    problemReasons problems, 422⟩
  let data ← (canonicalBytes rt.toPython req.schemaId req.payload req.pointer).mapError Refusal.raised
  refuseIf (inlineLimitBytes < data.length) ⟨"evidence_too_large", text ("the evidence is " ++ toString data.length ++
    " bytes; the inline limit is " ++ toString inlineLimitBytes ++ ". Record large content as a pointer: keep the " ++
    "description in the payload and give pointer.uri, pointer.sha256 and pointer.size_bytes."), [], 413⟩
  let oid := idPrefix ++ (hexdigest data).text
  refuseIf (req.id.any (· ≠ oid)) ⟨"evidence_hash_mismatch", text "the id you supplied is not the hash of this content",
    [⟨"evidence_hash_mismatch", none, text ("expected " ++ oid)⟩], 422⟩
  return (oid, data)

/-- The problems of a stored object. -/
def verifyStored (rt : Runtime) (obj : EvidenceObject) : Except Exn (List PyStr) :=
  if !matchesId obj.id then .ok [text "the id is not of the form eo:sha256:<64 hex>"] else
  let walked := walkProblems obj.payload "payload"
  if walked ≠ [] then
    .ok [text "the stored payload cannot be canonicalised: " ++ (text "; ").intercalate walked] else
  match objectId rt.toPython obj.schemaId obj.payload obj.pointer with
  | .error .recursion => .error .recursion
  | .error _ =>
    .ok [text "the stored content cannot be canonicalised (" ++
      rt.valueErrorText (envelope obj.schemaId obj.payload obj.pointer) ++ text ")"]
  | .ok recomputed => do
    let schema ← validatePayload rt obj.schemaId obj.payload
    pure ((if recomputed ≠ obj.id then
        [text ("hash mismatch: the content hashes to " ++ recomputed ++ ", not " ++ obj.id)] else []) ++
      schema.map (text "schema: " ++ ·) ++
      ((obj.pointer.map validatePointer).getD []).map (text "schema: " ++ ·))

/-! ### What is created verifies -/

lemma hexdigest_matchesId (data : Bytes) : matchesId (idPrefix ++ (hexdigest data).text) = true := by
  have hstart : PyText.startsWith (idPrefix ++ (hexdigest data).text) idPrefix = true := by
    simp [PyText.startsWith]
  have hrest : String.ofList ((idPrefix ++ (hexdigest data).text).toList.drop idPrefix.length) = (hexdigest data).text := by
    simp [← String.length_toList]
  rw [matchesId, hstart, hrest, PyText.matchesHex64, (hexdigest data).valid]
  rfl

lemma limits_isPrefix {w walked : Walked} {depth : ℕ} {path : PyStr} (h : w.problems <+: walked.problems) :
    w.problems <+: ((limits w depth path).getD walked).problems := by
  rw [limits]
  split_ifs
  · exact List.prefix_append _ _
  · exact List.prefix_append _ _
  · exact h

mutual

/-- Walking only adds problems. -/
lemma walk_isPrefix (value : Json) (depth : ℕ) (path : PyStr) (w : Walked) :
    w.problems <+: (walk value depth path w).problems := by
  cases value with
  | float t => rw [walk]; exact limits_isPrefix (w := { w with counter := w.counter + 1 }) (List.prefix_append _ _)
  | arr items =>
    rw [walk]
    exact limits_isPrefix (w := { w with counter := w.counter + 1 }) (walkItems_isPrefix items 0 (depth + 1) path _)
  | obj members =>
    rw [walk]
    exact limits_isPrefix (w := { w with counter := w.counter + 1 }) (walkMembers_isPrefix members (depth + 1) path _)
  | _ => rw [walk] <;> first | exact limits_isPrefix (w := { w with counter := w.counter + 1 }) List.prefix_rfl | simp

lemma walkItems_isPrefix (items : List Json) (i depth : ℕ) (path : PyStr) (w : Walked) :
    w.problems <+: (walkItems items i depth path w).problems := by
  cases items with
  | nil => exact List.prefix_rfl
  | cons j js =>
    rw [walkItems]
    exact (walk_isPrefix j depth _ w).trans (walkItems_isPrefix js (i + 1) depth path _)

lemma walkMembers_isPrefix (members : List (PyStr × Json)) (depth : ℕ) (path : PyStr) (w : Walked) :
    w.problems <+: (walkMembers members depth path w).problems := by
  match members with
  | [] => exact List.prefix_rfl
  | (k, j) :: ms =>
    rw [walkMembers]
    exact (walk_isPrefix j depth _ w).trans (walkMembers_isPrefix ms depth path _)

end

lemma refuseIf_ok {c : Prop} [Decidable c] {e : EvidenceError} {u : Unit} (h : refuseIf c e = .ok u) : ¬c := by
  intro hc
  rw [refuseIf, if_pos hc] at h
  cases h

lemma mapError_ok {α : Type} {x : Except Exn α} {a : α} (h : x.mapError Refusal.raised = .ok a) : x = .ok a := by
  cases x with
  | error e => cases h
  | ok b => rw [Except.ok.inj h]

lemma walkAll_payload {req : EvidenceObjectCreate} (h : walkAll req = []) : walkProblems req.payload "payload" = [] := by
  rw [walkAll] at h
  cases hp : req.pointer with
  | none => simpa [hp] using h
  | some p =>
    simp only [hp] at h
    exact List.prefix_nil.mp (h ▸ walk_isPrefix (.obj p) 0 (text "pointer") ⟨0, walkProblems req.payload "payload"⟩)

lemma verifyStored_nil {rt : Runtime} {obj : EvidenceObject} (hid : matchesId obj.id = true)
    (hwalk : walkProblems obj.payload "payload" = [])
    (hobj : objectId rt.toPython obj.schemaId obj.payload obj.pointer = .ok obj.id)
    (hschema : validatePayload rt obj.schemaId obj.payload = .ok [])
    (hpointer : (obj.pointer.map validatePointer).getD [] = []) : verifyStored rt obj = .ok [] := by
  rw [verifyStored, if_neg (by simp [hid]), if_neg (not_not.mpr hwalk), hobj]
  simp [hschema, hpointer, bind, Except.bind, pure, Except.pure]

/-- An object that is stored as it was built has no problem. -/
lemma buildObject_verified {rt : Runtime} {req : EvidenceObjectCreate} {oid : String} {data : Bytes}
    (h : buildObject rt req = .ok (oid, data)) {obj : EvidenceObject} (hid : obj.id = oid)
    (hschema : obj.schemaId = req.schemaId) (hpayload : obj.payload = req.payload) (hpointer : obj.pointer = req.pointer) :
    verifyStored rt obj = .ok [] := by
  obtain ⟨-, -, h⟩ := Checks.bind_ok h
  obtain ⟨_, hwalk, h⟩ := Checks.bind_ok h
  obtain ⟨schema, hvalid, h⟩ := Checks.bind_ok h
  obtain ⟨_, hproblems, h⟩ := Checks.bind_ok h
  obtain ⟨bytes, hbytes, h⟩ := Checks.bind_ok h
  obtain ⟨-, -, h⟩ := Checks.bind_ok h
  obtain ⟨-, -, h⟩ := Checks.bind_ok h
  obtain ⟨rfl, rfl⟩ := Prod.mk.inj (Except.ok.inj h)
  obtain ⟨hnone, hptr⟩ := List.append_eq_nil_iff.mp (not_not.mp (refuseIf_ok hproblems))
  subst hnone
  apply verifyStored_nil
  · rw [hid]
    exact hexdigest_matchesId bytes
  · rw [hpayload]
    exact walkAll_payload (not_not.mp (refuseIf_ok hwalk))
  · rw [hschema, hpayload, hpointer, hid, objectId, mapError_ok hbytes]
    rfl
  · rw [hschema, hpayload]
    exact mapError_ok hvalid
  · rw [hpointer]
    exact hptr

/-! ### The store -/

def getEvidenceObject (objects : List EvidenceObject) (oid : String) : Option EvidenceObject :=
  KeyedTable.row EvidenceObject.id oid objects

/-- The same content is the same id: an object that is there stays as it is. -/
def putEvidenceObject (rt : Runtime) (now : String) (objects : List EvidenceObject) (req : EvidenceObjectCreate) :
    Except Refusal (EvidenceObject × Bool × List EvidenceObject) := do
  let (oid, data) ← buildObject rt req
  match getEvidenceObject objects oid with
  | some obj => return (obj, false, objects)
  | none =>
    let obj : EvidenceObject := ⟨oid, req.schemaId, req.payload, req.pointer, data.length, now, req.sourceAgent⟩
    return (obj, true, objects ++ [obj])

end ContinuityLedger.Evidence
