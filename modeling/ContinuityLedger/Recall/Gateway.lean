import ContinuityLedger.Recall.Retrieve
import ContinuityLedger.Recall.Summary

/-! The governed writes of agents: what is refused, and the records that a remember or an upsert makes. -/

namespace ContinuityLedger.Recall

open Foundations Records Ledger Evidence

structure EmrRememberRequest where
  content : String
  sourceAgent : String
  sessionId : String
  type : MemoryType
  subject : Option String
  tags : List String
  evidence : List EvidenceLink
  confidence : Jsonb.Decimal
  userRequested : Bool
  userStatement : Option String
  status : Option String

structure EmrUpsertRequest where
  id : String
  content : String
  supersedes : Option String
  sourceAgent : String
  sessionId : Option String
  type : Option MemoryType
  subject : Option String
  tags : Option (List String)
  evidence : Option (List EvidenceLink)
  confidence : Option Jsonb.Decimal
  userRequested : Bool
  userStatement : Option String
  status : Option String

structure ConflictNote where
  subject : String
  memoryIds : List String
  unresolved : Bool

/-- The provenance is the record's own fields and the id of what was archived for it. -/
structure EmrWriteResponse where
  accepted : Bool
  refuseReason : Option String
  refuseDetail : Option String
  memory : Option (MemoryRecord String)
  supersededTargetArchived : Option String
  conflicts : List ConflictNote

/-- What the gateway asks of its surroundings: two settings, the matches of two patterns in a text, `repr`, `round(v, 4)`
and the texts of errors raised elsewhere. -/
structure Gateway where
  writeEnabled : Bool
  fixedSourceAgent : Option String
  transcriptMarkers : String → Bool
  speakerHits : String → ℕ
  repr : String → String
  roundConfidence : Jsonb.Decimal → Jsonb.Decimal
  validationText : MemoryCreate → String
  raisedText : String

/-- `_refuse`. -/
def refuse (reason detail : String) (conflicts : List ConflictNote) : EmrWriteResponse :=
  ⟨false, some reason, some detail, none, none, conflicts⟩

def acceptedResponse (rec : MemoryRecord String) (archived : Option String) : EmrWriteResponse :=
  ⟨true, none, none, some rec, archived, []⟩

def normalizeContent (text : String) : String :=
  String.ofList (collapse false (PyText.lower (PyText.strip text)).toList)

/-- `_looks_like_transcript`. -/
def looksLikeTranscript (g : Gateway) (content : String) : Bool :=
  (1800 < content.length && 12 ≤ content.toList.count '\n') || g.transcriptMarkers content || 3 ≤ g.speakerHits content

def defaultFixedSourceAgent : String := "user-requested-mcp"

def agentChar (c : Char) : Bool :=
  ('A' ≤ c && c ≤ 'Z') || ('a' ≤ c && c ≤ 'z') || ('0' ≤ c && c ≤ '9') || c ∈ ['.', '_', ':', '@', '+', '/', '-']

def trustRoots : List String := ["operator", "governance", "verified", "admin", "root", "stm", "llm"]

/-- `_resolve_source_agent`. -/
def resolveSourceAgent (g : Gateway) (requested : String) : String :=
  let fixed := PyText.strip (g.fixedSourceAgent.getD "")
  let cleaned := PyText.strip requested
  if fixed ≠ "" then PyText.first 128 fixed
  else if ¬ (1 ≤ cleaned.length ∧ cleaned.length ≤ 128 ∧ cleaned.toList.all agentChar = true) then defaultFixedSourceAgent
  else if PyText.lower cleaned ∈ trustRoots then defaultFixedSourceAgent
  else if PyText.startsWith cleaned "mcp:" = true ∨ cleaned = defaultFixedSourceAgent then cleaned
  else PyText.first 128 ("mcp:" ++ cleaned)

lemma length_first (n : ℕ) (s : String) : (PyText.first n s).length ≤ n := by
  rw [PyText.first, String.length_ofList, List.length_take]
  exact Nat.min_le_left n s.toList.length

def statementRef (digest : String) : String := "user-statement-sha256:" ++ PyText.first 24 digest

lemma statementRef_length (digest : String) : 1 ≤ (statementRef digest).length ∧ (statementRef digest).length ≤ 1000 := by
  have h := length_first 24 digest
  have hlen : (statementRef digest).length = 22 + (PyText.first 24 digest).length := String.length_append _ _
  constructor
  · rw [hlen]
    exact Nat.le_add_right_of_le (by decide)
  · rw [hlen]
    exact (Nat.add_le_add_left h 22).trans (by decide)

def statementLink (statement : String) : EvidenceLink where
  kind := "user-request"
  ref := statementRef (Sha256.sha256Hex (PyText.strip statement)).text
  note := PyText.first 500 (PyText.strip statement)
  refLength := statementRef_length _
  noteLength := length_first 500 (PyText.strip statement)

/-- `_evidence_with_user_statement`. -/
def evidenceWithUserStatement (evidence : List EvidenceLink) (userStatement : Option String) : List EvidenceLink :=
  evidence ++ ((userStatement.filter fun s => PyText.strip s ≠ "").map statementLink).toList

/-- `_gate_common`. -/
def gateCommon (g : Gateway) (userRequested : Bool) (content : String) (status : Option String) (requireWriteFlag : Bool) :
    Option EmrWriteResponse :=
  if requireWriteFlag ∧ ¬ g.writeEnabled then
    some (refuse "mcp-write-disabled" ("JARVIS_MCP_WRITE_ENABLED is not true — MCP/tool writes are recall-only on this " ++
      "deployment") [])
  else if ¬ userRequested then
    some (refuse "user-intent-required" ("user_requested must be true (explicit user intent). Hosts should also " ++
      "requireApproval.") [])
  else
    match status.filter (· ≠ "draft") with
    | some s => some (refuse "authority-invalid" ("MCP writes are draft-only; refusing status=" ++ g.repr s) [])
    | none =>
      if (normalizeContent content).length < 8 then
        some (refuse "unsupported-content" "Content too short after normalization" [])
      else if looksLikeTranscript g content then
        some (refuse "clause-v-transcript-dump" ("Content looks like a chat transcript dump (Clause V) — store " ++
          "decisions/evidence only") [])
      else none

variable (contentSha256 : String → String)

/-- An open peer with another claim. -/
def peerBlock (g : Gateway) (memories : List (MemoryRecord String)) (subject newHash : String) (supersedingIds : List String) :
    Option EmrWriteResponse :=
  let peers := (listMemories memories { cohortCall with subject := some subject }).filter fun m =>
    m.id ∉ supersedingIds && m.status ≠ .archived
  let superseded := (listMemories memories cohortCall).filterMap fun m =>
    if m.status ≠ .archived then target m.supersedes else none
  let activePeers := peers.filter fun m => m.id ∉ superseded
  let distinct := (activePeers.map (claimHash contentSha256)).dedup
  if activePeers ≠ [] ∧ newHash ∉ distinct ∧ 1 ≤ distinct.length then
    some (refuse "conflict-membrane" ("Subject " ++ g.repr subject ++ " already has active claim(s); supersede via " ++
      "emr_upsert instead of co-admitting") [⟨subject, activePeers.map (·.id), true⟩])
  else none

/-- `_subject_conflict_block`. -/
def subjectConflictBlock (g : Gateway) (memories : List (MemoryRecord String)) (subject : Option String) (newHash : String)
    (supersedingIds : List String) : Option EmrWriteResponse :=
  match target subject with
  | none => none
  | some subject =>
    let conflicts := detectConflicts contentSha256 (listMemories memories cohortCall) (some subject)
    let openConflicts := conflicts.filter (·.unresolved)
    if openConflicts.isEmpty then peerBlock contentSha256 g memories subject newHash supersedingIds
    else
      (openConflicts.find? fun c => ¬ c.memories.all fun m => m.id ∈ supersedingIds).map fun c =>
        refuse "conflict-membrane" ("Unresolved conflict under subject " ++ g.repr subject ++
          "; supersede conflicting ids explicitly") [⟨c.subject, c.memories.map (·.id), true⟩]

def createValid (data : MemoryCreate) : Bool :=
  1 ≤ data.content.length && data.content.length ≤ 2000 && 1 ≤ data.sourceAgent.length && data.sourceAgent.length ≤ 128 &&
    1 ≤ data.sessionId.length && data.sessionId.length ≤ 128 && 0 ≤ data.confidence.coefficient &&
    data.confidence.coefficient ≤ 10 ^ data.confidence.scale && (data.supersedes.all fun s => s.length ≤ 64) &&
    data.subject.all fun s => s.length ≤ 256

/-- `MemoryCreate(...)`. -/
def memoryCreate (g : Gateway) (data : MemoryCreate) : Except StoreError MemoryCreate :=
  if createValid data then .ok { data with confidence := g.roundConfidence data.confidence }
  else .error (.value (g.validationText data))

/-- A `ValueError` and a Clause V refusal are answers; what else is raised passes through. -/
def caught (g : Gateway) : StoreError → Except StoreError EmrWriteResponse
  | .value message => .ok (refuse "ambiguous-write" message [])
  | .evidence (.raised .value) => .ok (refuse "ambiguous-write" g.raisedText [])
  | .clauseV reasons => .ok (refuse "clause-v-violation" ("Clause V: the ledger stores evidence, not memory. " ++
      "; ".intercalate (reasons.map (·.code))) [])
  | e => .error e

/-- What the checks come to: an answer, or what is to be written. -/
inductive WritePlan
  | answer (r : EmrWriteResponse)
  | create (data : MemoryCreate)

/-- A live record of the subject with the same claim. -/
def sameClaim (memories : List (MemoryRecord String)) (subject : Option String) (newHash : String) :
    Option (MemoryRecord String) :=
  (target subject).bind fun s =>
    (listMemories memories { cohortCall with subject := some s }).find? fun m => claimHash contentSha256 m = newHash

def planRemember (g : Gateway) (memories : List (MemoryRecord String)) (req : EmrRememberRequest) (requireWriteFlag : Bool) :
    WritePlan :=
  match gateCommon g req.userRequested req.content req.status requireWriteFlag with
  | some blocked => .answer blocked
  | none =>
    match subjectConflictBlock contentSha256 g memories req.subject (contentSha256 req.content) [] with
    | some conflict => .answer conflict
    | none =>
      match sameClaim contentSha256 memories req.subject (contentSha256 req.content) with
      | some existing => .answer (acceptedResponse existing none)
      | none => .create
        { content := req.content
          sourceAgent := resolveSourceAgent g req.sourceAgent
          sessionId := req.sessionId
          type := req.type
          confidence := req.confidence
          evidence := evidenceWithUserStatement req.evidence req.userStatement
          supersedes := none
          status := .draft
          subject := req.subject
          tags := req.tags }

/-- `emr_remember`. -/
def emrRemember (g : Gateway) (sur : JarvisStore.Surroundings) (resolve : Resolver) (memories : List (MemoryRecord String))
    (req : EmrRememberRequest) (requireWriteFlag : Bool) : Except StoreError EmrWriteResponse × List (MemoryRecord String) :=
  match planRemember contentSha256 g memories req requireWriteFlag with
  | .answer r => (.ok r, memories)
  | .create data =>
    match memoryCreate g data with
    | .error e => (caught g e, memories)
    | .ok data =>
      match JarvisStore.createMemory contentSha256 sur resolve memories data with
      | (.error e, after) => (caught g e, after)
      | (.ok rec, after) => (.ok (acceptedResponse rec none), after)

/-- `a or b`. -/
def orElse (a : Option String) (b : String) : String := (target a).getD b

def planUpsert (g : Gateway) (memories : List (MemoryRecord String)) (req : EmrUpsertRequest) (requireWriteFlag : Bool) :
    WritePlan :=
  match gateCommon g req.userRequested req.content req.status requireWriteFlag with
  | some blocked => .answer blocked
  | none =>
    match JarvisStore.get memories req.id with
    | none => .answer (refuse "target-not-found" ("Memory id not found: " ++ req.id) [])
    | some existing =>
      if existing.status = .verified then
        .answer (refuse "authority-protected" ("Verified records cannot be superseded or archived through a draft MCP " ++
          "write") [])
      else if req.supersedes.any fun s => PyText.strip s ≠ "" && PyText.strip s ≠ req.id then
        .answer (refuse "ambiguous-write" ("Provide id as the record being superseded; omit supersedes or set it equal " ++
          "to id") [])
      else
        let subject := req.subject.or existing.subject
        match subjectConflictBlock contentSha256 g memories subject (contentSha256 req.content) [req.id] with
        | some conflict => .answer conflict
        | none =>
          let sessionId := PyText.strip (orElse req.sessionId existing.sessionId)
          if sessionId = "" then .answer (refuse "missing-required-fields" "session_id required for lineage" [])
          else .create
            { content := req.content
              sourceAgent := resolveSourceAgent g (orElse (some req.sourceAgent) existing.sourceAgent)
              sessionId := sessionId
              type := req.type.getD existing.type
              confidence := req.confidence.getD existing.confidence
              evidence := evidenceWithUserStatement (req.evidence.getD existing.evidence) req.userStatement
              supersedes := some req.id
              status := .draft
              subject := subject
              tags := req.tags.getD existing.tags }

/-- `MemoryUpdate(status="archived")`. -/
def archiving : MemoryUpdate := ⟨none, none, none, none, none, none, none, some .archived, none, none, none⟩

/-- `emr_upsert`: the record is made and the one it supersedes is archived, each with its own save. -/
def emrUpsert (g : Gateway) (sur sur' : JarvisStore.Surroundings) (resolve : Resolver)
    (memories : List (MemoryRecord String)) (req : EmrUpsertRequest) (requireWriteFlag : Bool) :
    Except StoreError EmrWriteResponse × List (MemoryRecord String) :=
  match planUpsert contentSha256 g memories req requireWriteFlag with
  | .answer r => (.ok r, memories)
  | .create data =>
    match memoryCreate g data with
    | .error e => (caught g e, memories)
    | .ok data =>
      match JarvisStore.createMemory contentSha256 sur resolve memories data with
      | (.error e, after) => (caught g e, after)
      | (.ok rec, after) =>
        match JarvisStore.updateMemory contentSha256 sur' resolve after req.id archiving with
        | (.error e, after) => (caught g e, after)
        | (.ok _, after) => (.ok (acceptedResponse rec (some req.id)), after)

end ContinuityLedger.Recall
