import ContinuityLedger.Ledger.RowEffects
import ContinuityLedger.Records.ClauseV

/-! A record as a row of `memories`: how its links are stored, how a row is read back, and what an insert and an update
write. -/

namespace ContinuityLedger.Records

open Foundations Foundations.Sha256 Ledger Evidence

def linkFields (link : EvidenceLink) : List (String × Jsonb.Value) :=
  [("ref", .string link.ref), ("kind", .string link.kind), ("note", .string link.note)]

def linkJson (link : EvidenceLink) : Jsonb.Value := .object (linkFields link)

def linksJson (links : List EvidenceLink) : Jsonb.Value := .array (links.map linkJson)

/-- A text member, or its default where it is missing. -/
def textMember (fields : List (String × Jsonb.Value)) (key : String) (default : Option String) : Option String :=
  match fields.lookup key with
  | none => default
  | some (.string s) => some s
  | some _ => none

lemma ref_bounds (ref note : String) (h : (1 ≤ ref.length ∧ ref.length ≤ 1000) ∧ note.length ≤ 500) :
    1 ≤ ref.length ∧ ref.length ≤ 1000 :=
  h.1

lemma note_bound (ref note : String) (h : (1 ≤ ref.length ∧ ref.length ≤ 1000) ∧ note.length ≤ 500) : note.length ≤ 500 :=
  h.2

def readLink (j : Jsonb.Value) : Option EvidenceLink :=
  match j with
  | .object fields => do
    let kind ← textMember fields "kind" (some "ref")
    let ref ← textMember fields "ref" none
    let note ← textMember fields "note" (some "")
    if h : (1 ≤ ref.length ∧ ref.length ≤ 1000) ∧ note.length ≤ 500 then
      some ⟨kind, ref, note, ref_bounds ref note h, note_bound ref note h⟩
    else none
  | _ => none

/-- `row["evidence"] or []`. -/
def readLinks (j : Jsonb.Value) : Option (List EvidenceLink) :=
  match j with
  | .array items => items.mapM readLink
  | _ => none

lemma readLink_linkJson (link : EvidenceLink) : readLink (linkJson link) = some link := by
  have h : (1 ≤ link.ref.length ∧ link.ref.length ≤ 1000) ∧ link.note.length ≤ 500 := ⟨link.refLength, link.noteLength⟩
  simp [readLink, linkJson, linkFields, textMember, List.lookup_cons, h]

@[simp] lemma readLinks_linksJson (links : List EvidenceLink) : readLinks (linksJson links) = some links := by
  induction links with
  | nil => rfl
  | cons link links ih =>
    simp only [readLinks, linksJson, List.map_cons, List.mapM_cons, readLink_linkJson] at ih ⊢
    rw [ih]
    rfl

/-- `isoformat` leaves out a fraction of a second that is zero. -/
def isoformat (t : Calendar.Instant) : String :=
  if Calendar.microOfDay t % 1000000 = 0 then
    String.ofList ((Calendar.text t).toList.take 19) ++ "+00:00"
  else timestampText t

/-- `_record`: a row as the service's model; validation refuses links of another shape. -/
def record (m : Memory) : Option MemoryRecord := (readLinks m.evidence).map fun links =>
  { id := m.id
    content := m.content
    createdAt := isoformat m.createdAt
    updatedAt := isoformat m.updatedAt
    sourceAgent := m.sourceAgent
    sessionId := m.sessionId
    type := m.type
    confidence := m.confidence
    evidence := links
    supersedes := m.supersedes
    status := m.status
    subject := m.subject
    tags := m.tags
    version := m.version
    contentSha256 := m.contentSha256 }

/-- An empty `supersedes` is stored as none. -/
def target (supersedes : Option String) : Option String := supersedes.filter (· ≠ "")

variable (contentSha256 : String → Hex64)

/-- The row an insert writes; the column's default version is 1. -/
def inserted (tenant id : String) (now : Calendar.Instant) (data : MemoryCreate) : Memory where
  tenantKey := tenant
  id := id
  version := 1
  content := data.content
  contentSha256 := contentSha256 data.content
  createdAt := now
  updatedAt := now
  sourceAgent := data.sourceAgent
  sessionId := data.sessionId
  type := data.type
  status := data.status
  confidence := data.confidence
  subject := data.subject
  supersedes := target data.supersedes
  tags := data.tags
  evidence := linksJson data.evidence

/-- The record an update is to leave behind, but for its version and time. -/
def updates (existing : MemoryRecord) (data : MemoryUpdate) : MemoryRecord :=
  let new := merged existing data
  { new with
    supersedes := target new.supersedes
    contentSha256 := (data.content.map contentSha256).getD existing.contentSha256 }

/-- The columns that an update assigns. -/
def assign (new : MemoryRecord) (now : Calendar.Instant) (old : Memory) : Memory :=
  { old with
    content := new.content
    contentSha256 := new.contentSha256
    updatedAt := now
    sourceAgent := new.sourceAgent
    sessionId := new.sessionId
    type := new.type
    status := new.status
    confidence := new.confidence
    subject := new.subject
    supersedes := new.supersedes
    tags := new.tags
    evidence := linksJson new.evidence }

lemma record_assign (new : MemoryRecord) (now : Calendar.Instant) (old : Memory) (version : ℤ) :
    record { assign new now old with version := version } =
      some { new with
        id := old.id, createdAt := isoformat old.createdAt, updatedAt := isoformat now, version := version } := by
  simp [record, assign]

lemma record_id {m : Memory} {r : MemoryRecord} (h : record m = some r) : r.id = m.id := by
  obtain ⟨links, -, rfl⟩ := Option.map_eq_some_iff.mp h
  rfl

lemma record_version {m : Memory} {r : MemoryRecord} (h : record m = some r) : r.version = m.version := by
  obtain ⟨links, -, rfl⟩ := Option.map_eq_some_iff.mp h
  rfl

end ContinuityLedger.Records
