import ContinuityLedger.Evidence.Links
import ContinuityLedger.Ledger.Tables

/-! Records as the service's models carry them, and what an update makes of one. -/

namespace ContinuityLedger.Records

open Foundations Foundations.Sha256 Ledger Evidence

structure MemoryRecord (Hash : Type := Hex64) where
  id : String
  content : String
  createdAt : String
  updatedAt : String
  sourceAgent : String
  sessionId : String
  type : MemoryType
  confidence : Jsonb.Decimal
  evidence : List EvidenceLink
  supersedes : Option String
  status : Status
  subject : Option String
  tags : List String
  version : ℤ
  contentSha256 : Hash

structure MemoryCreate where
  content : String
  sourceAgent : String
  sessionId : String
  type : MemoryType
  confidence : Jsonb.Decimal
  evidence : List EvidenceLink
  supersedes : Option String
  status : Status
  subject : Option String
  tags : List String

/-- A field that is `none` keeps the record's value. -/
structure MemoryUpdate where
  content : Option String
  sourceAgent : Option String
  sessionId : Option String
  type : Option MemoryType
  confidence : Option Jsonb.Decimal
  evidence : Option (List EvidenceLink)
  supersedes : Option String
  status : Option Status
  subject : Option String
  tags : Option (List String)
  expectedVersion : Option ℤ

/-- The update's fields over the record's. -/
def merged {Hash : Type} (existing : MemoryRecord Hash) (data : MemoryUpdate) : MemoryRecord Hash :=
  { existing with
    content := data.content.getD existing.content
    sourceAgent := data.sourceAgent.getD existing.sourceAgent
    sessionId := data.sessionId.getD existing.sessionId
    type := data.type.getD existing.type
    confidence := data.confidence.getD existing.confidence
    evidence := data.evidence.getD existing.evidence
    supersedes := data.supersedes.or existing.supersedes
    status := data.status.getD existing.status
    subject := data.subject.or existing.subject
    tags := data.tags.getD existing.tags }

structure Reason where
  code : String
  message : String
  field : String
  isHard : Bool
deriving DecidableEq

inductive StoreError
  | evidence (e : Refusal)
  | clauseV (reasons : List Reason)
  | value (message : String)
  | versionConflict (message : String)
  | unavailable (message : String)
deriving DecidableEq

def supersedesNotFound (target : String) : StoreError := .value ("supersedes target not found: " ++ target)

/-- The part of a record that Clause V is about. -/
def checkLinks (evidence : List EvidenceLink) (resolve : Resolver) : Except StoreError Unit :=
  (Evidence.checkLinks evidence resolve).mapError .evidence

end ContinuityLedger.Records
