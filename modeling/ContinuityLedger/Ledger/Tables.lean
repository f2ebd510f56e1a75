import ContinuityLedger.Foundations.EventFold
import Mathlib.Data.Int.Order.Basic
import ContinuityLedger.Foundations.Jsonb
import ContinuityLedger.Foundations.KeyedTable
import ContinuityLedger.Foundations.Sha256

/-! The rows of one tenant: `memories`, `record_history`, `chain_heads` and `history_counters`, with the
JSON image of a record and the hash of a history entry. -/

namespace ContinuityLedger.Ledger

open Foundations Foundations.Sha256

inductive MemoryType
  | decision | fact | task | preference | architecture | research | externalContext
deriving DecidableEq

def MemoryType.text : MemoryType → String
  | .decision => "decision"
  | .fact => "fact"
  | .task => "task"
  | .preference => "preference"
  | .architecture => "architecture"
  | .research => "research"
  | .externalContext => "external_context"

inductive Status
  | draft | verified | archived
deriving DecidableEq

def Status.text : Status → String
  | .draft => "draft"
  | .verified => "verified"
  | .archived => "archived"

/-- `confidence` is the decimal that the database prints for the column's double. -/
structure Memory where
  tenantKey : String
  id : String
  version : ℤ
  content : String
  contentSha256 : Hex64
  createdAt : Calendar.Instant
  updatedAt : Calendar.Instant
  sourceAgent : String
  sessionId : String
  type : MemoryType
  status : Status
  confidence : Jsonb.Decimal
  subject : Option String
  supersedes : Option String
  tags : List String
  evidence : Jsonb.Value

/-- The CHECK constraints of `memories`. -/
def Memory.checks (m : Memory) : Bool :=
  m.tenantKey ≠ "" &&
  1 ≤ m.id.length && m.id.length ≤ 128 &&
  1 ≤ m.content.length && m.content.length ≤ 2000 &&
  m.sourceAgent.length ≤ 128 &&
  1 ≤ m.sessionId.length && m.sessionId.length ≤ 128 &&
  0 ≤ m.confidence.coefficient && m.confidence.coefficient ≤ 10 ^ m.confidence.scale &&
  (match m.subject with | none => true | some s => s.length ≤ 256) &&
  m.tags.length ≤ 32 &&
  (match m.evidence with | .array items => items.length ≤ 32 | _ => false)

def timestampText (t : Calendar.Instant) : String := Calendar.text t ++ "+00:00"

def nullable : Option String → Jsonb.Value
  | none => .null
  | some s => .string s

def jarvisMemoryJson (m : Memory) : Jsonb.Value :=
  .object [
    ("id", .string m.id), ("tags", .array (m.tags.map .string)), ("type", .string m.type.text),
    ("status", .string m.status.text), ("content", .string m.content), ("subject", nullable m.subject),
    ("version", Jsonb.integer m.version), ("evidence", m.evidence),
    ("created_at", .string (timestampText m.createdAt)), ("confidence", .number m.confidence),
    ("session_id", .string m.sessionId), ("supersedes", nullable m.supersedes),
    ("tenant_key", .string m.tenantKey), ("updated_at", .string (timestampText m.updatedAt)),
    ("source_agent", .string m.sourceAgent), ("content_sha256", .string m.contentSha256.text)]

inductive Op
  | create | update | delete | backfill
deriving DecidableEq

def Op.text : Op → String
  | .create => "create"
  | .update => "update"
  | .delete => "delete"
  | .backfill => "backfill"

structure HistoryEntry where
  historyId : ℤ
  memoryId : String
  version : ℤ
  op : Op
  actor : String
  changedAt : Calendar.Instant
  before : Option Jsonb.Value
  after : Option Jsonb.Value
  prevHash : Hex64
  rowHash : Hex64
  seq : ℤ

def jarvisHistoryHash (prev : Hex64) (op : Op) (version : ℤ) (before after : Option Jsonb.Value) : Hex64 :=
  sha256Hex (prev.text ++ "|" ++ op.text ++ "|" ++ toString version ++ "|" ++
    (before.map Jsonb.Value.text).getD "" ++ "|" ++ (after.map Jsonb.Value.text).getD "")

/-- The CHECK constraint on `record_history` that ties `before` and `after` to `op`. -/
def HistoryEntry.checks (e : HistoryEntry) : Bool :=
  match e.op with
  | .create | .backfill => e.before.isNone && e.after.isSome
  | .update => e.before.isSome && e.after.isSome
  | .delete => e.before.isSome && e.after.isNone

def HistoryEntry.recomputed (e : HistoryEntry) : Hex64 :=
  jarvisHistoryHash e.prevHash e.op e.version e.before e.after

structure ChainHead where
  id : String
  lastSeq : ℤ
  lastHash : Hex64
  deleted : Bool
deriving DecidableEq

structure Tables where
  memories : List Memory
  history : List HistoryEntry
  heads : List ChainHead
  counter : Option ℤ

def Tables.empty : Tables := ⟨[], [], [], none⟩

def Tables.memory (t : Tables) (id : String) : Option Memory := KeyedTable.row Memory.id id t.memories

def Tables.head (t : Tables) (id : String) : Option ChainHead := KeyedTable.row ChainHead.id id t.heads

/-- The entries of one record, in table order. -/
def Tables.chain (t : Tables) (id : String) : List HistoryEntry := t.history.filter (·.memoryId = id)

/-- `WHERE memory_id = id ORDER BY seq DESC LIMIT 1`. -/
def Tables.latestEntry (t : Tables) (id : String) : Option HistoryEntry :=
  @List.argmax _ ℤ Int.instLinearOrder.toPreorder Int.decLt (·.seq) (t.chain id)

def Tables.entryAt (t : Tables) (seq : ℤ) : Option HistoryEntry :=
  KeyedTable.row HistoryEntry.seq seq t.history

/-- What the column, key and foreign key constraints let a tenant's rows be. -/
structure Tables.Admitted (t : Tables) : Prop where
  memoryKey : (t.memories.map Memory.id).Nodup
  memoryChecks : ∀ m ∈ t.memories, m.checks = true
  supersedes : ∀ m ∈ t.memories, ∀ target ∈ m.supersedes, ∃ n ∈ t.memories, n.id = target
  historySeq : (t.history.map HistoryEntry.seq).Nodup
  historyChecks : ∀ e ∈ t.history, e.checks = true
  headKey : (t.heads.map ChainHead.id).Nodup
  counter : ∀ c ∈ t.counter, 0 ≤ c

end ContinuityLedger.Ledger
