import ContinuityLedger.Foundations.Dict
import ContinuityLedger.Foundations.TimestampLaws
import ContinuityLedger.Records.RowStore
import Mathlib.Data.Prod.Lex
import Mathlib.Data.String.Basic

/-! The newest-first listing of both stores: pages of records, each with the record that supersedes it, in descending
order of the instant of creation and the id. -/

namespace ContinuityLedger.Records

open Foundations Foundations.Sha256 Ledger Evidence

def twinAgent : String := "ai-twin"

/-- A record's place in the listing. -/
abbrev Place := Calendar.Instant ×ₗ String

/-- The newest places stand first. -/
def newerFirst (p q : Place) : Bool := q ≤ p

structure LatestFilter where
  memoryType : Option String
  includeSuperseded : Bool
  includeArchived : Bool
  includeTwin : Bool
  tokens : List String

/-- What is listed by default. -/
def LatestFilter.default : LatestFilter := ⟨none, false, false, false, []⟩

/-- The filters on a record's own fields; an empty type filters nothing. -/
def LatestFilter.passes (f : LatestFilter) (type : MemoryType) (sourceAgent : String) (status : Status) : Bool :=
  (f.memoryType.all fun t => t = "" || type.text = t) && (f.includeTwin || sourceAgent ≠ twinAgent) &&
    (f.includeArchived || status ≠ .archived)

namespace LedgerSearch

def asciiLower (c : Char) : Char := if 'A' ≤ c ∧ c ≤ 'Z' then Char.ofNat (c.toNat + 32) else c

/-- ASCII digits, small ASCII letters and whatever is not ASCII. -/
def isWord (c : Char) : Bool := ('0' ≤ c && c ≤ '9') || ('a' ≤ c && c ≤ 'z') || 0x80 ≤ c.toNat

/-- Splitting at every run of characters that are not of a word: an empty piece stands at the ends only. -/
def splitRuns (cs : List Char) : List String :=
  match cs.splitOnP (!isWord ·) with
  | [] => []
  | first :: rest => (first :: (rest.dropLast.filter (· ≠ []) ++ rest.getLast?.toList)).map String.ofList

def tokens (text : String) : List String := (splitRuns (text.toList.map asciiLower)).filter (· ≠ "")

/-- `record_tokens`. -/
def recordTokens (subject : Option String) (content : String) (tags : List String) : List String :=
  tokens (" ".intercalate [subject.getD "", content, " ".intercalate tags])

/-- `jarvis_search_tokens`. -/
def jarvisSearchTokens (subject : Option String) (content : String) (tags : List String) : List String :=
  splitRuns ((subject.getD "" ++ " " ++ content ++ " " ++ " ".intercalate tags).toList.map asciiLower)

example : tokens "Deploy v9, NOW: größe" = ["deploy", "v9", "now", "größe"] := by decide

end LedgerSearch

namespace JarvisStore

def unreadableTimestamp : StoreError := .value "Invalid isoformat string"

def place (m : MemoryRecord) : Except StoreError Place :=
  match Timestamps.parseUtc m.createdAt with
  | none => .error unreadableTimestamp
  | some t => .ok (toLex (t, m.id))

/-- The newest record that supersedes each. -/
def noteSuccessor (successor : Dict String Place) (m : MemoryRecord) : Except StoreError (Dict String Place) :=
  match target m.supersedes with
  | none => .ok successor
  | some t => do
    let p ← place m
    return if (successor.get t).all (· < p) then successor.set t p else successor

def successors (memories : List MemoryRecord) : Except StoreError (Dict String Place) :=
  memories.foldlM noteSuccessor []

structure LatestRow where
  place : Place
  memory : MemoryRecord
  supersededBy : Option String

def readRow (successor : Dict String Place) (m : MemoryRecord) : Except StoreError LatestRow := do
  let p ← place m
  return ⟨p, m, (successor.get m.id).map fun s : Place => (ofLex s).2⟩

def passing (successor : Dict String Place) (f : LatestFilter) (m : MemoryRecord) : Bool :=
  f.passes m.type m.sourceAgent m.status && (f.includeSuperseded || (successor.get m.id).isNone)

def LatestRow.within (after : Option Place) (f : LatestFilter) (r : LatestRow) : Bool :=
  after.all (r.place < ·) &&
    f.tokens.all (· ∈ LedgerSearch.recordTokens r.memory.subject r.memory.content r.memory.tags)

/-- The rows of a listing, newest first. -/
def latestRows (memories : List MemoryRecord) (after : Option Place) (f : LatestFilter) :
    Except StoreError (List LatestRow) := do
  let successor ← successors memories
  let rows ← (memories.filter (passing successor f)).mapM (readRow successor)
  return (rows.filter (·.within after f)).mergeSort fun a b => newerFirst a.place b.place

def listLatest (memories : List MemoryRecord) (limit : ℤ) (after : Option Place) (f : LatestFilter) :
    Except StoreError (List (MemoryRecord × Option String)) := do
  let rows ← latestRows memories after f
  return (rows.take limit.toNat).map fun r => (r.memory, r.supersededBy)

end JarvisStore

namespace RowStore

def place (m : Memory) : Place := toLex (m.createdAt, m.id)

def nulByte : StoreError := .value "a text value contains a NUL (0x00) byte, which the ledger cannot store"

/-- A text that is a statement's parameter. -/
def checkText (s : String) : Except StoreError Unit := if '\x00' ∈ s.toList then .error nulByte else .ok ()

/-- `LIMIT` is a `bigint`. -/
def checkLimit (limit : ℤ) : Except StoreError ℕ :=
  if limit < 2 ^ 63 then .ok limit.toNat else .error databaseError

/-- `(SELECT s.id … WHERE s.supersedes = m.id ORDER BY … LIMIT 1)`. -/
def supersededBy (rows : List Memory) (id : String) : Option String :=
  (((rows.filter (·.supersedes = some id)).mergeSort fun a b => newerFirst (place a) (place b)).head?).map (·.id)

def latestWhere (rows : List Memory) (after : Option Place) (f : LatestFilter) (m : Memory) : Bool :=
  f.passes m.type m.sourceAgent m.status && (f.includeSuperseded || rows.all (·.supersedes ≠ some m.id)) &&
    after.all (place m < ·) && f.tokens.all (· ∈ LedgerSearch.jarvisSearchTokens m.subject m.content m.tags)

def latestRows (rows : List Memory) (after : Option Place) (f : LatestFilter) : List Memory :=
  (rows.filter (latestWhere rows after f)).mergeSort fun a b => newerFirst (place a) (place b)

def readRecord (m : Memory) : Except StoreError MemoryRecord :=
  match record m with
  | none => .error invalidRow
  | some r => .ok r

def readLatest (rows : List Memory) (m : Memory) : Except StoreError (MemoryRecord × Option String) := do
  let r ← readRecord m
  return (r, supersededBy rows m.id)

/-- The texts among a listing's parameters; an empty type is none. -/
def latestTexts (after : Option Place) (f : LatestFilter) : List String :=
  f.memoryType.toList ++ (after.map fun p => (ofLex p).2).toList ++ f.tokens

def listLatest (rows : List Memory) (limit : ℤ) (after : Option Place) (f : LatestFilter) :
    Except StoreError (List (MemoryRecord × Option String)) := do
  let _ ← (latestTexts after f).mapM checkText
  let n ← checkLimit limit
  ((latestRows rows after f).take n).mapM (readLatest rows)

end RowStore

end ContinuityLedger.Records
