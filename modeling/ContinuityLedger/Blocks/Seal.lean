import ContinuityLedger.Blocks.Block
import ContinuityLedger.Ledger.Capture

/-! `jarvis_seal_block`, cut where it reads: between two of its statements other sessions may commit, and each
statement sees what is committed by then. -/

namespace ContinuityLedger.Blocks

open Foundations Foundations.Sha256 Ledger

/-- A length of time in microseconds, with the text the database prints for it. -/
structure Interval where
  micros : ℤ
  text : String

structure SealCall where
  tenant : Option String
  minEntries : Option ℤ
  maxAge : Option Interval
  force : Option Bool
  maxEntries : Option ℤ

/-- What the function reads of its session. -/
structure SealSettings where
  tenantKey : Option String
  isolation : String
  actor : Option String

def SealSettings.actorName (set : SealSettings) : String :=
  match set.actor with
  | none => "unknown"
  | some a => if a = "" then "unknown" else a

def sealGuard (set : SealSettings) (call : SealCall) : Except DbError Unit := do
  require (call.tenant ≠ none ∧ call.tenant ≠ some "") (.raised "jarvis_seal_block: a tenant is required")
  require (set.tenantKey = call.tenant)
    (.raised ("jarvis_seal_block: tenant " ++ call.tenant.getD "" ++ " is not the session tenant"))
  require (set.isolation = "read committed")
    (.raised "jarvis_seal_block needs READ COMMITTED (it relies on seeing the previous sealer's block once it holds the seal lock)")
  require (¬ ((∃ n ∈ call.minEntries, n < 1) ∨ ∃ n ∈ call.maxEntries, n < 1))
    (.raised "jarvis_seal_block: thresholds must be at least 1")

/-- The last block as the function's variables hold it. -/
structure Tip where
  height : ℤ
  lastSeq : ℤ
  blockHash : Hex64

/-- `ORDER BY height DESC LIMIT 1`, or the start values where no row is found. -/
def tip (blocks : List Block) : Tip :=
  match @List.argmax _ ℤ Int.instLinearOrder.toPreorder Int.decLt Block.height blocks with
  | none => ⟨0, 0, genesis⟩
  | some b => ⟨b.height, b.lastSeq, b.blockHash⟩

/-- Where a call stands: the seal lock is held, the counter is read, the tip is read, the thresholds are passed. -/
inductive Stage
  | locked
  | counted (ctr : ℤ)
  | tipped (ctr : ℤ) (last : Tip)
  | aged (ctr : ℤ) (last : Tip)

structure SealResult where
  isSealed : Bool
  height : Option ℤ
  firstSeq : Option ℤ
  lastSeq : Option ℤ
  entryCount : Option ℤ
  blockHash : Option Hex64
  reason : String

def notSealed (reason : String) : SealResult := ⟨false, none, none, none, none, none, reason⟩

inductive Outcome
  | next (stage : Stage)
  | done (result : SealResult) (inserted : Option Block)

/-- The counter is read. -/
def readCounter (t : Tables) : Outcome :=
  match t.counter with
  | none => .done (notSealed "no history to seal") none
  | some ctr => .next (.counted ctr)

/-- The tip is read. -/
def readTip (blocks : List Block) (ctr : ℤ) : Except DbError Outcome := do
  let last := tip blocks
  require (last.lastSeq ≤ ctr)
    (.raised "jarvis_seal_block: the last block extends past the history counter; run pg_verify before sealing")
  if ctr < last.lastSeq + 1 then pure (.done (notSealed "nothing new to seal") none)
  else pure (.next (.tipped ctr last))

/-- `NOT p_force AND … < p_min_entries AND … < p_max_age`, where NULL does not count as true. -/
def belowThreshold (call : SealCall) (clock oldest : Calendar.Instant) (unsealed : ℤ) : Bool :=
  call.force = some false && call.minEntries.any (unsealed < ·) && call.maxAge.any (clock - oldest < ·.micros)

/-- The oldest unsealed entry is read. -/
def readOldest (call : SealCall) (clock : Calendar.Instant) (t : Tables) (ctr : ℤ) (last : Tip) :
    Except DbError Outcome :=
  let s := last.lastSeq + 1
  match t.entryAt s with
  | none => .error (.raised ("jarvis_seal_block: history entry " ++ toString s ++
      " is missing; run pg_verify before sealing"))
  | some oldest =>
    if belowThreshold call clock oldest.changedAt (ctr - s + 1) then
      .ok (.done (notSealed ("below threshold: " ++ toString (ctr - s + 1) ++ " unsealed entries (need " ++
        (call.minEntries.map toString).getD "" ++ ") and the oldest is younger than " ++
        (call.maxAge.map Interval.text).getD "")) none)
    else .ok (.next (.aged ctr last))

/-- `least(ctr, s + p_max_entries - 1)`, which passes over a NULL. -/
def sealEnd (call : SealCall) (ctr s : ℤ) : ℤ :=
  match call.maxEntries with
  | none => ctr
  | some m => min ctr (s + m - 1)

def newBlock (set : SealSettings) (tenant : String) (now : Calendar.Instant) (last : Tip) (e : ℤ)
    (root : Hex64) : Block :=
  let s := last.lastSeq + 1
  let n := e - s + 1
  { tenantKey := tenant
    height := last.height + 1
    firstSeq := s
    lastSeq := e
    entryCount := n
    prevBlockHash := last.blockHash
    entriesRoot := root
    blockHash := jarvisBlockHash 1 tenant (last.height + 1) s e n last.blockHash root
    format := 1
    sealedAt := now
    sealedBy := set.actorName }

/-- The range is read and the block inserted. -/
def insertBlock (set : SealSettings) (call : SealCall) (tenant : String) (now : Calendar.Instant) (t : Tables)
    (blocks : List Block) (ctr : ℤ) (last : Tip) : Except DbError Outcome := do
  let s := last.lastSeq + 1
  let e := sealEnd call ctr s
  let n := e - s + 1
  let leaves := rowHashes t s e
  require ((leaves.length : ℤ) = n)
    (.raised ("jarvis_seal_block: history is missing entries between seq " ++ toString s ++ " and " ++
      toString e ++ "; run pg_verify before sealing"))
  match jarvisMerkleRoot leaves with
  | none => .error (.raised "a block must contain at least one entry")
  | some root =>
    let b := newBlock set tenant now last e root
    require (b.checks = true) .checkViolation
    require (∀ k ∈ blocks, k.height ≠ b.height ∧ k.firstSeq ≠ b.firstSeq) .uniqueViolation
    pure (.done ⟨true, some b.height, some s, some e, some n, some b.blockHash, "sealed"⟩ (some b))

/-- The next statement of a call, on the tables and blocks it sees. -/
def sealStep (set : SealSettings) (call : SealCall) (tenant : String) (clock now : Calendar.Instant)
    (t : Tables) (blocks : List Block) : Stage → Except DbError Outcome
  | .locked => .ok (readCounter t)
  | .counted ctr => readTip blocks ctr
  | .tipped ctr last => readOldest call clock t ctr last
  | .aged ctr last => insertBlock set call tenant now t blocks ctr last

end ContinuityLedger.Blocks
