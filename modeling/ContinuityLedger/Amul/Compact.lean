import ContinuityLedger.Amul.Checkpoint
import ContinuityLedger.Foundations.Timestamps

/-! Compaction of the field into checkpoints, and the verification of the field by its checkpoints. -/

namespace ContinuityLedger.Amul

open Foundations Foundations.Sha256

/-! ### Retention -/

/-- What the classification reads of a record. -/
structure RetainedRecord where
  id : String
  kind : String
  updatedAt : String

structure ReinforcementState where
  /-- The salience is not below `SALIENCE_HOT_FLOOR`. -/
  salient : Bool
  lastReinforcedAt : Option String

/-- Microseconds of local time, and the offset of a time that is aware of its zone. -/
abbrev DateTime := ℤ × Option ℤ

namespace DateTime

/-- `a - b`; a `TypeError` where only one of them has an offset. -/
def minus (a b : DateTime) : Option ℤ :=
  match a.2, b.2 with
  | none, none => some (a.1 - b.1)
  | some x, some y => some ((a.1 - x) - (b.1 - y))
  | _, _ => none

/-- `max` of the times that are there. -/
def maximum : Option DateTime → Option DateTime → Option (Option DateTime)
  | some a, some b => (minus b a).map fun d => some (if 0 < d then b else a)
  | some a, none => some (some a)
  | none, b => some b

end DateTime

def parseIso (ts : Option String) : Option DateTime :=
  match ts with
  | none => none
  | some s =>
    if s = "" then none
    else Timestamps.fromisoformat (String.ofList (s.toList.flatMap fun c => if c = 'Z' then "+00:00".toList else [c]))

/-- Twice the half-life of the type. -/
def coldThresholdDays (kind : String) : ℤ :=
  match [("decision", 14), ("architecture", 70), ("fact", 28), ("preference", 56), ("research", 28), ("task", 14)].lookup kind with
  | some days => days
  | none => 14

/-- One call of `compact`: its arguments, and what it asks the clock and the reinforcement overlay. -/
structure CompactCall where
  records : List RetainedRecord
  reinforcement : String → Option ReinforcementState
  now : DateTime
  createdAt : String
  actor : String

/-- Whether a record is hot. -/
def isHot (call : CompactCall) (rec : RetainedRecord) : Option Bool :=
  let state := call.reinforcement rec.id
  (DateTime.maximum (parseIso (state.bind (·.lastReinforcedAt))) (parseIso (some rec.updatedAt))).bind fun lastActivity =>
    if state.any (·.salient) then some true
    else
      match lastActivity with
      | none => some false
      | some t => (DateTime.minus call.now t).map fun idle => !(coldThresholdDays rec.kind * 86400000000 < idle)

def sorted (ids : List String) : List String := ids.insertionSort (· ≤ ·)

/-- The hot ids and the cold ones. -/
def classifyRetention (call : CompactCall) : Option (List String × List String) :=
  (call.records.mapM fun rec => (isHot call rec).map fun hot => (hot, rec.id)).map fun marked =>
    (sorted ((marked.filter (·.1)).map (·.2)), sorted ((marked.filter (!·.1)).map (·.2)))

/-! ### Raw lines -/

/-- `splitlines(keepends=True)` of bytes. -/
def splitKeep (acc : Bytes) : Bytes → List Bytes
  | [] => if acc = [] then [] else [acc]
  | 13 :: 10 :: bs => (acc ++ [13, 10]) :: splitKeep [] bs
  | b :: bs => if b = 10 ∨ b = 13 then (acc ++ [b]) :: splitKeep [] bs else splitKeep (acc ++ [b]) bs

def isBlankByte (b : UInt8) : Bool := b = 32 || (9 ≤ b && b ≤ 13)

/-- `_read_raw_lines`. -/
def rawLines (file : Bytes) : List Bytes := (splitKeep [] file).filter fun l => !l.all isBlankByte

/-- One level of the tree; an odd node is paired with itself. -/
def mergeLevel : List String → List String
  | a :: b :: rest => sha256Text (a ++ b) :: mergeLevel rest
  | [a] => [sha256Text (a ++ a)]
  | [] => []

lemma length_mergeLevel (level : List String) : (mergeLevel level).length = (level.length + 1) / 2 := by
  induction level using mergeLevel.induct with
  | case1 a b rest ih =>
    rw [mergeLevel, List.length_cons, ih, List.length_cons, List.length_cons]
    omega
  | case2 a => simp [mergeLevel]
  | case3 => rfl

/-- `_merkle_root`. -/
def merkleRoot : List String → String
  | [] => sha256Text ""
  | [a] => a
  | a :: b :: rest => merkleRoot (mergeLevel (a :: b :: rest))
termination_by level => level.length
decreasing_by
  rw [length_mergeLevel]
  simp only [List.length_cons]
  omega

def range (lines : List Bytes) (start stop : ℕ) : List Bytes := (lines.take stop).drop start

/-- `_range_authenticators`: the SHA of the range, and its root. -/
def rangeAuthenticators (lines : List Bytes) (start stop : ℕ) : String × String :=
  ((hexdigest (range lines start stop).flatten).text,
    merkleRoot ((range lines start stop).map fun l => (hexdigest l).text))

/-! ### compact -/

structure CompactReport where
  compacted : Bool
  reason : String
  checkpointSha : Option String
  rangeStart : ℕ
  rangeEnd : ℕ
  coldCount : ℕ
  hotCount : ℕ
  totalCheckpoints : ℕ

inductive CompactOutcome
  | raised
  | returned (report : CompactReport) (appended : Option Checkpoint)

def covered (cps : List Checkpoint) : ℕ := (cps.getLast?.map (·.rangeEnd)).getD 0

/-- The checkpoint over the lines that have none. -/
def checkpointOf (lines : List Bytes) (existing : List Checkpoint) (hot : List String) (artifacts : List Artifact)
    (call : CompactCall) : Checkpoint :=
  let inRange := (artifacts.take lines.length).drop (covered existing)
  let hotIds := ((inRange.map (·.ledgerId)).filter (· ∈ hot)).dedup
  let coldIds := ((inRange.map (·.ledgerId)).filter (· ∉ hot)).dedup
  let authenticators := rangeAuthenticators lines (covered existing) lines.length
  { kind := "checkpoint", schemaVersion := checkpointSchema
    rangeStart := covered existing, rangeEnd := lines.length
    rangeSha := authenticators.1, merkleRoot := authenticators.2
    coldCount := inRange.countP (·.ledgerId ∈ coldIds), hotCount := inRange.countP (·.ledgerId ∈ hotIds)
    coldLedgerIds := sorted coldIds, hotLedgerIds := sorted hotIds
    prevCheckpointSha := existing.getLast?.bind (·.checkpointSha), checkpointSha := none
    createdAt := call.createdAt, actor := call.actor }

/-- The field behind the call, and what the call does. -/
def compact (py : Python) (file chain : Bytes) (f : AmulField) (call : CompactCall) : AmulField × CompactOutcome :=
  match Checkpoint.load py chain with
  | none => (f, .raised)
  | some existing =>
    let lines := rawLines file
    if lines.length ≤ covered existing then
      (f, .returned ⟨false, "no uncheckpointed lines", none, 0, 0, 0, 0, existing.length⟩ none)
    else
      match classifyRetention call with
      | none => (f, .raised)
      | some plan =>
        -- dead stays dead: nothing that is cold in a checkpoint may be hot now
        if (existing.flatMap (·.coldLedgerIds)).any (· ∈ plan.1) then (f, .raised)
        else
          let f := f.ensureLoaded py file
          match (checkpointOf lines existing plan.1 f.all call).sealed with
          | none => (f, .raised)
          | some cp =>
            (f, .returned ⟨true, s!"sealed lines [{cp.rangeStart}, {cp.rangeEnd})", cp.checkpointSha, cp.rangeStart,
              cp.rangeEnd, cp.coldCount, cp.hotCount, existing.length + 1⟩ (some cp))

/-! ### verify -/

structure GCVerifyReport where
  mode : String
  integrityOk : Bool
  integrityFailures : List String
  checkpointsChecked : ℕ
  tailLinesRehashed : ℕ
  ruleG1Ok : Bool
  ruleG2DeadStaysDead : Bool
  ruleG3ChainContiguous : Bool

/-- `_verify_chain_structure`, from checkpoint `i` on. -/
def chainFailures (i expectedStart : ℕ) (prevSha : Option String) : List Checkpoint → List String
  | [] => []
  | cp :: cps =>
    (if cp.rangeStart ≠ expectedStart then
      [s!"G3: checkpoint {i} starts at {cp.rangeStart}, expected {expectedStart}"] else []) ++
    (if cp.prevCheckpointSha ≠ prevSha then [s!"G3: checkpoint {i} prev link broken"] else []) ++
    (if cp.checkpointSha ≠ some cp.address then [s!"checkpoint {i} content address invalid"] else []) ++
    (if (cp.coldCount : ℤ) + cp.hotCount ≠ (cp.rangeEnd : ℤ) - cp.rangeStart then
      [s!"G1: checkpoint {i} counts do not cover range"] else []) ++
    chainFailures (i + 1) cp.rangeEnd cp.checkpointSha cps

/-- A particle that was cold before is hot in the range. -/
def resurfaced (seenCold : List String) : List Checkpoint → List String
  | [] => []
  | cp :: cps =>
    (if seenCold.any (· ∈ cp.hotLedgerIds) then
      [s!"G2: cold particle resurfaced hot in range [{cp.rangeStart}, {cp.rangeEnd})"] else []) ++
    resurfaced (seenCold ++ cp.coldLedgerIds) cps

def unauthenticated (lines : List Bytes) (cps : List Checkpoint) : List String :=
  cps.flatMap fun cp =>
    if rangeAuthenticators lines cp.rangeStart cp.rangeEnd ≠ (cp.rangeSha, cp.merkleRoot) then
      [s!"G1: range [{cp.rangeStart}, {cp.rangeEnd}) fails range_sha/merkle"]
    else []

/-- The artifacts whose payload does not hash to what they say. -/
def altered (as : List Artifact) : List String :=
  (as.filter fun a => sha256Text a.payload ≠ a.payloadSha256).map (·.artifactId)

/-- `verify_gc`: the field behind it, and the report. -/
def verifyGc (py : Python) (file chain : Bytes) (f : AmulField) : Option (AmulField × GCVerifyReport) :=
  (Checkpoint.load py chain).map fun cps =>
    let lines := rawLines file
    let f := f.ensureLoaded py file
    if cps = [] then
      let failures := altered f.all
      (f, ⟨"full_rehash", failures.isEmpty, failures, 0, lines.length, true, true, true⟩)
    else
      let coveredEnd := cps.foldl (fun n cp => max n cp.rangeEnd) 0
      let tail := f.all.drop coveredEnd
      let g2 := resurfaced [] cps
      let failures := chainFailures 0 0 none cps ++ g2 ++ unauthenticated lines cps ++ altered tail
      (f, ⟨"checkpoint_chain", failures.isEmpty, failures, cps.length, tail.length,
        !failures.any (PyText.startsWith · "G1"), g2.isEmpty, !failures.any (PyText.startsWith · "G3")⟩)

end ContinuityLedger.Amul
