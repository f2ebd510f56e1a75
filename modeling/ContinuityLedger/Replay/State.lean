import ContinuityLedger.Blocks.Block
import ContinuityLedger.Foundations.Listing
import ContinuityLedger.Foundations.PyStr
import ContinuityLedger.Ledger.Replay

/-! RC.Ledger.v1 as the service answers it: the newest entry of every record up to a seq in one query, the records
that live in pages, and the state root over all of them. -/

namespace ContinuityLedger.Replay

open Foundations Foundations.Sha256 Foundations.Listing Ledger Blocks

/-- Ids are ordered by their UTF-8 bytes. -/
def idBytes (id : String) : List ℕ := (utf8 id).map UInt8.toNat

def stateLeaf (memoryId : String) (rowHash : Hex64) : Digest :=
  hash (0 :: (utf8 ("jarvis-state|v1|" ++ toString (utf8 memoryId).length ++ ":") ++ utf8 memoryId ++ utf8 "|" ++
    utf8 rowHash.text))

def emptyRoot : Hex64 := hexdigest []

/-- It raises where an id stands twice. -/
def stateRoot (heads : List (String × Hex64)) : Option Hex64 :=
  if heads = [] then some emptyRoot else
  let ordered := heads.mergeSort (fun a b => idBytes a.1 ≤ idBytes b.1)
  if (ordered.map Prod.fst).Nodup then
    (MerkleTree.mth nodeHash (ordered.map fun h => stateLeaf h.1 h.2)).map Digest.hex
  else none

structure ReplayError where
  code : String
  message : String
  status : ℕ
deriving DecidableEq

/-- A refusal, or an error that nothing here catches. -/
inductive Failure
  | replayError (e : ReplayError)
  | raised
deriving DecidableEq

def coveringBlock (blocks : List Block) (seq : ℤ) : Option Block :=
  blocks.find? fun b => b.firstSeq ≤ seq && seq ≤ b.lastSeq

def sealedSeq (blocks : List Block) : ℤ := ((blocks.map Block.lastSeq).max?).getD 0

def resolveReplaySeq (t : Tables) (blocks : List Block) (atSeq atBlock : Option ℤ) : Except ReplayError ℤ :=
  if atSeq.isSome && atBlock.isSome then .error ⟨"replay_bound_ambiguous", "give at_seq or at_block, not both", 422⟩ else
  let historySeq := t.counter.getD 0
  match atBlock, atSeq with
  | some height, _ =>
    match blocks.find? (·.height = height) with
    | none => .error ⟨"replay_block_not_found", "there is no sealed block " ++ toString height, 404⟩
    | some b => .ok b.lastSeq
  | none, none => .ok historySeq
  | none, some seq =>
    if historySeq < seq then
      .error ⟨"replay_seq_out_of_range",
        "at_seq " ++ toString seq ++ " is beyond the history counter " ++ toString historySeq, 422⟩
    else .ok seq

/-- `ORDER BY memory_id COLLATE "C", seq DESC`. -/
def headOrder (e : HistoryEntry) : List ℕ ×ₗ ℤ := toLex (idBytes e.memoryId, -e.seq)

/-- `SELECT DISTINCT ON (memory_id COLLATE "C") … WHERE seq <= at_seq`. -/
def heads (t : Tables) (seq : ℤ) : List HistoryEntry :=
  distinctOn HistoryEntry.memoryId
    ((t.history.filter (·.seq ≤ seq)).mergeSort (fun a b => headOrder a ≤ headOrder b))

structure BlockRef where
  height : ℤ
  firstSeq : ℤ
  lastSeq : ℤ
  blockHash : Hex64
  signed : Bool
  signatureLevel : Option ℕ

structure ReplayedRecord where
  id : String
  seq : ℤ
  version : ℤ
  rowHash : Hex64
  record : Jsonb.Value

structure ReplayState where
  tenant : String
  atSeq : ℤ
  historySeq : ℤ
  sealedSeq : ℤ
  isSealed : Bool
  atBlockBoundary : Bool
  block : Option BlockRef
  recordCount : ℕ
  deletedCount : ℕ
  stateRoot : Hex64
  records : List ReplayedRecord
  nextAfterId : Option String

/-- Whether a block is signed, and at which level. -/
abbrev BlockSignature := ℤ → Hex64 → Bool × Option ℕ

def blockRef (signature : BlockSignature) (b : Block) : BlockRef :=
  ⟨b.height, b.firstSeq, b.lastSeq, b.blockHash, (signature b.height b.blockHash).1, (signature b.height b.blockHash).2⟩

/-- The after-image must be a JSON object. -/
def replayedRecord (e : HistoryEntry) : Except Failure ReplayedRecord :=
  match e.after with
  | some (.object fields) => .ok ⟨e.memoryId, e.seq, e.version, e.rowHash, .object fields⟩
  | _ => .error .raised

def liveHeads (t : Tables) (seq : ℤ) : List HistoryEntry :=
  ((heads t seq).filter (·.op ≠ .delete)).mergeSort (fun a b => idBytes a.memoryId ≤ idBytes b.memoryId)

/-- `max(1, min(int(limit), MAX_PAGE))`. -/
def pageLimit (limit : ℤ) : ℕ := (max 1 (min limit 1000)).toNat

def replayState (signature : BlockSignature) (tenant : String) (t : Tables) (blocks : List Block)
    (atSeq atBlock : Option ℤ) (afterId : Option String) (limit : ℤ) : Except Failure ReplayState := do
  let limit := pageLimit limit
  let seq ← (resolveReplaySeq t blocks atSeq atBlock).mapError Failure.replayError
  let block := coveringBlock blocks seq
  let live := liveHeads t seq
  let page := (rowsAfter (fun e => idBytes e.memoryId) live (afterId.map idBytes)).take (limit + 1)
  let more := decide (limit < page.length)
  let page := page.take limit
  let root ← match stateRoot (live.map fun h => (h.memoryId, h.rowHash)) with
    | none => .error .raised
    | some root => .ok root
  let records ← page.mapM replayedRecord
  pure {
    tenant := tenant
    atSeq := seq
    historySeq := t.counter.getD 0
    sealedSeq := sealedSeq blocks
    isSealed := block.isSome
    atBlockBoundary := block.any fun b => b.lastSeq = seq
    block := block.map (blockRef signature)
    recordCount := live.length
    deletedCount := (heads t seq).length - live.length
    stateRoot := root
    records := records
    nextAfterId := if more then page.getLast?.map HistoryEntry.memoryId else none }

end ContinuityLedger.Replay
