import ContinuityLedger.Foundations.Calendar
import ContinuityLedger.Foundations.MerkleTree
import ContinuityLedger.Ledger.VerifyHistory

/-! Continuity Blocks: the rows of `blocks`, their hashes as the database and as `app/blocks.py` compute them, and
the two verifiers of a tenant's blocks. The Merkle root twice: as the database loops over its arrays, level by level, and as
RFC 6962 splits a list, both over any hash of a leaf and of a node. -/

namespace ContinuityLedger.Blocks

open Foundations Foundations.Sha256 Foundations.HashChain Ledger

structure Block where
  tenantKey : String
  height : ℤ
  firstSeq : ℤ
  lastSeq : ℤ
  entryCount : ℤ
  prevBlockHash : Hex64
  entriesRoot : Hex64
  blockHash : Hex64
  format : ℤ
  sealedAt : Calendar.Instant
  sealedBy : String

/-- The CHECK constraints of `blocks`. -/
def Block.checks (b : Block) : Bool :=
  b.tenantKey ≠ "" && 1 ≤ b.height && 1 ≤ b.firstSeq && 1 ≤ b.entryCount && b.format = 1 &&
    1 ≤ b.sealedBy.length && b.sealedBy.length ≤ 128 && b.firstSeq ≤ b.lastSeq

def leafHash (rowHash : Hex64) : Digest := hash (0 :: rowHash.bytes)

def nodeHash (left right : Digest) : Digest := hash (1 :: (left.bytes ++ right.bytes))

/-- The root as the database computes it, level by level; it raises on an empty range. -/
def jarvisMerkleRoot (leaves : List Hex64) : Option Hex64 :=
  (MerkleTree.climb nodeHash (leaves.map leafHash)).map Digest.hex

/-- The root by RFC 6962's recursion; it raises on an empty list. -/
def merkleRoot (rowHashes : List Hex64) : Option Hex64 :=
  (MerkleTree.mth nodeHash (rowHashes.map leafHash)).map Digest.hex

lemma jarvisMerkleRoot_eq (leaves : List Hex64) : jarvisMerkleRoot leaves = merkleRoot leaves := by
  rw [jarvisMerkleRoot, merkleRoot, MerkleTree.climb_eq_mth]

lemma jarvisMerkleRoot_isSome {leaves : List Hex64} (h : leaves ≠ []) : (jarvisMerkleRoot leaves).isSome := by
  rw [jarvisMerkleRoot_eq, merkleRoot, Option.isSome_map]
  exact MerkleTree.mth_isSome (by simpa using h)

def jarvisBlockHash (fmt : ℤ) (tenant : String) (height firstSeq lastSeq entryCount : ℤ)
    (prevBlockHash entriesRoot : Hex64) : Hex64 :=
  sha256Hex ("jarvis-block|v" ++ toString fmt ++ "|" ++ toString (utf8 tenant).length ++ ":" ++ tenant ++ "|" ++
    toString height ++ "|" ++ toString firstSeq ++ "|" ++ toString lastSeq ++ "|" ++ toString entryCount ++ "|" ++
    prevBlockHash.text ++ "|" ++ entriesRoot.text)

def blockHash (tenant : String) (height firstSeq lastSeq entryCount : ℤ) (prevBlockHash entriesRoot : Hex64)
    (fmt : ℤ) : Hex64 :=
  sha256Hex ("jarvis-block|v" ++ toString fmt ++ "|" ++ toString (utf8 tenant).length ++ ":" ++ tenant ++ "|" ++
    toString height ++ "|" ++ toString firstSeq ++ "|" ++ toString lastSeq ++ "|" ++ toString entryCount ++ "|" ++
    prevBlockHash.text ++ "|" ++ entriesRoot.text)

lemma blockHash_eq (tenant : String) (height firstSeq lastSeq entryCount : ℤ) (prev root : Hex64) (fmt : ℤ) :
    blockHash tenant height firstSeq lastSeq entryCount prev root fmt =
      jarvisBlockHash fmt tenant height firstSeq lastSeq entryCount prev root := rfl

/-- `array_agg(row_hash ORDER BY seq) … WHERE seq BETWEEN first AND last`. -/
def rowHashes (t : Tables) (first last : ℤ) : List Hex64 :=
  ((t.history.filter (fun e => first ≤ e.seq && e.seq ≤ last)).mergeSort (fun a b => a.seq ≤ b.seq)).map
    HistoryEntry.rowHash

structure BlockProblem where
  height : ℤ
  problem : String
deriving DecidableEq

/-- `ORDER BY height`. -/
def byHeight (blocks : List Block) : List Block := blocks.mergeSort (fun a b => a.height ≤ b.height)

def heightsCheck (blocks : List Block) : List BlockProblem :=
  match (blocks.map Block.height).max? with
  | none => []
  | some top => (((series top).filter (fun n => !blocks.any (·.height = n))).take 100).map fun n : ℤ =>
      ⟨n, "missing block (a block was removed)"⟩

/-- What the loop remembers of a block: its hash and where it ends. -/
def Block.ends (b : Block) : Hex64 × ℤ := (b.blockHash, b.lastSeq)

/-- The checks of one block, after a block that ended with hash `p.1` at seq `p.2`. -/
def blockChecks (t : Tables) (p : Hex64 × ℤ) (b : Block) : List BlockProblem :=
  let leaves := rowHashes t b.firstSeq b.lastSeq
  let root := if 0 < leaves.length then jarvisMerkleRoot leaves else none
  (if b.prevBlockHash ≠ p.1 then [⟨b.height,
    "prev_block_hash does not match the previous block (a block was removed, reordered or altered)"⟩] else []) ++
  (if b.firstSeq ≠ p.2 + 1 then [⟨b.height,
    "block does not continue the history (expected first_seq " ++ toString (p.2 + 1) ++ ", found " ++
      toString b.firstSeq ++ ")"⟩] else []) ++
  (if t.counter.all (· < b.lastSeq) then [⟨b.height,
    "block extends past the history counter (counter altered or history removed)"⟩] else []) ++
  (if leaves.length ≠ b.entryCount ∨ b.entryCount ≠ b.lastSeq - b.firstSeq + 1 then [⟨b.height,
    "entry count does not match the history in the block's range (block says " ++ toString b.entryCount ++
      ", found " ++ toString leaves.length ++ ")"⟩] else []) ++
  (if root ≠ some b.entriesRoot then [⟨b.height,
    "entries_root does not match the history entries in the block's range (an entry or the block was altered)"⟩]
    else []) ++
  (if jarvisBlockHash b.format b.tenantKey b.height b.firstSeq b.lastSeq b.entryCount b.prevBlockHash
      b.entriesRoot ≠ b.blockHash then [⟨b.height,
    "block_hash does not match the block's contents (block was altered)"⟩] else [])

def jarvisVerifyBlocks (t : Tables) (blocks : List Block) : List BlockProblem :=
  heightsCheck blocks ++ scan Block.ends (blockChecks t) (genesis, 0) (byHeight blocks)

/-- What the second implementation remembers: also the height it expects next. -/
def Block.endsAt (b : Block) : Hex64 × ℤ × ℤ := (b.blockHash, b.lastSeq, b.height + 1)

/-- `count` is at least one in every row, so a root is never asked of an empty range. -/
def recompute (t : Tables) (tenant : String) (p : Hex64 × ℤ × ℤ) (b : Block) : List (String × String) :=
  let label := "block " ++ toString b.height
  let leaves := rowHashes t b.firstSeq b.lastSeq
  (if b.height ≠ p.2.2 then
    [(label, "(recompute) expected height " ++ toString p.2.2 ++ ": a block is missing")] else []) ++
  (if b.prevBlockHash ≠ p.1 then
    [(label, "(recompute) prev_block_hash does not match the previous block")] else []) ++
  (if b.firstSeq ≠ p.2.1 + 1 then
    [(label, "(recompute) block does not continue the history (expected first_seq " ++ toString (p.2.1 + 1) ++ ")")]
    else []) ++
  (if leaves.length ≠ b.entryCount ∨ b.entryCount ≠ b.lastSeq - b.firstSeq + 1 then
    [(label, "(recompute) entry count does not match the history in range (block says " ++ toString b.entryCount ++
      ", found " ++ toString leaves.length ++ ")")]
    else if merkleRoot leaves ≠ some b.entriesRoot then
      [(label, "(recompute) entries_root does not match the history entries in range")] else []) ++
  (if blockHash tenant b.height b.firstSeq b.lastSeq b.entryCount b.prevBlockHash b.entriesRoot b.format ≠
      b.blockHash then
    [(label, "(recompute) block_hash does not match the block's contents")] else [])

def blockProblems (t : Tables) (tenant : String) (blocks : List Block) : List (String × String) :=
  (jarvisVerifyBlocks t blocks).map (fun p => ("block " ++ toString p.height, p.problem)) ++
    scan Block.endsAt (recompute t tenant) (genesis, 0, 1) (byHeight blocks)

open Foundations Foundations.Sha256

section Loop

variable {α : Type*} (node : α → α → α)

/-- Arrays count from one. -/
def subscript (lvl : List α) (i : ℕ) : Option α := if i = 0 then none else lvl[i - 1]?

def pairAt (lvl : List α) (i : ℕ) : Option α :=
  Option.map₂ node (subscript lvl (2 * i - 1)) (subscript lvl (2 * i))

/-- `FOR i IN 1..k`. -/
def pairs (lvl : List α) (k : ℕ) : Option (List α) := (List.range k).mapM fun j => pairAt node lvl (j + 1)

/-- One turn of the WHILE: the pairs, then an unpaired last node. -/
def nextLevel (lvl : List α) : Option (List α) :=
  let n := lvl.length
  (pairs node lvl (n / 2)).bind fun nxt =>
    if n % 2 = 1 then (subscript lvl n).map fun last => nxt ++ [last] else some nxt

variable {node}

lemma subscript_add_two (x y : α) (rest : List α) {i : ℕ} (h : 0 < i) :
    subscript (x :: y :: rest) (i + 2) = subscript rest i := by
  obtain ⟨j, rfl⟩ : ∃ j, i = j + 1 := ⟨i - 1, by omega⟩
  simp [subscript]

lemma pairAt_succ (x y : α) (rest : List α) (j : ℕ) :
    pairAt node (x :: y :: rest) (j + 1 + 1) = pairAt node rest (j + 1) := by
  have hleft : 2 * (j + 1 + 1) - 1 = (2 * (j + 1) - 1) + 2 := by omega
  have hright : 2 * (j + 1 + 1) = 2 * (j + 1) + 2 := by omega
  rw [pairAt, hleft, hright, subscript_add_two x y rest (by omega), subscript_add_two x y rest (by omega), pairAt]

lemma pairs_cons (x y : α) (rest : List α) (k : ℕ) :
    pairs node (x :: y :: rest) (k + 1) = (pairs node rest k).map (node x y :: ·) := by
  have htail : (fun j => pairAt node (x :: y :: rest) (j + 1)) ∘ Nat.succ = fun j => pairAt node rest (j + 1) :=
    funext fun j => pairAt_succ x y rest j
  have hhead : pairAt node (x :: y :: rest) (0 + 1) = some (node x y) := by simp [pairAt, subscript]
  rw [pairs, List.range_succ_eq_map, List.mapM_cons, List.mapM_map, htail, hhead, ← pairs]
  cases pairs node rest k <;> rfl

/-- The loop over the array gives the next level, and no subscript leaves the array. -/
lemma nextLevel_eq : (lvl : List α) → nextLevel node lvl = some (MerkleTree.level node lvl)
  | [] => by simp [nextLevel, pairs, MerkleTree.level]
  | [x] => by simp [nextLevel, pairs, subscript, MerkleTree.level]
  | x :: y :: rest => by
    have ih := nextLevel_eq rest
    have hhalf : (x :: y :: rest).length / 2 = rest.length / 2 + 1 := by
      rw [List.length_cons, List.length_cons]
      omega
    have hodd : (x :: y :: rest).length % 2 = rest.length % 2 := by
      rw [List.length_cons, List.length_cons]
      omega
    rw [nextLevel] at ih ⊢
    rw [MerkleTree.level, hhalf, hodd, pairs_cons]
    cases hp : pairs node rest (rest.length / 2) with
    | none => simp [hp] at ih
    | some nxt =>
      simp only [hp, Option.bind_some, Option.map_some] at ih ⊢
      split_ifs at ih ⊢ with h
      · rw [List.length_cons, List.length_cons, subscript_add_two x y rest (by omega)]
        cases hl : subscript rest rest.length with
        | none => simp [hl] at ih
        | some last =>
          simp only [hl, Option.map_some, Option.some.injEq, List.cons_append] at ih ⊢
          rw [ih]
      · rw [Option.some.inj ih]

variable (node)

/-- `WHILE n > 1`, then the node that is left. -/
def whileLevels (lvl : List α) : Option α :=
  if 1 < lvl.length then
    match _h : nextLevel node lvl with
    | none => none
    | some nxt => whileLevels nxt
  else subscript lvl 1
termination_by lvl.length
decreasing_by
  obtain rfl := Option.some.inj ((nextLevel_eq lvl).symm.trans _h)
  rw [MerkleTree.level_length]
  omega

variable {node}

lemma whileLevels_eq (lvl : List α) : whileLevels node lvl = MerkleTree.climb node lvl := by
  induction lvl using MerkleTree.climb.induct node with
  | case1 => simp [whileLevels, subscript, MerkleTree.climb]
  | case2 x => simp [whileLevels, subscript, MerkleTree.climb]
  | case3 x y rest ih =>
    rw [whileLevels, if_pos (by simp), MerkleTree.climb, ← ih]
    split
    · next h => rw [nextLevel_eq] at h; cases h
    · next nxt h => rw [nextLevel_eq] at h; rw [Option.some.inj h]

end Loop

section Roots

variable {α β : Type*} (leaf : Hex64 → α) (node : α → α → α) (hex : α → β)

/-- `jarvis_merkle_root`, which raises on an empty array. -/
def jarvisMerkleRootOver (leaves : List Hex64) : Option β :=
  if leaves.length = 0 then none else (whileLevels node (leaves.map leaf)).map hex

/-- `merkle_root`, which raises on an empty list. -/
def merkleRootOver (rowHashes : List Hex64) : Option β :=
  if rowHashes = [] then none else (MerkleTree.mth node (rowHashes.map leaf)).map hex

lemma jarvisMerkleRootOver_sha256 (leaves : List Hex64) :
    jarvisMerkleRootOver leafHash nodeHash Digest.hex leaves = jarvisMerkleRoot leaves := by
  rw [jarvisMerkleRootOver, whileLevels_eq, jarvisMerkleRoot]
  split_ifs with h
  · rw [List.length_eq_zero_iff.mp h]
    simp [MerkleTree.climb]
  · rfl

lemma merkleRootOver_sha256 (rowHashes : List Hex64) :
    merkleRootOver leafHash nodeHash Digest.hex rowHashes = merkleRoot rowHashes := by
  rw [merkleRootOver, merkleRoot]
  split_ifs with h
  · simp [h, MerkleTree.mth]
  · rfl

/-- Both give one root for every nonempty list, and none for the empty one. -/
theorem merkle_roots_agree (rowHashes : List Hex64) :
    jarvisMerkleRootOver leaf node hex rowHashes = merkleRootOver leaf node hex rowHashes ∧
      ((jarvisMerkleRootOver leaf node hex rowHashes).isSome ↔ rowHashes ≠ []) := by
  rw [jarvisMerkleRootOver, merkleRootOver, whileLevels_eq, MerkleTree.climb_eq_mth]
  by_cases h : rowHashes = []
  · simp [h]
  · have hsome : (MerkleTree.mth node (rowHashes.map leaf)).isSome := MerkleTree.mth_isSome (by simpa using h)
    simp [h, hsome]

end Roots

end ContinuityLedger.Blocks
