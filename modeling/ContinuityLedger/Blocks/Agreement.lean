import ContinuityLedger.Blocks.Tiling
import ContinuityLedger.Foundations.Listing
import Mathlib.Data.Int.Interval

/-! The two verifiers of blocks side by side, over whatever the column constraints let the tables hold: they find
something on the same tables, and where both find nothing the blocks tile the history. -/

namespace ContinuityLedger.Blocks

open Foundations Foundations.Sha256 Foundations.HashChain Ledger

/-- The largest `bigint`. -/
def bigintMax : ℤ := 2 ^ 63 - 1

/-- What the constraints let the blocks and the history of a tenant be. -/
structure Constrained (tenant : String) (t : Tables) (blocks : List Block) : Prop where
  historySeq : (t.history.map HistoryEntry.seq).Nodup
  heights : (blocks.map Block.height).Nodup
  checks : ∀ b ∈ blocks, b.checks = true
  tenantKey : ∀ b ∈ blocks, b.tenantKey = tenant
  bigint : ∀ b ∈ blocks, b.lastSeq ≤ bigintMax

/-- The loop of `jarvis_verify_blocks`; `prev_last + 1` of the largest `bigint` raises. -/
def scanBigint (check : Hex64 × ℤ → Block → List BlockProblem) :
    Hex64 × ℤ → List Block → Option (List BlockProblem)
  | _, [] => some []
  | p, b :: blocks =>
    if p.2 = bigintMax then none else (scanBigint check b.ends blocks).map fun rows => check p b ++ rows

/-- `jarvis_verify_blocks` with these checks of a block; `none` where it raises. -/
def verifyWith (check : Hex64 × ℤ → Block → List BlockProblem) (blocks : List Block) : Option (List BlockProblem) :=
  (scanBigint check (genesis, 0) (byHeight blocks)).map fun rows => heightsCheck blocks ++ rows

def beyondCounter : String := "block extends past the history counter (counter altered or history removed)"

/-- The checks of a block without the one of the counter. -/
def uncounted (t : Tables) (p : Hex64 × ℤ) (b : Block) : List BlockProblem :=
  (blockChecks t p b).filter (·.problem ≠ beyondCounter)

/-- The independent recomputation of `pg_verify`. -/
def recomputation (t : Tables) (tenant : String) (blocks : List Block) : List (String × String) :=
  scan Block.endsAt (recompute t tenant) (genesis, 0, 1) (byHeight blocks)

lemma scanBigint_some {check : Hex64 × ℤ → Block → List BlockProblem} {p : Hex64 × ℤ} {blocks : List Block}
    {rows : List BlockProblem} (h : scanBigint check p blocks = some rows) :
    rows = scan Block.ends check p blocks := by
  induction blocks generalizing p rows with
  | nil => exact (Option.some.inj h).symm
  | cons b blocks ih =>
    rw [scanBigint] at h
    split_ifs at h
    obtain ⟨rest, hrest, rfl⟩ := Option.map_eq_some_iff.mp h
    rw [ih hrest]
    rfl

/-- Where nothing overflows, this is the verifier. -/
lemma verifyWith_blockChecks {t : Tables} {blocks : List Block} {rows : List BlockProblem}
    (h : verifyWith (blockChecks t) blocks = some rows) : rows = jarvisVerifyBlocks t blocks := by
  obtain ⟨rest, hrest, rfl⟩ := Option.map_eq_some_iff.mp h
  rw [scanBigint_some hrest]
  rfl

/-- A block that its own fields and the history in its range reproduce. -/
structure Block.Reproduced (t : Tables) (b : Block) : Prop where
  count : ((rowHashes t b.firstSeq b.lastSeq).length : ℤ) = b.entryCount
  range : b.entryCount = b.lastSeq - b.firstSeq + 1
  root : merkleRoot (rowHashes t b.firstSeq b.lastSeq) = some b.entriesRoot
  hash : jarvisBlockHash b.format b.tenantKey b.height b.firstSeq b.lastSeq b.entryCount b.prevBlockHash
    b.entriesRoot = b.blockHash

lemma filter_complaint {n : ℤ} {text : String} {c : Prop} [Decidable c] (hx : text ≠ beyondCounter) :
    (if c then [⟨n, text⟩] else [] : List BlockProblem).filter (·.problem ≠ beyondCounter) = [] ↔ ¬ c := by
  split_ifs with hc <;> simp [hc, hx]

lemma filter_counter {n : ℤ} {text : String} {c : Prop} [Decidable c] (hx : text = beyondCounter) :
    (if c then [⟨n, text⟩] else [] : List BlockProblem).filter (·.problem ≠ beyondCounter) = [] := by
  split_ifs <;> simp [hx]

lemma complaint_nil {α : Type} {x : α} {c : Prop} [Decidable c] : (if c then [x] else []) = [] ↔ ¬ c := by
  split_ifs with hc <;> simp [hc]

/-- A text that parts from the counter's within its opening. -/
lemma ne_beyondCounter {opening rest : String} (i : ℕ) (hi : i < opening.toList.length)
    (h : opening.toList[i]? ≠ beyondCounter.toList[i]?) : opening ++ rest ≠ beyondCounter := by
  intro heq
  have hget := congrArg (fun s : String => s.toList[i]?) heq
  simp only [String.toList_append, List.getElem?_append_left hi] at hget
  exact h hget

lemma uncounted_eq_nil {t : Tables} {p : Hex64 × ℤ} {b : Block} (hc : 1 ≤ b.entryCount) :
    uncounted t p b = [] ↔ b.continues = p ∧ b.Reproduced t := by
  have htiling : "block does not continue the history (expected first_seq " ++ toString (p.2 + 1) ++ ", found " ++
      toString b.firstSeq ++ ")" ≠ beyondCounter := by
    rw [String.append_assoc, String.append_assoc, String.append_assoc]
    exact ne_beyondCounter 6 (by decide) (by decide)
  have hcount : "entry count does not match the history in the block's range (block says " ++ toString b.entryCount ++
      ", found " ++ toString (rowHashes t b.firstSeq b.lastSeq).length ++ ")" ≠ beyondCounter := by
    rw [String.append_assoc, String.append_assoc, String.append_assoc]
    exact ne_beyondCounter 0 (by decide) (by decide)
  have hcounter : "block extends past the history counter (counter altered or history removed)" = beyondCounter := rfl
  unfold uncounted blockChecks
  simp only [List.filter_append, List.append_eq_nil_iff]
  rw [filter_complaint (by decide), filter_complaint htiling, filter_counter hcounter, filter_complaint hcount,
    filter_complaint (by decide), filter_complaint (by decide)]
  simp only [ne_eq, not_not, not_or, and_true]
  constructor
  · rintro ⟨⟨⟨⟨hprev, hfirst⟩, hlen, hrange⟩, hroot⟩, hhash⟩
    rw [if_pos (by omega), jarvisMerkleRoot_eq] at hroot
    exact ⟨Prod.ext hprev (by rw [Block.continues]; omega), hlen, hrange, hroot, hhash⟩
  · rintro ⟨rfl, hlen, hrange, hroot, hhash⟩
    refine ⟨⟨⟨⟨rfl, by rw [Block.continues]; omega⟩, hlen, hrange⟩, ?_⟩, hhash⟩
    rw [if_pos (by omega), jarvisMerkleRoot_eq]
    exact hroot

lemma recompute_eq_nil {t : Tables} {tenant : String} {p : Hex64 × ℤ × ℤ} {b : Block} (ht : b.tenantKey = tenant) :
    recompute t tenant p b = [] ↔ (b.prevBlockHash, b.firstSeq - 1, b.height) = p ∧ b.Reproduced t := by
  obtain ⟨prev, last, height⟩ := p
  subst ht
  unfold recompute
  simp only [List.append_eq_nil_iff, Prod.mk.injEq]
  by_cases hcount : ((rowHashes t b.firstSeq b.lastSeq).length : ℤ) ≠ b.entryCount ∨
      b.entryCount ≠ b.lastSeq - b.firstSeq + 1
  · rw [if_pos hcount]
    refine iff_of_false (by simp) fun h => ?_
    exact hcount.elim (fun hne => hne h.2.count) fun hne => hne h.2.range
  · rw [if_neg hcount]
    rw [not_or, not_not, not_not] at hcount
    rw [complaint_nil, complaint_nil, complaint_nil, complaint_nil, complaint_nil, not_not, not_not, not_not, not_not,
      not_not, blockHash_eq]
    constructor
    · rintro ⟨⟨⟨⟨hheight, hprev⟩, hfirst⟩, hroot⟩, hhash⟩
      exact ⟨⟨hprev, by omega, hheight⟩, hcount.1, hcount.2, hroot, hhash⟩
    · rintro ⟨⟨hprev, hfirst, hheight⟩, -, -, hroot, hhash⟩
      exact ⟨⟨⟨⟨hheight, hprev⟩, by omega⟩, hroot⟩, hhash⟩

lemma mem_series {n x : ℤ} : x ∈ series n ↔ 1 ≤ x ∧ x ≤ n := by
  simp only [series, List.mem_map, List.mem_range]
  constructor
  · rintro ⟨i, hi, rfl⟩
    omega
  · rintro ⟨hl, hu⟩
    exact ⟨(x - 1).toNat, by omega, by omega⟩

lemma series_pairwise (n : ℤ) : (series n).Pairwise (· < ·) := by
  rw [series, List.pairwise_map]
  exact List.pairwise_lt_range.imp fun h => by omega

lemma series_length (n : ℤ) : (series n).length = n.toNat := by
  rw [series, List.length_map, List.length_range]

lemma Block.checks_bounds {b : Block} (h : b.checks = true) :
    1 ≤ b.height ∧ 1 ≤ b.firstSeq ∧ 1 ≤ b.entryCount ∧ b.firstSeq ≤ b.lastSeq := by
  simp only [Block.checks, Bool.and_eq_true, decide_eq_true_eq] at h
  obtain ⟨⟨⟨⟨⟨⟨⟨-, hheight⟩, hfirst⟩, hcount⟩, -⟩, -⟩, -⟩, hle⟩ := h
  exact ⟨hheight, hfirst, hcount, hle⟩

lemma byHeight_perm (blocks : List Block) : (byHeight blocks).Perm blocks := List.mergeSort_perm _ _

/-- No height is missing exactly where the sorted heights run from one on. -/
lemma heightsCheck_eq_nil {tenant : String} {t : Tables} {blocks : List Block} (h : Constrained tenant t blocks) :
    heightsCheck blocks = [] ↔ (byHeight blocks).map Block.height = series (byHeight blocks).length := by
  have hmem : ∀ x, x ∈ (byHeight blocks).map Block.height ↔ x ∈ blocks.map Block.height :=
    fun x => ((byHeight_perm blocks).map Block.height).mem_iff
  have hsorted : ((byHeight blocks).map Block.height).Pairwise (· < ·) :=
    List.pairwise_map.mpr (Listing.mergeSort_pairwise_lt h.heights)
  unfold heightsCheck
  cases hmax : (blocks.map Block.height).max? with
  | none =>
    obtain rfl : blocks = [] := List.map_eq_nil_iff.mp (List.max?_eq_none_iff.mp hmax)
    exact iff_of_true rfl (by simp [byHeight, series])
  | some top =>
    obtain ⟨htop, hle⟩ := List.max?_eq_some_iff.mp hmax
    have hgap : (((series top).filter (fun n => !blocks.any (·.height = n))).take 100).map
        (fun n : ℤ => (⟨n, "missing block (a block was removed)"⟩ : BlockProblem)) = [] ↔
          ∀ n ∈ series top, n ∈ blocks.map Block.height := by
      simp [List.take_eq_nil_iff, List.filter_eq_nil_iff]
    rw [hgap]
    constructor
    · intro hall
      have hperm : ((byHeight blocks).map Block.height).Perm (series top) := by
        rw [List.perm_ext_iff_of_nodup (hsorted.imp ne_of_lt) ((series_pairwise top).imp ne_of_lt)]
        intro x
        rw [hmem]
        refine ⟨fun hx => ?_, hall x⟩
        obtain ⟨b, hb, rfl⟩ := List.mem_map.mp hx
        exact mem_series.mpr ⟨(Block.checks_bounds (h.checks b hb)).1, hle _ hx⟩
      have heq : (byHeight blocks).map Block.height = series top :=
        hperm.eq_of_pairwise (fun a b _ _ hab hba => absurd hab hba.asymm) hsorted (series_pairwise top)
      have hlen := congrArg List.length heq
      rw [List.length_map, series_length] at hlen
      rw [heq, hlen, series, series, Int.toNat_natCast]
    · intro heq n hn
      rw [← hmem, heq, mem_series]
      have hin := heq ▸ (hmem top).mpr htop
      have := (mem_series.mp hn)
      have := (mem_series.mp hin)
      omega

lemma scanBigint_eq_nil {check : Hex64 × ℤ → Block → List BlockProblem} {good : Block → Prop} {p : Hex64 × ℤ}
    {blocks : List Block} (hc : ∀ b ∈ blocks, ∀ p, check p b = [] ↔ b.continues = p ∧ good b)
    (hb : ∀ b ∈ blocks, b.lastSeq ≤ bigintMax ∧ b.firstSeq ≤ b.lastSeq) :
    scanBigint check p blocks = some [] ↔ Linked Block.continues Block.ends p blocks ∧ ∀ b ∈ blocks, good b := by
  induction blocks generalizing p with
  | nil => simp [scanBigint]
  | cons b blocks ih =>
    obtain ⟨hb, hblocks⟩ := List.forall_mem_cons.mp hb
    obtain ⟨hcb, hc⟩ := List.forall_mem_cons.mp hc
    rw [scanBigint, linked_cons, List.forall_mem_cons]
    split_ifs with hmax
    · refine iff_of_false (by simp) ?_
      rintro ⟨⟨rfl, -⟩, -⟩
      simp only [Block.continues] at hmax
      omega
    · rw [Option.map_eq_some_iff]
      constructor
      · rintro ⟨rest, hrest, hnil⟩
        obtain ⟨hcheck, rfl⟩ := List.append_eq_nil_iff.mp hnil
        obtain ⟨hprev, hgood⟩ := (hcb p).mp hcheck
        obtain ⟨hlinked, hall⟩ := (ih hc hblocks).mp hrest
        exact ⟨⟨hprev, hlinked⟩, hgood, hall⟩
      · rintro ⟨⟨hprev, hlinked⟩, hgood, hall⟩
        exact ⟨[], (ih hc hblocks).mpr ⟨hlinked, hall⟩, by rw [(hcb p).mpr ⟨hprev, hgood⟩]; rfl⟩

lemma scan_recompute_eq_nil {t : Tables} {tenant : String} {p : Hex64 × ℤ × ℤ} {blocks : List Block}
    (ht : ∀ b ∈ blocks, b.tenantKey = tenant) :
    scan Block.endsAt (recompute t tenant) p blocks = [] ↔
      Linked (fun b => (b.prevBlockHash, b.firstSeq - 1, b.height)) Block.endsAt p blocks ∧
        ∀ b ∈ blocks, b.Reproduced t := by
  induction blocks generalizing p with
  | nil => simp [scan]
  | cons b blocks ih =>
    obtain ⟨hb, hblocks⟩ := List.forall_mem_cons.mp ht
    rw [scan, List.append_eq_nil_iff, recompute_eq_nil hb, ih hblocks, linked_cons, List.forall_mem_cons]
    tauto

/-- The heights that the recomputation expects are those from one on. -/
lemma linked_endsAt_iff {bs : List Block} {p : Hex64 × ℤ} {n : ℕ} :
    Linked (fun b => (b.prevBlockHash, b.firstSeq - 1, b.height)) Block.endsAt (p.1, p.2, (n : ℤ)) bs ↔
      Linked Block.continues Block.ends p bs ∧
        bs.map Block.height = (List.range bs.length).map fun i : ℕ => (n : ℤ) + i := by
  refine ⟨fun h => ?_, fun h => linked_endsAt h.1 h.2⟩
  induction bs generalizing p n with
  | nil => exact ⟨trivial, rfl⟩
  | cons b bs ih =>
    obtain ⟨heq, hl⟩ := h
    simp only [Prod.mk.injEq] at heq
    obtain ⟨hprev, hfirst, hheight⟩ := heq
    have hends : b.endsAt = (b.ends.1, b.ends.2, ((n + 1 : ℕ) : ℤ)) := by
      simp [Block.endsAt, Block.ends, hheight]
    rw [hends] at hl
    obtain ⟨hlinked, hheights⟩ := ih hl
    refine ⟨⟨Prod.ext hprev hfirst, hlinked⟩, ?_⟩
    rw [List.length_cons, List.range_succ_eq_map, List.map_cons, List.map_cons, List.map_map, hheights, hheight]
    refine List.cons_eq_cons.mpr ⟨by simp, List.map_congr_left fun i _ => ?_⟩
    simp only [Function.comp_apply, Nat.cast_add, Nat.cast_one, Nat.succ_eq_add_one]
    omega

/-- Distinct numbers in a range, as many as it holds, are all of them. -/
lemma covers {l : List ℤ} {a b : ℤ} (hn : l.Nodup) (hin : ∀ x ∈ l, a ≤ x ∧ x ≤ b) (hlen : (l.length : ℤ) = b - a + 1)
    {x : ℤ} (ha : a ≤ x) (hb : x ≤ b) : x ∈ l := by
  have hsub : l.toFinset ⊆ Finset.Icc a b := fun y hy => Finset.mem_Icc.mpr (hin y (List.mem_toFinset.mp hy))
  have hcard : (Finset.Icc a b).card ≤ l.toFinset.card := by
    rw [Int.card_Icc, List.toFinset_card_of_nodup hn]
    omega
  have hall := Finset.eq_of_subset_of_card_le hsub hcard
  exact List.mem_toFinset.mp (hall ▸ Finset.mem_Icc.mpr ⟨ha, hb⟩)

/-- A reproduced block has an entry for every number in its range. -/
lemma Block.Reproduced.entry {t : Tables} {b : Block} (h : b.Reproduced t) (hn : (t.history.map HistoryEntry.seq).Nodup)
    {s : ℤ} (hl : b.firstSeq ≤ s) (hu : s ≤ b.lastSeq) : ∃ e ∈ t.history, e.seq = s := by
  have hcount := h.count
  have hseqs : ((t.history.filter (fun e => b.firstSeq ≤ e.seq && e.seq ≤ b.lastSeq)).map HistoryEntry.seq).length =
      (t.history.filter (fun e => b.firstSeq ≤ e.seq && e.seq ≤ b.lastSeq)).length := List.length_map ..
  rw [rowHashes, List.length_map, List.length_mergeSort, h.range, ← hseqs] at hcount
  have hin := covers (hn.sublist (List.filter_sublist.map _)) (fun x hx => ?_) hcount hl hu
  · obtain ⟨e, he, rfl⟩ := List.mem_map.mp hin
    exact ⟨e, (List.mem_filter.mp he).1, rfl⟩
  · obtain ⟨e, he, rfl⟩ := List.mem_map.mp hx
    simpa using (List.mem_filter.mp he).2

lemma linked_ranges {p : Hex64 × ℤ} {bs : List Block} (h : Linked Block.continues Block.ends p bs)
    (hle : ∀ b ∈ bs, b.firstSeq ≤ b.lastSeq) :
    (∀ b ∈ bs, p.2 < b.firstSeq) ∧ bs.Pairwise (fun a b => a.lastSeq < b.firstSeq) := by
  induction bs generalizing p with
  | nil => exact ⟨by simp, .nil⟩
  | cons b bs ih =>
    obtain ⟨rfl, hl⟩ := h
    obtain ⟨hb, hbs⟩ := List.forall_mem_cons.mp hle
    obtain ⟨hlower, hp⟩ := ih hl hbs
    refine ⟨?_, .cons hlower hp⟩
    rw [List.forall_mem_cons]
    refine ⟨Int.sub_one_lt_of_le le_rfl, fun c hc => ?_⟩
    have := hlower c hc
    simp only [Block.ends, Block.continues] at this ⊢
    omega

lemma linked_covers {p : Hex64 × ℤ} {bs : List Block} (h : Linked Block.continues Block.ends p bs) {s : ℤ}
    (hl : p.2 < s) (hu : s ≤ (HashChain.tip Block.ends p bs).2) : ∃ b ∈ bs, b.firstSeq ≤ s ∧ s ≤ b.lastSeq := by
  induction bs generalizing p with
  | nil => exact absurd hl (not_lt.mpr hu)
  | cons b bs ih =>
    obtain ⟨rfl, hlinked⟩ := h
    by_cases hs : s ≤ b.lastSeq
    · simp only [Block.continues] at hl
      exact ⟨b, by simp, by omega, hs⟩
    · obtain ⟨c, hc, hrange⟩ := ih hlinked (not_le.mp hs) hu
      exact ⟨c, List.mem_cons_of_mem _ hc, hrange⟩

/-- Where the newest block ends. -/
def newestSeq (blocks : List Block) : ℤ := (HashChain.tip Block.ends (genesis, 0) (byHeight blocks)).2

/-- What silence vouches for. -/
structure Complete (tenant : String) (t : Tables) (blocks : List Block) : Prop where
  heights : (byHeight blocks).map Block.height = series blocks.length
  linked : Linked Block.continues Block.ends (genesis, 0) (byHeight blocks)
  tiles : ∀ s, 1 ≤ s → s ≤ newestSeq blocks → ∃! b, b ∈ blocks ∧ b.firstSeq ≤ s ∧ s ≤ b.lastSeq
  entries : ∀ s, 1 ≤ s → s ≤ newestSeq blocks → ∃ e ∈ t.history, e.seq = s
  roots : ∀ b ∈ blocks, merkleRoot (rowHashes t b.firstSeq b.lastSeq) = some b.entriesRoot
  hashes : ∀ b ∈ blocks, blockHash tenant b.height b.firstSeq b.lastSeq b.entryCount b.prevBlockHash b.entriesRoot
    b.format = b.blockHash
  counter : ∀ b ∈ blocks, ∃ c, t.counter = some c ∧ b.lastSeq ≤ c

/-- Both verifiers find nothing exactly where the blocks are linked, numbered and reproduced. -/
lemma recomputation_eq_nil {tenant : String} {t : Tables} {blocks : List Block} (h : Constrained tenant t blocks) :
    recomputation t tenant blocks = [] ↔
      (Linked Block.continues Block.ends (genesis, 0) (byHeight blocks) ∧
        (byHeight blocks).map Block.height = series (byHeight blocks).length) ∧ ∀ b ∈ byHeight blocks, b.Reproduced t := by
  have hseries : series (byHeight blocks).length =
      (List.range (byHeight blocks).length).map fun i : ℕ => ((1 : ℕ) : ℤ) + i := by
    rw [series, Int.toNat_natCast]
    exact List.map_congr_left fun i _ => by omega
  rw [recomputation, scan_recompute_eq_nil fun b hb => h.tenantKey b ((byHeight_perm blocks).mem_iff.mp hb), hseries,
    ← linked_endsAt_iff]
  rfl

lemma verifyWith_uncounted_eq_nil {tenant : String} {t : Tables} {blocks : List Block} (h : Constrained tenant t blocks) :
    verifyWith (uncounted t) blocks = some [] ↔
      (Linked Block.continues Block.ends (genesis, 0) (byHeight blocks) ∧
        (byHeight blocks).map Block.height = series (byHeight blocks).length) ∧ ∀ b ∈ byHeight blocks, b.Reproduced t := by
  have hmem : ∀ b ∈ byHeight blocks, b ∈ blocks := fun b hb => (byHeight_perm blocks).mem_iff.mp hb
  have hscan := @scanBigint_eq_nil (uncounted t) (Block.Reproduced t) (genesis, 0) (byHeight blocks)
    (fun b hb p => uncounted_eq_nil (Block.checks_bounds (h.checks b (hmem b hb))).2.2.1)
    (fun b hb => ⟨h.bigint b (hmem b hb), (Block.checks_bounds (h.checks b (hmem b hb))).2.2.2⟩)
  rw [verifyWith, Option.map_eq_some_iff, ← heightsCheck_eq_nil h]
  constructor
  · rintro ⟨rows, hrows, hnil⟩
    obtain ⟨hheights, rfl⟩ := List.append_eq_nil_iff.mp hnil
    obtain ⟨hlinked, hall⟩ := hscan.mp hrows
    exact ⟨⟨hlinked, hheights⟩, hall⟩
  · rintro ⟨⟨hlinked, hheights⟩, hall⟩
    exact ⟨[], hscan.mpr ⟨hlinked, hall⟩, by rw [hheights]; rfl⟩

lemma scan_check {check : Hex64 × ℤ → Block → List BlockProblem} {p : Hex64 × ℤ} {bs : List Block}
    (h : scan Block.ends check p bs = []) : ∀ b ∈ bs, ∃ q, check q b = [] := by
  induction bs generalizing p with
  | nil => simp
  | cons b bs ih =>
    obtain ⟨hb, hbs⟩ := List.append_eq_nil_iff.mp h
    rw [List.forall_mem_cons]
    exact ⟨⟨p, hb⟩, ih hbs⟩

/-- A silent check of the counter. -/
lemma blockChecks_counter {t : Tables} {p : Hex64 × ℤ} {b : Block} (h : blockChecks t p b = []) :
    ∃ c, t.counter = some c ∧ b.lastSeq ≤ c := by
  unfold blockChecks at h
  simp only [List.append_eq_nil_iff] at h
  have hcounter := complaint_nil.mp h.1.1.1.2
  cases hc : t.counter with
  | none => simp [hc] at hcounter
  | some c => exact ⟨c, rfl, by simpa [hc] using hcounter⟩

/-- Whatever the constraints admit, the recomputation finds nothing exactly where the database's verifier without its
counter check returns, and returns no problem; and where the recomputation and the whole verifier find nothing, the
blocks tile the history. -/
theorem verifiers_agree {tenant : String} {t : Tables} {blocks : List Block} (h : Constrained tenant t blocks) :
    (recomputation t tenant blocks = [] ↔ verifyWith (uncounted t) blocks = some []) ∧
      (recomputation t tenant blocks = [] → verifyWith (blockChecks t) blocks = some [] → Complete tenant t blocks) := by
  refine ⟨(recomputation_eq_nil h).trans (verifyWith_uncounted_eq_nil h).symm, fun hrecompute hverify => ?_⟩
  obtain ⟨⟨hlinked, hheights⟩, hall⟩ := (recomputation_eq_nil h).mp hrecompute
  have hperm := byHeight_perm blocks
  have hmem : ∀ b, b ∈ byHeight blocks ↔ b ∈ blocks := fun b => hperm.mem_iff
  obtain ⟨-, hranges⟩ := linked_ranges hlinked fun b hb => (Block.checks_bounds (h.checks b ((hmem b).mp hb))).2.2.2
  have htiles : ∀ s, 1 ≤ s → s ≤ newestSeq blocks → ∃! b, b ∈ blocks ∧ b.firstSeq ≤ s ∧ s ≤ b.lastSeq := by
    intro s hl hu
    obtain ⟨b, hb, hrange⟩ := linked_covers hlinked (Int.lt_of_add_one_le hl) hu
    refine ⟨b, ⟨(hmem b).mp hb, hrange⟩, ?_⟩
    rintro c ⟨hc, hcrange⟩
    have hapart : (byHeight blocks).Pairwise fun a b => a = b ∨ a.lastSeq < b.firstSeq ∨ b.lastSeq < a.firstSeq :=
      hranges.imp fun hab => .inr (.inl hab)
    have hflip := hranges.imp (S := flip fun a b : Block => a = b ∨ a.lastSeq < b.firstSeq ∨ b.lastSeq < a.firstSeq)
      fun hab => .inr (.inr hab)
    rcases List.Pairwise.forall_of_forall_of_flip (fun _ _ => .inl rfl) hapart hflip ((hmem c).mpr hc) hb with
      rfl | hlt | hlt
    · rfl
    · omega
    · omega
  refine ⟨by rw [hheights, hperm.length_eq], hlinked, htiles, fun s hl hu => ?_, fun b hb => ?_, fun b hb => ?_,
    fun b hb => ?_⟩
  · obtain ⟨b, ⟨hb, hrange⟩, -⟩ := htiles s hl hu
    exact (hall b ((hmem b).mpr hb)).entry h.historySeq hrange.1 hrange.2
  · exact (hall b ((hmem b).mpr hb)).root
  · rw [← h.tenantKey b hb]
    exact (hall b ((hmem b).mpr hb)).hash
  · obtain ⟨rows, hrows, hnil⟩ := Option.map_eq_some_iff.mp hverify
    obtain ⟨-, rfl⟩ := List.append_eq_nil_iff.mp hnil
    obtain ⟨q, hq⟩ := scan_check (scanBigint_some hrows).symm b ((hmem b).mpr hb)
    exact blockChecks_counter hq

/-- A block at the very end of the numbers, over a history that ends before it begins. -/
def strayBlock : Block where
  tenantKey := "operator"
  height := 2
  firstSeq := bigintMax
  lastSeq := bigintMax
  entryCount := 1
  prevBlockHash := genesis
  entriesRoot := genesis
  blockHash := genesis
  format := 1
  sealedAt := 0
  sealedBy := "operator"

theorem verifiers_agree_strayBlock :
    recomputation Tables.empty "operator" [strayBlock] = [] ↔
      verifyWith (uncounted Tables.empty) [strayBlock] = some [] := by
  have h : Constrained "operator" Tables.empty [strayBlock] := by
    refine ⟨by decide, by decide, ?_, ?_, ?_⟩ <;> simp only [List.forall_mem_singleton]
    · decide
    · rfl
    · exact le_rfl
  exact (verifiers_agree h).1

end ContinuityLedger.Blocks
