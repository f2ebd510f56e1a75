import ContinuityLedger.Blocks.Seal

/-! Blocks that tile the history: heights from one, ranges and hashes that continue each other, and every block
reproducible from the entries in its range. Both verifiers are silent on them, and more history leaves them so. -/

namespace ContinuityLedger.Blocks

open Foundations Foundations.Sha256 Foundations.HashChain Ledger

lemma rowHashes_eq {t : Tables} (h : Logged t) (a b : ℤ) :
    rowHashes t a b = (t.history.filter (fun e => a ≤ e.seq && e.seq ≤ b)).map HistoryEntry.rowHash := by
  rw [rowHashes, List.mergeSort_of_pairwise]
  exact (h.pairwise.sublist List.filter_sublist).imp fun hab => decide_eq_true hab.le

lemma range_filter_length {a : ℤ} (ha : 1 ≤ a) (b : ℤ) (n : ℕ) :
    ((List.range n).filter (fun i : ℕ => a ≤ (i : ℤ) + 1 && (i : ℤ) + 1 ≤ b)).length =
      (min (n : ℤ) b - a + 1).toNat := by
  induction n with
  | zero =>
    simp only [List.range_zero, List.filter_nil, List.length_nil]
    omega
  | succ n ih =>
    rw [List.range_succ, List.filter_append, List.length_append, ih]
    by_cases hn : a ≤ (n : ℤ) + 1 ∧ (n : ℤ) + 1 ≤ b
    · have hl : [n].filter (fun i : ℕ => a ≤ (i : ℤ) + 1 && (i : ℤ) + 1 ≤ b) = [n] :=
        List.filter_eq_self.mpr (by simpa using hn)
      rw [hl, List.length_singleton]
      omega
    · have hl : [n].filter (fun i : ℕ => a ≤ (i : ℤ) + 1 && (i : ℤ) + 1 ≤ b) = [] := by
        simpa [List.filter_eq_nil_iff] using hn
      rw [hl, List.length_nil]
      omega

/-- A range inside the history holds one entry for each of its numbers. -/
lemma rowHashes_length {t : Tables} (h : Logged t) {a b : ℤ} (ha : 1 ≤ a) (hab : a ≤ b + 1)
    (hb : b ≤ t.history.length) : ((rowHashes t a b).length : ℤ) = b - a + 1 := by
  have hseqs : (t.history.filter (fun e => a ≤ e.seq && e.seq ≤ b)).map HistoryEntry.seq =
      (t.history.map HistoryEntry.seq).filter (fun n => a ≤ n && n ≤ b) := by
    rw [List.filter_map]
    rfl
  have hlen := congrArg List.length hseqs
  rw [h.seqs, List.filter_map, List.length_map, List.length_map] at hlen
  rw [rowHashes_eq h, List.length_map, hlen]
  have hr := range_filter_length ha b t.history.length
  simp only [Function.comp_def]
  rw [hr]
  omega

/-- Entries that come later have later numbers, so a range keeps its rows. -/
lemma rowHashes_of_isPrefix {t t' : Tables} (h : Logged t) (h' : Logged t') (hp : t.history <+: t'.history)
    (a : ℤ) {b : ℤ} (hb : b ≤ t.history.length) : rowHashes t' a b = rowHashes t a b := by
  obtain ⟨later, hl⟩ := hp
  have hlate : ∀ e ∈ later, (t.history.length : ℤ) < e.seq := by
    intro e he
    obtain ⟨i, hi, rfl⟩ := List.getElem_of_mem he
    have hs := congrArg (fun l : List ℤ => l[t.history.length + i]?) h'.seqs
    simp only [← hl, List.getElem?_map, List.getElem?_append_right (Nat.le_add_right _ _),
      Nat.add_sub_cancel_left, List.getElem?_eq_getElem hi, Option.map_some, List.length_append,
      List.getElem?_range (Nat.add_lt_add_left hi _), Option.some.injEq] at hs
    omega
  have hnil : later.filter (fun e => a ≤ e.seq && e.seq ≤ b) = [] := by
    simp only [List.filter_eq_nil_iff, Bool.and_eq_true, decide_eq_true_eq, not_and, not_le]
    intro e he _
    have := hlate e he
    omega
  rw [rowHashes_eq h, rowHashes_eq h', ← hl, List.filter_append, hnil, List.append_nil]

/-- The block is what a seal of its range makes of the history. -/
structure Block.Seals (b : Block) (tenant : String) (t : Tables) : Prop where
  tenantKey : b.tenantKey = tenant
  format : b.format = 1
  first : 1 ≤ b.firstSeq
  count : b.entryCount = b.lastSeq - b.firstSeq + 1
  nonempty : b.firstSeq ≤ b.lastSeq
  within : b.lastSeq ≤ t.history.length
  root : jarvisMerkleRoot (rowHashes t b.firstSeq b.lastSeq) = some b.entriesRoot
  hash : jarvisBlockHash 1 tenant b.height b.firstSeq b.lastSeq b.entryCount b.prevBlockHash b.entriesRoot =
    b.blockHash

/-- What a block continues: the hash and the end of the one before it. -/
def Block.continues (b : Block) : Hex64 × ℤ := (b.prevBlockHash, b.firstSeq - 1)

structure Tiled (tenant : String) (t : Tables) (bs : List Block) : Prop where
  heights : bs.map Block.height = series bs.length
  linked : Linked Block.continues Block.ends (genesis, 0) bs
  sealed : ∀ b ∈ bs, b.Seals tenant t

lemma tiled_nil (tenant : String) (t : Tables) : Tiled tenant t [] :=
  ⟨rfl, trivial, by simp⟩

lemma Tiled.of_isPrefix {tenant : String} {t t' : Tables} {bs : List Block} (h : Tiled tenant t bs)
    (ht : Logged t) (ht' : Logged t') (hp : t.history <+: t'.history) : Tiled tenant t' bs := by
  refine ⟨h.heights, h.linked, fun b hb => ?_⟩
  have hs := h.sealed b hb
  refine ⟨hs.tenantKey, hs.format, hs.first, hs.count, hs.nonempty, ?_, ?_, hs.hash⟩
  · have hl := hp.length_le
    have := hs.within
    omega
  · rw [rowHashes_of_isPrefix ht ht' hp _ hs.within, hs.root]

lemma series_succ (n : ℕ) : series (n + 1 : ℕ) = series n ++ [(n : ℤ) + 1] := by
  simp [series, List.range_succ]

lemma Tiled.height_pairwise {tenant : String} {t : Tables} {bs : List Block} (h : Tiled tenant t bs) :
    bs.Pairwise (fun a b => a.height < b.height) := by
  have hp : (bs.map Block.height).Pairwise (· < ·) := by
    rw [h.heights, series, List.pairwise_map]
    exact List.pairwise_lt_range.imp fun h => by omega
  exact List.pairwise_map.mp hp

/-- The tip as the seal reads it is the end of the chain. -/
lemma Tiled.tip_eq {tenant : String} {t : Tables} {bs : List Block} (h : Tiled tenant t bs) :
    (tip bs).height = bs.length ∧ ((tip bs).blockHash, (tip bs).lastSeq) = HashChain.tip Block.ends (genesis, 0) bs := by
  rw [Blocks.tip, EventFold.argmax_eq_getLast? h.height_pairwise, HashChain.tip_eq_getLast?]
  rcases List.eq_nil_or_concat bs with rfl | ⟨cs, b, rfl⟩
  · simp
  · rw [List.concat_eq_append] at h ⊢
    have hh := h.heights
    rw [List.map_append, List.length_append, List.length_singleton, series_succ] at hh
    have hb : b.height = (cs.length : ℤ) + 1 := by
      simpa using (List.append_inj_right' hh rfl)
    simp [hb, Block.ends]

/-- One more block that continues the tip keeps the tiling. -/
lemma Tiled.append {tenant : String} {t : Tables} {bs : List Block} (h : Tiled tenant t bs) {b : Block}
    (hb : b.Seals tenant t) (hh : b.height = (tip bs).height + 1)
    (hc : b.continues = ((tip bs).blockHash, (tip bs).lastSeq)) : Tiled tenant t (bs ++ [b]) := by
  obtain ⟨htip, hends⟩ := h.tip_eq
  refine ⟨?_, ?_, ?_⟩
  · rw [List.map_append, h.heights, List.length_append, List.length_singleton, series_succ]
    simp [hh, htip]
  · rw [linked_append_singleton]
    exact ⟨h.linked, hc.trans hends⟩
  · simpa [or_imp, forall_and] using ⟨h.sealed, hb⟩

lemma byHeight_eq {tenant : String} {t : Tables} {bs : List Block} (h : Tiled tenant t bs) : byHeight bs = bs :=
  List.mergeSort_of_pairwise (h.height_pairwise.imp fun hab => decide_eq_true hab.le)

lemma heightsCheck_silent {tenant : String} {t : Tables} {bs : List Block} (h : Tiled tenant t bs) :
    heightsCheck bs = [] := by
  unfold heightsCheck
  cases hm : (bs.map Block.height).max? with
  | none => rfl
  | some top =>
    have htop : top ∈ series bs.length := h.heights ▸ List.max?_mem hm
    have hgap : (series top).filter (fun n => !bs.any (·.height = n)) = [] := by
      simp only [List.filter_eq_nil_iff, Bool.not_eq_true', Bool.not_eq_false, List.any_eq_true,
        decide_eq_true_eq]
      intro n hn
      have hn' : n ∈ bs.map Block.height := by
        rw [h.heights]
        simp only [series, List.mem_map, List.mem_range] at hn htop ⊢
        obtain ⟨i, hi, rfl⟩ := hn
        obtain ⟨j, hj, rfl⟩ := htop
        exact ⟨i, by omega, rfl⟩
      exact List.mem_map.mp hn'
    simp [hgap]

/-- What the range of a sealed block holds. -/
lemma Block.Seals.length {b : Block} {tenant : String} {t : Tables} (h : b.Seals tenant t) (ht : Logged t) :
    ((rowHashes t b.firstSeq b.lastSeq).length : ℤ) = b.entryCount :=
  (rowHashes_length ht h.first (by have := h.nonempty; omega) h.within).trans h.count.symm

lemma blockChecks_silent {b : Block} {tenant : String} {t : Tables} (h : b.Seals tenant t) (ht : Logged t)
    {p : Hex64 × ℤ} (hp : b.continues = p) : blockChecks t p b = [] := by
  obtain rfl := hp
  have hlen := h.length ht
  have hpos : 0 < (rowHashes t b.firstSeq b.lastSeq).length := by
    have := h.count
    have := h.nonempty
    omega
  have hcount : b.entryCount = b.lastSeq - b.firstSeq + 1 := h.count
  have hctr : t.counter.all (· < b.lastSeq) = false := by
    have hc := ht.counter
    have := h.within
    have := h.first
    have := h.nonempty
    cases hx : t.counter with
    | none =>
      simp only [hx, Option.getD_none] at hc
      omega
    | some c =>
      simp only [hx, Option.getD_some] at hc
      simp only [Option.all_some, decide_eq_false_iff_not]
      omega
  simp [blockChecks, Block.continues, hctr, hlen, hpos, h.root, h.format, h.tenantKey, h.hash, ← hcount]

lemma recompute_silent {b : Block} {tenant : String} {t : Tables} (h : b.Seals tenant t) (ht : Logged t)
    {p : Hex64 × ℤ × ℤ} (hp : (b.prevBlockHash, b.firstSeq - 1, b.height) = p) :
    recompute t tenant p b = [] := by
  obtain rfl := hp
  have hlen := h.length ht
  have hroot : merkleRoot (rowHashes t b.firstSeq b.lastSeq) = some b.entriesRoot :=
    (jarvisMerkleRoot_eq _).symm.trans h.root
  have hcount : b.entryCount = b.lastSeq - b.firstSeq + 1 := h.count
  simp [recompute, hlen, hroot, h.format, blockHash_eq, h.hash, ← hcount]

lemma verifyBlocks_silent {tenant : String} {t : Tables} {bs : List Block} (h : Tiled tenant t bs)
    (ht : Logged t) : jarvisVerifyBlocks t bs = [] := by
  rw [jarvisVerifyBlocks, heightsCheck_silent h, byHeight_eq h,
    scan_of_linked h.linked (fun b hb => blockChecks_silent (h.sealed b hb) ht rfl)]
  rfl

lemma linked_endsAt {bs : List Block} {p : Hex64 × ℤ} {n : ℕ} (hl : Linked Block.continues Block.ends p bs)
    (hh : bs.map Block.height = (List.range bs.length).map fun i : ℕ => (n : ℤ) + i) :
    Linked (fun b => (b.prevBlockHash, b.firstSeq - 1, b.height)) Block.endsAt (p.1, p.2, (n : ℤ)) bs := by
  induction bs generalizing p n with
  | nil => trivial
  | cons b bs ih =>
    obtain ⟨rfl, hl⟩ := hl
    rw [List.length_cons, List.range_succ_eq_map, List.map_cons, List.map_cons, List.map_map,
      List.cons.injEq] at hh
    obtain ⟨hb, hbs⟩ := hh
    have hb' : b.height = n := by simpa using hb
    refine ⟨by simp only [hb', Block.continues], ?_⟩
    have hnext := ih (p := b.ends) (n := n + 1) hl (by
      rw [hbs]
      refine List.map_congr_left fun i _ => ?_
      simp only [Function.comp_apply, Nat.cast_add, Nat.cast_one, Nat.succ_eq_add_one]
      omega)
    have hends : b.endsAt = (b.ends.1, b.ends.2, ((n + 1 : ℕ) : ℤ)) := by
      simp [Block.endsAt, Block.ends, hb']
    rw [hends]
    exact hnext

lemma blockProblems_silent {tenant : String} {t : Tables} {bs : List Block} (h : Tiled tenant t bs)
    (ht : Logged t) : blockProblems t tenant bs = [] := by
  have hl := linked_endsAt (n := 1) h.linked (by
    rw [h.heights, series, Int.toNat_natCast]
    exact List.map_congr_left fun i _ => by omega)
  rw [blockProblems, verifyBlocks_silent h ht, byHeight_eq h]
  exact scan_of_linked hl (fun b hb => recompute_silent (h.sealed b hb) ht rfl)

end ContinuityLedger.Blocks
