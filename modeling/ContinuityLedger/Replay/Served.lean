import ContinuityLedger.Foundations.Checks
import ContinuityLedger.Replay.State

/-! The state that is served is the state that a plain fold gives, whatever order the entries are read in, and its
pages list every record once. -/

namespace ContinuityLedger.Replay

open Foundations Foundations.Sha256 Foundations.Listing Ledger Blocks

lemma idBytes_injective : Function.Injective idBytes :=
  (List.map_injective_iff.mpr fun _ _ => UInt8.toNat_inj.mp).comp PyStr.utf8_injective

/-- The newest entry of its record up to a seq. -/
structure NewestUpTo (t : Tables) (seq : ℤ) (e : HistoryEntry) : Prop where
  mem : e ∈ t.history
  le : e.seq ≤ seq
  newest : ∀ f ∈ t.history, f.memoryId = e.memoryId → f.seq ≤ seq → f.seq ≤ e.seq

variable {t : Tables} {seq : ℤ}

lemma NewestUpTo.unique (hn : (t.history.map HistoryEntry.seq).Nodup) {e f : HistoryEntry} (he : NewestUpTo t seq e)
    (hf : NewestUpTo t seq f) (h : e.memoryId = f.memoryId) : e = f :=
  List.inj_on_of_nodup_map hn he.mem hf.mem
    (le_antisymm (hf.newest e he.mem h he.le) (he.newest f hf.mem h.symm hf.le))

lemma headOrder_le {a b : HistoryEntry} (h : headOrder a ≤ headOrder b) :
    idBytes a.memoryId ≤ idBytes b.memoryId ∧ (a.memoryId = b.memoryId → b.seq ≤ a.seq) := by
  rw [headOrder, headOrder, Prod.Lex.toLex_le_toLex] at h
  rcases h with hlt | ⟨heq, hle⟩
  · exact ⟨hlt.le, fun hid => absurd (congrArg idBytes hid) hlt.ne⟩
  · exact ⟨heq.le, fun _ => by omega⟩

lemma heads_pairwise (t : Tables) (seq : ℤ) :
    (heads t seq).Pairwise (fun a b => idBytes a.memoryId < idBytes b.memoryId) :=
  distinctOn_pairwise (fun _ _ h => idBytes_injective h)
    ((mergeSort_pairwise headOrder _).imp fun h => (headOrder_le h).1)

lemma heads_nodup (t : Tables) (seq : ℤ) : ((heads t seq).map HistoryEntry.memoryId).Nodup :=
  List.pairwise_map.mpr ((heads_pairwise t seq).imp fun h heq => h.ne (congrArg idBytes heq))

/-- The query finds the newest entry of every record. -/
lemma heads_newest {e : HistoryEntry} (h : e ∈ heads t seq) : NewestUpTo t seq e := by
  set sorted := (t.history.filter (·.seq ≤ seq)).mergeSort (fun a b => headOrder a ≤ headOrder b) with hsorted
  have hperm : sorted.Perm (t.history.filter (·.seq ≤ seq)) := List.mergeSort_perm _ _
  have hrow : KeyedTable.row HistoryEntry.memoryId e.memoryId sorted = some e := by
    rw [← row_distinctOn]
    exact KeyedTable.row_eq_some (heads_nodup t seq) h
  obtain ⟨hmem, hle⟩ := List.mem_filter.mp (hperm.mem_iff.mp (KeyedTable.row_mem hrow))
  refine ⟨hmem, of_decide_eq_true hle, fun f hf hid hfle => ?_⟩
  have hf' : f ∈ sorted := hperm.mem_iff.mpr (List.mem_filter.mpr ⟨hf, decide_eq_true hfle⟩)
  obtain ⟨-, before, after, hsplit, hbefore⟩ := List.find?_eq_some_iff_append.mp hrow
  have hpair := mergeSort_pairwise headOrder (t.history.filter (·.seq ≤ seq))
  rw [← hsorted, hsplit] at hpair
  rw [hsplit] at hf'
  rcases List.mem_append.mp hf' with hin | hin
  · simpa [hid] using hbefore f hin
  · rcases List.mem_cons.mp hin with rfl | hin
    · exact le_rfl
    · have hord := (List.pairwise_cons.mp (List.pairwise_append.mp hpair).2.1).1 f hin
      exact (headOrder_le hord).2 hid.symm

lemma mem_heads (hn : (t.history.map HistoryEntry.seq).Nodup) {e : HistoryEntry} :
    e ∈ heads t seq ↔ NewestUpTo t seq e := by
  refine ⟨heads_newest, fun h => ?_⟩
  have hmem : e ∈ (t.history.filter (·.seq ≤ seq)).mergeSort (fun a b => headOrder a ≤ headOrder b) :=
    (List.mergeSort_perm _ _).mem_iff.mpr (List.mem_filter.mpr ⟨h.mem, decide_eq_true h.le⟩)
  have hsome : (KeyedTable.row HistoryEntry.memoryId e.memoryId (heads t seq)).isSome := by
    rw [heads, row_distinctOn, KeyedTable.row_isSome]
    exact List.mem_map_of_mem hmem
  obtain ⟨f, hf⟩ := Option.isSome_iff_exists.mp hsome
  have hin := KeyedTable.row_mem hf
  rw [h.unique hn (heads_newest hin) (KeyedTable.row_key hf).symm]
  exact hin

/-- What the fold keeps: with distinct numbers, the newest entry of every record. -/
lemma mem_newestEntries {entries : List Entry} (hn : (entries.map Entry.seq).Nodup) {x : Entry} :
    x ∈ newestEntries entries seq ↔
      x ∈ entries ∧ x.seq ≤ seq ∧ ∀ y ∈ entries, y.memoryId = x.memoryId → y.seq ≤ seq → y.seq ≤ x.seq := by
  set sorted := entries.mergeSort (fun a b => a.seq ≤ b.seq) with hsorted
  have hperm : sorted.Perm entries := List.mergeSort_perm _ _
  have hp : sorted.Pairwise (fun a b => a.seq < b.seq) := mergeSort_pairwise_lt hn
  set own := (sorted.filter (·.seq ≤ seq)).filter (fun y => y.memoryId = x.memoryId) with hown
  have hpown : own.Pairwise (fun a b => a.seq < b.seq) := (hp.sublist List.filter_sublist).sublist List.filter_sublist
  have hmem : ∀ y, y ∈ own ↔ y ∈ entries ∧ y.seq ≤ seq ∧ y.memoryId = x.memoryId := by
    intro y
    simp only [hown, List.mem_filter, hperm.mem_iff, decide_eq_true_eq, and_assoc]
  have hiff : x ∈ newestEntries entries seq ↔ own.argmax Entry.seq = some x := by
    rw [EventFold.argmax_eq_getLast? hpown]
    have hrow := newestEntries_row entries seq x.memoryId
    rw [EventFold.newest, ← hsorted, ← hown] at hrow
    rw [← hrow]
    exact ⟨fun h => KeyedTable.row_eq_some (newestEntries_nodup entries seq) h, KeyedTable.row_mem⟩
  rw [hiff, EventFold.argmax_eq_some_iff (List.pairwise_map.mpr (hpown.imp fun h => h.ne)), hmem]
  constructor
  · rintro ⟨⟨hx, hle, -⟩, hmax⟩
    exact ⟨hx, hle, fun y hy hid hyle => hmax y ((hmem y).mpr ⟨hy, hyle, hid⟩)⟩
  · rintro ⟨hx, hle, hmax⟩
    refine ⟨⟨hx, hle, rfl⟩, fun y hy => ?_⟩
    obtain ⟨hy, hyle, hid⟩ := (hmem y).mp hy
    exact hmax y hy hid hyle

lemma newestEntries_perm (hn : (t.history.map HistoryEntry.seq).Nodup) {entries : List Entry}
    (hp : entries.Perm (t.history.map HistoryEntry.toEntry)) :
    (newestEntries entries seq).Perm ((heads t seq).map HistoryEntry.toEntry) := by
  have hnd : (entries.map Entry.seq).Nodup := by
    rw [(hp.map Entry.seq).nodup_iff, List.map_map]
    exact hn
  have hheads : ((heads t seq).map HistoryEntry.toEntry).Nodup := by
    refine List.Nodup.of_map Entry.memoryId ?_
    rw [List.map_map]
    exact heads_nodup t seq
  rw [List.perm_ext_iff_of_nodup (List.Nodup.of_map _ (newestEntries_nodup entries seq)) hheads]
  intro x
  rw [mem_newestEntries hnd, List.mem_map]
  constructor
  · rintro ⟨hx, hle, hmax⟩
    obtain ⟨e, he, rfl⟩ := List.mem_map.mp (hp.mem_iff.mp hx)
    refine ⟨e, (mem_heads hn).mpr ⟨he, hle, fun f hf hid hfle => ?_⟩, rfl⟩
    exact hmax f.toEntry (hp.mem_iff.mpr (List.mem_map_of_mem hf)) hid hfle
  · rintro ⟨e, he, rfl⟩
    have hnew := heads_newest he
    refine ⟨hp.mem_iff.mpr (List.mem_map_of_mem hnew.mem), hnew.le, fun y hy hid hyle => ?_⟩
    obtain ⟨f, hf, rfl⟩ := List.mem_map.mp (hp.mem_iff.mp hy)
    exact hnew.newest f hf hid hyle

lemma liveHeads_perm (t : Tables) (seq : ℤ) : (liveHeads t seq).Perm ((heads t seq).filter (·.op ≠ .delete)) :=
  List.mergeSort_perm _ _

lemma liveHeads_pairwise (t : Tables) (seq : ℤ) :
    (liveHeads t seq).Pairwise (fun a b => idBytes a.memoryId < idBytes b.memoryId) := by
  refine mergeSort_pairwise_lt (List.pairwise_map.mpr ?_)
  exact ((heads_pairwise t seq).sublist List.filter_sublist).imp fun h => h.ne

lemma mem_liveHeads (hn : (t.history.map HistoryEntry.seq).Nodup) {e : HistoryEntry} :
    e ∈ liveHeads t seq ↔ NewestUpTo t seq e ∧ e.op ≠ .delete := by
  rw [(liveHeads_perm t seq).mem_iff, List.mem_filter, mem_heads hn, decide_eq_true_eq]

/-- Both sides hold the same live records and count the same deleted ones. -/
lemma foldState_perm (hn : (t.history.map HistoryEntry.seq).Nodup) {entries : List Entry}
    (hp : entries.Perm (t.history.map HistoryEntry.toEntry)) :
    (foldState entries seq).live.Perm ((liveHeads t seq).map HistoryEntry.toEntry) ∧
      (foldState entries seq).deleted = (heads t seq).length - (liveHeads t seq).length := by
  have hnew : (newestEntries entries seq).Perm ((heads t seq).map HistoryEntry.toEntry) := newestEntries_perm hn hp
  constructor
  · have hlive := hnew.filter (fun e => decide (e.op ≠ .delete))
    rw [List.filter_map] at hlive
    exact hlive.trans ((liveHeads_perm t seq).symm.map _)
  · have hcount := hnew.countP_eq (fun e => decide (e.op = .delete))
    rw [List.countP_map] at hcount
    have hsplit := List.length_eq_countP_add_countP (fun e : HistoryEntry => decide (e.op = .delete)) (l := heads t seq)
    have hlive : (liveHeads t seq).length = (heads t seq).countP fun e => decide (¬ decide (e.op = .delete) = true) := by
      rw [(liveHeads_perm t seq).length_eq, ← List.countP_eq_length_filter]
      simp only [decide_eq_true_eq, ne_eq]
    have hfold : (foldState entries seq).deleted = (heads t seq).countP fun e => decide (e.op = .delete) := hcount
    omega

lemma stateRoot_perm {l l' : List (String × Hex64)} (hn : (l.map Prod.fst).Nodup) (h : l.Perm l') :
    stateRoot l = stateRoot l' := by
  have hkey : (l.map fun p => idBytes p.1).Nodup := by
    have hmap := hn.map idBytes_injective
    rwa [List.map_map] at hmap
  have hsort : l.mergeSort (fun a b => idBytes a.1 ≤ idBytes b.1) = l'.mergeSort (fun a b => idBytes a.1 ≤ idBytes b.1) :=
    mergeSort_perm_eq hkey h
  have hnil : l = [] ↔ l' = [] := by
    rw [← List.length_eq_zero_iff, h.length_eq, List.length_eq_zero_iff]
  rw [stateRoot, stateRoot, hsort]
  simp only [hnil]

lemma stateRoot_isSome {l : List (String × Hex64)} (hn : (l.map Prod.fst).Nodup) : (stateRoot l).isSome := by
  by_cases hnil : l = []
  · rw [stateRoot, if_pos hnil]
    rfl
  have hdup : ((l.mergeSort (fun a b => idBytes a.1 ≤ idBytes b.1)).map Prod.fst).Nodup := by
    rw [((List.mergeSort_perm l _).map Prod.fst).nodup_iff]
    exact hn
  rw [stateRoot, if_neg hnil]
  dsimp only
  rw [if_pos hdup, Option.isSome_map]
  apply MerkleTree.mth_isSome
  simpa [← List.length_eq_zero_iff] using hnil

/-- Every entry that leaves a record holds that record as a JSON object. -/
def HoldsRecords (t : Tables) : Prop :=
  ∀ e ∈ t.history, e.op ≠ .delete → ∃ fields, e.after = some (.object fields)

def recordOf (e : HistoryEntry) : ReplayedRecord :=
  ⟨e.memoryId, e.seq, e.version, e.rowHash, e.after.getD .null⟩

/-- One page of the state at a point, as a client sees it. -/
def fetchPage (signature : BlockSignature) (tenant : String) (t : Tables) (blocks : List Block)
    (atSeq atBlock : Option ℤ) (limit : ℤ) (afterId : Option String) : Option (List ReplayedRecord × Option String) :=
  (replayState signature tenant t blocks atSeq atBlock afterId limit).toOption.map fun s => (s.records, s.nextAfterId)

section Served

variable {signature : BlockSignature} {tenant : String} {blocks : List Block} {atSeq atBlock : Option ℤ}

/-- What a request for a point that exists is answered. -/
structure Serves (t : Tables) (seq : ℤ) (afterId : Option String) (limit : ℤ) (state : ReplayState) : Prop where
  atSeq : state.atSeq = seq
  recordCount : state.recordCount = (liveHeads t seq).length
  deletedCount : state.deletedCount = (heads t seq).length - (liveHeads t seq).length
  root : stateRoot ((liveHeads t seq).map fun h => (h.memoryId, h.rowHash)) = some state.stateRoot
  records : state.records =
    (rowsAfter (fun r => idBytes r.id) ((liveHeads t seq).map recordOf) (afterId.map idBytes)).take (pageLimit limit)
  nextAfterId : state.nextAfterId =
    if pageLimit limit <
        (rowsAfter (fun r => idBytes r.id) ((liveHeads t seq).map recordOf) (afterId.map idBytes)).length then
      state.records.getLast?.map ReplayedRecord.id
    else none

lemma rowsAfter_map (l : List HistoryEntry) (after : Option (List ℕ)) :
    rowsAfter (fun r => idBytes r.id) (l.map recordOf) after =
      (rowsAfter (fun e => idBytes e.memoryId) l after).map recordOf := by
  rw [rowsAfter, List.filter_map]
  rfl

lemma replayState_serves (hrecords : HoldsRecords t) (hseq : resolveReplaySeq t blocks atSeq atBlock = .ok seq)
    (afterId : Option String) (limit : ℤ) :
    ∃ state, replayState signature tenant t blocks atSeq atBlock afterId limit = .ok state ∧
      Serves t seq afterId limit state := by
  have hids : ((liveHeads t seq).map fun h => (h.memoryId, h.rowHash)).map Prod.fst = (liveHeads t seq).map HistoryEntry.memoryId := by
    rw [List.map_map]
    rfl
  have hnodup : (((liveHeads t seq).map fun h => (h.memoryId, h.rowHash)).map Prod.fst).Nodup := by
    rw [hids]
    exact List.pairwise_map.mpr ((liveHeads_pairwise t seq).imp fun h heq => h.ne (congrArg idBytes heq))
  obtain ⟨root, hroot⟩ := Option.isSome_iff_exists.mp (stateRoot_isSome hnodup)
  set rest := rowsAfter (fun e : HistoryEntry => idBytes e.memoryId) (liveHeads t seq) (afterId.map idBytes) with hrest
  have hpage : (rest.take (pageLimit limit + 1)).take (pageLimit limit) = rest.take (pageLimit limit) := by
    rw [List.take_take, min_eq_left (Nat.le_succ _)]
  have hmore : decide (pageLimit limit < (rest.take (pageLimit limit + 1)).length) = decide (pageLimit limit < rest.length) := by
    rw [List.length_take]
    exact decide_eq_decide.mpr (by omega)
  have hmap : (rest.take (pageLimit limit)).mapM replayedRecord = .ok ((rest.take (pageLimit limit)).map recordOf) := by
    apply Checks.mapM_eq_map
    intro e he
    have hlive : e ∈ liveHeads t seq := (List.mem_filter.mp (List.mem_of_mem_take he)).1
    obtain ⟨hin, hop⟩ := List.mem_filter.mp ((liveHeads_perm t seq).mem_iff.mp hlive)
    obtain ⟨fields, hfields⟩ := hrecords e (heads_newest hin).mem (of_decide_eq_true hop)
    rw [replayedRecord, recordOf, hfields]
    rfl
  unfold replayState
  rw [hseq]
  simp only [Except.mapError, bind, Except.bind, hroot, ← hrest, hpage, hmore, hmap, pure, Except.pure]
  refine ⟨_, rfl, rfl, rfl, rfl, hroot, ?_, ?_⟩
  · rw [rowsAfter_map, ← hrest, List.map_take]
  · rw [rowsAfter_map, ← hrest, List.length_map]
    by_cases h : pageLimit limit < rest.length
    · simp only [h, decide_true, if_true, List.getLast?_map, Option.map_map]
      rfl
    · simp [h]

lemma fetchPage_servesPages (hrecords : HoldsRecords t) (hseq : resolveReplaySeq t blocks atSeq atBlock = .ok seq)
    (limit : ℤ) :
    ServesPages (fetchPage signature tenant t blocks atSeq atBlock limit) ReplayedRecord.id idBytes
      ((liveHeads t seq).map recordOf) (pageLimit limit) := by
  intro after
  obtain ⟨state, hstate, hserves⟩ := @replayState_serves t seq signature tenant blocks atSeq atBlock hrecords hseq after limit
  rw [fetchPage, hstate]
  refine congrArg some (Prod.ext hserves.records ?_)
  have hnext := hserves.nextAfterId
  rw [hserves.records] at hnext
  exact hnext

/-- Every request for a point that exists is answered with the counts and the root of the plain fold, whatever order
its entries come in; and the pages list each live record once, in the order of the ids' bytes, as its newest entry up
to the point left it. -/
theorem served_eq_fold (hn : (t.history.map HistoryEntry.seq).Nodup) (hrecords : HoldsRecords t)
    (hseq : resolveReplaySeq t blocks atSeq atBlock = .ok seq) (limit : ℤ) :
    (∀ afterId, ∃ state, replayState signature tenant t blocks atSeq atBlock afterId limit = .ok state ∧
      state.atSeq = seq ∧
      ∀ entries : List Entry, entries.Perm (t.history.map HistoryEntry.toEntry) →
        state.recordCount = (foldState entries seq).live.length ∧
        state.deletedCount = (foldState entries seq).deleted ∧
        stateRoot ((foldState entries seq).live.map fun e => (e.memoryId, e.rowHash)) = some state.stateRoot) ∧
    ∃ records, (∀ fuel, records.length < fuel →
        collect (fetchPage signature tenant t blocks atSeq atBlock limit) fuel none = some records) ∧
      records.Pairwise (fun a b => idBytes a.id < idBytes b.id) ∧
      ∀ r, r ∈ records ↔ ∃ e fields, NewestUpTo t seq e ∧ e.op ≠ .delete ∧ e.after = some (.object fields) ∧
        r = ⟨e.memoryId, e.seq, e.version, e.rowHash, .object fields⟩ := by
  constructor
  · intro afterId
    obtain ⟨state, hstate, hserves⟩ :=
      @replayState_serves t seq signature tenant blocks atSeq atBlock hrecords hseq afterId limit
    refine ⟨state, hstate, hserves.atSeq, fun entries hp => ?_⟩
    obtain ⟨hlive, hdeleted⟩ := @foldState_perm t seq hn entries hp
    refine ⟨?_, hserves.deletedCount.trans hdeleted.symm, ?_⟩
    · rw [hserves.recordCount, hlive.length_eq, List.length_map]
    · rw [← hserves.root]
      have hpairs := hlive.map fun e => (e.memoryId, e.rowHash)
      rw [List.map_map] at hpairs
      refine stateRoot_perm ?_ hpairs
      rw [List.map_map]
      exact ((newestEntries_nodup entries seq).sublist (List.filter_sublist.map _))
  · have hsorted : ((liveHeads t seq).map recordOf).Pairwise (fun a b => idBytes a.id < idBytes b.id) :=
      List.pairwise_map.mpr (liveHeads_pairwise t seq)
    have hall : rowsAfter (idBytes ∘ ReplayedRecord.id) ((liveHeads t seq).map recordOf) none =
        (liveHeads t seq).map recordOf := by simp [rowsAfter]
    refine ⟨(liveHeads t seq).map recordOf, fun fuel hfuel => ?_, hsorted, fun r => ?_⟩
    · have hlimit : 0 < pageLimit limit := by
        rw [pageLimit]
        omega
      have hcollect := collect_eq (@fetchPage_servesPages t seq signature tenant blocks atSeq atBlock hrecords hseq limit)
        hlimit hsorted fuel none
      rw [Option.map_none, hall] at hcollect
      exact hcollect hfuel
    · simp only [List.mem_map, mem_liveHeads hn]
      constructor
      · rintro ⟨e, ⟨he, hop⟩, rfl⟩
        obtain ⟨fields, hfields⟩ := hrecords e he.mem hop
        exact ⟨e, fields, he, hop, hfields, by rw [recordOf, hfields]; rfl⟩
      · rintro ⟨e, fields, he, hop, hfields, rfl⟩
        exact ⟨e, ⟨he, hop⟩, by rw [recordOf, hfields]; rfl⟩

end Served

def unsigned : BlockSignature := fun _ _ => (false, none)

def written (seq : ℤ) (id : String) (op : Op) (after : Option Jsonb.Value) : HistoryEntry :=
  ⟨seq, id, 1, op, "operator", 0, none, after, genesis, genesis, seq⟩

/-- Two records, one of them deleted again. -/
def twoRecords : Tables :=
  ⟨[], [written 1 "a" .create (some (.object [])), written 2 "b" .create (some (.object [])), written 3 "b" .delete none],
    [], some 3⟩

theorem served_eq_fold_twoRecords :
    (∃ state, replayState unsigned "operator" twoRecords [] (some 2) none none 1 = .ok state ∧ state.atSeq = 2) ∧
      ∃ records, collect (fetchPage unsigned "operator" twoRecords [] (some 2) none 1) (records.length + 1) none =
        some records := by
  have hn : (twoRecords.history.map HistoryEntry.seq).Nodup := by decide
  have hrecords : HoldsRecords twoRecords := by
    intro e he hop
    simp only [twoRecords, List.mem_cons, List.not_mem_nil, or_false] at he
    rcases he with rfl | rfl | rfl
    · exact ⟨[], rfl⟩
    · exact ⟨[], rfl⟩
    · exact absurd rfl hop
  obtain ⟨hstate, records, hcollect, -⟩ :=
    @served_eq_fold twoRecords 2 unsigned "operator" [] (some 2) none hn hrecords rfl 1
  obtain ⟨state, hok, hseq, -⟩ := hstate none
  exact ⟨⟨state, hok, hseq⟩, records, hcollect _ (Nat.lt_succ_self _)⟩

end ContinuityLedger.Replay
