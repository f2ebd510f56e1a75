import ContinuityLedger.Ledger.CaptureInvariant
import Mathlib.Data.List.Dedup
import Mathlib.Data.Prod.Lex
import Mathlib.Data.String.Basic

/-! `jarvis_verify_history`: five passes over the four tables of a tenant, for one record or for all, and
why it returns no row on tables that agree. -/

namespace ContinuityLedger.Ledger

open Foundations Foundations.Sha256 Foundations.HashChain Foundations.EventFold

structure HistoryProblem where
  historyId : Option ℤ
  memoryId : Option String
  problem : String
deriving DecidableEq

/-- `p_memory_id IS NULL OR id = p_memory_id`. -/
def selected (only : Option String) (id : String) : Bool :=
  match only with
  | none => true
  | some wanted => id = wanted

/-- `ORDER BY memory_id COLLATE "C", seq`. -/
def entryOrder (a b : HistoryEntry) : Bool :=
  toLex (a.memoryId, a.seq) ≤ toLex (b.memoryId, b.seq)

def chainCheck (last : Hex64) (e : HistoryEntry) : List HistoryProblem :=
  (if e.prevHash ≠ last then
    [⟨e.historyId, e.memoryId,
      "prev_hash does not match the previous entry (an entry was removed or reordered)"⟩] else []) ++
  (if e.recomputed ≠ e.rowHash then
    [⟨e.historyId, e.memoryId, "row_hash mismatch (entry was altered)"⟩] else [])

def chainPass (t : Tables) (only : Option String) : List HistoryProblem :=
  scanKeyed HistoryEntry.memoryId HistoryEntry.rowHash chainCheck genesis none genesis
    ((t.history.filter (fun e => selected only e.memoryId)).mergeSort entryOrder)

def counterProblem : HistoryProblem :=
  ⟨none, none, "history counter is behind the history (counter altered or missing)"⟩

def missingProblem (n : ℤ) : HistoryProblem :=
  ⟨none, none, "missing history sequence number " ++ toString n ++ " (an entry was removed)"⟩

/-- `generate_series(1, n)`. -/
def series (n : ℤ) : List ℤ := (List.range n.toNat).map fun i : ℕ => (i : ℤ) + 1

def sequencePass (t : Tables) : List HistoryProblem :=
  (match (t.history.map HistoryEntry.seq).max?, t.counter with
    | none, _ => []
    | some _, none => [counterProblem]
    | some top, some c => if c < top then [counterProblem] else []) ++
  (match t.counter with
    | none => []
    | some c => (((series c).filter (fun n => !t.history.any (·.seq = n))).take 100).map missingProblem)

def headCheck (t : Tables) (h : ChainHead) : List HistoryProblem :=
  let missing : List HistoryProblem := [⟨none, h.id,
    "chain head points at a missing history entry (seq " ++ toString h.lastSeq ++ ")"⟩]
  match t.entryAt h.lastSeq with
  | none => missing
  | some e =>
    if e.memoryId ≠ h.id then missing else
    (if e.rowHash ≠ h.lastHash then
      [⟨e.historyId, h.id, "chain head hash does not match its last entry"⟩] else []) ++
    (if decide (e.op = .delete) ≠ h.deleted then
      [⟨e.historyId, h.id, "chain head deleted flag disagrees with its last entry"⟩] else []) ++
    (if t.history.any (fun f => f.memoryId = h.id && h.lastSeq < f.seq) then
      [⟨e.historyId, h.id, "record has history newer than its chain head"⟩] else [])

def headPass (t : Tables) (only : Option String) : List HistoryProblem :=
  (t.heads.filter (fun h => selected only h.id)).flatMap (headCheck t)

def headlessPass (t : Tables) (only : Option String) : List HistoryProblem :=
  (((t.history.map HistoryEntry.memoryId).dedup.filter (selected only)).filter
    (fun id => (t.head id).isNone)).map
    fun id : String => ⟨none, some id, "record has history but no chain head"⟩

/-- The entry that a live row's chain head names, through two left joins. -/
def headEntry (t : Tables) (m : Memory) : Option HistoryEntry :=
  (t.head m.id).bind fun h => t.entryAt h.lastSeq

def liveDiffers (t : Tables) (m : Memory) : Bool :=
  match t.head m.id, headEntry t m with
  | none, _ => true
  | some _, none => true
  | some h, some e => h.deleted || Jsonb.isDistinctFrom e.after (some (jarvisMemoryJson m))

def livePass (t : Tables) (only : Option String) : List HistoryProblem :=
  (t.memories.filter (fun m => selected only m.id && liveDiffers t m)).map fun m =>
    ⟨(headEntry t m).map (·.historyId), m.id,
      "live record differs from its latest history entry (or has none)"⟩

def jarvisVerifyHistory (t : Tables) (only : Option String) : List HistoryProblem :=
  chainPass t only ++ (if only.isNone then sequencePass t else []) ++ headPass t only ++
    headlessPass t only ++ livePass t only

lemma chainCheck_eq_nil (last : Hex64) (e : HistoryEntry) :
    chainCheck last e = [] ↔ e.prevHash = last ∧ e.recomputed = e.rowHash := by
  simp [chainCheck]

lemma entryOrder_iff (a b : HistoryEntry) :
    entryOrder a b = true ↔ toLex (a.memoryId, a.seq) ≤ toLex (b.memoryId, b.seq) := by
  simp [entryOrder]

lemma pairwise_sorted (es : List HistoryEntry) :
    (es.mergeSort entryOrder).Pairwise (fun a b => toLex (a.memoryId, a.seq) ≤ toLex (b.memoryId, b.seq)) := by
  refine (List.pairwise_mergeSort (fun a b c hab hbc => ?_) (fun a b => ?_) es).imp
    (fun h => (entryOrder_iff _ _).mp h)
  · rw [entryOrder_iff] at *
    exact hab.trans hbc
  · simp only [Bool.or_eq_true, entryOrder_iff]
    exact le_total _ _

/-- Sorting by record and number does not reorder the entries of one record. -/
lemma sorted_chain {es : List HistoryEntry} (hp : es.Pairwise (fun a b => a.seq < b.seq)) (id : String) :
    (es.mergeSort entryOrder).filter (·.memoryId = id) = es.filter (·.memoryId = id) := by
  refine @List.Perm.eq_of_pairwise _ (fun a b => a.seq ≤ b.seq) _ _ (fun a b ha hb hab hba => ?_) ?_ ?_
    ((List.mergeSort_perm es entryOrder).filter _)
  · have hinj := (List.pairwise_map.mpr hp).imp (fun h => ne_of_lt h)
    have hae : a ∈ es := (List.mergeSort_perm es entryOrder).mem_iff.mp (List.mem_filter.mp ha).1
    exact List.inj_on_of_nodup_map hinj hae (List.mem_filter.mp hb).1 (le_antisymm hab hba)
  · refine List.Pairwise.imp_of_mem (fun {a b} ha hb hab => ?_)
      ((pairwise_sorted es).sublist List.filter_sublist)
    have hida : a.memoryId = id := by simpa using (List.mem_filter.mp ha).2
    have hidb : b.memoryId = id := by simpa using (List.mem_filter.mp hb).2
    simpa [Prod.Lex.toLex_le_toLex, hida, hidb] using hab
  · exact (hp.sublist List.filter_sublist).imp le_of_lt

lemma chainPass_silent {t : Tables} (h : Logged t) (only : Option String) : chainPass t only = [] := by
  set es := t.history.filter (fun e => selected only e.memoryId) with hes
  have hp : es.Pairwise (fun a b => a.seq < b.seq) := h.pairwise.sublist List.filter_sublist
  rw [chainPass, scanKeyed_eq_nil_iff]
  · intro id
    rw [sorted_chain hp, scan_eq_nil chainCheck_eq_nil]
    refine ⟨?_, fun e he => h.hashed e (List.mem_filter.mp (List.mem_filter.mp he).1).1⟩
    by_cases hid : selected only id
    · have hc : es.filter (·.memoryId = id) = t.chain id := by
        rw [hes, List.filter_filter, Tables.chain]
        refine List.filter_congr fun e _ => ?_
        by_cases he : e.memoryId = id <;> simp [he, hid]
      rw [hc]
      exact h.linked id
    · have hc : es.filter (·.memoryId = id) = [] := by
        simp only [hes, List.filter_filter, List.filter_eq_nil_iff, Bool.and_eq_true,
          decide_eq_true_eq, not_and]
        rintro e _ rfl
        exact hid
      rw [hc]
      trivial
  · exact (pairwise_sorted es).imp (fun hab => (Prod.Lex.monotone_fst _ _ hab))
  · simp

lemma sequencePass_silent {t : Tables} (h : Logged t) : sequencePass t = [] := by
  have hc := h.counter
  have hmax : ∀ top ∈ (t.history.map HistoryEntry.seq).max?, top ≤ t.history.length := by
    intro top htop
    obtain ⟨e, he, rfl⟩ := List.mem_map.mp (List.max?_mem htop)
    exact (h.seq_bounds he).2
  cases hx : t.counter with
  | none =>
    have hnil : t.history = [] := by simpa [hx, eq_comm] using hc
    simp [sequencePass, hx, hnil]
  | some c =>
    obtain rfl : c = t.history.length := by simpa [hx] using hc
    have hgap : ∀ n ∈ series t.history.length, (t.history.any (·.seq = n)) = true := by
      intro n hn
      rw [series, Int.toNat_natCast, ← h.seqs] at hn
      simp only [List.any_eq_true, decide_eq_true_eq]
      exact List.mem_map.mp hn
    have hnone : (series t.history.length).filter (fun n => !t.history.any (·.seq = n)) = [] := by
      simp only [List.filter_eq_nil_iff, Bool.not_eq_true', Bool.not_eq_false]
      exact hgap
    simp only [sequencePass, hx, hnone, List.take_nil, List.map_nil, List.append_nil]
    cases hm : (t.history.map HistoryEntry.seq).max? with
    | none => rfl
    | some top => simp [hmax top hm]

lemma Logged.entryAt {t : Tables} (h : Logged t) {e : HistoryEntry} (he : e ∈ t.history) :
    t.entryAt e.seq = some e :=
  KeyedTable.row_eq_some ((List.pairwise_map.mpr h.pairwise).imp (fun h => ne_of_lt h)) he

lemma Logged.newest_last {t : Tables} (h : Logged t) {id : String} {e f : HistoryEntry}
    (he : newest HistoryEntry.memoryId id t.history = some e) (hf : f ∈ t.history) (hid : f.memoryId = id) :
    f.seq ≤ e.seq := by
  have hl : t.latestEntry id = some e := (h.latestEntry id).trans he
  exact List.le_of_mem_argmax (List.mem_filter.mpr ⟨hf, by simpa using hid⟩) hl

lemma Logged.head_entry {t : Tables} (h : Logged t) {g : ChainHead} (hg : g ∈ t.heads) :
    ∃ e, newest HistoryEntry.memoryId g.id t.history = some e ∧ e.toHead = g := by
  have hr : t.head g.id = some g := KeyedTable.row_eq_some h.headKey hg
  rw [h.heads] at hr
  exact Option.map_eq_some_iff.mp hr

lemma headCheck_silent {t : Tables} (h : Logged t) {g : ChainHead} (hg : g ∈ t.heads) :
    headCheck t g = [] := by
  obtain ⟨e, he, rfl⟩ := h.head_entry hg
  have hseq : t.entryAt e.toHead.lastSeq = some e := h.entryAt (newest_mem _ he)
  have hid : e.memoryId = e.toHead.id := rfl
  have hhash : e.rowHash = e.toHead.lastHash := rfl
  have hdel : decide (e.op = .delete) = e.toHead.deleted := rfl
  have hnewer : t.history.any (fun f => f.memoryId = e.toHead.id && e.toHead.lastSeq < f.seq) = false := by
    simp only [List.any_eq_false, Bool.and_eq_true, decide_eq_true_eq, not_and, not_lt]
    exact fun f hf hfid => h.newest_last he hf hfid
  simp [headCheck, hseq, hid, hhash, hdel, hnewer]

lemma headPass_silent {t : Tables} (h : Logged t) (only : Option String) : headPass t only = [] := by
  simp only [headPass, List.flatMap_eq_nil_iff]
  exact fun g hg => headCheck_silent h (List.mem_filter.mp hg).1

lemma headlessPass_silent {t : Tables} (h : Logged t) (only : Option String) : headlessPass t only = [] := by
  simp only [headlessPass, List.map_eq_nil_iff, List.filter_eq_nil_iff]
  intro id hid
  simp only [List.mem_filter, List.mem_dedup, List.mem_map] at hid
  obtain ⟨⟨e, he, rfl⟩, _⟩ := hid
  have hs := newest_isSome HistoryEntry.memoryId he
  obtain ⟨f, hf⟩ := Option.isSome_iff_exists.mp hs
  simp [h.heads, hf]

lemma livePass_silent {t : Tables} (h : Captured t) (only : Option String) : livePass t only = [] := by
  simp only [livePass, List.map_eq_nil_iff, List.filter_eq_nil_iff, Bool.and_eq_true, not_and]
  intro m hm _
  have hrow : t.view m.id = some (jarvisMemoryJson m) := by
    simp [Tables.view, Tables.memory, KeyedTable.row_eq_some h.memoryKey hm]
  rw [h.live, Tables.events, replay_eq_newest] at hrow
  obtain ⟨e, he, hafter⟩ := Option.bind_eq_some_iff.mp hrow
  have hop : e.op ≠ .delete := by
    have hc := h.checked e (newest_mem _ he)
    intro hd
    simp [HistoryEntry.checks, hd, hafter] at hc
  have hhead : t.head m.id = some e.toHead := by rw [h.heads, he]; rfl
  simp [liveDiffers, headEntry, hhead, HistoryEntry.toHead, h.entryAt (newest_mem _ he), hop, hafter]

lemma verifyHistory_silent {t : Tables} (h : Captured t) (only : Option String) :
    jarvisVerifyHistory t only = [] := by
  simp [jarvisVerifyHistory, chainPass_silent h.toLogged, sequencePass_silent h.toLogged,
    headPass_silent h.toLogged, headlessPass_silent h.toLogged, livePass_silent h]

end ContinuityLedger.Ledger
