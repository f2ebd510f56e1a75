import ContinuityLedger.Ledger.VerifyHistory

/-! RC.Ledger.v1: the fold of the history entries up to a seq, and the `live_match` check that compares it with
the live table at the current end of the history. -/

namespace ContinuityLedger.Ledger

open Foundations Foundations.Sha256 Foundations.EventFold

structure Entry where
  seq : ℤ
  memoryId : String
  op : Op
  version : ℤ
  prevHash : Hex64
  rowHash : Hex64
  beforeText : Option String
  afterText : Option String
deriving DecidableEq

def HistoryEntry.toEntry (e : HistoryEntry) : Entry :=
  ⟨e.seq, e.memoryId, e.op, e.version, e.prevHash, e.rowHash, e.before.map Jsonb.Value.text,
    e.after.map Jsonb.Value.text⟩

/-- `WHERE seq <= at_seq ORDER BY memory_id COLLATE "C", seq`. -/
def entriesUpTo (t : Tables) (atSeq : ℤ) : List Entry :=
  ((t.history.filter (·.seq ≤ atSeq)).mergeSort entryOrder).map HistoryEntry.toEntry

/-- Live records by id, each with its newest entry, and how many records are deleted. -/
structure Folded where
  live : List Entry
  deleted : ℕ

def newestEntries (entries : List Entry) (atSeq : ℤ) : List Entry :=
  (entries.mergeSort (fun a b => a.seq ≤ b.seq)).foldl
    (fun newest e => if e.seq ≤ atSeq then KeyedTable.upsert Entry.memoryId e newest else newest) []

def foldState (entries : List Entry) (atSeq : ℤ) : Folded :=
  let newest := newestEntries entries atSeq
  ⟨newest.filter (·.op ≠ .delete), newest.countP (·.op = .delete)⟩

structure Problem where
  check : String
  subject : String
  problem : String
deriving DecidableEq

/-- The rows of the live table as `jarvis_memory_json(m)::text`, by id. -/
def liveTexts (t : Tables) : List (String × String) :=
  t.memories.map fun m => (m.id, (jarvisMemoryJson m).text)

def liveMatchEntry (live : List (String × String)) (e : Entry) : List Problem :=
  match KeyedTable.row Prod.fst e.memoryId live with
  | none => [⟨"live_match", e.memoryId, "the replayed state has a record that is not in the live table"⟩]
  | some r =>
    if some r.2 ≠ e.afterText then
      [⟨"live_match", e.memoryId, "the live record differs from its latest history entry"⟩] else []

def extraIds (live : List (String × String)) (folded : Folded) : List String :=
  ((live.map Prod.fst).filter (fun id => id ∉ folded.live.map Entry.memoryId)).mergeSort (· ≤ ·)

def checkLiveMatch (t : Tables) (atSeq : ℤ) : List Problem :=
  if atSeq ≠ t.counter.getD 0 then [] else
  let live := liveTexts t
  let folded := foldState (entriesUpTo t atSeq) atSeq
  folded.live.flatMap (liveMatchEntry live) ++
    (extraIds live folded).map fun id : String =>
      ⟨"live_match", id, "the live table has a record that the replayed history does not"⟩

lemma newestEntries_row (entries : List Entry) (atSeq : ℤ) (id : String) :
    KeyedTable.row Entry.memoryId id (newestEntries entries atSeq) =
      newest Entry.memoryId id
        ((entries.mergeSort (fun a b => a.seq ≤ b.seq)).filter (·.seq ≤ atSeq)) := by
  unfold newestEntries
  induction entries.mergeSort (fun a b => a.seq ≤ b.seq) using List.reverseRecOn with
  | nil => rfl
  | append_singleton es e ih =>
    rw [List.foldl_append, List.filter_append]
    by_cases hs : e.seq ≤ atSeq
    · simp [hs, KeyedTable.row_upsert, newest_append_singleton, ih]
    · simp [hs, ih]

lemma newestEntries_nodup (entries : List Entry) (atSeq : ℤ) :
    ((newestEntries entries atSeq).map Entry.memoryId).Nodup := by
  unfold newestEntries
  induction entries.mergeSort (fun a b => a.seq ≤ b.seq) using List.reverseRecOn with
  | nil => simp
  | append_singleton es e ih =>
    rw [List.foldl_append, List.foldl_cons, List.foldl_nil]
    split_ifs
    · exact KeyedTable.nodup_upsert _ ih e
    · exact ih

lemma sorted_entries_perm {t : Tables} {atSeq : ℤ} (hb : ∀ e ∈ t.history, e.seq ≤ atSeq) :
    ((entriesUpTo t atSeq).mergeSort (fun a b => a.seq ≤ b.seq)).Perm
      (t.history.map HistoryEntry.toEntry) := by
  have hall : t.history.filter (·.seq ≤ atSeq) = t.history := by simpa using hb
  rw [entriesUpTo, hall]
  exact (List.mergeSort_perm _ _).trans ((List.mergeSort_perm _ _).map _)

lemma sorted_entries_pairwise {t : Tables} (hn : (t.history.map HistoryEntry.seq).Nodup) {atSeq : ℤ}
    (hb : ∀ e ∈ t.history, e.seq ≤ atSeq) :
    ((entriesUpTo t atSeq).mergeSort (fun a b => a.seq ≤ b.seq)).Pairwise (fun a b => a.seq < b.seq) := by
  have hle : ((entriesUpTo t atSeq).mergeSort (fun a b => a.seq ≤ b.seq)).Pairwise
      (fun a b => a.seq ≤ b.seq) := by
    refine (List.pairwise_mergeSort (fun a b c hab hbc => ?_) (fun a b => ?_) _).imp (fun h => ?_)
    · simp only [decide_eq_true_eq] at *
      omega
    · simp only [Bool.or_eq_true, decide_eq_true_eq]
      omega
    · simpa using h
  have hnd : (((entriesUpTo t atSeq).mergeSort (fun a b => a.seq ≤ b.seq)).map Entry.seq).Nodup := by
    rw [((sorted_entries_perm hb).map Entry.seq).nodup_iff, List.map_map]
    exact hn
  exact hle.imp₂ (fun _ _ hab hne => lt_of_le_of_ne hab hne) (List.pairwise_map.mp hnd)

/-- With distinct numbers, none after the bound, the fold holds every record's latest entry. -/
lemma newestEntries_latest {t : Tables} (hn : (t.history.map HistoryEntry.seq).Nodup) {atSeq : ℤ}
    (hb : ∀ e ∈ t.history, e.seq ≤ atSeq) (id : String) :
    KeyedTable.row Entry.memoryId id (newestEntries (entriesUpTo t atSeq) atSeq) =
      (t.latestEntry id).map HistoryEntry.toEntry := by
  set es := (entriesUpTo t atSeq).mergeSort (fun a b => a.seq ≤ b.seq) with hes
  have hperm : es.Perm (t.history.map HistoryEntry.toEntry) := sorted_entries_perm hb
  have hp : es.Pairwise (fun a b => a.seq < b.seq) := sorted_entries_pairwise hn hb
  have hin : es.filter (·.seq ≤ atSeq) = es := by
    simp only [List.filter_eq_self, decide_eq_true_eq]
    intro e he
    obtain ⟨h, hh, rfl⟩ := List.mem_map.mp (hperm.mem_iff.mp he)
    exact hb h hh
  have hchain : ((t.chain id).map HistoryEntry.seq).Nodup := hn.sublist (List.filter_sublist.map _)
  rw [newestEntries_row, ← hes, hin, newest, ← argmax_eq_getLast? (hp.sublist List.filter_sublist)]
  cases hx : t.latestEntry id with
  | none =>
    have hnil : t.chain id = [] := List.argmax_eq_none.mp hx
    simp only [Option.map_none, List.argmax_eq_none, List.filter_eq_nil_iff, decide_eq_true_eq]
    intro e he hid
    obtain ⟨h, hh, rfl⟩ := List.mem_map.mp (hperm.mem_iff.mp he)
    exact List.ne_nil_of_mem (List.mem_filter.mpr ⟨hh, decide_eq_true hid⟩) hnil
  | some e =>
    obtain ⟨he, hmax⟩ := (argmax_eq_some_iff hchain).mp hx
    obtain ⟨hmem, hid⟩ := List.mem_filter.mp he
    have hnd : ((es.filter (·.memoryId = id)).map Entry.seq).Nodup :=
      (List.pairwise_map.mpr (hp.imp fun h => ne_of_lt h)).sublist (List.filter_sublist.map _)
    rw [Option.map_some, argmax_eq_some_iff hnd]
    refine ⟨List.mem_filter.mpr ⟨hperm.mem_iff.mpr (List.mem_map_of_mem hmem), hid⟩, fun f hf => ?_⟩
    obtain ⟨hf, hfid⟩ := List.mem_filter.mp hf
    obtain ⟨h, hh, rfl⟩ := List.mem_map.mp (hperm.mem_iff.mp hf)
    exact hmax h (List.mem_filter.mpr ⟨hh, hfid⟩)

end ContinuityLedger.Ledger
