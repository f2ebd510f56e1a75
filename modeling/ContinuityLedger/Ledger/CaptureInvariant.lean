import ContinuityLedger.Foundations.HashChain
import ContinuityLedger.Ledger.Capture

/-! Every statement leaves the four tables in agreement: the history counts on from one, each record's
entries form one chain, every chain head names its record's newest entry, and `memories` is the view that
the logged after-images replay to. -/

namespace ContinuityLedger.Ledger

open Foundations Foundations.Sha256 Foundations.HashChain Foundations.EventFold

lemma bind_eq_ok {ε α β : Type} {x : Except ε α} {f : α → Except ε β} {b : β} :
    (x >>= f) = .ok b ↔ ∃ a, x = .ok a ∧ f a = .ok b := by
  cases x <;> simp [bind, Except.bind]

lemma require_eq_ok {c : Prop} [Decidable c] {e : DbError} {u : Unit} : require c e = .ok u ↔ c := by
  unfold require
  split_ifs with h <;> simp [h]

def Tables.events (t : Tables) : List (String × Option Jsonb.Value) :=
  t.history.map fun e => (e.memoryId, e.after)

/-- The live table as a view: the JSON image of the record under an id. -/
def Tables.view (t : Tables) : View String Jsonb.Value :=
  fun id => (t.memory id).map jarvisMemoryJson

/-- The history, the chain heads and the counter agree. -/
structure Logged (t : Tables) : Prop where
  seqs : t.history.map HistoryEntry.seq = (List.range t.history.length).map fun i : ℕ => (i : ℤ) + 1
  counter : t.counter.getD 0 = t.history.length
  checked : ∀ e ∈ t.history, e.checks = true
  hashed : ∀ e ∈ t.history, e.recomputed = e.rowHash
  linked : ∀ id, Linked HistoryEntry.prevHash HistoryEntry.rowHash genesis (t.chain id)
  headKey : (t.heads.map ChainHead.id).Nodup
  heads : ∀ id, t.head id = (newest HistoryEntry.memoryId id t.history).map HistoryEntry.toHead

/-- All four tables agree: `memories` is what the history replays to. -/
structure Captured (t : Tables) : Prop extends Logged t where
  memoryKey : (t.memories.map Memory.id).Nodup
  live : t.view = replay t.events

lemma Logged.pairwise {t : Tables} (h : Logged t) : t.history.Pairwise (fun a b => a.seq < b.seq) := by
  have hp : (t.history.map HistoryEntry.seq).Pairwise (· < ·) := by
    rw [h.seqs, List.pairwise_map]
    exact List.pairwise_lt_range.imp (fun h => by omega)
  exact List.pairwise_map.mp hp

lemma Logged.latestEntry {t : Tables} (h : Logged t) (id : String) :
    t.latestEntry id = newest HistoryEntry.memoryId id t.history :=
  argmax_eq_getLast? (h.pairwise.sublist List.filter_sublist)

lemma Logged.seq_bounds {t : Tables} (h : Logged t) {e : HistoryEntry} (he : e ∈ t.history) :
    1 ≤ e.seq ∧ e.seq ≤ t.history.length := by
  have hm := List.mem_map_of_mem (f := HistoryEntry.seq) he
  rw [h.seqs] at hm
  simp only [List.mem_map, List.mem_range] at hm
  obtain ⟨i, hi, hs⟩ := hm
  omega

lemma Logged.nextSeq {t : Tables} (h : Logged t) : nextSeq t = t.history.length + 1 := by
  have hc := h.counter
  unfold Ledger.nextSeq
  cases hx : t.counter <;> simp_all

lemma Logged.of_memories {t : Tables} (h : Logged t) (ms : List Memory) :
    Logged { t with memories := ms } :=
  ⟨h.seqs, h.counter, h.checked, h.hashed, h.linked, h.headKey, h.heads⟩

lemma capturedEntry_checks (env : Settings) (t : Tables) (ch : Change) :
    (capturedEntry env t ch).checks = true := by
  cases ch with
  | insert new =>
    by_cases h : env.historyOp = some "backfill" <;>
      simp [capturedEntry, HistoryEntry.checks, Change.op, Change.before, Change.after, h]
  | update old new => rfl
  | delete old => rfl

lemma chain_append (t : Tables) (e : HistoryEntry) (id : String) (heads : List ChainHead) (c : Option ℤ) :
    ({ t with history := t.history ++ [e], heads := heads, counter := c } : Tables).chain id =
      if e.memoryId = id then t.chain id ++ [e] else t.chain id := by
  by_cases h : e.memoryId = id <;> simp [Tables.chain, h]

/-- What the capture trigger does when the log is in order: one more entry, its head, its number. -/
lemma recordHistory_eq {t : Tables} (h : Logged t) (env : Settings) (ch : Change) :
    jarvisRecordHistory env t ch = .ok
      { t with
        history := t.history ++ [capturedEntry env t ch]
        heads := KeyedTable.upsert ChainHead.id (capturedEntry env t ch).toHead t.heads
        counter := some (capturedEntry env t ch).seq } := by
  have hr : ∀ f ∈ t.history, f.seq ≠ (capturedEntry env t ch).seq := by
    intro f hf
    have hb := h.seq_bounds hf
    simp only [capturedEntry, h.nextSeq]
    omega
  simp only [jarvisRecordHistory, require, if_pos hr]
  rfl

lemma recordHistory_logged {t t' : Tables} (h : Logged t) {env : Settings} {ch : Change}
    (hr : jarvisRecordHistory env t ch = .ok t') : Logged t' := by
  rw [recordHistory_eq h] at hr
  obtain rfl := Except.ok.inj hr
  refine ⟨?_, ?_, ?_, ?_, fun id => ?_, KeyedTable.nodup_upsert _ h.headKey _, fun id => ?_⟩
  · simp only [List.map_append, h.seqs, List.length_append, List.length_singleton, List.range_succ]
    simp [capturedEntry, h.nextSeq]
  · simp [capturedEntry, h.nextSeq]
  · simpa [or_imp, forall_and, capturedEntry_checks] using h.checked
  · simpa [or_imp, forall_and] using ⟨h.hashed, rfl⟩
  · rw [chain_append]
    split_ifs with hid
    · rw [linked_append_singleton, tip_eq_getLast?]
      refine ⟨h.linked id, ?_⟩
      have hid' : ch.memoryId = id := hid
      simp only [capturedEntry, h.latestEntry, hid', newest, Tables.chain]
    · exact h.linked id
  · simp only [Tables.head, KeyedTable.row_upsert, newest_append_singleton, HistoryEntry.toHead]
    split_ifs with hid
    · rfl
    · exact h.heads id

lemma recordHistory_frame {t t' : Tables} (h : Logged t) {env : Settings} {ch : Change}
    (hr : jarvisRecordHistory env t ch = .ok t') :
    t'.memories = t.memories ∧ t'.events = t.events ++ [(ch.memoryId, ch.after)] := by
  rw [recordHistory_eq h] at hr
  obtain rfl := Except.ok.inj hr
  simp [Tables.events, capturedEntry]

/-- In the middle of a statement: the log is in order and the view differs from its replay only where a
row has been taken out and its deletion is still to be captured. -/
structure Pending (gone : String → Prop) (t : Tables) : Prop extends Logged t where
  memoryKey : (t.memories.map Memory.id).Nodup
  live : ∀ id, ¬ gone id → t.view id = replay t.events id
  absent : ∀ id, gone id → t.view id = none

lemma Captured.pending {t : Tables} (h : Captured t) : Pending (fun _ => False) t :=
  ⟨h.toLogged, h.memoryKey, fun id _ => congrFun h.live id, fun _ hid => hid.elim⟩

lemma Pending.captured {t : Tables} (h : Pending (fun _ => False) t) : Captured t :=
  ⟨h.toLogged, h.memoryKey, funext fun id => h.live id not_false⟩

lemma updateRow_pending {gone : String → Prop} {t t' : Tables} (h : Pending gone t) {env : Settings}
    {id : String} {set : Memory → Memory} (hu : updateRow env t id set = .ok t') : Pending gone t' := by
  unfold updateRow at hu
  cases hm : t.memory id with
  | none =>
    simp only [hm] at hu
    obtain rfl := Except.ok.inj hu
    exact h
  | some old =>
    simp only [hm, bind_eq_ok, require_eq_ok] at hu
    obtain ⟨new, hb, _, _, _, _, hr⟩ := hu
    simp only [jarvisBumpVersion, bind_eq_ok, require_eq_ok] at hb
    obtain ⟨_, _, _, hid, hb⟩ := hb
    have hnew : new.id = old.id := by
      obtain rfl := Except.ok.inj hb
      exact hid
    have hold : old.id = id := KeyedTable.row_key hm
    have hl := h.toLogged.of_memories (KeyedTable.replace Memory.id new t.memories)
    obtain ⟨hms, hev⟩ := recordHistory_frame hl hr
    have hview : ∀ j, t'.view j = if j = id then some (jarvisMemoryJson new) else t.view j := by
      intro j
      simp only [Tables.view, Tables.memory, hms, KeyedTable.row_replace, hnew, hold]
      by_cases hj : j = id
      · subst hj
        simp only [if_true]
        rw [show KeyedTable.row Memory.id j t.memories = some old from hm]
        rfl
      · simp [hj, Ne.symm hj]
    have hpresent : ¬ gone id := fun hg => by simpa [Tables.view, hm] using h.absent id hg
    refine ⟨recordHistory_logged hl hr, by simpa [hms] using h.memoryKey, fun j hj => ?_, fun j hj => ?_⟩
    · rw [hview, hev]
      simp only [Tables.events, replay_append_singleton, Change.memoryId, Change.after, hnew, hold,
        Function.update_apply]
      split_ifs with he
      · rfl
      · exact h.live j hj
    · rw [hview, if_neg (fun he : j = id => hpresent (he ▸ hj)), h.absent j hj]

lemma setNull_pending {gone : String → Prop} {env : Settings} {ids : List String} {t t' : Tables}
    (h : Pending gone t) (hs : setNull env t ids = .ok t') : Pending gone t' := by
  induction ids generalizing t with
  | nil =>
    obtain rfl := Except.ok.inj hs
    exact h
  | cons id ids ih =>
    simp only [setNull, bind_eq_ok] at hs
    obtain ⟨u, hu, hs⟩ := hs
    exact ih (updateRow_pending h hu) hs

lemma insertRow_captured {t t' : Tables} (h : Captured t) {env : Settings} {new : Memory}
    (hi : insertRow env t new = .ok t') : Captured t' := by
  simp only [insertRow, checkSupersedes, bind_eq_ok, require_eq_ok] at hi
  obtain ⟨_, _, _, _, _, hnone, _, _, hr⟩ := hi
  have hl := h.toLogged.of_memories (t.memories ++ [new])
  obtain ⟨hms, hev⟩ := recordHistory_frame hl hr
  refine ⟨recordHistory_logged hl hr, ?_, funext fun j => ?_⟩
  · rw [hms]
    exact KeyedTable.nodup_append_singleton _ h.memoryKey hnone
  · rw [hev]
    simp only [Tables.view, Tables.memory, hms, KeyedTable.row_append_singleton, Tables.events,
      replay_append_singleton, Change.memoryId, Change.after, Function.update_apply]
    by_cases hj : j = new.id
    · subst hj
      rw [show KeyedTable.row Memory.id new.id t.memories = none from hnone]
      simp
    · simpa [hj, Ne.symm hj, Tables.view, Tables.memory, Tables.events] using congrFun h.live j

lemma deleteRow_captured {t t' : Tables} (h : Captured t) {env : Settings} {id : String}
    {rank : String → ℕ} (hd : deleteRow env t id rank = .ok t') : Captured t' := by
  unfold deleteRow at hd
  cases hm : t.memory id with
  | none =>
    simp only [hm] at hd
    obtain rfl := Except.ok.inj hd
    exact h
  | some old =>
    simp only [hm, bind_eq_ok] at hd
    obtain ⟨u, hs, hr⟩ := hd
    have hold : old.id = id := KeyedTable.row_key hm
    have hpre : Pending (· = id) { t with memories := KeyedTable.remove Memory.id id t.memories } := by
      refine ⟨h.toLogged.of_memories _, KeyedTable.nodup_remove _ h.memoryKey id, fun j hj => ?_, ?_⟩
      · simpa [Tables.view, Tables.memory, Tables.events, KeyedTable.row_remove, hj] using congrFun h.live j
      · rintro j rfl
        simp [Tables.view, Tables.memory, KeyedTable.row_remove]
    have hu := setNull_pending hpre hs
    obtain ⟨hms, hev⟩ := recordHistory_frame hu.toLogged hr
    refine ⟨recordHistory_logged hu.toLogged hr, by rw [hms]; exact hu.memoryKey, funext fun j => ?_⟩
    have hview : t'.view j = u.view j := by simp only [Tables.view, Tables.memory, hms]
    rw [hview, hev]
    simp only [Tables.events, replay_append_singleton, Change.memoryId, Change.after, hold,
      Function.update_apply]
    split_ifs with hj
    · exact hu.absent j hj
    · exact hu.live j hj

lemma execute_captured {t t' : Tables} (h : Captured t) {env : Settings} {st : Statement}
    (he : execute env t st = .ok t') : Captured t' := by
  cases st with
  | insert new => exact insertRow_captured h he
  | update id set => exact (updateRow_pending h.pending he).captured
  | delete id rank => exact deleteRow_captured h he

lemma recordHistory_isPrefix {t t' : Tables} {env : Settings} {ch : Change}
    (hr : jarvisRecordHistory env t ch = .ok t') : t.history <+: t'.history := by
  simp only [jarvisRecordHistory, bind_eq_ok, require_eq_ok] at hr
  obtain ⟨_, _, hr⟩ := hr
  obtain rfl := Except.ok.inj hr
  exact List.prefix_append _ _

lemma updateRow_isPrefix {t t' : Tables} {env : Settings} {id : String} {set : Memory → Memory}
    (hu : updateRow env t id set = .ok t') : t.history <+: t'.history := by
  unfold updateRow at hu
  cases hm : t.memory id with
  | none =>
    simp only [hm] at hu
    obtain rfl := Except.ok.inj hu
    exact List.prefix_rfl
  | some old =>
    simp only [hm, bind_eq_ok, require_eq_ok] at hu
    obtain ⟨_, _, _, _, _, _, hr⟩ := hu
    have hp := recordHistory_isPrefix hr
    exact hp

lemma setNull_isPrefix {env : Settings} {ids : List String} {t t' : Tables}
    (hs : setNull env t ids = .ok t') : t.history <+: t'.history := by
  induction ids generalizing t with
  | nil =>
    obtain rfl := Except.ok.inj hs
    exact List.prefix_rfl
  | cons id ids ih =>
    simp only [setNull, bind_eq_ok] at hs
    obtain ⟨u, hu, hs⟩ := hs
    exact (updateRow_isPrefix hu).trans (ih hs)

/-- Whatever a statement does, the entries that are there stay. -/
lemma execute_isPrefix {t t' : Tables} {env : Settings} {st : Statement} (he : execute env t st = .ok t') :
    t.history <+: t'.history := by
  cases st with
  | insert new =>
    simp only [execute, insertRow, bind_eq_ok, require_eq_ok] at he
    obtain ⟨_, _, _, _, _, _, _, _, hr⟩ := he
    have hp := recordHistory_isPrefix hr
    exact hp
  | update id set => exact updateRow_isPrefix he
  | delete id rank =>
    unfold execute deleteRow at he
    cases hm : t.memory id with
    | none =>
      simp only [hm] at he
      obtain rfl := Except.ok.inj he
      exact List.prefix_rfl
    | some old =>
      simp only [hm, bind_eq_ok] at he
      obtain ⟨u, hs, hr⟩ := he
      exact (setNull_isPrefix hs).trans (recordHistory_isPrefix hr)

lemma empty_captured : Captured Tables.empty :=
  ⟨⟨rfl, rfl, by simp [Tables.empty], by simp [Tables.empty], fun _ => trivial, List.nodup_nil,
    fun _ => rfl⟩, List.nodup_nil, rfl⟩

end ContinuityLedger.Ledger
