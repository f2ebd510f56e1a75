import ContinuityLedger.Ledger.CaptureInvariant

/-! What a statement does to the live rows: the row it names, the rows whose target it takes away, and no others. -/

namespace ContinuityLedger.Ledger

open Foundations Foundations.EventFold

variable {env : Settings} {t t' : Tables} {id : String}

lemma recordHistory_memories {ch : Change} (h : jarvisRecordHistory env t ch = .ok t') :
    t'.memories = t.memories := by
  simp only [jarvisRecordHistory, bind_eq_ok, require_eq_ok] at h
  obtain ⟨_, _, h⟩ := h
  obtain rfl := Except.ok.inj h
  rfl

lemma recordHistory_memory {ch : Change} (h : jarvisRecordHistory env t ch = .ok t') (j : String) :
    t'.memory j = t.memory j := by
  rw [Tables.memory, recordHistory_memories h, Tables.memory]

lemma insertRow_effect {new : Memory} (h : insertRow env t new = .ok t') :
    t.memory new.id = none ∧ ∀ j, t'.memory j = if j = new.id then some new else t.memory j := by
  simp only [insertRow, checkSupersedes, bind_eq_ok, require_eq_ok] at h
  obtain ⟨_, _, _, _, _, hnone, _, _, hr⟩ := h
  refine ⟨hnone, fun j => ?_⟩
  rw [recordHistory_memory hr, Tables.memory, KeyedTable.row_append_singleton]
  by_cases hj : j = new.id
  · subst hj
    rw [Tables.memory] at hnone
    simp [hnone]
  · simp [hj, Ne.symm hj, Tables.memory]

lemma bumpVersion_ok {old new bumped : Memory} (h : jarvisBumpVersion old new = .ok bumped) :
    bumped = { new with version := old.version + 1 } ∧ bumped.id = old.id := by
  simp only [jarvisBumpVersion, bind_eq_ok, require_eq_ok] at h
  obtain ⟨_, _, _, hid, h⟩ := h
  obtain rfl := Except.ok.inj h
  exact ⟨rfl, hid⟩

lemma insertRow_isPrefix {new : Memory} (h : insertRow env t new = .ok t') : t.history <+: t'.history :=
  @execute_isPrefix t t' env (.insert new) h

lemma deleteRow_isPrefix {rank : String → ℕ} (h : deleteRow env t id rank = .ok t') : t.history <+: t'.history :=
  @execute_isPrefix t t' env (.delete id rank) h

/-- The trigger counts the version on, whatever the assignments say. -/
lemma updateRow_effect {set : Memory → Memory} {old : Memory} (hold : t.memory id = some old)
    (h : updateRow env t id set = .ok t') :
    ∀ j, t'.memory j = if j = id then some { set old with version := old.version + 1 } else t.memory j := by
  intro j
  simp only [updateRow, hold, bind_eq_ok, require_eq_ok] at h
  obtain ⟨new, hb, _, _, _, _, hr⟩ := h
  obtain ⟨hnew, hid⟩ := bumpVersion_ok hb
  have hkey : new.id = id := hid.trans (KeyedTable.row_key hold)
  rw [recordHistory_memory hr, Tables.memory, KeyedTable.row_replace, hkey, ← hnew]
  by_cases hj : j = id
  · rw [if_pos hj.symm, if_pos hj, hj, show KeyedTable.row Memory.id id t.memories = some old from hold]
    rfl
  · rw [if_neg (Ne.symm hj), if_neg hj]
    rfl

/-- What the foreign key action leaves of a row. -/
def unlinked (m : Memory) : Memory := { m with supersedes := none, version := m.version + 1 }

lemma setNull_effect {ids : List String} (hn : ids.Nodup) (h : setNull env t ids = .ok t') :
    ∀ j, t'.memory j = if j ∈ ids then (t.memory j).map unlinked else t.memory j := by
  induction ids generalizing t with
  | nil =>
    obtain rfl := Except.ok.inj h
    simp
  | cons id ids ih =>
    obtain ⟨hid, hn⟩ := List.nodup_cons.mp hn
    simp only [setNull, bind_eq_ok] at h
    obtain ⟨u, hu, hs⟩ := h
    intro j
    rw [ih hn hs]
    cases hm : t.memory id with
    | none =>
      obtain rfl : u = t := by simpa [updateRow, hm, eq_comm, pure, Except.pure] using hu
      by_cases hj : j = id
      · subst hj
        simp [hid, hm]
      · simp [hj]
    | some old =>
      rw [updateRow_effect hm hu]
      by_cases hj : j = id
      · subst hj
        simp [hid, hm, unlinked]
      · simp [hj]

lemma mem_referencing (hn : (t.memories.map Memory.id).Nodup) {target : String} {j : String} :
    j ∈ referencing t target ↔ ∃ m, t.memory j = some m ∧ m.supersedes = some target := by
  constructor
  · intro hj
    obtain ⟨m, hm, rfl⟩ := List.mem_map.mp hj
    obtain ⟨hin, hs⟩ := List.mem_filter.mp hm
    exact ⟨m, KeyedTable.row_eq_some hn hin, by simpa using hs⟩
  · rintro ⟨m, hm, hs⟩
    exact List.mem_map.mpr ⟨m, List.mem_filter.mpr ⟨KeyedTable.row_mem hm, by simpa using hs⟩, KeyedTable.row_key hm⟩

/-- Every row that names the target loses its link, in whatever order they are taken. -/
lemma setNull_referencing (hn : (t.memories.map Memory.id).Nodup) {target : String} {rank : String → ℕ}
    (h : setNull env t ((referencing t target).mergeSort fun a b => rank a ≤ rank b) = .ok t') (j : String) :
    t'.memory j = (t.memory j).map fun m => if m.supersedes = some target then unlinked m else m := by
  have hperm := List.mergeSort_perm (referencing t target) fun a b => decide (rank a ≤ rank b)
  have hnodup : (referencing t target).Nodup := hn.sublist (List.filter_sublist.map _)
  rw [setNull_effect (hperm.nodup_iff.mpr hnodup) h]
  cases hm : t.memory j with
  | none => simp
  | some m =>
    have href : j ∈ referencing t target ↔ m.supersedes = some target := by
      rw [mem_referencing hn, hm]
      simp
    by_cases hs : m.supersedes = some target
    · rw [if_pos (hperm.mem_iff.mpr (href.mpr hs)), Option.map_some, Option.map_some, if_pos hs]
    · rw [if_neg fun hin => hs (href.mp (hperm.mem_iff.mp hin)), Option.map_some, if_neg hs]

/-- A row is gone, and the rows that named it have lost their link. -/
lemma deleteRow_effect (hn : (t.memories.map Memory.id).Nodup) {old : Memory} (hold : t.memory id = some old)
    {rank : String → ℕ} (h : deleteRow env t id rank = .ok t') :
    ∀ j, t'.memory j = if j = id then none else
      (t.memory j).map fun m => if m.supersedes = some id then unlinked m else m := by
  intro j
  simp only [deleteRow, hold, bind_eq_ok] at h
  obtain ⟨u, hs, hr⟩ := h
  have hkeys := KeyedTable.nodup_remove Memory.id hn id
  have hrow : ({ t with memories := KeyedTable.remove Memory.id id t.memories } : Tables).memory j =
      if j = id then none else t.memory j := KeyedTable.row_remove _ _ _ _
  rw [recordHistory_memory hr, setNull_referencing hkeys hs, hrow]
  by_cases hj : j = id
  · rw [if_pos hj, if_pos hj]
    rfl
  · rw [if_neg hj, if_neg hj]

/-- Whatever has a row has an entry. -/
lemma Captured.entry_of_row (h : Captured t) {m : Memory} (hm : t.memory id = some m) :
    ∃ e ∈ t.history, e.memoryId = id := by
  have hview : replay t.events id = some (jarvisMemoryJson m) := by
    rw [← congrFun h.live id, Tables.view, hm]
    rfl
  rw [Tables.events, replay_eq_newest] at hview
  obtain ⟨e, he, -⟩ := Option.bind_eq_some_iff.mp hview
  exact ⟨e, newest_mem _ he, newest_key _ he⟩

end ContinuityLedger.Ledger
