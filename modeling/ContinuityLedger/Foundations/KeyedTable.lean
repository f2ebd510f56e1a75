import Mathlib.Data.List.Nodup

/-! Tables with a primary key: rows in a list, one row for a key, and the statements that change them. -/

namespace ContinuityLedger.Foundations.KeyedTable

variable {K R : Type*} [DecidableEq K] (key : R → K)

def row (k : K) (rows : List R) : Option R := rows.find? (fun r => key r = k)

/-- `UPDATE`: the row with the same key gives way to `r`. -/
def replace (r : R) (rows : List R) : List R := rows.map (fun m => if key m = key r then r else m)

/-- `DELETE`. -/
def remove (k : K) (rows : List R) : List R := rows.filter (fun r => key r ≠ k)

/-- `INSERT … ON CONFLICT DO UPDATE`. -/
def upsert (r : R) (rows : List R) : List R :=
  if (row key (key r) rows).isSome then replace key r rows else rows ++ [r]

variable {key}

lemma row_key {k : K} {rows : List R} {r : R} (h : row key k rows = some r) : key r = k := by
  simpa using List.find?_some h

lemma row_mem {k : K} {rows : List R} {r : R} (h : row key k rows = some r) : r ∈ rows :=
  List.mem_of_find?_eq_some h

lemma row_eq_none {k : K} {rows : List R} : row key k rows = none ↔ ∀ r ∈ rows, key r ≠ k := by
  simp [row]

lemma row_isSome {k : K} {rows : List R} : (row key k rows).isSome ↔ k ∈ rows.map key := by
  simp [row, List.find?_isSome]

lemma row_eq_some {rows : List R} (hn : (rows.map key).Nodup) {r : R} (hr : r ∈ rows) :
    row key (key r) rows = some r := by
  cases hx : row key (key r) rows with
  | none => exact absurd rfl (row_eq_none.mp hx r hr)
  | some s => rw [List.inj_on_of_nodup_map hn (row_mem hx) hr (row_key hx)]

variable (key)

@[simp] lemma row_nil (k : K) : row key k [] = none := rfl

lemma row_append_singleton (k : K) (rows : List R) (r : R) :
    row key k (rows ++ [r]) = (row key k rows).or (if key r = k then some r else none) := by
  by_cases h : key r = k <;> simp [row, h]

lemma row_replace (k : K) (rows : List R) (r : R) :
    row key k (replace key r rows) =
      if key r = k then (row key k rows).map (fun _ => r) else row key k rows := by
  induction rows with
  | nil => simp [replace]
  | cons m rows ih =>
    simp only [replace, row, List.map_cons, List.find?_cons] at ih ⊢
    by_cases hm : key m = key r <;> by_cases hk : key r = k <;> by_cases hj : key m = k <;>
      simp_all

lemma row_remove (k j : K) (rows : List R) :
    row key k (remove key j rows) = if k = j then none else row key k rows := by
  by_cases hk : k = j
  · subst hk
    simp [row_eq_none, remove]
  · rw [if_neg hk, row, remove, List.find?_filter]
    refine congrArg (rows.find? ·) (funext fun r => ?_)
    by_cases hr : key r = k <;> simp [hr, hk]

lemma row_upsert (k : K) (rows : List R) (r : R) :
    row key k (upsert key r rows) = if key r = k then some r else row key k rows := by
  unfold upsert
  split_ifs with h hk hk
  · subst hk
    obtain ⟨s, hs⟩ := Option.isSome_iff_exists.mp h
    simp [row_replace, hs]
  · simp [row_replace, hk]
  · subst hk
    simp [row_append_singleton, Option.not_isSome_iff_eq_none.mp h]
  · simp [row_append_singleton, hk]

/-- The rows that a transaction wrote, the newest first, over those that it found. -/
def overlay (wrote rows : List R) : List R := wrote.foldr (upsert key) rows

lemma row_overlay (k : K) (wrote rows : List R) :
    row key k (overlay key wrote rows) = (row key k wrote).or (row key k rows) := by
  induction wrote with
  | nil => rfl
  | cons r wrote ih =>
    rw [overlay, List.foldr_cons, row_upsert]
    by_cases h : key r = k
    · simp [row, h]
    · rw [if_neg h]
      have hcons : row key k (r :: wrote) = row key k wrote := by simp [row, h]
      rw [hcons]
      exact ih

/-- What is inserted under a new key is taken out again by its key. -/
lemma remove_upsert {rows : List R} {r : R} (h : row key (key r) rows = none) :
    remove key (key r) (upsert key r rows) = rows := by
  rw [upsert, h, Option.isSome_none, if_neg Bool.false_ne_true, remove, List.filter_append]
  have hrows : rows.filter (fun m => key m ≠ key r) = rows :=
    List.filter_eq_self.mpr fun m hm => by simpa using row_eq_none.mp h m hm
  rw [hrows]
  simp

lemma mem_upsert {rows : List R} {r m : R} (h : m ∈ upsert key r rows) : m = r ∨ m ∈ rows := by
  unfold upsert replace at h
  split_ifs at h
  · obtain ⟨n, hn, rfl⟩ := List.mem_map.mp h
    by_cases hk : key n = key r
    · exact .inl (if_pos hk)
    · rw [if_neg hk]
      exact .inr hn
  · rw [List.mem_append, List.mem_singleton] at h
    exact h.symm

@[simp] lemma keys_replace (rows : List R) (r : R) : (replace key r rows).map key = rows.map key := by
  simp only [replace, List.map_map]
  refine List.map_congr_left fun m _ => ?_
  by_cases h : key m = key r <;> simp [h]

lemma nodup_append_singleton {rows : List R} (hn : (rows.map key).Nodup) {r : R}
    (hr : row key (key r) rows = none) : ((rows ++ [r]).map key).Nodup := by
  have hk : key r ∉ rows.map key := fun h => by simpa [hr] using row_isSome.mpr h
  simpa [List.nodup_append, hn] using hk

lemma nodup_remove {rows : List R} (hn : (rows.map key).Nodup) (k : K) :
    ((remove key k rows).map key).Nodup :=
  hn.sublist (List.filter_sublist.map key)

lemma nodup_upsert {rows : List R} (hn : (rows.map key).Nodup) (r : R) :
    ((upsert key r rows).map key).Nodup := by
  unfold upsert
  split_ifs with h
  · rwa [keys_replace]
  · exact nodup_append_singleton key hn (Option.not_isSome_iff_eq_none.mp h)

lemma nodup_overlay (wrote : List R) {rows : List R} (hn : (rows.map key).Nodup) :
    ((overlay key wrote rows).map key).Nodup := by
  induction wrote with
  | nil => exact hn
  | cons r wrote ih => exact nodup_upsert key ih r

end ContinuityLedger.Foundations.KeyedTable
