import Mathlib.Data.List.Induction
import ContinuityLedger.Foundations.KeyedTable

/-! Dictionaries that keep the order in which their keys came: pairs in a list, one for each key. Their keys, entries and
lengths. -/

namespace ContinuityLedger.Foundations

abbrev Dict (K V : Type) := List (K × V)

namespace Dict

variable {K V : Type} [DecidableEq K]

def get (d : Dict K V) (k : K) : Option V := (KeyedTable.row Prod.fst k d).map Prod.snd

def has (d : Dict K V) (k : K) : Bool := (get d k).isSome

def set (d : Dict K V) (k : K) (v : V) : Dict K V := KeyedTable.upsert Prod.fst (k, v) d

/-- A comprehension: a later pair with the same key takes the place of an earlier one. -/
def ofPairs (pairs : List (K × V)) : Dict K V := pairs.foldl (fun d p => set d p.1 p.2) []

@[simp] lemma get_nil (k : K) : get ([] : Dict K V) k = none := rfl

lemma get_set (d : Dict K V) (k j : K) (v : V) : get (set d k v) j = if k = j then some v else get d j := by
  rw [get, set, KeyedTable.row_upsert]
  split_ifs <;> rfl

lemma get_set_ne (d : Dict K V) {k j : K} (h : k ≠ j) (v : V) : get (set d k v) j = get d j := by
  rw [get_set, if_neg h]

@[simp] lemma get_set_self (d : Dict K V) (k : K) (v : V) : get (set d k v) k = some v := by
  rw [get_set, if_pos rfl]

lemma get_mem {d : Dict K V} {k : K} {v : V} (h : get d k = some v) : (k, v) ∈ d := by
  obtain ⟨⟨j, u⟩, hr, rfl⟩ := Option.map_eq_some_iff.mp h
  obtain rfl : j = k := KeyedTable.row_key hr
  exact KeyedTable.row_mem hr

lemma get_ofPairs (pairs : List (K × V)) (k : K) :
    get (ofPairs pairs) k = ((pairs.filter (fun p => p.1 = k)).getLast?).map Prod.snd := by
  unfold ofPairs
  induction pairs using List.reverseRecOn with
  | nil => rfl
  | append_singleton ps p ih =>
    rw [List.foldl_append, List.foldl_cons, List.foldl_nil, get_set, ih]
    by_cases h : p.1 = k <;> simp [h]

lemma get_ofPairs_of_nodup {pairs : List (K × V)} (hn : (pairs.map Prod.fst).Nodup) {k : K} {v : V}
    (h : (k, v) ∈ pairs) : get (ofPairs pairs) k = some v := by
  rw [get_ofPairs]
  cases hl : (pairs.filter (fun p => p.1 = k)).getLast? with
  | none =>
    rw [List.getLast?_eq_none_iff] at hl
    have hin : (k, v) ∈ pairs.filter (fun p => p.1 = k) := by simp [h]
    rw [hl] at hin
    exact absurd hin List.not_mem_nil
  | some p =>
    obtain ⟨hp, hk⟩ := List.mem_filter.mp (List.mem_of_getLast? hl)
    have heq : p = (k, v) := List.inj_on_of_nodup_map hn hp h (by simpa using hk)
    rw [heq]
    rfl

lemma mem_ofPairs {pairs : List (K × V)} {p : K × V} (h : p ∈ ofPairs pairs) : p ∈ pairs := by
  unfold ofPairs at h
  induction pairs using List.reverseRecOn with
  | nil => exact h
  | append_singleton ps q ih =>
    rw [List.foldl_append, List.foldl_cons, List.foldl_nil] at h
    rcases KeyedTable.mem_upsert Prod.fst h with rfl | h
    · simp
    · exact List.mem_append_left _ (ih h)

end Dict

end ContinuityLedger.Foundations

namespace ContinuityLedger.Foundations.Dict

variable {K V : Type} [DecidableEq K]

/-- One entry for each key. -/
abbrev Keyed (d : Dict K V) : Prop := (d.map Prod.fst).Nodup

lemma keyed_set {d : Dict K V} (h : Keyed d) (k : K) (v : V) : Keyed (set d k v) := KeyedTable.nodup_upsert Prod.fst h (k, v)

lemma mem_iff_get {d : Dict K V} (h : Keyed d) {k : K} {v : V} : (k, v) ∈ d ↔ get d k = some v := by
  refine ⟨fun hm => ?_, get_mem⟩
  rw [get, KeyedTable.row_eq_some h hm]
  rfl

lemma get_filter {d : Dict K V} (h : Keyed d) (p : K × V → Bool) (k : K) :
    get (d.filter p) k = (get d k).filter fun v => p (k, v) := by
  have hkeyed : Keyed (d.filter p) := h.sublist (List.filter_sublist.map _)
  refine Option.ext fun v => ?_
  rw [← mem_iff_get hkeyed, List.mem_filter, mem_iff_get h, Option.filter_eq_some_iff]

omit [DecidableEq K] in
lemma mem_keys {d : Dict K V} {k : K} : k ∈ d.map Prod.fst ↔ ∃ v, (k, v) ∈ d := by
  simp

lemma has_iff {d : Dict K V} {k : K} : has d k = true ↔ k ∈ d.map Prod.fst := by
  rw [has, get, Option.isSome_map]
  exact KeyedTable.row_isSome

lemma keys_set_of_has {d : Dict K V} {k : K} (h : k ∈ d.map Prod.fst) (v : V) : (set d k v).map Prod.fst = d.map Prod.fst := by
  have hrow : (KeyedTable.row Prod.fst k d).isSome = true := KeyedTable.row_isSome.mpr h
  rw [set, KeyedTable.upsert, if_pos hrow]
  exact KeyedTable.keys_replace Prod.fst d (k, v)

lemma set_of_not_has {d : Dict K V} {k : K} (h : k ∉ d.map Prod.fst) (v : V) : set d k v = d ++ [(k, v)] := by
  have hrow : (KeyedTable.row Prod.fst k d).isSome = false := by
    rw [Bool.eq_false_iff]
    exact fun hs => h (KeyedTable.row_isSome.mp hs)
  rw [set, KeyedTable.upsert, if_neg (by simpa using hrow)]

lemma length_set_of_has {d : Dict K V} {k : K} (h : k ∈ d.map Prod.fst) (v : V) : (set d k v).length = d.length := by
  have hkeys := congrArg List.length (keys_set_of_has h v)
  simpa using hkeys

lemma length_set_of_not_has {d : Dict K V} {k : K} (h : k ∉ d.map Prod.fst) (v : V) : (set d k v).length = d.length + 1 := by
  rw [set_of_not_has h]
  simp

lemma mem_keys_set {d : Dict K V} {k j : K} {v : V} : j ∈ (set d k v).map Prod.fst ↔ j = k ∨ j ∈ d.map Prod.fst := by
  rw [← has_iff, ← has_iff, has, has, get_set]
  split_ifs with h
  · simp [h]
  · have hne : j ≠ k := fun hj => h hj.symm
    simp [hne]

lemma set_cons {p : K × V} {d : Dict K V} {k : K} (h : p.1 ≠ k) (v : V) : set (p :: d) k v = p :: set d k v := by
  have hrow : KeyedTable.row Prod.fst k (p :: d) = KeyedTable.row Prod.fst k d := List.find?_cons_of_neg (by simpa using h)
  rw [set, set, KeyedTable.upsert, KeyedTable.upsert, hrow]
  split_ifs
  · rw [KeyedTable.replace, List.map_cons, if_neg h]
    rfl
  · rfl

lemma get_cons_ne {p : K × V} {d : Dict K V} {k : K} (h : p.1 ≠ k) : get (p :: d) k = get d k :=
  congrArg (Option.map Prod.snd) (List.find?_cons_of_neg (by simpa using h))

lemma get_cons_self (d : Dict K V) (k : K) (v : V) : get ((k, v) :: d) k = some v :=
  congrArg (Option.map Prod.snd) (List.find?_cons_of_pos (by simp))

lemma set_cons_self {d : Dict K V} {k : K} (h : k ∉ d.map Prod.fst) (u v : V) : set ((k, u) :: d) k v = (k, v) :: d := by
  have hrow : (KeyedTable.row Prod.fst k ((k, u) :: d)).isSome = true := KeyedTable.row_isSome.mpr List.mem_cons_self
  have hrest : KeyedTable.replace Prod.fst (k, v) d = d := by
    refine (List.map_congr_left fun p hp => ?_).trans (List.map_id d)
    exact if_neg fun hk : p.1 = k => h (hk ▸ List.mem_map_of_mem hp)
  rw [set, KeyedTable.upsert, if_pos hrow, KeyedTable.replace, List.map_cons, if_pos rfl]
  exact congrArg _ hrest

lemma set_concat {d : Dict K V} {k : K} (h : k ∉ d.map Prod.fst) (u v : V) : set (d ++ [(k, u)]) k v = d ++ [(k, v)] := by
  induction d with
  | nil => exact set_cons_self List.not_mem_nil u v
  | cons p d ih =>
    rw [List.map_cons, List.mem_cons, not_or] at h
    rw [List.cons_append, set_cons (Ne.symm h.1), ih h.2]
    rfl

/-- Where no key comes twice, every pair keeps its place. -/
lemma ofPairs_of_nodup {pairs : List (K × V)} (h : Keyed pairs) : ofPairs pairs = pairs := by
  unfold ofPairs
  induction pairs using List.reverseRecOn with
  | nil => rfl
  | append_singleton ps p ih =>
    rw [Keyed, List.map_append, List.nodup_append] at h
    have hfresh : p.1 ∉ ps.map Prod.fst := fun hp => h.2.2 p.1 hp p.1 (by simp) rfl
    rw [List.foldl_append, ih h.1, List.foldl_cons, List.foldl_nil, set_of_not_has hfresh]

end ContinuityLedger.Foundations.Dict
