import Mathlib.Order.Lattice
import ContinuityLedger.Foundations.Dict

/-! Dictionaries filled from a list. Of the values offered for a key the first of the greatest is kept; and the entries that
have a key are grouped by it, in the order of the list. -/

namespace ContinuityLedger.Foundations.Greatest

variable {K V O : Type} [DecidableEq K] [LinearOrder O] (value : V → O)

def keep (kept : Dict K V) (offer : K × V) : Dict K V :=
  match kept.get offer.1 with
  | none => kept.set offer.1 offer.2
  | some previous => if value previous < value offer.2 then kept.set offer.1 offer.2 else kept

structure Kept (offers : List (K × V)) (kept : Dict K V) : Prop where
  keyed : Dict.Keyed kept
  mem : ∀ k v, kept.get k = some v → (k, v) ∈ offers
  le : ∀ k v, (k, v) ∈ offers → ∃ w, kept.get k = some w ∧ value v ≤ value w

variable {value} {offers : List (K × V)} {kept : Dict K V}

lemma Kept.set (h : Kept value offers kept) {k : K} {v : V} (hle : ∀ w, kept.get k = some w → value w ≤ value v) :
    Kept value (offers ++ [(k, v)]) (kept.set k v) := by
  refine ⟨Dict.keyed_set h.keyed k v, fun j w hw => ?_, fun j w hw => ?_⟩
  · rw [Dict.get_set] at hw
    split_ifs at hw with hj
    · obtain rfl := Option.some.inj hw
      exact hj ▸ List.mem_append_right _ (List.mem_singleton_self _)
    · exact List.mem_append_left _ (h.mem j w hw)
  · rw [Dict.get_set]
    rcases List.mem_append.mp hw with hw | hw
    · obtain ⟨u, hu, hwu⟩ := h.le j w hw
      split_ifs with hj
      · exact ⟨v, rfl, hwu.trans (hle u (hj ▸ hu))⟩
      · exact ⟨u, hu, hwu⟩
    · obtain ⟨rfl, rfl⟩ := Prod.mk.inj (List.mem_singleton.mp hw)
      exact ⟨w, if_pos rfl, le_refl _⟩

lemma Kept.keep (h : Kept value offers kept) (offer : K × V) : Kept value (offers ++ [offer]) (keep value kept offer) := by
  rw [Greatest.keep]
  cases hget : kept.get offer.1 with
  | none => exact h.set fun w hw => absurd (hget.symm.trans hw) (Option.some_ne_none w).symm
  | some previous =>
    dsimp only
    split_ifs with hlt
    · refine h.set fun w hw => ?_
      obtain rfl := Option.some.inj (hget.symm.trans hw)
      exact hlt.le
    · refine ⟨h.keyed, fun k v hv => List.mem_append_left _ (h.mem k v hv), fun k v hv => ?_⟩
      rcases List.mem_append.mp hv with hv | hv
      · exact h.le k v hv
      · obtain rfl := List.mem_singleton.mp hv
        exact ⟨previous, hget, not_lt.mp hlt⟩

lemma kept_foldl (offers : List (K × V)) : Kept value offers (offers.foldl (keep value) []) := by
  induction offers using List.reverseRecOn with
  | nil => exact ⟨List.nodup_nil, by simp, by simp⟩
  | append_singleton offers offer ih =>
    rw [List.foldl_append]
    exact ih.keep offer

lemma Kept.key_mem (h : Kept value offers kept) {k : K} (hk : k ∈ kept.map Prod.fst) : k ∈ offers.map Prod.fst := by
  obtain ⟨v, hv⟩ := Dict.mem_keys.mp hk
  exact List.mem_map_of_mem (h.mem k v ((Dict.mem_iff_get h.keyed).mp hv))

end ContinuityLedger.Foundations.Greatest

namespace ContinuityLedger.Foundations.Grouped

variable {K A : Type} [DecidableEq K] (key : A → Option K)

def addTo (groups : Dict K (List A)) (a : A) : Dict K (List A) :=
  match key a with
  | none => groups
  | some k => groups.set k ((groups.get k).getD [] ++ [a])

def groupBy (xs : List A) : Dict K (List A) := xs.foldl (addTo key) []

def group (xs : List A) (k : K) : List A := xs.filter fun a => key a = some k

lemma groupBy_append (xs : List A) (a : A) : groupBy key (xs ++ [a]) = addTo key (groupBy key xs) a := by
  rw [groupBy, List.foldl_append]
  rfl

lemma group_append_of_ne {a : A} {k : K} (h : key a ≠ some k) (xs : List A) :
    group key (xs ++ [a]) k = group key xs k := by
  rw [group, List.filter_append, List.filter_singleton]
  simp [h, group]

lemma group_append_of_eq {a : A} {k : K} (h : key a = some k) (xs : List A) :
    group key (xs ++ [a]) k = group key xs k ++ [a] := by
  rw [group, List.filter_append, List.filter_singleton]
  simp [h, group]

/-- Induction on the list from its end: an entry changes the group of its own key only. -/
lemma get_groupBy (xs : List A) (k : K) :
    (groupBy key xs).get k = if group key xs k = [] then none else some (group key xs k) := by
  induction xs using List.reverseRecOn with
  | nil => rfl
  | append_singleton xs a ih =>
    rw [groupBy_append, addTo]
    cases hk : key a with
    | none => rw [group_append_of_ne key (by rw [hk]; exact Option.some_ne_none k ∘ Eq.symm), ih]
    | some j =>
      by_cases hj : j = k
      · subst hj
        have hne : group key xs j ++ [a] ≠ [] := by simp
        rw [Dict.get_set_self, group_append_of_eq key hk, if_neg hne, ih]
        split_ifs with he <;> simp [he]
      · have hne : key a ≠ some k := by simpa [hk] using hj
        rw [Dict.get_set_ne _ hj, ih, group_append_of_ne key hne]

lemma keyed_groupBy (xs : List A) : Dict.Keyed (groupBy key xs) := by
  induction xs using List.reverseRecOn with
  | nil => exact List.nodup_nil
  | append_singleton xs a ih =>
    rw [groupBy_append, addTo]
    cases key a with
    | none => exact ih
    | some k => exact Dict.keyed_set ih k _

lemma mem_groupBy {xs : List A} {k : K} {g : List A} : (k, g) ∈ groupBy key xs ↔ g ≠ [] ∧ g = group key xs k := by
  rw [Dict.mem_iff_get (keyed_groupBy key xs), get_groupBy]
  split_ifs with h
  · simp [h]
  · constructor
    · intro hg
      obtain rfl := Option.some.inj hg
      exact ⟨h, rfl⟩
    · rintro ⟨-, rfl⟩
      rfl

lemma mem_keys_groupBy {xs : List A} {k : K} : k ∈ (groupBy key xs).map Prod.fst ↔ ∃ a ∈ xs, key a = some k := by
  rw [Dict.mem_keys]
  constructor
  · rintro ⟨g, hg⟩
    obtain ⟨hne, rfl⟩ := (mem_groupBy key).mp hg
    obtain ⟨a, ha⟩ := List.exists_mem_of_ne_nil _ hne
    have hin := List.mem_filter.mp ha
    exact ⟨a, hin.1, by simpa using hin.2⟩
  · rintro ⟨a, ha, hk⟩
    have hin : a ∈ group key xs k := List.mem_filter.mpr ⟨ha, by simpa using hk⟩
    exact ⟨_, (mem_groupBy key).mpr ⟨List.ne_nil_of_mem hin, rfl⟩⟩

end ContinuityLedger.Foundations.Grouped
