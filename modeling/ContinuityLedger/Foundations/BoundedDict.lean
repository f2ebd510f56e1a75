import Mathlib.Data.Finset.Card
import Mathlib.Data.List.Infix
import ContinuityLedger.Foundations.Dict

/-! A dictionary that takes writes while it has fewer than a number of entries: it holds the last write of each key among
those that came while fewer keys had been written. -/

namespace ContinuityLedger.Foundations.BoundedDict

variable {K V : Type} [DecidableEq K]

def put (bound : ℕ) (d : Dict K V) (w : K × V) : Dict K V := if d.length < bound then d.set w.1 w.2 else d

/-- The number of keys that have been written. -/
def written (writes : List (K × V)) : ℕ := (writes.map Prod.fst).toFinset.card

/-- The last of the writes to a key that came in time. -/
def Kept (bound : ℕ) (writes : List (K × V)) (k : K) (v : V) : Prop :=
  ∃ pre, pre ++ [(k, v)] <+: writes ∧ written pre < bound ∧
    ∀ pre' v', pre' ++ [(k, v')] <+: writes → written pre' < bound → pre'.length ≤ pre.length

lemma Kept.mem {bound : ℕ} {writes : List (K × V)} {k : K} {v : V} (h : Kept bound writes k v) : (k, v) ∈ writes := by
  obtain ⟨pre, hpre, -⟩ := h
  exact hpre.subset (by simp)

lemma kept_append {bound : ℕ} {writes : List (K × V)} {w : K × V} {k : K} {v : V} : Kept bound (writes ++ [w]) k v ↔
    if written writes < bound ∧ w.1 = k then w.2 = v else Kept bound writes k v := by
  have hgrow : ∀ {pre : List (K × V)} {v'}, pre ++ [(k, v')] <+: writes ++ [w] ↔
      pre ++ [(k, v')] <+: writes ∨ pre = writes ∧ (k, v') = w := by
    intro pre v'
    rw [List.prefix_concat_iff, or_comm]
    refine or_congr_right ⟨fun h => ?_, ?_⟩
    · obtain ⟨hpre, hw⟩ := List.append_inj' h rfl
      exact ⟨hpre, List.singleton_inj.mp hw⟩
    · rintro ⟨rfl, rfl⟩
      rfl
  split_ifs with hlast
  · obtain ⟨hroom, rfl⟩ := hlast
    constructor
    · rintro ⟨pre, hpre, -, hmax⟩
      rcases hgrow.mp hpre with hin | ⟨-, hw⟩
      · have hle := hmax writes w.2 (hgrow.mpr (Or.inr ⟨rfl, rfl⟩)) hroom
        have hlen := hin.length_le
        rw [List.length_append, List.length_singleton] at hlen
        omega
      · rw [← hw]
    · rintro rfl
      refine ⟨writes, List.prefix_refl _, hroom, fun pre' v' hpre' _ => ?_⟩
      have hlen := hpre'.length_le
      simp only [List.length_append, List.length_singleton] at hlen
      omega
  · have hold : ∀ {pre : List (K × V)} {v'}, pre ++ [(k, v')] <+: writes ++ [w] → written pre < bound →
        pre ++ [(k, v')] <+: writes := by
      intro pre v' hpre hroom
      refine (hgrow.mp hpre).resolve_right ?_
      rintro ⟨rfl, rfl⟩
      exact hlast ⟨hroom, rfl⟩
    constructor
    · rintro ⟨pre, hpre, hroom, hmax⟩
      exact ⟨pre, hold hpre hroom, hroom, fun pre' v' hpre' => hmax pre' v' (hgrow.mpr (Or.inl hpre'))⟩
    · rintro ⟨pre, hpre, hroom, hmax⟩
      exact ⟨pre, hgrow.mpr (Or.inl hpre), hroom, fun pre' v' hpre' hroom' => hmax pre' v' (hold hpre' hroom') hroom'⟩

/-- While it has room, the dictionary has the keys that have been written; without, it has its bound. -/
lemma keys_put (bound : ℕ) (writes : List (K × V)) :
    Dict.Keyed (writes.foldl (put bound) []) ∧
      (∀ k ∈ (writes.foldl (put bound) []).map Prod.fst, k ∈ writes.map Prod.fst) ∧
      ((writes.foldl (put bound) []).length < bound →
        ∀ k ∈ writes.map Prod.fst, k ∈ (writes.foldl (put bound) []).map Prod.fst) := by
  induction writes using List.reverseRecOn with
  | nil => exact ⟨List.nodup_nil, by simp, by simp⟩
  | append_singleton writes w ih =>
    obtain ⟨hk, hsub, hall⟩ := ih
    rw [List.foldl_append, List.foldl_cons, List.foldl_nil, List.map_append]
    set d := writes.foldl (put bound) []
    unfold put
    split_ifs with hroom
    · refine ⟨Dict.keyed_set hk _ _, fun k hkey => ?_, fun _ k hkey => ?_⟩
      · rcases Dict.mem_keys_set.mp hkey with rfl | hkey
        · exact List.mem_append_right _ List.mem_cons_self
        · exact List.mem_append_left _ (hsub k hkey)
      · rcases List.mem_append.mp hkey with hkey | hkey
        · exact Dict.mem_keys_set.mpr (Or.inr (hall hroom k hkey))
        · exact Dict.mem_keys_set.mpr (Or.inl (List.mem_singleton.mp hkey))
    · exact ⟨hk, fun k hkey => List.mem_append_left _ (hsub k hkey), fun h => absurd h hroom⟩

lemma room_iff (bound : ℕ) (writes : List (K × V)) : (writes.foldl (put bound) []).length < bound ↔ written writes < bound := by
  obtain ⟨hk, hsub, hall⟩ := keys_put bound writes
  set d := writes.foldl (put bound) []
  have hcard : (d.map Prod.fst).toFinset.card = d.length := by rw [List.toFinset_card_of_nodup hk, List.length_map]
  constructor
  · intro h
    refine lt_of_le_of_lt (Finset.card_le_card fun k hkey => ?_) (hcard ▸ h)
    exact List.mem_toFinset.mpr (hall h k (List.mem_toFinset.mp hkey))
  · intro h
    rw [← hcard]
    refine lt_of_le_of_lt (Finset.card_le_card fun k hkey => ?_) h
    exact List.mem_toFinset.mpr (hsub k (List.mem_toFinset.mp hkey))

lemma get_put {bound : ℕ} {writes : List (K × V)} {k : K} {v : V} :
    (writes.foldl (put bound) []).get k = some v ↔ Kept bound writes k v := by
  induction writes using List.reverseRecOn generalizing v with
  | nil =>
    refine iff_of_false (by simp) ?_
    rintro ⟨pre, hpre, -⟩
    simp at hpre
  | append_singleton writes w ih =>
    have hroom := room_iff bound writes
    rw [kept_append, List.foldl_append, List.foldl_cons, List.foldl_nil, ← ih]
    simp only [← hroom]
    generalize writes.foldl (put bound) [] = d
    unfold put
    by_cases hlen : List.length d < bound
    · rw [if_pos hlen, Dict.get_set]
      by_cases hkey : w.1 = k
      · rw [if_pos hkey, if_pos ⟨hlen, hkey⟩, Option.some_inj]
      · rw [if_neg hkey, if_neg fun h => hkey h.2]
    · rw [if_neg hlen, if_neg fun h => hlen h.1]

end ContinuityLedger.Foundations.BoundedDict
