import Mathlib.Algebra.Order.Group.Defs
import Mathlib.Algebra.Order.Group.Unbundled.Basic
import Mathlib.Data.List.Basic

/-! Instants in the order they came: those that a window of one length still sees, and a bound on how many any window of
that length holds. -/

namespace ContinuityLedger.Foundations.SlidingWindow

variable {T : Type*} [AddCommGroup T] [LinearOrder T] [IsOrderedAddMonoid T]

/-- The instants less than a window before `now`. -/
def live (window now : T) (instants : List T) : List T := instants.filter fun r => now - r < window

/-- The front of the queue is dropped as far as it lies a window or more before `now`. -/
def trim (window now : T) (instants : List T) : List T := instants.dropWhile fun r => window ≤ now - r

/-- No window of this length, its end left out, holds more than `limit` of the instants. -/
def Bounded (window : T) (limit : ℕ) (instants : List T) : Prop :=
  ∀ t, (instants.filter fun r => t ≤ r ∧ r < t + window).length ≤ limit

omit [IsOrderedAddMonoid T] in
lemma bounded_nil (window : T) (limit : ℕ) : Bounded window limit [] := fun _ => Nat.zero_le _

omit [IsOrderedAddMonoid T] in
lemma Bounded.sublist {window : T} {limit : ℕ} {l l' : List T} (h : Bounded window limit l) (hs : l'.Sublist l) :
    Bounded window limit l' :=
  fun t => ((hs.filter _).length_le).trans (h t)

lemma Bounded.push {window now : T} {limit : ℕ} {l : List T} (h : Bounded window limit l)
    (hroom : (live window now l).length < limit) : Bounded window limit (l ++ [now]) := by
  intro t
  rw [List.filter_append]
  by_cases hin : t ≤ now ∧ now < t + window
  · -- what this window holds of the earlier instants is still live
    have hsub : (l.filter fun r => t ≤ r ∧ r < t + window).Sublist (live window now l) := by
      refine List.monotone_filter_right l fun r hr => ?_
      have htr : t ≤ r := (of_decide_eq_true hr).1
      exact decide_eq_true (sub_lt_iff_lt_add'.mpr (hin.2.trans_le (add_le_add_left htr window)))
    have hone : ([now].filter fun r => t ≤ r ∧ r < t + window).length ≤ 1 := List.length_filter_le _ _
    rw [List.length_append]
    have hlen := hsub.length_le
    omega
  · rw [List.filter_cons_of_neg (by simpa using hin), List.filter_nil, List.append_nil]
    exact h t

lemma live_live {window now now' : T} (h : now ≤ now') (l : List T) : live window now' (live window now l) = live window now' l := by
  rw [live, live, List.filter_filter]
  refine List.filter_congr fun r _ => ?_
  by_cases hr : now' - r < window
  · have hlive : now - r < window := (sub_le_sub_right h r).trans_lt hr
    simp only [hr, hlive, decide_true, Bool.and_self]
  · simp only [hr, decide_false, Bool.false_and]

lemma trim_eq_live {window now : T} {l : List T} (h : l.Pairwise (· ≤ ·)) : trim window now l = live window now l := by
  induction l with
  | nil => rfl
  | cons r l ih =>
    obtain ⟨hr, hl⟩ := List.pairwise_cons.mp h
    by_cases hdue : window ≤ now - r
    · rw [trim, List.dropWhile_cons_of_pos (by simpa using hdue), live, List.filter_cons_of_neg (by simpa using hdue)]
      exact ih hl
    · have hall : ∀ s ∈ r :: l, now - s < window := by
        refine List.forall_mem_cons.mpr ⟨not_le.mp hdue, fun s hs => ?_⟩
        exact (sub_le_sub_left (hr s hs) now).trans_lt (not_le.mp hdue)
      rw [trim, List.dropWhile_cons_of_neg (by simpa using hdue), live,
        List.filter_eq_self.mpr fun s hs => decide_eq_true (hall s hs)]

omit [IsOrderedAddMonoid T] in
lemma live_erase (window now r : T) (l : List T) : live window now (l.erase r) = (live window now l).erase r :=
  (List.erase_filter).symm

/-- Nothing is live where the last of the queue is not. -/
lemma live_eq_nil {window now : T} {l : List T} (h : l.Pairwise (· ≤ ·)) (hlast : ∀ r ∈ l.getLast?, window ≤ now - r) :
    live window now l = [] := by
  rw [live, List.filter_eq_nil_iff]
  intro r hr
  obtain ⟨before, last, rfl⟩ := List.eq_nil_or_concat l |>.resolve_left (List.ne_nil_of_mem hr)
  have hdue : window ≤ now - last := hlast last (by simp)
  have hle : r ≤ last := by
    rcases List.mem_append.mp (List.concat_eq_append ▸ hr) with hr | hr
    · exact (List.pairwise_append.mp (List.concat_eq_append ▸ h)).2.2 r hr last (List.mem_singleton_self _)
    · exact (List.mem_singleton.mp hr).le
  simpa using hdue.trans (sub_le_sub_left hle now)

end ContinuityLedger.Foundations.SlidingWindow
