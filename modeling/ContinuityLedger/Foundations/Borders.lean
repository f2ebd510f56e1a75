import Mathlib.Data.List.Infix
import Mathlib.Data.List.TakeDrop

/-! How much of the front of one list stands at the end of another: the longest such front, how it grows by an item, and
where it falls back to. -/

namespace ContinuityLedger.Foundations.Borders

variable {α : Type*} {run text : List α} {item : α} {j k : ℕ}

/-- The first `k` of `run` stand at the end of `text`, and no more of them do. -/
structure Longest (run text : List α) (k : ℕ) : Prop where
  le : k ≤ run.length
  suffix : run.take k <:+ text
  longest : ∀ j ≤ run.length, run.take j <:+ text → j ≤ k

lemma longest_nil (run : List α) : Longest run [] 0 := by
  refine ⟨Nat.zero_le _, List.nil_suffix, fun j hj h => ?_⟩
  have hlen := h.length_le
  rw [List.length_take, Nat.min_eq_left hj] at hlen
  exact hlen

lemma Longest.le_text (h : Longest run text k) : k ≤ text.length := by
  have hlen := h.suffix.length_le
  rwa [List.length_take, Nat.min_eq_left h.le] at hlen

/-- One more item stands at the end where the item comes next in `run`. -/
lemma take_succ_suffix (hj : j < run.length) :
    run.take (j + 1) <:+ text ++ [item] ↔ run.take j <:+ text ∧ run[j]? = some item := by
  rw [List.take_add_one, List.getElem?_eq_getElem hj, Option.toList_some, List.suffix_concat_iff]
  constructor
  · rintro (hnil | ⟨t, htake, hsuffix⟩)
    · exact absurd hnil (List.append_ne_nil_of_right_ne_nil _ (List.cons_ne_nil _ _))
    · obtain ⟨rfl, hitem⟩ := List.append_inj' htake rfl
      exact ⟨hsuffix, congrArg some (List.cons.inj hitem).1⟩
  · rintro ⟨hsuffix, hitem⟩
    exact Or.inr ⟨run.take j, by rw [Option.some.inj hitem], hsuffix⟩

/-- Of two fronts that stand at the end of a text the shorter stands at the end of the longer. -/
lemma take_suffix_take (hk : k ≤ run.length) (hjk : j ≤ k) (hj : run.take j <:+ text) (hsuffix : run.take k <:+ text) :
    run.take j <:+ run.take k := by
  apply List.suffix_of_suffix_length_le hj hsuffix
  rw [List.length_take, List.length_take]
  omega

lemma take_suffix_tail (hk : k ≤ run.length) (hjk : j < k) (h : run.take j <:+ run.take k) : run.take j <:+ (run.take k).tail := by
  apply List.suffix_of_suffix_length_le h (List.tail_suffix _)
  rw [List.length_tail, List.length_take, List.length_take]
  omega

lemma tail_take_succ {i : ℕ} (hpos : 0 < i) (hi : i < run.length) :
    (run.take (i + 1)).tail = (run.take i).tail ++ [run[i]] := by
  obtain ⟨first, rest, rfl⟩ := List.exists_cons_of_length_pos (hpos.trans hi)
  obtain ⟨i, rfl⟩ := Nat.exists_eq_add_one.mpr hpos
  rw [List.take_succ_cons, List.take_succ_cons, List.tail_cons, List.tail_cons, List.getElem_cons_succ]
  exact (List.take_append_getElem (Nat.succ_lt_succ_iff.mp hi)).symm

/-- A front that may be continued by the item, longer than which there is none. -/
structure Candidate (run text : List α) (item : α) (k : ℕ) : Prop where
  lt : k < run.length
  suffix : run.take k <:+ text
  longest : ∀ j < run.length, run.take j <:+ text → run[j]? = some item → j ≤ k

lemma Longest.candidate (h : Longest run text k) (hk : k < run.length) (item : α) : Candidate run text item k :=
  ⟨hk, h.suffix, fun j hj hsuffix _ => h.longest j hj.le hsuffix⟩

/-- What the item does not continue falls back to the longest front that stands at its own end. -/
lemma Candidate.fall (h : Candidate run text item k) (hitem : run[k]? ≠ some item) {next : ℕ}
    (hnext : Longest run (run.take k).tail next) (hk : 0 < k) : next < k ∧ Candidate run text item next := by
  have hlt : next < k := by
    have hle := hnext.le_text
    rw [List.length_tail, List.length_take, Nat.min_eq_left h.lt.le] at hle
    omega
  refine ⟨hlt, hlt.trans h.lt, ?_, fun j hj hsuffix hj' => ?_⟩
  · exact (hnext.suffix.trans (List.tail_suffix _)).trans h.suffix
  · have hle := h.longest j hj hsuffix hj'
    have hne : j ≠ k := by
      rintro rfl
      exact hitem hj'
    have hjk : j < k := lt_of_le_of_ne hle hne
    exact hnext.longest j hj.le (take_suffix_tail h.lt.le hjk (take_suffix_take h.lt.le hle hsuffix h.suffix))

lemma Candidate.grow (h : Candidate run text item k) (hitem : run[k]? = some item) : Longest run (text ++ [item]) (k + 1) := by
  refine ⟨h.lt, (take_succ_suffix h.lt).mpr ⟨h.suffix, hitem⟩, fun j hj hsuffix => ?_⟩
  cases j with
  | zero => exact Nat.zero_le _
  | succ j =>
    obtain ⟨hsuffix, hj'⟩ := (take_succ_suffix hj).mp hsuffix
    exact Nat.succ_le_succ (h.longest j hj hsuffix hj')

lemma Candidate.none (h : Candidate run text item 0) (hitem : run[0]? ≠ some item) : Longest run (text ++ [item]) 0 := by
  refine ⟨Nat.zero_le _, List.nil_suffix, fun j hj hsuffix => ?_⟩
  cases j with
  | zero => exact le_rfl
  | succ j =>
    obtain ⟨hsuffix, hj'⟩ := (take_succ_suffix hj).mp hsuffix
    obtain rfl := Nat.le_zero.mp (h.longest j hj hsuffix hj')
    exact absurd hj' hitem

/-- The whole list stands at the end where the longest front is all of it. -/
lemma Longest.whole_iff (h : Longest run text k) : run <:+ text ↔ k = run.length := by
  constructor
  · intro hsuffix
    refine le_antisymm h.le (h.longest _ le_rfl ?_)
    rwa [List.take_length]
  · rintro rfl
    have hsuffix := h.suffix
    rwa [List.take_length] at hsuffix

end ContinuityLedger.Foundations.Borders
