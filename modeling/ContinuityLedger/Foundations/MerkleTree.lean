import Mathlib.Algebra.Group.Nat.Even
import Mathlib.Data.Nat.Log
import Mathlib.Data.Option.NAry
import Mathlib.Tactic.Positivity

/-! The root of a Merkle tree over hashed leaves in two ways: by splitting at the largest power of two below the
number of leaves, and by pairing level after level with an unpaired last node carried up. -/

namespace ContinuityLedger.Foundations.MerkleTree

variable {α : Type*} (node : α → α → α)

/-- `while k * 2 < n: k *= 2`. -/
def splitFrom (n k : ℕ) : ℕ :=
  if 0 < k ∧ k * 2 < n then splitFrom n (k * 2) else k
termination_by n - k

def split (n : ℕ) : ℕ := splitFrom n 1

lemma splitFrom_spec {n : ℕ} (k : ℕ) (i : ℕ) (hk : k = 2 ^ i) (hn : k < n) :
    ∃ j, splitFrom n k = 2 ^ j ∧ 2 ^ j < n ∧ n ≤ 2 ^ (j + 1) := by
  induction k using splitFrom.induct (n := n) generalizing i with
  | case1 k h ih =>
    rw [splitFrom, if_pos h]
    exact ih (i + 1) (by rw [hk, pow_succ]) h.2
  | case2 k h =>
    rw [splitFrom, if_neg h]
    have hpos : 0 < k := by rw [hk]; positivity
    have hle : n ≤ k * 2 := by simpa [hpos] using h
    exact ⟨i, hk, hk ▸ hn, by rw [pow_succ, ← hk]; exact hle⟩

lemma split_spec {n : ℕ} (hn : 2 ≤ n) : ∃ j, split n = 2 ^ j ∧ 2 ^ j < n ∧ n ≤ 2 ^ (j + 1) :=
  splitFrom_spec 1 0 rfl (by omega)

lemma split_eq {n j : ℕ} (hl : 2 ^ j < n) (hu : n ≤ 2 ^ (j + 1)) : split n = 2 ^ j := by
  have hpos : 0 < 2 ^ j := by positivity
  obtain ⟨i, hi, hli, hui⟩ := split_spec (n := n) (by omega)
  have hij : i < j + 1 := (Nat.pow_lt_pow_iff_right (by decide)).mp (hli.trans_le hu)
  have hji : j < i + 1 := (Nat.pow_lt_pow_iff_right (by decide)).mp (hl.trans_le hui)
  rw [hi, show i = j by omega]

lemma split_pos {n : ℕ} (hn : 2 ≤ n) : 0 < split n := by
  obtain ⟨j, hj, -, -⟩ := split_spec hn
  rw [hj]
  positivity

lemma split_lt {n : ℕ} (hn : 2 ≤ n) : split n < n := by
  obtain ⟨j, hj, hl, -⟩ := split_spec hn
  exact hj ▸ hl

/-- Split at the largest power of two below the number of leaves. -/
def mth : List α → Option α
  | [] => none
  | [x] => some x
  | x :: y :: rest =>
    let xs := x :: y :: rest
    Option.map₂ node (mth (xs.take (split xs.length))) (mth (xs.drop (split xs.length)))
termination_by xs => xs.length
decreasing_by
  · have hl := split_lt (n := (x :: y :: rest).length) (by simp)
    simp only [List.length_take, List.length_cons] at hl ⊢
    omega
  · have hp := split_pos (n := (x :: y :: rest).length) (by simp)
    simp only [List.length_drop, List.length_cons] at hp ⊢
    omega

/-- One level up: neighbours are paired, an unpaired last node stays. -/
def level : List α → List α
  | x :: y :: rest => node x y :: level rest
  | rest => rest

@[simp] lemma level_length : (xs : List α) → (level node xs).length = (xs.length + 1) / 2
  | [] => by simp [level]
  | [_] => by simp [level]
  | x :: y :: rest => by
    rw [level, List.length_cons, level_length rest, List.length_cons, List.length_cons]
    omega

/-- Pair level by level until one node is left. -/
def climb : List α → Option α
  | [] => none
  | [x] => some x
  | x :: y :: rest => climb (level node (x :: y :: rest))
termination_by xs => xs.length
decreasing_by
  rw [level_length, List.length_cons, List.length_cons]
  omega

variable {node}

lemma mth_of_two_le {xs : List α} (h : 2 ≤ xs.length) :
    mth node xs =
      Option.map₂ node (mth node (xs.take (split xs.length))) (mth node (xs.drop (split xs.length))) := by
  match xs, h with
  | x :: y :: rest, _ => rw [mth]

lemma level_take : (k : ℕ) → (xs : List α) → (level node xs).take k = level node (xs.take (2 * k))
  | 0, xs => by simp [level]
  | k + 1, [] => by simp [level]
  | k + 1, [x] => by simp [level, Nat.mul_succ]
  | k + 1, x :: y :: rest => by
    rw [level, List.take_succ_cons, level_take k rest, Nat.mul_succ, List.take_succ_cons,
      List.take_succ_cons, level]

lemma level_drop : (k : ℕ) → (xs : List α) → (level node xs).drop k = level node (xs.drop (2 * k))
  | 0, xs => by simp
  | k + 1, [] => by simp [level]
  | k + 1, [x] => by simp [level, Nat.mul_succ]
  | k + 1, x :: y :: rest => by
    rw [level, List.drop_succ_cons, level_drop k rest, Nat.mul_succ, List.drop_succ_cons,
      List.drop_succ_cons]

/-- Above a level stands the same tree: an even split point of the leaves is halved. -/
lemma mth_level (xs : List α) : mth node (level node xs) = mth node xs := by
  induction hn : xs.length using Nat.strong_induction_on generalizing xs with
  | _ n ih =>
    subst hn
    match xs with
    | [] => rfl
    | [x] => rfl
    | [x, y] =>
      have hs : split 2 = 1 := split_eq (j := 0) (by decide) (by decide)
      simp [level, mth, hs]
    | x :: y :: z :: rest =>
      set xs := x :: y :: z :: rest with hxs
      have hlen : 3 ≤ xs.length := by simp [hxs]
      obtain ⟨j, hj, hl, hu⟩ := split_spec (n := xs.length) (by omega)
      obtain ⟨i, rfl⟩ : ∃ i, j = i + 1 := by
        cases j with
        | zero => omega
        | succ i => exact ⟨i, rfl⟩
      rw [pow_succ] at hl
      have hu' : xs.length ≤ 2 ^ (i + 1) * 2 := by rwa [pow_succ] at hu
      have hhalf : split (level node xs).length = 2 ^ i :=
        split_eq (by rw [level_length]; omega) (by rw [level_length]; omega)
      have hdouble : 2 * 2 ^ i = split xs.length := by rw [hj, pow_succ]; omega
      have hpos : 0 < 2 ^ i := by positivity
      rw [@mth_of_two_le _ node xs (by omega), mth_of_two_le (by rw [level_length]; omega), hhalf,
        level_take, level_drop, hdouble]
      have hsl := split_lt (n := xs.length) (by omega)
      have hsp := split_pos (n := xs.length) (by omega)
      rw [ih _ (by rw [List.length_take]; omega) (xs.take (split xs.length)) rfl,
        ih _ (by rw [List.length_drop]; omega) (xs.drop (split xs.length)) rfl]

/-- Pairing level by level gives the tree that splitting does. -/
lemma climb_eq_mth (xs : List α) : climb node xs = mth node xs := by
  induction xs using climb.induct node with
  | case1 => rw [climb, mth]
  | case2 x => rw [climb, mth]
  | case3 x y rest ih => rw [climb, ih, mth_level]

lemma mth_isSome {xs : List α} (h : xs ≠ []) : (mth node xs).isSome := by
  induction xs using mth.induct with
  | case1 => exact absurd rfl h
  | case2 x => simp [mth]
  | case3 x y rest xs ih₁ ih₂ =>
    have hlen : 2 ≤ xs.length := by simp [xs]
    have hl : xs.take (split xs.length) ≠ [] :=
      List.ne_nil_of_length_pos (by rw [List.length_take]; have := split_pos hlen; omega)
    have hr : xs.drop (split xs.length) ≠ [] :=
      List.ne_nil_of_length_pos (by rw [List.length_drop]; have := split_lt hlen; omega)
    obtain ⟨a, ha⟩ := Option.isSome_iff_exists.mp (ih₁ hl)
    obtain ⟨b, hb⟩ := Option.isSome_iff_exists.mp (ih₂ hr)
    rw [mth_of_two_le hlen, ha, hb]
    rfl

end ContinuityLedger.Foundations.MerkleTree
