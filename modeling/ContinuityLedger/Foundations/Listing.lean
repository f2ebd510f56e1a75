import ContinuityLedger.Foundations.KeyedTable
import Mathlib.Data.List.Destutter
import Mathlib.Data.List.Sort

/-! Listing a table in the order of a key: the first row of each key, and pages that a client walks by a cursor. -/

namespace ContinuityLedger.Foundations.Listing

variable {K E C : Type*}

/-- `DISTINCT ON`: of every run of rows with one key the first. -/
def distinctOn [DecidableEq K] (key : E → K) (rows : List E) : List E :=
  rows.destutter (fun a b => key a ≠ key b)

lemma row_destutter [DecidableEq K] (key : E → K) (k : K) (a : E) (rows : List E) :
    KeyedTable.row key k (rows.destutter' (fun a b => key a ≠ key b) a) = KeyedTable.row key k (a :: rows) := by
  induction rows generalizing a with
  | nil => rfl
  | cons b rows ih =>
    by_cases hab : key a ≠ key b
    · rw [List.destutter'_cons, if_pos hab, KeyedTable.row, List.find?_cons, KeyedTable.row, List.find?_cons]
      rw [← KeyedTable.row, ih b, KeyedTable.row]
    · rw [List.destutter'_cons, if_neg hab, ih a]
      by_cases hk : key a = k
      · simp [KeyedTable.row, hk]
      · have hbk : key b ≠ k := fun hb => hk ((not_not.mp hab).trans hb)
        simp [KeyedTable.row, hk, hbk]

lemma row_distinctOn [DecidableEq K] (key : E → K) (k : K) (rows : List E) :
    KeyedTable.row key k (distinctOn key rows) = KeyedTable.row key k rows := by
  cases rows with
  | nil => rfl
  | cons a rows => exact row_destutter key k a rows

variable [LinearOrder K]

lemma mergeSort_pairwise (key : E → K) (rows : List E) :
    (rows.mergeSort (fun a b => key a ≤ key b)).Pairwise (fun a b => key a ≤ key b) := by
  refine (List.pairwise_mergeSort (fun a b c hab hbc => ?_) (fun a b => ?_) rows).imp of_decide_eq_true
  · exact decide_eq_true ((of_decide_eq_true hab).trans (of_decide_eq_true hbc))
  · simpa using le_total (key a) (key b)

/-- With distinct keys a sorted table does not depend on the order it was read in. -/
lemma mergeSort_perm_eq {key : E → K} {rows rows' : List E} (hn : (rows.map key).Nodup) (h : rows.Perm rows') :
    rows.mergeSort (fun a b => key a ≤ key b) = rows'.mergeSort (fun a b => key a ≤ key b) := by
  have hsort := List.mergeSort_perm rows (fun a b => key a ≤ key b)
  have hsort' := List.mergeSort_perm rows' (fun a b => key a ≤ key b)
  refine List.Perm.eq_of_pairwise (fun a b ha hb hab hba => ?_) (mergeSort_pairwise key rows)
    (mergeSort_pairwise key rows') (hsort.trans (h.trans hsort'.symm))
  have hb' : b ∈ rows := h.mem_iff.mpr (hsort'.mem_iff.mp hb)
  exact List.inj_on_of_nodup_map hn (hsort.mem_iff.mp ha) hb' (le_antisymm hab hba)

lemma mergeSort_pairwise_lt {key : E → K} {rows : List E} (hn : (rows.map key).Nodup) :
    (rows.mergeSort (fun a b => key a ≤ key b)).Pairwise (fun a b => key a < key b) := by
  have hnd := (((List.mergeSort_perm rows (fun a b => key a ≤ key b)).map key).nodup_iff).mpr hn
  exact (mergeSort_pairwise key rows).imp₂ (fun _ _ hab hne => lt_of_le_of_ne hab hne) (List.pairwise_map.mp hnd)

lemma pairwise_lt_of_ne {key : E → K} {rows : List E} (hle : rows.Pairwise (fun a b => key a ≤ key b))
    (hne : rows.IsChain (fun a b => key a ≠ key b)) : rows.Pairwise (fun a b => key a < key b) := by
  induction rows with
  | nil => exact .nil
  | cons a rows ih =>
    obtain ⟨ha, hrows⟩ := List.pairwise_cons.mp hle
    refine .cons (fun b hb => ?_) (ih hrows hne.tail)
    cases rows with
    | nil => simp at hb
    | cons c rows =>
      have hac : key a < key c := lt_of_le_of_ne (ha c (by simp)) (List.isChain_cons_cons.mp hne).1
      rcases List.mem_cons.mp hb with rfl | hb
      · exact hac
      · exact hac.trans_le ((List.pairwise_cons.mp hrows).1 b hb)

lemma distinctOn_pairwise {J : Type*} [DecidableEq J] {key : E → J} {rank : E → K} {rows : List E}
    (hkey : ∀ a b, rank a = rank b → key a = key b) (h : rows.Pairwise (fun a b => rank a ≤ rank b)) :
    (distinctOn key rows).Pairwise (fun a b => rank a < rank b) := by
  have hle := h.sublist (List.destutter_sublist (fun a b => key a ≠ key b) rows)
  have hne := List.isChain_destutter (fun a b => key a ≠ key b) rows
  exact pairwise_lt_of_ne hle (hne.imp fun a b hab heq => hab (hkey a b heq))

/-- The rows behind a cursor. -/
def rowsAfter (key : E → K) (rows : List E) (after : Option K) : List E :=
  rows.filter (fun e => after.all (· < key e))

/-- Behind the last row of a page comes the rest. -/
lemma rowsAfter_last {key : E → K} {rows : List E} (h : rows.Pairwise (fun a b => key a < key b)) {after : Option K}
    {limit : ℕ} {e : E} (he : ((rowsAfter key rows after).take limit).getLast? = some e) :
    rowsAfter key rows (some (key e)) = (rowsAfter key rows after).drop limit := by
  set rest := rowsAfter key rows after with hrest
  have hmem : e ∈ rest.take limit := List.mem_of_getLast? he
  have hafter : after.all (· < key e) = true := (List.mem_filter.mp (List.mem_of_mem_take hmem)).2
  have hfilter : rowsAfter key rows (some (key e)) = rest.filter (fun x => key e < key x) := by
    rw [hrest, rowsAfter, rowsAfter, List.filter_filter]
    refine List.filter_congr fun x _ => ?_
    cases after with
    | none => simp
    | some k =>
      simp only [Option.all_some, decide_eq_true_eq] at hafter ⊢
      by_cases hx : key e < key x
      · simp [hx, hafter.trans hx]
      · simp [hx]
  have hsorted : (rest.take limit ++ rest.drop limit).Pairwise (fun a b => key a < key b) := by
    rw [List.take_append_drop]
    exact h.sublist List.filter_sublist
  obtain ⟨hpage, -, hlater⟩ := List.pairwise_append.mp hsorted
  have hfirst : (rest.take limit).filter (fun x => key e < key x) = [] := by
    rw [← List.dropLast_append_getLast? e he] at hpage ⊢
    rw [List.filter_eq_nil_iff]
    intro x hx
    rcases List.mem_append.mp hx with hx | hx
    · simpa using ((List.pairwise_append.mp hpage).2.2 x hx e (by simp)).le
    · simp [List.mem_singleton.mp hx]
  have hrestDrop : (rest.drop limit).filter (fun x => key e < key x) = rest.drop limit := by
    rw [List.filter_eq_self]
    exact fun x hx => decide_eq_true (hlater e hmem x hx)
  rw [hfilter]
  conv_lhs => rw [← List.take_append_drop limit rest]
  rw [List.filter_append, hfirst, hrestDrop, List.nil_append]

/-- A client that fetches page after page; `none` where a fetch fails or the fuel runs out. -/
def collect (fetch : Option C → Option (List E × Option C)) : ℕ → Option C → Option (List E)
  | 0, _ => none
  | fuel + 1, after =>
    match fetch after with
    | none => none
    | some (page, none) => some page
    | some (page, some next) => (collect fetch fuel (some next)).map (page ++ ·)

/-- What a client of pages relies on: a page is the next rows, and names its last row where more rows follow. -/
def ServesPages (fetch : Option C → Option (List E × Option C)) (cursor : E → C) (rank : C → K) (rows : List E)
    (limit : ℕ) : Prop :=
  ∀ after, fetch after = some
    ((rowsAfter (rank ∘ cursor) rows (after.map rank)).take limit,
      if limit < (rowsAfter (rank ∘ cursor) rows (after.map rank)).length then
        ((rowsAfter (rank ∘ cursor) rows (after.map rank)).take limit).getLast?.map cursor
      else none)

/-- Following the cursors lists every row behind the first one, once and in order. -/
lemma collect_eq {fetch : Option C → Option (List E × Option C)} {cursor : E → C} {rank : C → K} {rows : List E}
    {limit : ℕ} (h : ServesPages fetch cursor rank rows limit) (hl : 0 < limit)
    (hs : rows.Pairwise (fun a b => rank (cursor a) < rank (cursor b))) (fuel : ℕ) (after : Option C)
    (hf : (rowsAfter (rank ∘ cursor) rows (after.map rank)).length < fuel) :
    collect fetch fuel after = some (rowsAfter (rank ∘ cursor) rows (after.map rank)) := by
  induction fuel generalizing after with
  | zero => exact absurd hf (Nat.not_lt_zero _)
  | succ fuel ih =>
    rw [collect, h after]
    set rest := rowsAfter (rank ∘ cursor) rows (after.map rank) with hrest
    by_cases hmore : limit < rest.length
    · have hne : rest.take limit ≠ [] := by
        intro hnil
        have := congrArg List.length hnil
        rw [List.length_take, List.length_nil] at this
        omega
      have hlast := List.getLast?_eq_some_getLast hne
      set e := (rest.take limit).getLast hne
      have hdrop : rowsAfter (rank ∘ cursor) rows ((some (cursor e)).map rank) = rest.drop limit := rowsAfter_last hs hlast
      rw [if_pos hmore, hlast, Option.map_some]
      dsimp only
      rw [ih (some (cursor e)) (by rw [hdrop, List.length_drop]; omega), hdrop, Option.map_some,
        List.take_append_drop]
    · rw [if_neg hmore, List.take_of_length_le (by omega)]

end ContinuityLedger.Foundations.Listing
