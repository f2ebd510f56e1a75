import Mathlib.Data.List.Sort
import Mathlib.Data.List.Nodup

/-! The first `k` of a list in an order: which of its members are among them, and when two lists have the same first `k`. -/

namespace ContinuityLedger.Foundations.TopRanked

variable {α : Type} (r : α → α → Prop) [DecidableRel r]

def top (k : ℕ) (l : List α) : List α := (l.insertionSort r).take k

/-- How many members come strictly before. -/
def beaten (x : α) (l : List α) : ℕ := l.countP fun y => r y x ∧ ¬ r x y

/-- Members that come neither before nor after each other are the same. -/
def Strict (l : List α) : Prop := l.Nodup ∧ ∀ x ∈ l, ∀ y ∈ l, r x y → r y x → x = y

variable {r}

lemma mem_of_mem_top {k : ℕ} {l : List α} {x : α} (h : x ∈ top r k l) : x ∈ l :=
  (List.mem_insertionSort r).mp (List.mem_of_mem_take h)

section

variable [Std.Total r] [IsTrans α r]

lemma mem_top {k : ℕ} {l : List α} (h : Strict r l) {x : α} (hx : x ∈ l) : x ∈ top r k l ↔ beaten r x l < k := by
  have hperm := List.perm_insertionSort r l
  obtain ⟨a, b, hs⟩ := List.append_of_mem ((List.mem_insertionSort r).mpr hx)
  have hmem : ∀ y ∈ a ++ x :: b, y ∈ l := fun y hy => hperm.mem_iff.mp (hs ▸ hy)
  have hnodup : (a ++ x :: b).Nodup := hs ▸ hperm.nodup_iff.mpr h.1
  have hsorted : (a ++ x :: b).Pairwise r := hs ▸ List.pairwise_insertionSort r l
  obtain ⟨-, htail, hcross⟩ := List.pairwise_append.mp hsorted
  have hxa : x ∉ a := fun hin => (List.nodup_append.mp hnodup).2.2 x hin x List.mem_cons_self rfl
  have hfront : a.countP (fun y => decide (r y x ∧ ¬ r x y)) = a.length := by
    refine List.countP_eq_length.mpr fun y hy => decide_eq_true ⟨hcross y hy x List.mem_cons_self, fun hxy => ?_⟩
    have heq := h.2 y (hmem y (List.mem_append_left _ hy)) x hx (hcross y hy x List.mem_cons_self) hxy
    exact hxa (heq ▸ hy)
  have hback : (x :: b).countP (fun y => decide (r y x ∧ ¬ r x y)) = 0 := by
    refine List.countP_eq_zero.mpr fun y hy => ?_
    rcases List.mem_cons.mp hy with rfl | hy
    · simp
    · simp [List.rel_of_pairwise_cons htail hy]
  have hcount : beaten r x l = a.length := by
    rw [beaten, ← hperm.countP_eq, hs, List.countP_append, hfront, hback, Nat.add_zero]
  rw [hcount, top, hs]
  constructor
  · intro hin
    by_contra hle
    rw [List.take_append_of_le_length (not_lt.mp hle)] at hin
    exact hxa (List.mem_of_mem_take hin)
  · intro hlt
    refine List.mem_take_iff_getElem.mpr ⟨a.length, ?_, ?_⟩
    · rw [List.length_append, List.length_cons]
      omega
    · simp

lemma pairwise_top (k : ℕ) (l : List α) : (top r k l).Pairwise r := (List.pairwise_insertionSort r l).sublist (List.take_sublist _ _)

omit [Std.Total r] [IsTrans α r] in
lemma nodup_top (k : ℕ) {l : List α} (h : l.Nodup) : (top r k l).Nodup :=
  ((List.perm_insertionSort r l).nodup_iff.mpr h).sublist (List.take_sublist _ _)

/-- The first `k` are told by their members. -/
lemma top_ext {k : ℕ} {l m : List α} (hl : Strict r l) (hm : Strict r m) (h : ∀ x, x ∈ top r k l ↔ x ∈ top r k m) :
    top r k l = top r k m := by
  refine List.Perm.eq_of_pairwise (fun x y hx hy => ?_) (pairwise_top k l) (pairwise_top k m) ?_
  · exact hm.2 x (mem_of_mem_top ((h x).mp hx)) y (mem_of_mem_top hy)
  · exact (List.perm_ext_iff_of_nodup (nodup_top k hl.1) (nodup_top k hm.1)).mpr h

omit [Std.Total r] [IsTrans α r] in
lemma beaten_le {u l : List α} (hu : u.Nodup) (hsub : u ⊆ l) (x : α) : beaten r x u ≤ beaten r x l :=
  (List.subperm_of_subset hu hsub).countP_le _

omit [Std.Total r] in
/-- What beats a member beats whatever that member beats. -/
lemma beaten_of_beats {x y : α} (h : r y x) (l : List α) : beaten r y l ≤ beaten r x l := by
  refine List.countP_mono_left fun z _ hz => ?_
  simp only [decide_eq_true_eq] at hz ⊢
  exact ⟨IsTrans.trans z y x hz.1 h, fun hxz => hz.2 (IsTrans.trans y x z h hxz)⟩

/-- Members that `k` of the others beat make no difference. -/
lemma top_eq_top {k : ℕ} {l u : List α} (hl : Strict r l) (hu : Strict r u) (hsub : u ⊆ l)
    (h : ∀ x ∈ l, x ∉ u → k ≤ beaten r x u) : top r k l = top r k u := by
  refine top_ext hl hu fun x => ⟨fun hx => ?_, fun hx => ?_⟩
  · have hxl := mem_of_mem_top hx
    have hlt : beaten r x l < k := (mem_top hl hxl).mp hx
    have hle : beaten r x u ≤ beaten r x l := beaten_le hu.1 hsub x
    have hxu : x ∈ u := by
      by_contra hxu
      have hk := h x hxl hxu
      omega
    exact (mem_top hu hxu).mpr (by omega)
  · have hxu := mem_of_mem_top hx
    have hlt : beaten r x u < k := (mem_top hu hxu).mp hx
    have hsame : beaten r x l ≤ beaten r x u := by
      rw [beaten, beaten, List.countP_eq_length_filter, List.countP_eq_length_filter]
      refine (List.subperm_of_subset (hl.1.filter _) fun y hy => ?_).length_le
      obtain ⟨hyl, hbeats⟩ := List.mem_filter.mp hy
      refine List.mem_filter.mpr ⟨?_, hbeats⟩
      by_contra hyu
      have hk := h y hyl hyu
      have hle : beaten r y u ≤ beaten r x u := beaten_of_beats (decide_eq_true_eq.mp hbeats).1 u
      omega
    exact (mem_top hl (hsub hxu)).mpr (by omega)

lemma beaten_of_not_top {k : ℕ} {l u : List α} (hl : Strict r l) (hsub : top r k l ⊆ u) {x : α} (hx : x ∈ l)
    (hout : x ∉ top r k l) : k ≤ beaten r x u := by
  have hlen : (top r k l).length = k := by
    have hmany : k ≤ beaten r x l := not_lt.mp fun hlt => hout ((mem_top hl hx).mpr hlt)
    have hle : beaten r x l ≤ l.length := List.countP_le_length
    rw [top, List.length_take, List.length_insertionSort]
    omega
  have hsorted := List.pairwise_insertionSort r l
  rw [← List.take_append_drop k (l.insertionSort r), List.pairwise_append] at hsorted
  have hdrop : x ∈ (l.insertionSort r).drop k := by
    have hmem := (List.mem_insertionSort r).mpr hx
    rw [← List.take_append_drop k (l.insertionSort r)] at hmem
    exact (List.mem_append.mp hmem).resolve_left hout
  have hall : beaten r x (top r k l) = k := by
    rw [beaten, List.countP_eq_length.mpr, hlen]
    intro y hy
    have hyx : r y x := hsorted.2.2 y hy x hdrop
    refine decide_eq_true ⟨hyx, fun hxy => hout ?_⟩
    exact hl.2 y (mem_of_mem_top hy) x hx hyx hxy ▸ hy
  exact hall ▸ beaten_le (nodup_top k hl.1) hsub x

section

variable [DecidableEq α] {k : ℕ} {l m : List α} (hl : Strict r l) (hm : Strict r m)
include hl hm

/-- Where `k` of what two lists share beat each member they do not share, the first `k` are those of what they share. -/
lemma top_shared (hleft : ∀ x ∈ l, x ∉ m → k ≤ beaten r x (l.filter (· ∈ m)))
    (hright : ∀ x ∈ m, x ∉ l → k ≤ beaten r x (l.filter (· ∈ m))) :
    top r k l = top r k (l.filter (· ∈ m)) ∧ top r k m = top r k (l.filter (· ∈ m)) := by
  have hu : Strict r (l.filter (· ∈ m)) :=
    ⟨hl.1.filter _, fun x hx y hy => hl.2 x (List.mem_of_mem_filter hx) y (List.mem_of_mem_filter hy)⟩
  have hmem : ∀ x, x ∈ l.filter (· ∈ m) ↔ x ∈ l ∧ x ∈ m := by simp
  refine ⟨top_eq_top hl hu (fun x hx => ((hmem x).mp hx).1) fun x hx hout => ?_,
    top_eq_top hm hu (fun x hx => ((hmem x).mp hx).2) fun x hx hout => ?_⟩
  · exact hleft x hx fun hin => hout ((hmem x).mpr ⟨hx, hin⟩)
  · exact hright x hx fun hin => hout ((hmem x).mpr ⟨hin, hx⟩)

/-- Two lists have the same first `k` exactly where `k` of what they share beat each member they do not share. -/
theorem top_eq_iff : top r k l = top r k m ↔ (∀ x ∈ l, x ∉ m → k ≤ beaten r x (l.filter (· ∈ m))) ∧
    ∀ x ∈ m, x ∉ l → k ≤ beaten r x (l.filter (· ∈ m)) := by
  have hmem : ∀ x, x ∈ l.filter (· ∈ m) ↔ x ∈ l ∧ x ∈ m := by simp
  constructor
  · intro h
    have hshared : ∀ x ∈ top r k l, x ∈ l ∧ x ∈ m := fun x hx => ⟨mem_of_mem_top hx, mem_of_mem_top (h ▸ hx)⟩
    refine ⟨fun x hx hout => ?_, fun x hx hout => ?_⟩
    · exact beaten_of_not_top hl (fun y hy => (hmem y).mpr (hshared y hy)) hx fun hin => hout (hshared x hin).2
    · refine beaten_of_not_top hm (fun y hy => (hmem y).mpr (hshared y (h ▸ hy))) hx fun hin => ?_
      exact hout (hshared x (h ▸ hin)).1
  · rintro ⟨hleft, hright⟩
    obtain ⟨h₁, h₂⟩ := top_shared hl hm hleft hright
    rw [h₁, h₂]

end

end

end ContinuityLedger.Foundations.TopRanked
