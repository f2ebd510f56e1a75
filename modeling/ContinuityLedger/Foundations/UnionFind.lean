import Mathlib.Logic.Function.Basic
import Mathlib.Logic.Relation
import Mathlib.Data.List.Basic
import Mathlib.Data.List.Perm.Subperm
import Mathlib.Tactic

/-! Forests of parents: paths are halved without moving anyone to another root, and linking two roots joins their
trees and nothing else. -/

namespace ContinuityLedger.Foundations.UnionFind

variable {K : Type*} [DecidableEq K] {parent : K → K}

/-- `Up parent d x r`: the root `r` of `x` is `d` steps above it. -/
inductive Up (parent : K → K) : ℕ → K → K → Prop
  | root {x : K} : parent x = x → Up parent 0 x x
  | step {d : ℕ} {x r : K} : parent x ≠ x → Up parent d (parent x) r → Up parent (d + 1) x r

/-- Every node has a root. -/
def Grounded (parent : K → K) : Prop := ∀ x, ∃ d r, Up parent d x r

/-- One root for both. -/
def Same (parent : K → K) (x y : K) : Prop := ∃ r d e, Up parent d x r ∧ Up parent e y r

def halve (parent : K → K) (x : K) : K → K := Function.update parent x (parent (parent x))

def link (parent : K → K) (a b : K) : K → K := Function.update parent b a

omit [DecidableEq K] in
lemma Up.det {d e : ℕ} {x r s : K} (h : Up parent d x r) (h' : Up parent e x s) : d = e ∧ r = s := by
  induction h generalizing e with
  | root hx =>
    cases h' with
    | root _ => exact ⟨rfl, rfl⟩
    | step hne _ => exact absurd hx hne
  | step hne _ ih =>
    cases h' with
    | root hx => exact absurd hx hne
    | step _ h' =>
      obtain ⟨rfl, rfl⟩ := ih h'
      exact ⟨rfl, rfl⟩

omit [DecidableEq K] in
lemma Up.fixed {d : ℕ} {x r : K} (h : Up parent d x r) : parent r = r := by
  induction h with
  | root hx => exact hx
  | step _ _ ih => exact ih

omit [DecidableEq K] in
lemma Up.mem {ns : List K} (hclosed : ∀ x ∈ ns, parent x ∈ ns) {d : ℕ} {x r : K} (h : Up parent d x r) (hx : x ∈ ns) :
    r ∈ ns := by
  induction h with
  | root _ => exact hx
  | step _ _ ih => exact ih (hclosed _ hx)

omit [DecidableEq K] in
lemma Up.self {d : ℕ} {x r : K} (h : Up parent d x r) (hx : parent x = x) : r = x :=
  (h.det (.root hx)).2

/-- No path gets longer and no root changes. -/
lemma Up.halve {x : K} (hx : parent x ≠ x) {d : ℕ} {y r : K} (h : Up parent d y r) :
    ∃ e ≤ d, Up (halve parent x) e y r := by
  induction d using Nat.strong_induction_on generalizing y with
  | _ d ih =>
    by_cases hy : y = x
    · subst hy
      cases h with
      | root hroot => exact absurd hroot hx
      | step _ h1 =>
        have hy' : UnionFind.halve parent y y = parent (parent y) := Function.update_self ..
        cases h1 with
        | root hroot =>
          refine ⟨1, le_refl _, .step (by rwa [hy', hroot]) ?_⟩
          rw [hy', hroot]
          refine .root ?_
          rw [UnionFind.halve, Function.update_of_ne hx, hroot]
        | step hne h2 =>
          rename_i d
          obtain ⟨e, he, hup⟩ := ih d (by omega) h2
          have hgrand : parent (parent y) ≠ y := by
            intro heq
            have hdet := h2.det (heq ▸ Up.step hx (Up.step hne h2))
            omega
          exact ⟨e + 1, by omega, .step (by rwa [hy']) (by rwa [hy'])⟩
    · have hy' : UnionFind.halve parent x y = parent y := Function.update_of_ne hy ..
      cases h with
      | root hroot => exact ⟨0, le_refl _, .root (by rwa [hy'])⟩
      | step hne h1 =>
        rename_i d
        obtain ⟨e, he, hup⟩ := ih d (by omega) h1
        exact ⟨e + 1, by omega, .step (by rwa [hy']) (by rwa [hy'])⟩

lemma grounded_halve {x : K} (hx : parent x ≠ x) (h : Grounded parent) : Grounded (halve parent x) := by
  intro y
  obtain ⟨d, r, hy⟩ := h y
  obtain ⟨e, -, hup⟩ := hy.halve hx
  exact ⟨e, r, hup⟩

/-- Roots are the same before and after. -/
lemma root_halve {x : K} (hx : parent x ≠ x) (h : Grounded parent) {y r : K} :
    (∃ d, Up (halve parent x) d y r) ↔ ∃ d, Up parent d y r := by
  constructor
  · rintro ⟨d, hy⟩
    obtain ⟨e, s, hs⟩ := h y
    obtain ⟨e', -, hs'⟩ := hs.halve hx
    obtain ⟨-, rfl⟩ := hy.det hs'
    exact ⟨e, hs⟩
  · rintro ⟨d, hy⟩
    obtain ⟨e, -, hup⟩ := hy.halve hx
    exact ⟨e, hup⟩

lemma Up.link {a b : K} (ha : parent a = a) (hb : parent b = b) (hab : a ≠ b) {d : ℕ} {y r : K} (h : Up parent d y r) :
    (r ≠ b → Up (link parent a b) d y r) ∧ (r = b → Up (link parent a b) (d + 1) y a) := by
  have hfa : UnionFind.link parent a b a = a := by rw [UnionFind.link, Function.update_of_ne hab, ha]
  induction h with
  | root hy =>
    rename_i y
    constructor
    · intro hne
      refine .root ?_
      rw [UnionFind.link, Function.update_of_ne hne, hy]
    · rintro rfl
      have hfy : UnionFind.link parent a y y = a := Function.update_self ..
      refine .step (by rwa [hfy]) ?_
      rw [hfy]
      exact .root hfa
  | step hne h1 ih =>
    rename_i d y r
    have hyb : y ≠ b := by
      rintro rfl
      exact hne hb
    have hfy : UnionFind.link parent a b y = parent y := Function.update_of_ne hyb ..
    exact ⟨fun hr => .step (by rwa [hfy]) (hfy ▸ ih.1 hr), fun hr => .step (by rwa [hfy]) (hfy ▸ ih.2 hr)⟩

lemma grounded_link {a b : K} (ha : parent a = a) (hb : parent b = b) (hab : a ≠ b) (h : Grounded parent) :
    Grounded (link parent a b) := by
  intro y
  obtain ⟨d, r, hy⟩ := h y
  by_cases hr : r = b
  · exact ⟨d + 1, a, (hy.link ha hb hab).2 hr⟩
  · exact ⟨d, r, (hy.link ha hb hab).1 hr⟩

omit [DecidableEq K] in
lemma same_of_root {x r : K} {d : ℕ} (h : Up parent d x r) : Same parent x r := ⟨r, d, 0, h, .root h.fixed⟩

omit [DecidableEq K] in
lemma same_refl (h : Grounded parent) (x : K) : Same parent x x := by
  obtain ⟨d, r, hx⟩ := h x
  exact ⟨r, d, d, hx, hx⟩

omit [DecidableEq K] in
lemma same_symm {x y : K} (h : Same parent x y) : Same parent y x := by
  obtain ⟨r, d, e, hx, hy⟩ := h
  exact ⟨r, e, d, hy, hx⟩

omit [DecidableEq K] in
lemma same_trans {x y z : K} (h : Same parent x y) (h' : Same parent y z) : Same parent x z := by
  obtain ⟨r, d, e, hx, hy⟩ := h
  obtain ⟨s, e', f, hy', hz⟩ := h'
  obtain ⟨-, rfl⟩ := hy.det hy'
  exact ⟨r, d, f, hx, hz⟩

omit [DecidableEq K] in
/-- The roots say who is in one tree. -/
lemma same_iff {x y r s : K} {d e : ℕ} (hx : Up parent d x r) (hy : Up parent e y s) : Same parent x y ↔ r = s := by
  constructor
  · rintro ⟨t, d', e', hx', hy'⟩
    rw [(hx.det hx').2, (hy.det hy').2]
  · rintro rfl
    exact ⟨r, d, e, hx, hy⟩

omit [DecidableEq K] in
/-- Trees are known by their roots. -/
lemma same_congr {parent' : K → K} (h : ∀ x r, (∃ d, Up parent' d x r) ↔ ∃ d, Up parent d x r) (x y : K) :
    Same parent' x y ↔ Same parent x y := by
  constructor
  · rintro ⟨r, d, e, hx, hy⟩
    obtain ⟨d', hx'⟩ := (h x r).mp ⟨d, hx⟩
    obtain ⟨e', hy'⟩ := (h y r).mp ⟨e, hy⟩
    exact ⟨r, d', e', hx', hy'⟩
  · rintro ⟨r, d, e, hx, hy⟩
    obtain ⟨d', hx'⟩ := (h x r).mpr ⟨d, hx⟩
    obtain ⟨e', hy'⟩ := (h y r).mpr ⟨e, hy⟩
    exact ⟨r, d', e', hx', hy'⟩

lemma same_link {a b : K} (ha : parent a = a) (hb : parent b = b) (hab : a ≠ b) (h : Grounded parent) {y z : K} :
    Same (link parent a b) y z ↔
      Same parent y z ∨ Same parent y a ∧ Same parent z b ∨ Same parent y b ∧ Same parent z a := by
  obtain ⟨d, r, hy⟩ := h y
  obtain ⟨e, s, hz⟩ := h z
  have hra : Up parent 0 a a := .root ha
  have hrb : Up parent 0 b b := .root hb
  rw [same_iff hy hz, same_iff hy hra, same_iff hy hrb, same_iff hz hra, same_iff hz hrb]
  by_cases hr : r = b <;> by_cases hs : s = b
  · rw [same_iff ((hy.link ha hb hab).2 hr) ((hz.link ha hb hab).2 hs)]
    simp [hr, hs]
  · rw [same_iff ((hy.link ha hb hab).2 hr) ((hz.link ha hb hab).1 hs)]
    grind
  · rw [same_iff ((hy.link ha hb hab).1 hr) ((hz.link ha hb hab).2 hs)]
    grind
  · rw [same_iff ((hy.link ha hb hab).1 hr) ((hz.link ha hb hab).1 hs)]
    grind

/-- Trees are the classes of a relation; a link adds one pair to it. -/
lemma eqvGen_link {R : K → K → Prop} {l r a b : K} (hR : ∀ x y, Same parent x y ↔ Relation.EqvGen R x y)
    (h : Grounded parent) (hl : Same parent l a) (hr : Same parent r b) (ha : parent a = a) (hb : parent b = b)
    (hab : a ≠ b) (x y : K) :
    Same (link parent a b) x y ↔ Relation.EqvGen (fun u v => R u v ∨ u = l ∧ v = r) x y := by
  have hg := grounded_link ha hb hab h
  have hold : ∀ {u v}, Same parent u v → Relation.EqvGen (fun u v => R u v ∨ u = l ∧ v = r) u v := fun huv =>
    ((hR _ _).mp huv).mono fun _ _ => Or.inl
  have hlr : Relation.EqvGen (fun u v => R u v ∨ u = l ∧ v = r) l r := .rel _ _ (Or.inr ⟨rfl, rfl⟩)
  have hab' : Relation.EqvGen (fun u v => R u v ∨ u = l ∧ v = r) a b :=
    ((hold (same_symm hl)).trans _ _ _ hlr).trans _ _ _ (hold hr)
  constructor
  · intro hs
    rcases (same_link ha hb hab h).mp hs with hs | ⟨hx, hy⟩ | ⟨hx, hy⟩
    · exact hold hs
    · exact ((hold hx).trans _ _ _ hab').trans _ _ _ (hold (same_symm hy))
    · exact ((hold hx).trans _ _ _ (hab'.symm _ _)).trans _ _ _ (hold (same_symm hy))
  · intro hs
    induction hs with
    | rel u v huv =>
      rcases huv with huv | ⟨rfl, rfl⟩
      · exact (same_link ha hb hab h).mpr (Or.inl ((hR _ _).mpr (.rel _ _ huv)))
      · exact (same_link ha hb hab h).mpr (Or.inr (Or.inl ⟨hl, hr⟩))
    | refl u => exact same_refl hg u
    | symm u v _ ih => exact same_symm ih
    | trans u v w _ _ ih ih' => exact same_trans ih ih'

omit [DecidableEq K] in
/-- A pair of one tree adds nothing. -/
lemma eqvGen_same {R : K → K → Prop} {l r : K} (hR : ∀ x y, Same parent x y ↔ Relation.EqvGen R x y) (hlr : Same parent l r)
    (x y : K) : Same parent x y ↔ Relation.EqvGen (fun u v => R u v ∨ u = l ∧ v = r) x y := by
  rw [hR]
  constructor
  · exact fun h => Relation.EqvGen.mono (fun _ _ => Or.inl) _ _ h
  · intro hs
    induction hs with
    | rel u v huv =>
      rcases huv with huv | ⟨rfl, rfl⟩
      · exact .rel _ _ huv
      · exact (hR _ _).mp hlr
    | refl u => exact .refl u
    | symm u v _ ih => exact ih.symm _ _
    | trans u v w _ _ ih ih' => exact ih.trans _ _ _ ih'

omit [DecidableEq K] in
/-- A path within a list that parents never leave is shorter than the list. -/
lemma Up.lt_length {ns : List K} (hclosed : ∀ x ∈ ns, parent x ∈ ns) {d : ℕ} {x r : K} (h : Up parent d x r) (hx : x ∈ ns) :
    d < ns.length := by
  have hchain : ∃ path : List K, path.length = d + 1 ∧ path.Nodup ∧ path ⊆ ns ∧
      ∀ y ∈ path, ∃ e ≤ d, Up parent e y r := by
    induction h with
    | root hroot =>
      rename_i x
      refine ⟨[x], rfl, List.nodup_singleton _, by simpa using hx, fun y hy => ?_⟩
      rw [List.mem_singleton.mp hy]
      exact ⟨0, le_refl _, .root hroot⟩
    | step hne h1 ih =>
      rename_i d x r
      obtain ⟨path, hlen, hnd, hsub, hall⟩ := ih (hclosed _ hx)
      refine ⟨x :: path, by rw [List.length_cons, hlen], List.nodup_cons.mpr ⟨?_, hnd⟩, ?_, ?_⟩
      · intro hmem
        obtain ⟨e, he, hup⟩ := hall x hmem
        have hdet := (Up.step hne h1).det hup
        omega
      · exact List.cons_subset.mpr ⟨hx, hsub⟩
      · intro y hy
        rcases List.mem_cons.mp hy with rfl | hy
        · exact ⟨d + 1, le_refl _, .step hne h1⟩
        · obtain ⟨e, he, hup⟩ := hall y hy
          exact ⟨e, by omega, hup⟩
  obtain ⟨path, hlen, hnd, hsub, -⟩ := hchain
  have hle := (hnd.subperm hsub).length_le
  omega

end ContinuityLedger.Foundations.UnionFind
