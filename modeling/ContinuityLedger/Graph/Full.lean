import Mathlib.Algebra.Group.Even
import Mathlib.Algebra.Group.Nat.Even
import Mathlib.Data.List.Dedup
import ContinuityLedger.Graph.Groups

/-! What the full graph stores between two memories: while it has room, the last of the relations they stand in. -/

namespace ContinuityLedger.Graph

open Foundations

/-! ### Joining pairs -/

/-- The edges while only pairs have been joined: both directions of each, none from a node to itself. -/
structure Building.Ok (b : Building) : Prop where
  keyed : Dict.Keyed b.edges
  symm : ∀ x y, (x, y) ∈ b.edges.map Prod.fst → (y, x) ∈ b.edges.map Prod.fst
  even : Even b.edges.length
  full : b.full = true → maxEdges ≤ b.edges.length

lemma ok_empty : Building.Ok ⟨[], false⟩ := ⟨List.nodup_nil, fun _ _ h => by simp at h, by simp, fun h => by cases h⟩

/-- A node that has no edge to another is new with both of its directions. -/
lemma length_join {b : Building} (h : b.Ok) (r : Relation) {x y : String} (hxy : x ≠ y) :
    Even ((b.edges.set (x, y) r).set (y, x) r).length := by
  by_cases hin : (x, y) ∈ b.edges.map Prod.fst
  · have hback : (y, x) ∈ (b.edges.set (x, y) r).map Prod.fst := Dict.mem_keys_set.mpr (Or.inr (h.symm x y hin))
    rw [Dict.length_set_of_has hback, Dict.length_set_of_has hin]
    exact h.even
  · have hback : (y, x) ∉ (b.edges.set (x, y) r).map Prod.fst := by
      rw [Dict.mem_keys_set, Prod.mk.injEq]
      rintro (⟨hyx, -⟩ | hin')
      · exact hxy hyx.symm
      · exact hin (h.symm y x hin')
    rw [Dict.length_set_of_not_has hback, Dict.length_set_of_not_has hin]
    exact h.even.add (by decide : Even 2)

lemma Building.Ok.join {b : Building} (h : b.Ok) (r : Relation) {pair : String × String} (hne : pair.1 ≠ pair.2) :
    (b.join r pair).Ok := by
  unfold Building.join
  split_ifs with hfull hroom
  · exact h
  · refine ⟨h.keyed, h.symm, h.even, fun _ => ?_⟩
    obtain ⟨n, hn⟩ := h.even
    simp only [maxEdges] at hroom ⊢
    omega
  · refine ⟨Dict.keyed_set (Dict.keyed_set h.keyed _ _) _ _, fun x y hin => ?_, length_join h r hne, fun hf => absurd hf hfull⟩
    simp only [Dict.mem_keys_set, Prod.mk.injEq] at hin ⊢
    rcases hin with ⟨rfl, rfl⟩ | ⟨rfl, rfl⟩ | hin
    · exact Or.inr (Or.inl ⟨rfl, rfl⟩)
    · exact Or.inl ⟨rfl, rfl⟩
    · exact Or.inr (Or.inr (h.symm x y hin))

lemma join_full (r : Relation) {b : Building} (pair : String × String) (h : b.full = true) : (b.join r pair) = b := by
  simp [Building.join, h]

lemma foldl_join_full (r : Relation) {b : Building} (pairs : List (String × String)) (h : b.full = true) :
    pairs.foldl (Building.join r) b = b := by
  induction pairs with
  | nil => rfl
  | cons pair pairs ih => rw [List.foldl_cons, join_full r pair h, ih]

lemma ok_pairs {b : Building} (h : b.Ok) (r : Relation) {pairs : List (String × String)} (hne : ∀ p ∈ pairs, p.1 ≠ p.2) :
    (pairs.foldl (Building.join r) b).Ok := by
  induction pairs generalizing b with
  | nil => exact h
  | cons p pairs ih => exact ih (h.join r (hne p List.mem_cons_self)) fun q hq => hne q (List.mem_cons_of_mem _ hq)

/-- With room for all of them, the pairs have the relation and everything else what it had. -/
lemma get_pairs (r : Relation) {pairs : List (String × String)} {b : Building}
    (h : (pairs.foldl (Building.join r) b).full = false) (x y : String) :
    (pairs.foldl (Building.join r) b).edges.get (x, y) =
      if (x, y) ∈ pairs ∨ (y, x) ∈ pairs then some r else b.edges.get (x, y) := by
  induction pairs generalizing b with
  | nil => simp
  | cons p pairs ih =>
    rw [List.foldl_cons] at h ⊢
    have hb : (b.join r p).full = false := by
      by_contra hfull
      rw [Bool.not_eq_false] at hfull
      rw [foldl_join_full r pairs hfull, hfull] at h
      cases h
    have hedges : (b.join r p).edges = (b.edges.set (p.1, p.2) r).set (p.2, p.1) r := by
      unfold Building.join at hb ⊢
      split_ifs at hb ⊢ with hfull hroom
      · rw [hfull] at hb
        cases hb
      · rfl
    rw [ih h, hedges, Dict.get_set, Dict.get_set]
    obtain ⟨u, v⟩ := p
    simp only [List.mem_cons, Prod.mk.injEq]
    grind

lemma joinGroups_eq (r : Relation) (b : Building) (groups : Dict String (List String)) :
    b.joinGroups r groups = ((groups.filter fun g => g.2.length ≤ maxGroup).flatMap fun g => pairsOf g.2).foldl (Building.join r) b := by
  induction groups generalizing b with
  | nil => rfl
  | cons g groups ih =>
    rw [Building.joinGroups, List.foldl_cons, ← Building.joinGroups, ih]
    by_cases hg : maxGroup < g.2.length
    · rw [if_pos hg, List.filter_cons_of_neg (by simpa using hg)]
    · rw [if_neg hg, List.filter_cons_of_pos (by simpa using hg), List.flatMap_cons, List.foldl_append]

/-! ### The relations of a list of memories -/

/-- Two memories with a key in common. -/
def Shares (keys : Memory → List String) (active : List Memory) (x y : String) : Prop :=
  x ≠ y ∧ ∃ m ∈ active, ∃ n ∈ active, m.id = x ∧ n.id = y ∧ ∃ k, k ∈ keys m ∧ k ∈ keys n

def Supersedes (active : List Memory) (x y : String) : Prop :=
  ∃ m ∈ active, m.id = x ∧ m.supersedes = some y ∧ y ∈ active.map (·.id)

def Runtime.Stands (rt : Runtime) (active : List Memory) : Relation → String → String → Prop
  | .sharesSubject => Shares subjectKeys active
  | .sharesTag => Shares rt.tagKeys active
  | .supersedes => Supersedes active

/-- No group is too large to be joined. -/
def Small (keys : Memory → List String) (active : List Memory) : Prop :=
  ∀ k, (group (groupsOf keys active) k).length ≤ maxGroup

lemma nodup_subjectKeys (m : Memory) : (subjectKeys m).Nodup := by
  unfold subjectKeys
  cases m.subject.filter (· ≠ "") <;> simp

lemma Runtime.nodup_tagKeys (rt : Runtime) (m : Memory) : (rt.tagKeys m).Nodup :=
  (rt.order_perm m.tags.dedup).nodup_iff.mpr m.tags.nodup_dedup

lemma mem_group {keys : Memory → List String} (hk : ∀ m, (keys m).Nodup) {active : List Memory} {k x : String} :
    x ∈ group (groupsOf keys active) k ↔ ∃ m ∈ active, m.id = x ∧ k ∈ keys m := by
  rw [group_groupsOf hk, List.mem_map]
  simp only [List.mem_filter, decide_eq_true_eq]
  exact ⟨fun ⟨m, ⟨hm, hkm⟩, hid⟩ => ⟨m, hm, hid, hkm⟩, fun ⟨m, hm, hid, hkm⟩ => ⟨m, ⟨hm, hkm⟩, hid⟩⟩

lemma nodup_group {keys : Memory → List String} (hk : ∀ m, (keys m).Nodup) {active : List Memory}
    (hn : (active.map (·.id)).Nodup) (k : String) : (group (groupsOf keys active) k).Nodup := by
  rw [group_groupsOf hk]
  exact hn.sublist (List.filter_sublist.map _)

def groupPairs (keys : Memory → List String) (active : List Memory) : List (String × String) :=
  ((groupsOf keys active).filter fun g => g.2.length ≤ maxGroup).flatMap fun g => pairsOf g.2

lemma mem_groupPairs {keys : Memory → List String} {active : List Memory} {p : String × String} :
    p ∈ groupPairs keys active ↔ ∃ k, (group (groupsOf keys active) k).length ≤ maxGroup ∧
      p ∈ pairsOf (group (groupsOf keys active) k) := by
  have hkeyed := keyed_groupsOf keys active
  unfold groupPairs
  rw [List.mem_flatMap]
  constructor
  · rintro ⟨g, hg, hp⟩
    obtain ⟨hmem, hlen⟩ := List.mem_filter.mp hg
    have hne : g.2 ≠ [] := by
      intro he
      rw [he] at hp
      exact List.not_mem_nil hp
    obtain ⟨k, hk⟩ := (mem_groups hkeyed hne).mp ⟨g.1, hmem⟩
    exact ⟨k, by rw [hk]; exact of_decide_eq_true hlen, by rwa [hk]⟩
  · rintro ⟨k, hlen, hp⟩
    have hne : group (groupsOf keys active) k ≠ [] := by
      intro he
      rw [he] at hp
      exact List.not_mem_nil hp
    obtain ⟨k', hk'⟩ := (mem_groups hkeyed hne).mpr ⟨k, rfl⟩
    exact ⟨(k', _), List.mem_filter.mpr ⟨hk', decide_eq_true hlen⟩, hp⟩

lemma groupPairs_ne {keys : Memory → List String} (hk : ∀ m, (keys m).Nodup) {active : List Memory}
    (hn : (active.map (·.id)).Nodup) {p : String × String} (h : p ∈ groupPairs keys active) : p.1 ≠ p.2 := by
  obtain ⟨k, -, hp⟩ := mem_groupPairs.mp h
  exact ((pairsOf_iff (nodup_group hk hn k)).mp (Or.inl hp)).1

lemma groupPairs_iff {keys : Memory → List String} (hk : ∀ m, (keys m).Nodup) {active : List Memory}
    (hn : (active.map (·.id)).Nodup) (hs : Small keys active) {x y : String} :
    (x, y) ∈ groupPairs keys active ∨ (y, x) ∈ groupPairs keys active ↔ Shares keys active x y := by
  have hpairs := fun k => pairsOf_iff (nodup_group hk hn k) (a := x) (b := y)
  rw [mem_groupPairs, mem_groupPairs, ← exists_or]
  constructor
  · rintro ⟨k, h⟩
    obtain ⟨hne, hx, hy⟩ := (hpairs k).mp (h.imp And.right And.right)
    obtain ⟨m, hm, hmx, hkm⟩ := (mem_group hk).mp hx
    obtain ⟨n, hn', hny, hkn⟩ := (mem_group hk).mp hy
    exact ⟨hne, m, hm, n, hn', hmx, hny, k, hkm, hkn⟩
  · rintro ⟨hne, m, hm, n, hn', hmx, hny, k, hkm, hkn⟩
    refine ⟨k, ((hpairs k).mpr ⟨hne, (mem_group hk).mpr ⟨m, hm, hmx, hkm⟩, (mem_group hk).mpr ⟨n, hn', hny, hkn⟩⟩).imp ?_ ?_⟩
    · exact fun h => ⟨hs k, h⟩
    · exact fun h => ⟨hs k, h⟩

/-! ### Superseding -/

lemma length_addSupersedes (ids : List String) (edges : Dict (String × String) Relation) (m : Memory) :
    edges.length ≤ (addSupersedes ids edges m).length := by
  unfold addSupersedes
  cases m.supersedes with
  | none => exact le_refl _
  | some p =>
    dsimp only
    split_ifs with h
    · by_cases hin : (m.id, p) ∈ edges.map Prod.fst
      · rw [Dict.length_set_of_has hin]
      · rw [Dict.length_set_of_not_has hin]
        omega
    · exact le_refl _

lemma length_foldl_supersedes (ids : List String) (ms : List Memory) (edges : Dict (String × String) Relation) :
    edges.length ≤ (ms.foldl (addSupersedes ids) edges).length := by
  induction ms generalizing edges with
  | nil => exact le_refl _
  | cons m ms ih => exact (length_addSupersedes ids edges m).trans (ih _)

open scoped Classical in
/-- With room for all of them, the links overwrite what stood there. -/
lemma get_supersedes {ids : List String} {ms : List Memory} {edges : Dict (String × String) Relation}
    (h : (ms.foldl (addSupersedes ids) edges).length < maxEdges) (x y : String) :
    (ms.foldl (addSupersedes ids) edges).get (x, y) =
      if ∃ m ∈ ms, m.id = x ∧ m.supersedes = some y ∧ y ∈ ids then some .supersedes else edges.get (x, y) := by
  induction ms generalizing edges with
  | nil => simp
  | cons m ms ih =>
    rw [List.foldl_cons] at h ⊢
    have hroom : edges.length < maxEdges :=
      ((length_addSupersedes ids edges m).trans (length_foldl_supersedes ids ms _)).trans_lt h
    have hget : (addSupersedes ids edges m).get (x, y) =
        if m.id = x ∧ m.supersedes = some y ∧ y ∈ ids then some .supersedes else edges.get (x, y) := by
      unfold addSupersedes
      cases m.supersedes with
      | none => simp
      | some p =>
        dsimp only
        split_ifs with hp hnew hnew
        · obtain ⟨rfl, hpy, -⟩ := hnew
          rw [Option.some.inj hpy, Dict.get_set_self]
        · refine Dict.get_set_ne _ (fun he => hnew ?_) _
          obtain ⟨rfl, rfl⟩ := Prod.mk.inj he
          exact ⟨rfl, rfl, hp.1⟩
        · obtain ⟨-, hpy, hy⟩ := hnew
          exact absurd ⟨Option.some.inj hpy ▸ hy, hroom⟩ hp
        · rfl
    rw [ih h, hget]
    simp only [List.exists_mem_cons_iff]
    split_ifs <;> grind

/-! ### The whole graph -/

lemma Runtime.fullGraph_edges (rt : Runtime) (f : Filters) (memories : List Memory) {active : List Memory}
    (ha : memories.filter (rt.included f) = active) :
    (rt.fullGraph f memories).edges =
      let b := (groupPairs rt.tagKeys active).foldl (Building.join .sharesTag)
        ((groupPairs subjectKeys active).foldl (Building.join .sharesSubject) ⟨[], false⟩)
      if b.full then b.edges else active.foldl (addSupersedes (active.map (·.id))) b.edges := by
  subst ha
  unfold Runtime.fullGraph
  dsimp only
  rw [joinGroups_eq, joinGroups_eq]
  rfl

open scoped Classical in
/-- Between two memories the graph stores the last of their relations, while it has room. -/
lemma Runtime.get_fullGraph (rt : Runtime) (f : Filters) {memories active : List Memory}
    (ha : memories.filter (rt.included f) = active) (hn : (active.map (·.id)).Nodup) (hsub : Small subjectKeys active)
    (htag : Small rt.tagKeys active) (hroom : (rt.fullGraph f memories).edges.length < maxEdges) (x y : String) :
    (rt.fullGraph f memories).edges.get (x, y) =
      if Supersedes active x y then some .supersedes
      else if Shares rt.tagKeys active x y then some .sharesTag
      else if Shares subjectKeys active x y then some .sharesSubject else none := by
  rw [rt.fullGraph_edges f memories ha] at hroom ⊢
  dsimp only at hroom ⊢
  set b₁ := (groupPairs subjectKeys active).foldl (Building.join .sharesSubject) ⟨[], false⟩ with hb₁
  set b₂ := (groupPairs rt.tagKeys active).foldl (Building.join .sharesTag) b₁ with hb₂
  have hok₁ : b₁.Ok := ok_pairs ok_empty _ fun p => groupPairs_ne nodup_subjectKeys hn
  have hok₂ : b₂.Ok := ok_pairs hok₁ _ fun p => groupPairs_ne rt.nodup_tagKeys hn
  have hfull₂ : b₂.full = false := by
    by_contra hf
    rw [Bool.not_eq_false] at hf
    rw [if_pos hf] at hroom
    exact absurd (hok₂.full hf) (not_le.mpr hroom)
  have hfull₁ : b₁.full = false := by
    by_contra hf
    rw [Bool.not_eq_false] at hf
    rw [hb₂, foldl_join_full _ _ hf, hf] at hfull₂
    cases hfull₂
  rw [if_neg (by simp [hfull₂])] at hroom ⊢
  rw [get_supersedes hroom, hb₂, get_pairs _ (by rwa [← hb₂]), hb₁, get_pairs _ (by rwa [← hb₁]), Dict.get_nil]
  simp only [groupPairs_iff nodup_subjectKeys hn hsub, groupPairs_iff rt.nodup_tagKeys hn htag, Supersedes]
  congr

/-- An edge for every relation, and for nothing else. -/
lemma Runtime.edge_iff (rt : Runtime) (f : Filters) {memories active : List Memory}
    (ha : memories.filter (rt.included f) = active) (hn : (active.map (·.id)).Nodup) (hsub : Small subjectKeys active)
    (htag : Small rt.tagKeys active) (hroom : (rt.fullGraph f memories).edges.length < maxEdges) (x y : String) :
    ((rt.fullGraph f memories).edges.get (x, y)).isSome ↔ ∃ r, rt.Stands active r x y := by
  rw [rt.get_fullGraph f ha hn hsub htag hroom]
  have hex : (∃ r, rt.Stands active r x y) ↔
      Supersedes active x y ∨ Shares rt.tagKeys active x y ∨ Shares subjectKeys active x y := by
    constructor
    · rintro ⟨r, hr⟩
      cases r with
      | sharesSubject => exact Or.inr (Or.inr hr)
      | sharesTag => exact Or.inr (Or.inl hr)
      | supersedes => exact Or.inl hr
    · rintro (h | h | h)
      · exact ⟨.supersedes, h⟩
      · exact ⟨.sharesTag, h⟩
      · exact ⟨.sharesSubject, h⟩
  rw [hex]
  split_ifs with h₁ h₂ h₃ <;> simp [*]

end ContinuityLedger.Graph
