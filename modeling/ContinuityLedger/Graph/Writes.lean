import ContinuityLedger.Foundations.BoundedDict
import ContinuityLedger.Graph.Full

/-! The edges of the full graph as the writes that make them, whatever the sizes: of the relations of two memories the
last is kept that was written while there was room. -/

namespace ContinuityLedger.Graph

open Foundations Foundations.BoundedDict

abbrev Write := (String × String) × Relation

def bothWays (relation : Relation) (pair : String × String) : List Write :=
  [((pair.1, pair.2), relation), ((pair.2, pair.1), relation)]

def linkWrite (ids : List String) (m : Memory) : List Write :=
  match m.supersedes with
  | none => []
  | some p => if p ∈ ids then [((m.id, p), .supersedes)] else []

/-- Both ways of the pairs of each group that is not too large, by subject and then by tag, and then the links. -/
def Runtime.writes (rt : Runtime) (active : List Memory) : List Write :=
  (groupPairs subjectKeys active).flatMap (bothWays .sharesSubject) ++
    (groupPairs rt.tagKeys active).flatMap (bothWays .sharesTag) ++ active.flatMap (linkWrite (active.map (·.id)))

lemma foldl_put_full (writes : List Write) {edges : Dict (String × String) Relation} (h : maxEdges ≤ edges.length) :
    writes.foldl (put maxEdges) edges = edges := by
  induction writes with
  | nil => rfl
  | cons w writes ih => rw [List.foldl_cons, put, if_neg (not_lt.mpr h), ih]

/-- A pair is written both ways or not at all, since there is an even number of edges. -/
lemma Building.Ok.edges_join {b : Building} (h : b.Ok) (r : Relation) (pair : String × String) :
    (b.join r pair).edges = (bothWays r pair).foldl (put maxEdges) b.edges := by
  obtain ⟨n, hn⟩ := h.even
  unfold Building.join
  split_ifs with hfull hroom
  · exact (foldl_put_full _ (h.full hfull)).symm
  · refine (foldl_put_full _ ?_).symm
    simp only [maxEdges] at hroom ⊢
    omega
  · have hlen : (b.edges.set (pair.1, pair.2) r).length ≤ b.edges.length + 1 := by
      by_cases hin : (pair.1, pair.2) ∈ b.edges.map Prod.fst
      · rw [Dict.length_set_of_has hin]
        omega
      · rw [Dict.length_set_of_not_has hin]
    have hfirst : b.edges.length < maxEdges := by omega
    have hsecond : (b.edges.set (pair.1, pair.2) r).length < maxEdges := by omega
    simp only [bothWays, List.foldl_cons, List.foldl_nil, put, if_pos hfirst, if_pos hsecond]

lemma Building.Ok.edges_pairs {b : Building} (h : b.Ok) (r : Relation) {pairs : List (String × String)}
    (hne : ∀ p ∈ pairs, p.1 ≠ p.2) :
    (pairs.foldl (Building.join r) b).edges = (pairs.flatMap (bothWays r)).foldl (put maxEdges) b.edges := by
  induction pairs generalizing b with
  | nil => rfl
  | cons p pairs ih =>
    rw [List.foldl_cons, ih (h.join r (hne p List.mem_cons_self)) fun q hq => hne q (List.mem_cons_of_mem _ hq),
      h.edges_join, List.flatMap_cons, List.foldl_append]

lemma edges_links (ids : List String) (ms : List Memory) (edges : Dict (String × String) Relation) :
    ms.foldl (addSupersedes ids) edges = (ms.flatMap (linkWrite ids)).foldl (put maxEdges) edges := by
  induction ms generalizing edges with
  | nil => rfl
  | cons m ms ih =>
    have hone : addSupersedes ids edges m = (linkWrite ids m).foldl (put maxEdges) edges := by
      unfold addSupersedes linkWrite
      cases m.supersedes with
      | none => rfl
      | some p =>
        dsimp only
        by_cases hp : p ∈ ids
        · simp [hp, put]
        · simp [hp]
    rw [List.foldl_cons, hone, ih, List.flatMap_cons, List.foldl_append]

/-- The graph is what its writes make. -/
lemma Runtime.fullGraph_writes (rt : Runtime) (f : Filters) {memories active : List Memory}
    (ha : memories.filter (rt.included f) = active) (hn : (active.map (·.id)).Nodup) :
    (rt.fullGraph f memories).edges = (rt.writes active).foldl (put maxEdges) [] := by
  have hok₁ := ok_pairs ok_empty .sharesSubject fun p => groupPairs_ne nodup_subjectKeys hn
  have hok₂ := ok_pairs hok₁ .sharesTag fun p => groupPairs_ne rt.nodup_tagKeys hn
  have hshared : ((groupPairs rt.tagKeys active).foldl (Building.join .sharesTag)
      ((groupPairs subjectKeys active).foldl (Building.join .sharesSubject) ⟨[], false⟩)).edges =
      ((groupPairs subjectKeys active).flatMap (bothWays .sharesSubject) ++
        (groupPairs rt.tagKeys active).flatMap (bothWays .sharesTag)).foldl (put maxEdges) [] := by
    rw [hok₁.edges_pairs _ fun p => groupPairs_ne rt.nodup_tagKeys hn,
      ok_empty.edges_pairs _ fun p => groupPairs_ne nodup_subjectKeys hn, List.foldl_append]
  rw [rt.fullGraph_edges f memories ha, Runtime.writes, List.foldl_append, ← hshared, ← edges_links]
  dsimp only
  split_ifs with hfull
  · rw [edges_links, foldl_put_full _ (hok₂.full hfull)]
  · rfl

lemma Runtime.get_kept (rt : Runtime) (f : Filters) {memories active : List Memory}
    (ha : memories.filter (rt.included f) = active) (hn : (active.map (·.id)).Nodup) (x y : String) (r : Relation) :
    (rt.fullGraph f memories).edges.get (x, y) = some r ↔ Kept maxEdges (rt.writes active) (x, y) r := by
  rw [rt.fullGraph_writes f ha hn, get_put]

/-! ### What is written -/

/-- Two memories with a key in common stand in the relation of their group. -/
lemma shares_of_pair {keys : Memory → List String} (hk : ∀ m, (keys m).Nodup) {active : List Memory}
    (hn : (active.map (·.id)).Nodup) {x y : String} (h : (x, y) ∈ groupPairs keys active ∨ (y, x) ∈ groupPairs keys active) :
    Shares keys active x y := by
  have hpair : ∃ k, (x, y) ∈ pairsOf (group (groupsOf keys active) k) ∨ (y, x) ∈ pairsOf (group (groupsOf keys active) k) := by
    rcases h with h | h
    · obtain ⟨k, -, hp⟩ := mem_groupPairs.mp h
      exact ⟨k, Or.inl hp⟩
    · obtain ⟨k, -, hp⟩ := mem_groupPairs.mp h
      exact ⟨k, Or.inr hp⟩
  obtain ⟨k, hp⟩ := hpair
  obtain ⟨hne, hx, hy⟩ := (pairsOf_iff (nodup_group hk hn k)).mp hp
  obtain ⟨m, hm, hmx, hkm⟩ := (mem_group hk).mp hx
  obtain ⟨n, hn', hny, hkn⟩ := (mem_group hk).mp hy
  exact ⟨hne, m, hm, n, hn', hmx, hny, k, hkm, hkn⟩

lemma mem_bothWays {r r' : Relation} {pairs : List (String × String)} {x y : String}
    (h : ((x, y), r') ∈ pairs.flatMap (bothWays r)) : r' = r ∧ ((x, y) ∈ pairs ∨ (y, x) ∈ pairs) := by
  obtain ⟨p, hp, hw⟩ := List.mem_flatMap.mp h
  rcases List.mem_pair.mp hw with hw | hw
  · obtain ⟨hxy, rfl⟩ := Prod.mk.inj hw
    exact ⟨rfl, Or.inl (hxy ▸ hp)⟩
  · obtain ⟨hxy, rfl⟩ := Prod.mk.inj hw
    obtain ⟨rfl, rfl⟩ := Prod.mk.inj hxy
    exact ⟨rfl, Or.inr hp⟩

/-- What is written between two memories holds of them. -/
lemma Runtime.stands_of_mem (rt : Runtime) {active : List Memory} (hn : (active.map (·.id)).Nodup) {x y : String}
    {r : Relation} (h : ((x, y), r) ∈ rt.writes active) : rt.Stands active r x y := by
  rw [Runtime.writes, List.mem_append, List.mem_append] at h
  rcases h with (h | h) | h
  · obtain ⟨rfl, hp⟩ := mem_bothWays h
    exact shares_of_pair nodup_subjectKeys hn hp
  · obtain ⟨rfl, hp⟩ := mem_bothWays h
    exact shares_of_pair rt.nodup_tagKeys hn hp
  · obtain ⟨m, hm, hw⟩ := List.mem_flatMap.mp h
    unfold linkWrite at hw
    cases hs : m.supersedes with
    | none => simp [hs] at hw
    | some p =>
      rw [hs] at hw
      dsimp only at hw
      split_ifs at hw with hp
      · obtain ⟨hxy, rfl⟩ := Prod.mk.inj (List.mem_singleton.mp hw)
        obtain ⟨rfl, rfl⟩ := Prod.mk.inj hxy
        exact ⟨m, hm, rfl, hs, hp⟩
      · exact absurd hw List.not_mem_nil

lemma Runtime.Stands.mem {rt : Runtime} {active : List Memory} {r : Relation} {x y : String} (h : rt.Stands active r x y) :
    x ∈ active.map (·.id) ∧ y ∈ active.map (·.id) := by
  have hshares : ∀ {keys : Memory → List String}, Shares keys active x y → x ∈ active.map (·.id) ∧ y ∈ active.map (·.id) := by
    rintro keys ⟨-, m, hm, n, hn, rfl, rfl, -⟩
    exact ⟨List.mem_map_of_mem hm, List.mem_map_of_mem hn⟩
  cases r with
  | sharesSubject => exact hshares h
  | sharesTag => exact hshares h
  | supersedes =>
    obtain ⟨m, hm, rfl, -, hy⟩ := h
    exact ⟨List.mem_map_of_mem hm, hy⟩

end ContinuityLedger.Graph
