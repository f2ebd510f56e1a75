import Mathlib.Data.List.Sort
import Mathlib.Data.String.Basic
import ContinuityLedger.Foundations.Bfs
import ContinuityLedger.Graph.Agree
import ContinuityLedger.Graph.Sparse
import ContinuityLedger.Graph.Writes

/-! The breadth-first search over the graph, and what it reaches against what the relations reach. -/

namespace ContinuityLedger.Graph

open Foundations Foundations.Bfs

def maxDepth : ℕ := 20
def maxNodes : ℕ := 1000

def clampDepth (depth : ℤ) : ℕ := (max 0 (min depth maxDepth)).toNat
def clampNodes (limit : ℤ) : ℕ := (max 1 (min limit maxNodes)).toNat

/-- `sorted`. -/
def sortedIds (ids : List String) : List String := ids.insertionSort (· ≤ ·)

def DiGraph.successors (g : DiGraph) (node : String) : List String :=
  (g.edges.filter fun e => e.1.1 = node).map fun e => e.1.2

def DiGraph.relation (g : DiGraph) (x y : String) : String := ((g.edges.get (x, y)).map Relation.name).getD ""

/-- The successors that the filter lets through, each with the relation of its edge. -/
def DiGraph.filtered (g : DiGraph) (relations : List String) (node : String) : Option (List (String × String)) :=
  some (((sortedIds (g.successors node)).filter fun next => relations = [] ∨ g.relation node next ∈ relations).map
    fun next => (next, g.relation node next))

/-- The index has no relations to filter by. -/
def Runtime.connected (rt : Runtime) (ix : SparseMemoryIndex) (node : String) : Option (List (String × String)) :=
  (rt.neighbors ix node).map fun ns => (sortedIds ns).map fun next => (next, "connected")

def Loaded.nodes : Loaded → List String
  | .full g => g.nodes
  | .sparse ix => ix.memories.map Prod.fst

def Runtime.adj (rt : Runtime) (relations : List String) : Loaded → String → Option (List (String × String))
  | .full g => g.filtered relations
  | .sparse ix => rt.connected ix

/-- A memory that was found, with its distance and the relation of the edge to it. -/
abbrev Hit := String × ℕ × String

/-- `bfs_search`. -/
def Runtime.bfsSearch (rt : Runtime) (f : Filters) (memories : List Memory) (start : String) (depth limit : ℤ)
    (relations : List String) : Option (List Hit) :=
  let g := rt.loadGraph f memories
  if start ∉ g.nodes then some []
  else (run (rt.adj relations g) (clampDepth depth) (clampNodes limit) (g.nodes.length + 1) ⟨[(start, 0)], [start], []⟩).map
    Search.out

/-! ### Steps -/

/-- A step of the search: the relation that the graph keeps passes the filter, or the index has the two as neighbours. -/
def Runtime.Taken (rt : Runtime) (relations : List String) : Loaded → String → String → Prop
  | .full g, x, y => ∃ r, g.edges.get (x, y) = some r ∧ r.name ∈ relations
  | .sparse ix, x, y => ∃ ns, rt.neighbors ix x = some ns ∧ y ∈ ns

lemma mem_sortedIds {ids : List String} {x : String} : x ∈ sortedIds ids ↔ x ∈ ids :=
  (List.perm_insertionSort _ ids).mem_iff

lemma mem_successors {g : DiGraph} {x y : String} : y ∈ g.successors x ↔ ∃ r, g.edges.get (x, y) = some r := by
  rw [← Option.isSome_iff_exists]
  have hkeys : (g.edges.get (x, y)).isSome = true ↔ (x, y) ∈ g.edges.map Prod.fst := Dict.has_iff
  rw [hkeys]
  simp only [DiGraph.successors, List.mem_map, List.mem_filter, decide_eq_true_eq]
  constructor
  · rintro ⟨e, ⟨he, rfl⟩, rfl⟩
    exact ⟨e, he, rfl⟩
  · rintro ⟨e, he, heq⟩
    exact ⟨e, ⟨he, by rw [heq]⟩, by rw [heq]⟩

lemma step_iff {rt : Runtime} {relations : List String} (hrel : relations ≠ []) {g : Loaded} {x y : String} :
    Step (rt.adj relations g) x y ↔ rt.Taken relations g x y := by
  cases g with
  | full g =>
    constructor
    · rintro ⟨l, b, hl, hy⟩
      obtain rfl := Option.some.inj hl
      obtain ⟨next, hnext, heq⟩ := List.mem_map.mp hy
      obtain ⟨rfl, rfl⟩ := Prod.mk.inj heq
      obtain ⟨hsucc, hpass⟩ := List.mem_filter.mp hnext
      obtain ⟨r, hr⟩ := mem_successors.mp (mem_sortedIds.mp hsucc)
      have hname : g.relation x next = r.name := by rw [DiGraph.relation, hr]; rfl
      refine ⟨r, hr, ?_⟩
      rw [← hname]
      exact (of_decide_eq_true hpass).resolve_left hrel
    · rintro ⟨r, hr, hin⟩
      have hname : g.relation x y = r.name := by rw [DiGraph.relation, hr]; rfl
      refine ⟨_, g.relation x y, rfl, List.mem_map.mpr ⟨y, List.mem_filter.mpr ⟨?_, ?_⟩, rfl⟩⟩
      · exact mem_sortedIds.mpr (mem_successors.mpr ⟨r, hr⟩)
      · exact decide_eq_true (Or.inr (hname ▸ hin))
  | sparse ix =>
    constructor
    · rintro ⟨l, b, hl, hy⟩
      obtain ⟨ns, hns, rfl⟩ := Option.map_eq_some_iff.mp hl
      obtain ⟨next, hnext, heq⟩ := List.mem_map.mp hy
      obtain ⟨rfl, -⟩ := Prod.mk.inj heq
      exact ⟨ns, hns, mem_sortedIds.mp hnext⟩
    · rintro ⟨ns, hns, hy⟩
      exact ⟨_, "connected", Option.map_eq_some_iff.mpr ⟨ns, hns, rfl⟩, List.mem_map.mpr ⟨y, mem_sortedIds.mpr hy, rfl⟩⟩

open Foundations Foundations.Bfs Foundations.BoundedDict

/-- Two memories that stand in one of the relations. -/
def Runtime.Related (rt : Runtime) (active : List Memory) (relations : List String) (x y : String) : Prop :=
  ∃ r : Relation, r.name ∈ relations ∧ rt.Stands active r x y

/-- The hits are the memories within the depth, each once and at its least number of steps. -/
def Exact (R : String → String → Prop) (start : String) (depth : ℤ) (hits : List Hit) : Prop :=
  (∀ x k, (∃ relation, (x, k, relation) ∈ hits) ↔ x ≠ start ∧ (k : ℤ) ≤ depth ∧ Dist R start x k) ∧ (hits.map Prod.fst).Nodup

/-- A step of the search in terms of the memories: up to a number of them the one relation that is kept for the pair
passes the filter; above it any two neighbours of the index make a step. -/
def Runtime.Passes (rt : Runtime) (count : ℕ) (active : List Memory) (relations : List String) (x y : String) : Prop :=
  if count ≤ maxMemoriesForFullGraph then ∃ r, Kept maxEdges (rt.writes active) (x, y) r ∧ r.name ∈ relations
  else x ∈ active.map (·.id) ∧ Adjacent rt active x y

/-- No step that passes leaves the levels of a relation, and every memory of a level within the depth is on a level that
the search goes to and has a step that passes from the one before. -/
def Covered (P R : String → String → Prop) (start : String) (depth : ℤ) : Prop :=
  (∀ x y k, k < clampDepth depth → Dist R start x k → P x y → ∃ j ≤ k + 1, Dist R start y j) ∧
    ∀ y k, ((k + 1 : ℕ) : ℤ) ≤ depth → Dist R start y (k + 1) → k + 1 ≤ maxDepth ∧ ∃ x, Dist R start x k ∧ P x y

lemma le_clampDepth {k : ℕ} {depth : ℤ} (h : k ≤ clampDepth depth) : k = 0 ∨ (k : ℤ) ≤ depth ∧ k ≤ maxDepth := by
  simp only [clampDepth, maxDepth] at h ⊢
  omega

lemma clampDepth_le {k : ℕ} {depth : ℤ} (h : (k : ℤ) ≤ depth) (hmax : k ≤ maxDepth) : k ≤ clampDepth depth := by
  simp only [clampDepth, maxDepth] at hmax ⊢
  omega

/-- What has been found for one relation is what there is for another where the levels agree. -/
lemma finds_exact {P R : String → String → Prop} {start : String} {depth : ℤ} {st : Search String String}
    (h : Finds P start (clampDepth depth) st) : Exact R start depth st.out ↔ Covered P R start depth := by
  have hlevel : ∀ {x k}, x ≠ start → Dist R start x k → k ≠ 0 := by
    rintro x k hne hx rfl
    exact hne (dist_zero.mp hx)
  have hne : ∀ {x k}, Dist R start x (k + 1) → x ≠ start := by
    rintro x k hx rfl
    exact absurd (hx.unique (dist_zero.mpr rfl)) (Nat.succ_ne_zero k)
  constructor
  · rintro ⟨hhits, -⟩
    have hsame : ∀ x k, x ≠ start → (k ≤ clampDepth depth ∧ Dist P start x k ↔ (k : ℤ) ≤ depth ∧ Dist R start x k) := by
      intro x k hx
      have hiff := (h.out x k).symm.trans (hhits x k)
      simpa [hx] using hiff
    have hagree : ∀ x k, k ≤ clampDepth depth → (Dist P start x k ↔ Dist R start x k) := by
      intro x k hk
      rcases eq_or_ne k 0 with rfl | hzero
      · rw [dist_zero, dist_zero]
      · have hdepth := (le_clampDepth hk).resolve_left hzero
        rcases eq_or_ne x start with rfl | hx
        · have hstart : ∀ {S : String → String → Prop}, ¬ Dist S x x k := fun hd => hzero (hd.unique (dist_zero.mpr rfl))
          exact iff_of_false hstart hstart
        · exact ⟨fun hd => ((hsame x k hx).mp ⟨hk, hd⟩).2, fun hd => ((hsame x k hx).mpr ⟨hdepth.1, hd⟩).2⟩
    obtain ⟨hout, hin⟩ := dist_agree.mp hagree
    refine ⟨hout, fun y k hk hy => ?_⟩
    have hreach := ((hsame y (k + 1) (hne hy)).mpr ⟨hk, hy⟩).1
    exact ⟨((le_clampDepth hreach).resolve_left (Nat.succ_ne_zero k)).2, hin y k hreach hy⟩
  · rintro ⟨hout, hin⟩
    have hagree : ∀ x k, k ≤ clampDepth depth → (Dist P start x k ↔ Dist R start x k) := by
      refine dist_agree.mpr ⟨hout, fun y k hk hy => ?_⟩
      have hdepth := (le_clampDepth hk).resolve_left (Nat.succ_ne_zero k)
      exact (hin y k hdepth.1 hy).2
    refine ⟨fun x k => (h.out x k).trans (and_congr_right fun hx => ?_), h.once⟩
    constructor
    · rintro ⟨hk, hd⟩
      have hd' := (hagree x k hk).mp hd
      exact ⟨((le_clampDepth hk).resolve_left (hlevel hx hd')).1, hd'⟩
    · rintro ⟨hk, hd⟩
      obtain ⟨j, rfl⟩ := Nat.exists_eq_succ_of_ne_zero (hlevel hx hd)
      have hreach := clampDepth_le hk (hin x j hk hd).1
      exact ⟨hreach, (hagree x (j + 1) hreach).mpr hd⟩

/-- Nothing is reached from a node without steps. -/
lemma dist_isolated {R : String → String → Prop} {start x : String} {k : ℕ} (h : ∀ y, ¬ R start y) (hx : Dist R start x k) :
    k = 0 ∧ x = start := by
  cases k with
  | zero => exact ⟨rfl, dist_zero.mp hx⟩
  | succ k =>
    obtain ⟨y, hy⟩ := hx.below (show 1 ≤ k + 1 by omega)
    obtain ⟨p, hp, hpy⟩ := hy.pred
    rw [dist_zero.mp hp] at hpy
    exact absurd hpy (h y)

section
variable (rt : Runtime) (f : Filters) {memories active : List Memory} (ha : memories.filter (rt.included f) = active)
include ha

lemma nodes_loadGraph (hn : (active.map (·.id)).Nodup) : (rt.loadGraph f memories).nodes = active.map (·.id) := by
  subst ha
  unfold Runtime.loadGraph
  split_ifs
  · rfl
  · exact (rt.indexed hn).nodes

/-- A step of the search is one that passes. -/
lemma taken_iff (hn : (active.map (·.id)).Nodup) (relations : List String) (x y : String) :
    rt.Taken relations (rt.loadGraph f memories) x y ↔ rt.Passes memories.length active relations x y := by
  unfold Runtime.loadGraph Runtime.Passes
  split_ifs
  · simp only [Runtime.Taken, rt.get_kept f ha hn]
  · have hindex : Indexed rt active (rt.sparseIndex f memories) := by
      subst ha
      exact rt.indexed hn
    constructor
    · rintro ⟨ns, hns, hy⟩
      have hx : x ∈ active.map (·.id) := by
        obtain ⟨m, hm, -⟩ := Option.map_eq_some_iff.mp hns
        rw [← hindex.nodes]
        exact List.mem_map_of_mem (Dict.get_mem hm)
      obtain ⟨ns', hns', hmem⟩ := hindex.neighbors hn hx
      obtain rfl := Option.some.inj (hns.symm.trans hns')
      exact ⟨hx, (hmem y).mp hy⟩
    · rintro ⟨hx, hxy⟩
      obtain ⟨ns, hns, hmem⟩ := hindex.neighbors hn hx
      exact ⟨ns, hns, (hmem y).mpr hxy⟩

omit ha in
lemma Runtime.Passes.mem {rt : Runtime} {count : ℕ} (hn : (active.map (·.id)).Nodup) {relations : List String} {x y : String}
    (h : rt.Passes count active relations x y) : x ∈ active.map (·.id) ∧ y ∈ active.map (·.id) := by
  unfold Runtime.Passes at h
  split_ifs at h
  · obtain ⟨r, hr, -⟩ := h
    exact (rt.stands_of_mem hn hr.mem).mem
  · obtain ⟨hx, hs | ht | ⟨-, hr | hr⟩⟩ := h
    · have hstands : rt.Stands active .sharesSubject x y := hs
      exact hstands.mem
    · have hstands : rt.Stands active .sharesTag x y := ht
      exact hstands.mem
    · exact recorded_mem hr
    · exact (recorded_mem hr).symm

/-- Every node has its neighbours, and they are nodes. -/
lemma adj_closed (hn : (active.map (·.id)).Nodup) {relations : List String} (hrel : relations ≠ []) {x : String}
    (hx : x ∈ active.map (·.id)) :
    ∃ l, rt.adj relations (rt.loadGraph f memories) x = some l ∧ ∀ n ∈ l, n.1 ∈ active.map (·.id) := by
  have hex : ∃ l, rt.adj relations (rt.loadGraph f memories) x = some l := by
    unfold Runtime.loadGraph
    split_ifs
    · exact ⟨_, rfl⟩
    · have hindex : Indexed rt active (rt.sparseIndex f memories) := by
        subst ha
        exact rt.indexed hn
      obtain ⟨ns, hns, -⟩ := hindex.neighbors hn hx
      exact ⟨_, Option.map_eq_some_iff.mpr ⟨ns, hns, rfl⟩⟩
  obtain ⟨l, hl⟩ := hex
  refine ⟨l, hl, fun n hmem => ?_⟩
  have hstep := (step_iff hrel).mp ⟨l, n.2, hl, hmem⟩
  exact (((taken_iff rt f ha hn relations x n.1).mp hstep).mem hn).2

end

/-- The search finds exactly what the relations reach where its steps cover their levels. -/
theorem bfsSearch_exact_iff (rt : Runtime) (f : Filters) (memories : List Memory) (start : String) (depth limit : ℤ)
    (relations : List String) (hrel : relations ≠ []) (hn : (memories.map (·.id)).Nodup)
    (hlimit : ∀ l : List String, l.Nodup →
      (∀ x ∈ l, ∃ k ≤ clampDepth depth,
        Steps (rt.Passes memories.length (memories.filter (rt.included f)) relations) start k x) →
      l.length ≤ clampNodes limit) :
    ∃ hits, rt.bfsSearch f memories start depth limit relations = some hits ∧
      (Exact (rt.Related (memories.filter (rt.included f)) relations) start depth hits ↔
        Covered (rt.Passes memories.length (memories.filter (rt.included f)) relations)
          (rt.Related (memories.filter (rt.included f)) relations) start depth) := by
  set active := memories.filter (rt.included f) with ha
  have hn' : (active.map (·.id)).Nodup := hn.sublist (List.filter_sublist.map _)
  have hnodes := nodes_loadGraph rt f ha.symm hn'
  have hstep : Step (rt.adj relations (rt.loadGraph f memories)) = rt.Passes memories.length active relations := by
    funext x y
    exact propext ((step_iff hrel).trans (taken_iff rt f ha.symm hn' relations x y))
  unfold Runtime.bfsSearch
  dsimp only
  rw [hnodes]
  by_cases hs : start ∈ active.map (·.id)
  · rw [if_neg (not_not.mpr hs)]
    have hroom : ∀ l : List String, l.Nodup →
        (∀ x ∈ l, ∃ k ≤ clampDepth depth, Dist (Step (rt.adj relations (rt.loadGraph f memories))) start x k) →
        l.length ≤ clampNodes limit := by
      intro l hl hin
      refine hlimit l hl fun x hx => ?_
      obtain ⟨k, hk, hd⟩ := hin x hx
      exact ⟨k, hk, hstep ▸ hd.1⟩
    obtain ⟨st, hrun, hfinds⟩ := run_finds hs (fun x hx => adj_closed rt f ha.symm hn' hrel hx) hroom (Nat.lt_succ_self _)
    rw [hstep] at hfinds
    exact ⟨st.out, by rw [hrun]; rfl, finds_exact hfinds⟩
  · rw [if_pos hs]
    refine ⟨[], rfl, iff_of_true ?_ ?_⟩
    all_goals have hR : ∀ y, ¬ rt.Related active relations start y := fun y ⟨r, _, hr⟩ => hs hr.mem.1
    · refine ⟨fun x k => iff_of_false (by simp) ?_, List.nodup_nil⟩
      rintro ⟨hne, -, hd⟩
      exact hne (dist_isolated hR hd).2
    · refine ⟨fun x y k hk hx hxy => ?_, fun y k hk hy => ?_⟩
      · rw [(dist_isolated hR hx).2] at hxy
        exact absurd (hxy.mem hn').1 hs
      · exact absurd (dist_isolated hR hy).1 (Nat.succ_ne_zero k)

/-- Two memories that share a subject and a tag. -/
def twofold : List Memory := [⟨"mem-a", "", 1, none, some "s", ["t"]⟩, ⟨"mem-b", "", 1, none, some "s", ["t"]⟩]

lemma twofold_active : twofold.filter (plainRuntime.included everything) = twofold := by decide

lemma twofold_covered : Covered (plainRuntime.Passes twofold.length twofold ["shares_tag"])
    (plainRuntime.Related twofold ["shares_tag"]) "mem-a" 1 := by
  have hget : (plainRuntime.fullGraph everything twofold).edges.get ("mem-a", "mem-b") = some .sharesTag := by decide
  have hpass : ∀ {x y}, plainRuntime.Passes twofold.length twofold ["shares_tag"] x y →
      plainRuntime.Related twofold ["shares_tag"] x y := by
    intro x y h
    rw [Runtime.Passes, if_pos (by decide)] at h
    obtain ⟨r, hr, hin⟩ := h
    exact ⟨r, hin, plainRuntime.stands_of_mem (by decide) hr.mem⟩
  refine ⟨fun x y k _ hx hxy => hx.step (hpass hxy), fun y k hk hy => ?_⟩
  obtain rfl : k = 0 := by omega
  obtain ⟨x, hx, r, hin, hr⟩ := hy.pred
  obtain rfl := dist_zero.mp hx
  have hmem := hr.mem.2
  refine ⟨by decide, "mem-a", hx, ?_⟩
  rcases List.mem_pair.mp hmem with rfl | rfl
  · exact absurd (hy.unique (dist_zero.mpr rfl)) (by decide)
  · rw [Runtime.Passes, if_pos (by decide)]
    exact ⟨.sharesTag, (plainRuntime.get_kept everything twofold_active (by decide) _ _ _).mp hget, by decide⟩

/-- By tag the search finds the other memory. -/
theorem twofold_by_tag : ∃ hits, plainRuntime.bfsSearch everything twofold "mem-a" 1 50 ["shares_tag"] = some hits ∧
    Exact (plainRuntime.Related (twofold.filter (plainRuntime.included everything)) ["shares_tag"]) "mem-a" 1 hits := by
  obtain ⟨hits, hrun, hiff⟩ := bfsSearch_exact_iff plainRuntime everything twofold "mem-a" 1 50 ["shares_tag"] (by decide)
    (by decide) fun l hl hin => by
      rw [twofold_active] at hin
      have hsub : l ⊆ twofold.map (·.id) := by
        intro x hx
        obtain ⟨k, -, hk⟩ := hin x hx
        cases hk with
        | refl => decide
        | tail _ hyx => exact (hyx.mem (by decide)).2
      exact (hl.subperm hsub).length_le.trans (by decide)
  refine ⟨hits, hrun, hiff.mpr ?_⟩
  rw [twofold_active]
  exact twofold_covered

/-- By subject it finds nothing: of the two relations the graph keeps that of the tag. -/
theorem twofold_by_subject : plainRuntime.bfsSearch everything twofold "mem-a" 1 50 ["shares_subject"] = some [] ∧
    ¬ Exact (plainRuntime.Related (twofold.filter (plainRuntime.included everything)) ["shares_subject"]) "mem-a" 1 [] := by
  refine ⟨by decide, fun h => ?_⟩
  rw [twofold_active] at h
  have hrel : plainRuntime.Related twofold ["shares_subject"] "mem-a" "mem-b" :=
    ⟨.sharesSubject, by decide, by decide, _, List.mem_cons_self, _, List.mem_cons_of_mem _ List.mem_cons_self, rfl, rfl, "s",
      by decide, by decide⟩
  have hdist : Dist (plainRuntime.Related twofold ["shares_subject"]) "mem-a" "mem-b" 1 := by
    refine ⟨.tail .refl hrel, fun j hj hsteps => ?_⟩
    obtain rfl : j = 0 := by omega
    exact absurd (dist_zero.mp ⟨hsteps, fun i hi => by omega⟩) (by decide)
  obtain ⟨relation, hmem⟩ := (h.1 "mem-b" 1).mpr ⟨by decide, by decide, hdist⟩
  exact List.not_mem_nil hmem

end ContinuityLedger.Graph
