import Mathlib.Data.Set.Basic
import ContinuityLedger.Graph.Components

/-! The sparse index against the full graph. The components of the index are the classes of its neighbours; the two graphs agree
unless a link names a memory that comes later in the list. -/

namespace ContinuityLedger.Graph

open Foundations Foundations.UnionFind

/-! ### Components of the index -/

/-- Next to each other in the sparse index. -/
def Adjacent (rt : Runtime) (active : List Memory) (x y : String) : Prop :=
  Shares subjectKeys active x y ∨ Shares rt.tagKeys active x y ∨ x ≠ y ∧ (Recorded active x y ∨ Recorded active y x)

lemma mem_star {g : List String} {u v : String} (h : (u, v) ∈ star g) : u ∈ g ∧ v ∈ g := by
  cases g with
  | nil => exact absurd h List.not_mem_nil
  | cons first others =>
    obtain ⟨w, hw, heq⟩ := List.mem_map.mp h
    obtain ⟨rfl, rfl⟩ := Prod.mk.inj heq
    exact ⟨List.mem_cons_self, List.mem_cons_of_mem _ hw⟩

/-- A star holds its group together. -/
lemma eqvGen_star {R : String → String → Prop} {g : List String} (hR : ∀ u v, (u, v) ∈ star g → R u v) {x y : String}
    (hx : x ∈ g) (hy : y ∈ g) : Relation.EqvGen R x y := by
  cases g with
  | nil => exact absurd hx List.not_mem_nil
  | cons first others =>
    have hfirst : ∀ z ∈ first :: others, Relation.EqvGen R first z := by
      intro z hz
      rcases List.mem_cons.mp hz with rfl | hz
      · exact .refl _
      · exact .rel _ _ (hR _ _ (List.mem_map.mpr ⟨z, hz, rfl⟩))
    exact ((hfirst x hx).symm _ _).trans _ _ _ (hfirst y hy)

lemma recorded_mem {active : List Memory} {x y : String} (h : Recorded active x y) :
    x ∈ active.map (·.id) ∧ y ∈ active.map (·.id) := by
  obtain ⟨pre, m, hpre, rfl, -, hy⟩ := h
  exact ⟨List.mem_map_of_mem (hpre.subset (by simp)), (hpre.map _).subset hy⟩

section
variable {rt : Runtime} {active : List Memory} {ix : SparseMemoryIndex}

/-- The pairs of the groups of a kind. -/
lemma mem_stars {keys : Memory → List String} {groups : Dict String (List String)} (hk : Dict.Keyed groups)
    (hg : ∀ x k, x ∈ group groups k ↔ ∃ m ∈ active, m.id = x ∧ k ∈ keys m) {u v : String}
    (h : (u, v) ∈ groups.flatMap fun g => star (rt.order g.2)) :
    u ∈ active.map (·.id) ∧ v ∈ active.map (·.id) ∧ (u ≠ v → Shares keys active u v) := by
  obtain ⟨g, hmem, hstar⟩ := List.mem_flatMap.mp h
  obtain ⟨hu, hv⟩ := mem_star hstar
  have hgroup : group groups g.1 = g.2 := by rw [group, (Dict.mem_iff_get hk).mp hmem, Option.getD_some]
  obtain ⟨m, hm, hmu, hkm⟩ := (hg u g.1).mp (hgroup ▸ (rt.order_perm g.2).mem_iff.mp hu)
  obtain ⟨n, hn, hnv, hkn⟩ := (hg v g.1).mp (hgroup ▸ (rt.order_perm g.2).mem_iff.mp hv)
  exact ⟨hmu ▸ List.mem_map_of_mem hm, hnv ▸ List.mem_map_of_mem hn, fun hne => ⟨hne, m, hm, n, hn, hmu, hnv, g.1, hkm, hkn⟩⟩

lemma shares_eqvGen {keys : Memory → List String} {groups : Dict String (List String)} (hk : Dict.Keyed groups)
    (hg : ∀ x k, x ∈ group groups k ↔ ∃ m ∈ active, m.id = x ∧ k ∈ keys m) {R : String → String → Prop}
    (hR : ∀ u v, (u, v) ∈ (groups.flatMap fun g => star (rt.order g.2)) → R u v) {x y : String} (h : Shares keys active x y) :
    Relation.EqvGen R x y := by
  obtain ⟨-, m, hm, n, hn, hmx, hny, k, hkm, hkn⟩ := h
  have hx : x ∈ group groups k := (hg x k).mpr ⟨m, hm, hmx, hkm⟩
  have hy : y ∈ group groups k := (hg y k).mpr ⟨n, hn, hny, hkn⟩
  obtain ⟨k', hk'⟩ := (mem_groups hk (List.ne_nil_of_mem hx)).mpr ⟨k, rfl⟩
  refine eqvGen_star (fun u v huv => hR u v (List.mem_flatMap.mpr ⟨_, hk', huv⟩)) ?_ ?_
  · exact (rt.order_perm _).mem_iff.mpr hx
  · exact (rt.order_perm _).mem_iff.mpr hy

lemma mem_unions (h : Indexed rt active ix) {u v : String} (huv : (u, v) ∈ rt.unions ix) :
    u ∈ active.map (·.id) ∧ v ∈ active.map (·.id) ∧ (u ≠ v → Adjacent rt active u v) := by
  rw [Runtime.unions, List.mem_append, List.mem_append] at huv
  rcases huv with (huv | huv) | huv
  · obtain ⟨hu, hv, hs⟩ := mem_stars h.keyedSubjects h.subjects huv
    exact ⟨hu, hv, fun hne => Or.inl (hs hne)⟩
  · obtain ⟨hu, hv, hs⟩ := mem_stars h.keyedTags h.tags huv
    exact ⟨hu, hv, fun hne => Or.inr (Or.inl (hs hne))⟩
  · have hrec := (h.supersedes u v).mp ((Dict.mem_iff_get h.keyed).mp huv)
    obtain ⟨hu, hv⟩ := recorded_mem hrec
    exact ⟨hu, hv, fun hne => Or.inr (Or.inr ⟨hne, Or.inl hrec⟩)⟩

/-- The unions generate what the neighbours generate. -/
lemma eqvGen_unions (h : Indexed rt active ix) (x y : String) :
    Relation.EqvGen (fun u v => (u, v) ∈ rt.unions ix) x y ↔ Relation.EqvGen (Adjacent rt active) x y := by
  constructor
  · intro hxy
    induction hxy with
    | rel u v huv =>
      by_cases hne : u = v
      · subst hne
        exact .refl _
      · exact .rel _ _ ((mem_unions h huv).2.2 hne)
    | refl u => exact .refl u
    | symm u v _ ih => exact ih.symm _ _
    | trans u v w _ _ ih ih' => exact ih.trans _ _ _ ih'
  · intro hxy
    induction hxy with
    | rel u v huv =>
      have hlink : ∀ {a b}, Recorded active a b → (a, b) ∈ rt.unions ix := fun hab =>
        List.mem_append_right _ (Dict.get_mem ((h.supersedes _ _).mpr hab))
      rcases huv with hs | ht | ⟨-, hr | hr⟩
      · exact shares_eqvGen h.keyedSubjects h.subjects
          (fun a b hab => List.mem_append_left _ (List.mem_append_left _ hab)) hs
      · exact shares_eqvGen h.keyedTags h.tags (fun a b hab => List.mem_append_left _ (List.mem_append_right _ hab)) ht
      · exact .rel _ _ (hlink hr)
      · exact (Relation.EqvGen.rel _ _ (hlink hr)).symm _ _
    | refl u => exact .refl u
    | symm u v _ ih => exact ih.symm _ _
    | trans u v w _ _ ih ih' => exact ih.trans _ _ _ ih'

/-- The classes of a relation among nodes. -/
def classes (nodes : List String) (R : String → String → Prop) : Set (Set String) :=
  {C | ∃ x ∈ nodes, C = {y | y ∈ nodes ∧ Relation.EqvGen R x y}}

/-- Union-find gives each class of the neighbours once. -/
lemma sparseComponents_spec (h : Indexed rt active ix) :
    ∃ comps, rt.sparseComponents ix = some comps ∧ comps.Pairwise List.Disjoint ∧
      {C | ∃ c ∈ comps, C = {y | y ∈ c}} = classes (active.map (·.id)) (Adjacent rt active) := by
  obtain ⟨hf, hid⟩ := Forest.init (active.map (·.id))
  have hsame₀ : ∀ x y, Same (parentOf ((active.map (·.id)).map fun node => (node, node))) x y ↔
      Relation.EqvGen (fun _ _ => False) x y := by
    intro x y
    rw [hid, same_iff (.root rfl) (.root rfl)]
    constructor
    · rintro rfl
      exact .refl _
    · intro hxy
      induction hxy with
      | rel _ _ hf => exact hf.elim
      | refl _ => rfl
      | symm _ _ _ ih => exact ih.symm
      | trans _ _ _ _ _ ih ih' => exact ih.trans ih'
  obtain ⟨parent, hfold, hforest, hsame⟩ := unions_spec (rt.unions ix)
    (fun p hp => ⟨(mem_unions h hp).1, (mem_unions h hp).2.1⟩) hf hsame₀
  have hempty : Collected [] (parent, []) := ⟨List.nodup_nil, by simp [group], by simp [group], by simp⟩
  obtain ⟨st, hcollect, -, hst, hsame'⟩ := collects_spec (active.map (·.id)) (fun _ hx => hx) hforest hempty
  rw [List.nil_append] at hst
  have hclass : ∀ x y, Same (parentOf st.1) x y ↔ Relation.EqvGen (Adjacent rt active) x y := by
    intro x y
    rw [hsame', hsame, ← eqvGen_unions h]
    simp only [false_or]
  have hentry : ∀ e ∈ st.2, group st.2 e.1 = e.2 := by
    intro e he
    rw [group, (Dict.mem_iff_get hst.keyed).mp he, Option.getD_some]
  refine ⟨st.2.map Prod.snd, ?_, ?_, ?_⟩
  · unfold Runtime.sparseComponents
    simp only [h.nodes, hfold, Option.bind_some, hcollect, Option.map_some]
  · refine List.pairwise_map.mpr ((List.pairwise_map.mp hst.keyed).imp_of_mem fun {a b} ha hb hab z hza hzb => hab ?_)
    rw [← hentry a ha] at hza
    rw [← hentry b hb] at hzb
    obtain ⟨-, e, hea⟩ := (hst.members z a.1).mp hza
    obtain ⟨-, e', heb⟩ := (hst.members z b.1).mp hzb
    exact (hea.det heb).2
  · have hroot : ∀ {x r} {e : ℕ}, Up (parentOf st.1) e x r →
        {y | y ∈ group st.2 r} = {y | y ∈ active.map (·.id) ∧ Relation.EqvGen (Adjacent rt active) x y} := by
      intro x r e hx
      ext y
      rw [Set.mem_ofPred_eq, Set.mem_ofPred_eq, hst.members, ← hclass]
      refine and_congr_right fun _ => ⟨?_, ?_⟩
      · rintro ⟨e', hy⟩
        exact ⟨r, e, e', hx, hy⟩
      · rintro ⟨r', d, e', hx', hy⟩
        obtain ⟨-, rfl⟩ := hx.det hx'
        exact ⟨e', hy⟩
    ext C
    constructor
    · rintro ⟨c, hc, rfl⟩
      obtain ⟨entry, hmem, rfl⟩ := List.mem_map.mp hc
      have hne := hst.keys entry.1 (List.mem_map_of_mem hmem)
      obtain ⟨x, hx⟩ := List.exists_mem_of_ne_nil _ hne
      obtain ⟨hnode, e, hup⟩ := (hst.members x entry.1).mp hx
      exact ⟨x, hnode, by rw [← hroot hup, hentry entry hmem]⟩
    · rintro ⟨x, hx, rfl⟩
      obtain ⟨r, e, hup⟩ : ∃ r e, Up (parentOf st.1) e x r := by
        obtain ⟨r, e, -, hup, -⟩ := (hclass x x).mpr (.refl x)
        exact ⟨r, e, hup⟩
      have hin : x ∈ group st.2 r := (hst.members x r).mpr ⟨hx, e, hup⟩
      obtain ⟨k, hk⟩ := (mem_groups hst.keyed (List.ne_nil_of_mem hin)).mpr ⟨r, rfl⟩
      exact ⟨group st.2 r, List.mem_map.mpr ⟨_, hk, rfl⟩, (hroot hup).symm⟩

end

open Foundations

/-- Neighbours in the graph taken as undirected. -/
def DiGraph.Adjacent (g : DiGraph) (x y : String) : Prop :=
  (g.edges.get (x, y)).isSome = true ∨ (g.edges.get (y, x)).isSome = true

/-- Both forms have the same components, and every memory the same neighbours. -/
def Agree (rt : Runtime) (f : Filters) (memories : List Memory) : Prop :=
  (∃ comps, rt.sparseComponents (rt.sparseIndex f memories) = some comps ∧ comps.Pairwise List.Disjoint ∧
    {C | ∃ c ∈ comps, C = {y | y ∈ c}} = classes (rt.fullGraph f memories).nodes (rt.fullGraph f memories).Adjacent) ∧
  ∀ x ∈ (rt.fullGraph f memories).nodes, ∃ ns, rt.neighbors (rt.sparseIndex f memories) x = some ns ∧
    ∀ y, y ∈ ns ↔ (rt.fullGraph f memories).Adjacent x y

def ListedBefore (active : List Memory) (x y : String) : Prop :=
  ∃ pre m, pre ++ [m] <+: active ∧ m.id = y ∧ x ∈ pre.map (·.id)

/-- No link is lost: its target comes first, or the two are joined in another way. -/
def LinksKept (rt : Runtime) (active : List Memory) : Prop :=
  ∀ x y, Supersedes active x y → x ≠ y ∧ (ListedBefore active y x ∨ Shares subjectKeys active x y ∨
    Shares rt.tagKeys active x y ∨ Supersedes active y x)

lemma shares_symm {keys : Memory → List String} {active : List Memory} {x y : String} (h : Shares keys active x y) :
    Shares keys active y x := by
  obtain ⟨hne, m, hm, n, hn, hmx, hny, k, hkm, hkn⟩ := h
  exact ⟨hne.symm, n, hn, m, hm, hny, hmx, k, hkn, hkm⟩

lemma recorded_supersedes {active : List Memory} {x y : String} (h : Recorded active x y) : Supersedes active x y := by
  have hy := (recorded_mem h).2
  obtain ⟨pre, m, hpre, hm, hs, -⟩ := h
  exact ⟨m, hpre.subset (by simp), hm, hs, hy⟩

/-- Of two memories one is listed before the other. -/
lemma listedBefore_total {active : List Memory} {x y : String} (hx : x ∈ active.map (·.id)) (hy : y ∈ active.map (·.id))
    (hne : x ≠ y) : ListedBefore active x y ∨ ListedBefore active y x := by
  induction active using List.reverseRecOn with
  | nil => simp at hx
  | append_singleton active n ih =>
    have hgrow : ∀ {a b}, ListedBefore active a b → ListedBefore (active ++ [n]) a b := fun ⟨pre, m, hpre, h⟩ =>
      ⟨pre, m, hpre.trans (List.prefix_append _ _), h⟩
    rw [List.map_append, List.mem_append] at hx hy
    rcases hx with hx | hx <;> rcases hy with hy | hy
    · exact (ih hx hy).imp hgrow hgrow
    · exact Or.inl ⟨active, n, List.prefix_refl _, (List.mem_singleton.mp hy).symm, hx⟩
    · exact Or.inr ⟨active, n, List.prefix_refl _, (List.mem_singleton.mp hx).symm, hy⟩
    · exact absurd ((List.mem_singleton.mp hx).trans (List.mem_singleton.mp hy).symm) hne

lemma recorded_of_before {active : List Memory} (hn : (active.map (·.id)).Nodup) {x y : String} (h : Supersedes active x y)
    (hb : ListedBefore active y x) : Recorded active x y := by
  obtain ⟨pre, m, hpre, hm, hy⟩ := hb
  obtain ⟨m', hm', hx, hs, -⟩ := h
  obtain rfl : m' = m := List.inj_on_of_nodup_map hn hm' (hpre.subset (by simp)) (hx.trans hm.symm)
  exact ⟨pre, m', hpre, hx, hs, by rw [List.map_append]; exact List.mem_append_left _ hy⟩

section
variable (rt : Runtime) (f : Filters) {memories active : List Memory} (ha : memories.filter (rt.included f) = active)
  (hn : (active.map (·.id)).Nodup) (hsub : Small subjectKeys active) (htag : Small rt.tagKeys active)
  (hroom : (rt.fullGraph f memories).edges.length < maxEdges)
include ha hn hsub htag hroom

lemma adjacent_iff (x y : String) : (rt.fullGraph f memories).Adjacent x y ↔
    Shares subjectKeys active x y ∨ Shares rt.tagKeys active x y ∨ Supersedes active x y ∨ Supersedes active y x := by
  rw [DiGraph.Adjacent, rt.edge_iff f ha hn hsub htag hroom, rt.edge_iff f ha hn hsub htag hroom]
  constructor
  · rintro (⟨r, hr⟩ | ⟨r, hr⟩)
    · cases r with
      | sharesSubject => exact Or.inl hr
      | sharesTag => exact Or.inr (Or.inl hr)
      | supersedes => exact Or.inr (Or.inr (Or.inl hr))
    · cases r with
      | sharesSubject => exact Or.inl (shares_symm hr)
      | sharesTag => exact Or.inr (Or.inl (shares_symm hr))
      | supersedes => exact Or.inr (Or.inr (Or.inr hr))
  · rintro (h | h | h | h)
    · exact Or.inl ⟨.sharesSubject, h⟩
    · exact Or.inl ⟨.sharesTag, h⟩
    · exact Or.inl ⟨.supersedes, h⟩
    · exact Or.inr ⟨.supersedes, h⟩

/-- The neighbours are the same where no link is lost. -/
lemma adjacent_same (h : LinksKept rt active) (x y : String) :
    (rt.fullGraph f memories).Adjacent x y ↔ Adjacent rt active x y := by
  rw [adjacent_iff rt f ha hn hsub htag hroom]
  have hkept : ∀ {a b}, Supersedes active a b → Adjacent rt active a b := by
    intro a b hab
    obtain ⟨hne, hb | hs | ht | hback⟩ := h a b hab
    · exact Or.inr (Or.inr ⟨hne, Or.inl (recorded_of_before hn hab hb)⟩)
    · exact Or.inl hs
    · exact Or.inr (Or.inl ht)
    · have ha' : a ∈ active.map (·.id) := by
        obtain ⟨m, hm, rfl, -⟩ := hab
        exact List.mem_map_of_mem hm
      have hb' : b ∈ active.map (·.id) := by
        obtain ⟨-, -, -, -, hb⟩ := hab
        exact hb
      -- each supersedes the other, so the one listed later has its link kept
      rcases listedBefore_total ha' hb' hne with hlist | hlist
      · exact Or.inr (Or.inr ⟨hne, Or.inr (recorded_of_before hn hback hlist)⟩)
      · exact Or.inr (Or.inr ⟨hne, Or.inl (recorded_of_before hn hab hlist)⟩)
  constructor
  · rintro (hs | ht | hl | hl)
    · exact Or.inl hs
    · exact Or.inr (Or.inl ht)
    · exact hkept hl
    · rcases hkept hl with hs | ht | ⟨hne, hr⟩
      · exact Or.inl (shares_symm hs)
      · exact Or.inr (Or.inl (shares_symm ht))
      · exact Or.inr (Or.inr ⟨hne.symm, hr.symm⟩)
  · rintro (hs | ht | ⟨-, hr | hr⟩)
    · exact Or.inl hs
    · exact Or.inr (Or.inl ht)
    · exact Or.inr (Or.inr (Or.inl (recorded_supersedes hr)))
    · exact Or.inr (Or.inr (Or.inr (recorded_supersedes hr)))

/-- A link between neighbours of the index is kept. -/
lemma linksKept_of_neighbors (h : ∀ x ∈ active.map (·.id), ∀ y, Adjacent rt active x y ↔ (rt.fullGraph f memories).Adjacent x y) :
    LinksKept rt active := by
  intro x y hxy
  have hx : x ∈ active.map (·.id) := by
    obtain ⟨m, hm, rfl, -⟩ := hxy
    exact List.mem_map_of_mem hm
  have hadj := (h x hx y).mpr ((adjacent_iff rt f ha hn hsub htag hroom x y).mpr (Or.inr (Or.inr (Or.inl hxy))))
  rcases hadj with hs | ht | ⟨hne, hr | hr⟩
  · exact ⟨hs.1, Or.inr (Or.inl hs)⟩
  · exact ⟨ht.1, Or.inr (Or.inr (Or.inl ht))⟩
  · obtain ⟨pre, m, hpre, hm, -, hy⟩ := hr
    rw [List.map_append, List.mem_append] at hy
    refine ⟨hne, Or.inl ⟨pre, m, hpre, hm, hy.resolve_right fun hlast => hne ?_⟩⟩
    rw [← hm, List.mem_singleton.mp hlast]
  · exact ⟨hne, Or.inr (Or.inr (Or.inr (recorded_supersedes hr)))⟩

end

theorem agree_iff (rt : Runtime) (f : Filters) (memories : List Memory) (hn : (memories.map (·.id)).Nodup)
    (hsub : Small subjectKeys (memories.filter (rt.included f))) (htag : Small rt.tagKeys (memories.filter (rt.included f)))
    (hroom : (rt.fullGraph f memories).edges.length < maxEdges) :
    Agree rt f memories ↔ LinksKept rt (memories.filter (rt.included f)) := by
  set active := memories.filter (rt.included f) with ha
  have hn' : (active.map (·.id)).Nodup := hn.sublist (List.filter_sublist.map _)
  have hindex : Indexed rt active (rt.sparseIndex f memories) := rt.indexed hn'
  have hnodes : (rt.fullGraph f memories).nodes = active.map (·.id) := rfl
  unfold Agree
  rw [hnodes]
  constructor
  · rintro ⟨-, hns⟩
    refine linksKept_of_neighbors rt f ha.symm hn' hsub htag hroom fun x hx y => ?_
    obtain ⟨ns, hns, hmem⟩ := hns x hx
    obtain ⟨ns', hns', hmem'⟩ := hindex.neighbors hn' hx
    obtain rfl := Option.some.inj (hns.symm.trans hns')
    exact (hmem' y).symm.trans (hmem y)
  · intro h
    have hsame := adjacent_same rt f ha.symm hn' hsub htag hroom h
    have hrel : (rt.fullGraph f memories).Adjacent = Adjacent rt active := by
      funext x y
      exact propext (hsame x y)
    rw [hrel]
    refine ⟨sparseComponents_spec hindex, fun x hx => ?_⟩
    exact hindex.neighbors hn' hx

def plainRuntime : Runtime := ⟨fun _ => none, id, fun _ => List.Perm.refl _⟩
def everything : Filters := ⟨0, none⟩
def older : Memory := ⟨"mem-a", "2026-01-01T00:00:00Z", 1, none, none, []⟩
def newer : Memory := ⟨"mem-b", "2026-01-02T00:00:00Z", 1, some "mem-a", none, []⟩

lemma length_group_le {keys : Memory → List String} (hk : ∀ m, (keys m).Nodup) (active : List Memory) (k : String) :
    (group (groupsOf keys active) k).length ≤ active.length := by
  rw [group_groupsOf hk, List.length_map]
  exact List.length_filter_le _ _

/-- In the order in which they were written the two agree. -/
theorem agree_oldest_first : Agree plainRuntime everything [older, newer] := by
  have hactive : [older, newer].filter (plainRuntime.included everything) = [older, newer] := by decide
  have hsmall : ([older, newer] : List Memory).length ≤ maxGroup := by decide
  refine (agree_iff plainRuntime everything [older, newer] (by decide)
    (fun k => hactive ▸ (length_group_le nodup_subjectKeys _ k).trans hsmall)
    (fun k => hactive ▸ (length_group_le plainRuntime.nodup_tagKeys _ k).trans hsmall) (by decide)).mpr ?_
  rw [hactive]
  rintro x y ⟨m, hm, rfl, hs, -⟩
  rcases List.mem_pair.mp hm with rfl | rfl
  · cases hs
  · obtain rfl := Option.some.inj hs
    exact ⟨by decide, Or.inl ⟨[older], newer, List.prefix_refl _, rfl, List.mem_cons_self⟩⟩

/-- In the order in which the stores list them, the newest first, the index loses the link. -/
theorem newest_first_disagrees : ¬ Agree plainRuntime everything [newer, older] ∧
    plainRuntime.sparseComponents (plainRuntime.sparseIndex everything [newer, older]) = some [["mem-b"], ["mem-a"]] ∧
    (plainRuntime.fullGraph everything [newer, older]).edges = [(("mem-b", "mem-a"), .supersedes)] := by
  have hedges : (plainRuntime.fullGraph everything [newer, older]).edges = [(("mem-b", "mem-a"), .supersedes)] := by
    decide
  refine ⟨fun h => ?_, by decide, hedges⟩
  obtain ⟨ns, hns, hmem⟩ := h.2 "mem-b" (by decide)
  have hnone : plainRuntime.neighbors (plainRuntime.sparseIndex everything [newer, older]) "mem-b" = some [] := by
    decide
  obtain rfl := Option.some.inj (hns.symm.trans hnone)
  refine List.not_mem_nil ((hmem "mem-a").mpr (Or.inl ?_))
  rw [hedges]
  decide

end ContinuityLedger.Graph
