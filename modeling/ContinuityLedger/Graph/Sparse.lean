import ContinuityLedger.Graph.Full

/-! What the sparse index knows after its single pass: the groups of all memories, and of the links only those to a
memory that came no later. -/

namespace ContinuityLedger.Graph

open Foundations

/-- A link that the pass keeps: its target is the memory itself or came before it. -/
def Recorded (active : List Memory) (x y : String) : Prop :=
  ∃ pre m, pre ++ [m] <+: active ∧ m.id = x ∧ m.supersedes = some y ∧ y ∈ (pre ++ [m]).map (·.id)

lemma recorded_append {active : List Memory} {n : Memory} {x y : String} : Recorded (active ++ [n]) x y ↔
    Recorded active x y ∨ n.id = x ∧ n.supersedes = some y ∧ y ∈ (active ++ [n]).map (·.id) := by
  constructor
  · rintro ⟨pre, m, hpre, hm⟩
    rcases List.prefix_concat_iff.mp hpre with heq | hpre
    · obtain ⟨rfl, hm'⟩ := List.append_inj' heq rfl
      obtain rfl := List.singleton_inj.mp hm'
      exact Or.inr hm
    · exact Or.inl ⟨pre, m, hpre, hm⟩
  · rintro (⟨pre, m, hpre, hm⟩ | hn)
    · exact ⟨pre, m, hpre.trans (List.prefix_append _ _), hm⟩
    · exact ⟨active, n, List.prefix_refl _, hn⟩

/-- The index of the memories that have been entered. -/
structure Indexed (rt : Runtime) (active : List Memory) (ix : SparseMemoryIndex) : Prop where
  nodes : ix.memories.map Prod.fst = active.map (·.id)
  memories : ∀ m ∈ active, ix.memories.get m.id = some m
  keyedSubjects : Dict.Keyed ix.subjects
  keyedTags : Dict.Keyed ix.tags
  subjects : ∀ x k, x ∈ group ix.subjects k ↔ ∃ m ∈ active, m.id = x ∧ k ∈ subjectKeys m
  tags : ∀ x k, x ∈ group ix.tags k ↔ ∃ m ∈ active, m.id = x ∧ k ∈ rt.tagKeys m
  keyed : Dict.Keyed ix.supersedes
  supersedes : ∀ x y, ix.supersedes.get x = some y ↔ Recorded active x y

lemma Indexed.empty (rt : Runtime) : Indexed rt [] ⟨[], [], [], []⟩ where
  nodes := rfl
  memories := by simp
  keyedSubjects := List.nodup_nil
  keyedTags := List.nodup_nil
  subjects := by simp [group]
  tags := by simp [group]
  keyed := List.nodup_nil
  supersedes := by
    intro x y
    refine iff_of_false (by simp) ?_
    rintro ⟨pre, m, hpre, -⟩
    simp at hpre

lemma mem_group_enter {keys : Memory → List String} {active : List Memory} {groups : Dict String (List String)} {n : Memory}
    (h : ∀ x k, x ∈ group groups k ↔ ∃ m ∈ active, m.id = x ∧ k ∈ keys m) (x k : String) :
    x ∈ group ((keys n).foldl (addTo n.id) groups) k ↔ ∃ m ∈ active ++ [n], m.id = x ∧ k ∈ keys m := by
  rw [mem_group_keys, h]
  simp only [List.mem_append, List.mem_singleton, or_and_right, exists_or, exists_eq_left]
  grind

/-- What entering one more memory keeps. -/
lemma Indexed.enter {rt : Runtime} {active : List Memory} {ix : SparseMemoryIndex} (h : Indexed rt active ix) {n : Memory}
    (hn : n.id ∉ active.map (·.id)) : Indexed rt (active ++ [n]) (rt.enter ix n) := by
  have hnew : n.id ∉ ix.memories.map Prod.fst := by rwa [h.nodes]
  have hmem : ∀ p, (ix.memories.set n.id n).has p = true ↔ p ∈ (active ++ [n]).map (·.id) := by
    intro p
    rw [Dict.has_iff, Dict.set_of_not_has hnew, List.map_append, h.nodes, List.map_append]
    rfl
  have hfresh : ∀ y, ¬ Recorded active n.id y := by
    rintro y ⟨pre, m, hpre, hm, -⟩
    exact hn (hm ▸ List.mem_map_of_mem (hpre.subset (by simp)))
  refine ⟨?_, ?_, keyed_addTo _ h.keyedSubjects, keyed_addTo _ h.keyedTags, mem_group_enter h.subjects, mem_group_enter h.tags, ?_, ?_⟩
  · show (ix.memories.set n.id n).map Prod.fst = _
    rw [Dict.set_of_not_has hnew, List.map_append, h.nodes, List.map_append]
    rfl
  · intro m hm
    show (ix.memories.set n.id n).get m.id = some m
    rcases List.mem_append.mp hm with hm | hm
    · have hne : n.id ≠ m.id := fun he => hn (he ▸ List.mem_map_of_mem hm)
      rw [Dict.get_set_ne _ hne, h.memories m hm]
    · rw [List.mem_singleton.mp hm, Dict.get_set_self]
  · unfold Runtime.enter
    cases n.supersedes with
    | none => exact h.keyed
    | some p =>
      dsimp only
      split_ifs
      · exact Dict.keyed_set h.keyed _ _
      · exact h.keyed
  · intro x y
    rw [recorded_append, ← h.supersedes]
    unfold Runtime.enter
    cases hp : n.supersedes with
    | none => simp
    | some p =>
      simp only [hmem, Option.some.injEq]
      split_ifs with hin
      · rw [Dict.get_set]
        split_ifs with hx
        · subst hx
          rw [Option.some.injEq]
          refine ⟨fun he => Or.inr ⟨rfl, he, he ▸ hin⟩, ?_⟩
          rintro (hold | ⟨-, he, -⟩)
          · exact absurd ((h.supersedes _ _).mp hold) (hfresh y)
          · exact he
        · simp [hx]
      · refine ⟨Or.inl, ?_⟩
        rintro (hold | ⟨-, rfl, hy⟩)
        · exact hold
        · exact absurd hy hin

/-- The index of a list of memories with ids of their own. -/
lemma Runtime.indexed (rt : Runtime) {active : List Memory} (hn : (active.map (·.id)).Nodup) :
    Indexed rt active (active.foldl rt.enter ⟨[], [], [], []⟩) := by
  induction active using List.reverseRecOn with
  | nil => exact .empty rt
  | append_singleton active n ih =>
    rw [List.map_append, List.nodup_append] at hn
    rw [List.foldl_append]
    refine (ih hn.1).enter fun hmem => ?_
    exact hn.2.2 _ hmem _ List.mem_cons_self rfl

/-- A memory is next to those it shares a key with and those that a kept link joins it to. -/
lemma Indexed.neighbors {rt : Runtime} {active : List Memory} {ix : SparseMemoryIndex} (h : Indexed rt active ix) {x : String}
    (hn : (active.map (·.id)).Nodup) (hx : x ∈ active.map (·.id)) : ∃ ns, rt.neighbors ix x = some ns ∧ ∀ y, y ∈ ns ↔
      Shares subjectKeys active x y ∨ Shares rt.tagKeys active x y ∨ x ≠ y ∧ (Recorded active x y ∨ Recorded active y x) := by
  obtain ⟨m, hm, rfl⟩ := List.mem_map.mp hx
  refine ⟨_, by rw [Runtime.neighbors, h.memories m hm, Option.map_some], fun y => ?_⟩
  have hshares : ∀ (keys : Memory → List String) (groups : Dict String (List String)),
      (∀ x k, x ∈ group groups k ↔ ∃ m ∈ active, m.id = x ∧ k ∈ keys m) →
      ((∃ k ∈ keys m, y ∈ (groups.get k).getD []) ∧ m.id ≠ y ↔ Shares keys active m.id y) := by
    intro keys groups hgroups
    constructor
    · rintro ⟨⟨k, hk, hy⟩, hne⟩
      obtain ⟨n, hn', hny, hkn⟩ := (hgroups y k).mp hy
      exact ⟨hne, m, hm, n, hn', rfl, hny, k, hk, hkn⟩
    · rintro ⟨hne, m', hm', n, hn', hmm, hny, k, hk, hkn⟩
      obtain rfl := List.inj_on_of_nodup_map hn hm' hm hmm
      exact ⟨⟨k, hk, (hgroups y k).mpr ⟨n, hn', hny, hkn⟩⟩, hne⟩
  have hchildren : y ∈ (ix.supersedes.filter fun e => e.2 = m.id).map Prod.fst ↔ Recorded active y m.id := by
    rw [← h.supersedes, ← Dict.mem_iff_get h.keyed]
    simp
  have hs := hshares subjectKeys ix.subjects h.subjects
  have ht := hshares rt.tagKeys ix.tags h.tags
  rw [List.mem_filter, List.mem_dedup]
  simp only [List.mem_append, List.mem_flatMap, Option.mem_toList, hchildren, h.supersedes, decide_eq_true_eq]
  grind

end ContinuityLedger.Graph
