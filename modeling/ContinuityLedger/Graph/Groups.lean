import Mathlib.Algebra.Order.Ring.Rat
import Mathlib.Data.Rat.Defs
import ContinuityLedger.Foundations.Dict

/-! The relationship graph over memories: the full graph, the sparse index that stands in for it above a number of memories,
and who is in which group of it. -/

namespace ContinuityLedger.Graph

open Foundations

structure Memory where
  id : String
  createdAt : String
  confidence : ℚ
  supersedes : Option String
  subject : Option String
  tags : List String
deriving DecidableEq

/-- The interpreter: the instant a timestamp names, where it names one, and the order in which a set is walked. -/
structure Runtime where
  timestamp : String → Option ℚ
  order : List String → List String
  order_perm : ∀ names, (order names).Perm names

structure Filters where
  minConfidence : ℚ
  cutoff : Option ℚ

def maxMemoriesForFullGraph : ℕ := 8000
def maxEdges : ℕ := 500000
def maxGroup : ℕ := 1000

/-- Whether a memory passes the filters; one whose age cannot be told does not pass that of age. -/
def Runtime.included (rt : Runtime) (f : Filters) (m : Memory) : Bool :=
  !(m.confidence < f.minConfidence) &&
    match f.cutoff with
    | none => true
    | some cutoff =>
      match rt.timestamp m.createdAt with
      | none => false
      | some t => !(t < cutoff)

/-! ### Groups -/

def subjectKeys (m : Memory) : List String := (m.subject.filter (· ≠ "")).toList

/-- `set(m.tags)`. -/
def Runtime.tagKeys (rt : Runtime) (m : Memory) : List String := rt.order m.tags.dedup

/-- `groups.setdefault(key, []).append(id)`. -/
def appendTo (id : String) (groups : Dict String (List String)) (key : String) : Dict String (List String) :=
  groups.set key ((groups.get key).getD [] ++ [id])

/-- `groups.setdefault(key, set()).add(id)`. -/
def addTo (id : String) (groups : Dict String (List String)) (key : String) : Dict String (List String) :=
  let group := (groups.get key).getD []
  groups.set key (if id ∈ group then group else group ++ [id])

def groupsOf (keys : Memory → List String) (active : List Memory) : Dict String (List String) :=
  active.foldl (fun groups m => (keys m).foldl (appendTo m.id) groups) []

/-! ### The full graph -/

inductive Relation
  | sharesSubject
  | sharesTag
  | supersedes
deriving DecidableEq

def Relation.name : Relation → String
  | .sharesSubject => "shares_subject"
  | .sharesTag => "shares_tag"
  | .supersedes => "supersedes"

/-- One relation for each ordered pair. -/
structure DiGraph where
  nodes : List String
  edges : Dict (String × String) Relation

/-- Each element with every later one. -/
def pairsOf {α : Type} : List α → List (α × α)
  | [] => []
  | x :: xs => xs.map (fun y => (x, y)) ++ pairsOf xs

structure Building where
  edges : Dict (String × String) Relation
  full : Bool

/-- Both directions of a pair, unless the graph has no room for two edges: then nothing more is added. -/
def Building.join (relation : Relation) (b : Building) (pair : String × String) : Building :=
  if b.full then b
  else if maxEdges < b.edges.length + 2 then { b with full := true }
  else { b with edges := (b.edges.set (pair.1, pair.2) relation).set (pair.2, pair.1) relation }

def Building.joinGroups (relation : Relation) (b : Building) (groups : Dict String (List String)) : Building :=
  groups.foldl (fun b g => if maxGroup < g.2.length then b else (pairsOf g.2).foldl (Building.join relation) b) b

def addSupersedes (ids : List String) (edges : Dict (String × String) Relation) (m : Memory) :
    Dict (String × String) Relation :=
  match m.supersedes with
  | none => edges
  | some p => if p ∈ ids ∧ edges.length < maxEdges then edges.set (m.id, p) .supersedes else edges

/-- `_build_graph`, below its threshold. -/
def Runtime.fullGraph (rt : Runtime) (f : Filters) (memories : List Memory) : DiGraph :=
  let active := memories.filter (rt.included f)
  let shared := (Building.joinGroups .sharesSubject ⟨[], false⟩ (groupsOf subjectKeys active)).joinGroups .sharesTag
    (groupsOf rt.tagKeys active)
  let ids := active.map (·.id)
  ⟨ids, if shared.full then shared.edges else active.foldl (addSupersedes ids) shared.edges⟩

/-! ### The sparse index -/

structure SparseMemoryIndex where
  memories : Dict String Memory
  subjects : Dict String (List String)
  tags : Dict String (List String)
  supersedes : Dict String String

/-- One memory of the single pass: only a memory that has come before it, or itself, counts as superseded. -/
def Runtime.enter (rt : Runtime) (ix : SparseMemoryIndex) (m : Memory) : SparseMemoryIndex :=
  let memories := ix.memories.set m.id m
  { memories := memories
    subjects := (subjectKeys m).foldl (addTo m.id) ix.subjects
    tags := (rt.tagKeys m).foldl (addTo m.id) ix.tags
    supersedes :=
      match m.supersedes with
      | none => ix.supersedes
      | some p => if memories.has p then ix.supersedes.set m.id p else ix.supersedes }

def Runtime.sparseIndex (rt : Runtime) (f : Filters) (memories : List Memory) : SparseMemoryIndex :=
  (memories.filter (rt.included f)).foldl rt.enter ⟨[], [], [], []⟩

/-- `neighbors`, which raises for a node that is not there. -/
def Runtime.neighbors (rt : Runtime) (ix : SparseMemoryIndex) (node : String) : Option (List String) :=
  (ix.memories.get node).map fun m =>
    let grouped (groups : Dict String (List String)) (keys : List String) :=
      keys.flatMap fun key => (groups.get key).getD []
    let children := (ix.supersedes.filter fun e => e.2 = node).map Prod.fst
    (grouped ix.subjects (subjectKeys m) ++ grouped ix.tags (rt.tagKeys m) ++ (ix.supersedes.get node).toList ++
      children).dedup.filter (· ≠ node)

/-- What `_load_graph` gives: the full graph, or the index above the threshold. -/
inductive Loaded
  | full (g : DiGraph)
  | sparse (ix : SparseMemoryIndex)

def Runtime.loadGraph (rt : Runtime) (f : Filters) (memories : List Memory) : Loaded :=
  if memories.length ≤ maxMemoriesForFullGraph then .full (rt.fullGraph f memories) else .sparse (rt.sparseIndex f memories)

/-! ### Who is in a group -/

def group (groups : Dict String (List String)) (key : String) : List String := (groups.get key).getD []

lemma group_appendTo (id : String) (groups : Dict String (List String)) (key k : String) :
    group (appendTo id groups key) k = group groups k ++ if key = k then [id] else [] := by
  rw [group, appendTo, Dict.get_set]
  split_ifs with h
  · subst h
    rfl
  · simp [group]

lemma mem_addTo {id y : String} {groups : Dict String (List String)} {key k : String} :
    y ∈ group (addTo id groups key) k ↔ y ∈ group groups k ∨ key = k ∧ y = id := by
  rw [group, addTo, Dict.get_set]
  split_ifs with h hin
  · subst h
    rw [Option.getD_some, ← group] at *
    constructor
    · exact Or.inl
    · rintro (hy | ⟨-, rfl⟩)
      · exact hy
      · exact hin
  · subst h
    simp [group]
  · simp [group, h]

lemma group_keys (id : String) {keys : List String} (hn : keys.Nodup) (groups : Dict String (List String)) (k : String) :
    group (keys.foldl (appendTo id) groups) k = group groups k ++ if k ∈ keys then [id] else [] := by
  induction keys generalizing groups with
  | nil => simp
  | cons key keys ih =>
    obtain ⟨hkey, hn⟩ := List.nodup_cons.mp hn
    rw [List.foldl_cons, ih hn, group_appendTo, List.append_assoc]
    by_cases h : key = k
    · subst h
      simp [hkey]
    · have hne : k ≠ key := fun he => h he.symm
      simp [h, hne]

lemma mem_group_keys {id y : String} {keys : List String} {groups : Dict String (List String)} {k : String} :
    y ∈ group (keys.foldl (addTo id) groups) k ↔ y ∈ group groups k ∨ k ∈ keys ∧ y = id := by
  induction keys generalizing groups with
  | nil => simp
  | cons key keys ih =>
    rw [List.foldl_cons, ih, mem_addTo, List.mem_cons]
    grind

/-- A group holds, in their order, the memories under its key. -/
lemma group_groupsOf {keys : Memory → List String} (hn : ∀ m, (keys m).Nodup) (active : List Memory) (k : String) :
    group (groupsOf keys active) k = (active.filter fun m => k ∈ keys m).map (·.id) := by
  have hfold : ∀ (ms : List Memory) (groups : Dict String (List String)),
      group (ms.foldl (fun groups m => (keys m).foldl (appendTo m.id) groups) groups) k =
        group groups k ++ (ms.filter fun m => k ∈ keys m).map (·.id) := by
    intro ms
    induction ms with
    | nil => simp
    | cons m ms ih =>
      intro groups
      rw [List.foldl_cons, ih, group_keys _ (hn m)]
      by_cases h : k ∈ keys m <;> simp [h]
  exact (hfold active []).trans (by simp [group])

lemma keyed_addTo {id : String} (keys : List String) {groups : Dict String (List String)} (h : Dict.Keyed groups) :
    Dict.Keyed (keys.foldl (addTo id) groups) := by
  induction keys generalizing groups with
  | nil => exact h
  | cons key keys ih => exact ih (Dict.keyed_set h _ _)

lemma keyed_groupsOf (keys : Memory → List String) (active : List Memory) : Dict.Keyed (groupsOf keys active) := by
  have hkeys : ∀ (id : String) (ks : List String) (groups : Dict String (List String)), Dict.Keyed groups →
      Dict.Keyed (ks.foldl (appendTo id) groups) := by
    intro id ks
    induction ks with
    | nil => exact fun groups h => h
    | cons k ks ih => exact fun groups h => ih _ (Dict.keyed_set h _ _)
  have hfold : ∀ (ms : List Memory) (groups : Dict String (List String)), Dict.Keyed groups →
      Dict.Keyed (ms.foldl (fun groups m => (keys m).foldl (appendTo m.id) groups) groups) := by
    intro ms
    induction ms with
    | nil => exact fun groups h => h
    | cons m ms ih => exact fun groups h => ih _ (hkeys _ _ _ h)
  exact hfold active [] List.nodup_nil

/-- The groups of a dictionary are the groups under its keys. -/
lemma mem_groups {groups : Dict String (List String)} (h : Dict.Keyed groups) {g : List String} (hg : g ≠ []) :
    (∃ k, (k, g) ∈ groups) ↔ ∃ k, group groups k = g := by
  constructor
  · rintro ⟨k, hk⟩
    exact ⟨k, by rw [group, (Dict.mem_iff_get h).mp hk, Option.getD_some]⟩
  · rintro ⟨k, hk⟩
    refine ⟨k, (Dict.mem_iff_get h).mpr ?_⟩
    unfold group at hk
    cases hget : groups.get k with
    | none =>
      rw [hget] at hk
      exact absurd hk.symm hg
    | some g' => rw [← hk, hget, Option.getD_some]

/-! ### Pairs -/

/-- Up to order, the pairs of distinct members. -/
lemma pairsOf_iff {α : Type} {xs : List α} (hn : xs.Nodup) {a b : α} :
    (a, b) ∈ pairsOf xs ∨ (b, a) ∈ pairsOf xs ↔ a ≠ b ∧ a ∈ xs ∧ b ∈ xs := by
  induction xs with
  | nil => simp [pairsOf]
  | cons x xs ih =>
    obtain ⟨hx, hn⟩ := List.nodup_cons.mp hn
    have hpair : ∀ c d, (c, d) ∈ pairsOf (x :: xs) ↔ c = x ∧ d ∈ xs ∨ (c, d) ∈ pairsOf xs := by
      intro c d
      simp [pairsOf, and_comm, eq_comm]
    have hih := ih hn
    rw [hpair, hpair, List.mem_cons, List.mem_cons]
    constructor
    · rintro ((⟨rfl, hb⟩ | h) | (⟨rfl, ha⟩ | h))
      · exact ⟨fun he => hx (he ▸ hb), Or.inl rfl, Or.inr hb⟩
      · obtain ⟨hne, ha, hb⟩ := hih.mp (Or.inl h)
        exact ⟨hne, Or.inr ha, Or.inr hb⟩
      · exact ⟨fun he => hx (he ▸ ha), Or.inr ha, Or.inl rfl⟩
      · obtain ⟨hne, ha, hb⟩ := hih.mp (Or.inr h)
        exact ⟨hne, Or.inr ha, Or.inr hb⟩
    · rintro ⟨hne, ha, hb⟩
      rcases ha with rfl | ha <;> rcases hb with rfl | hb
      · exact absurd rfl hne
      · exact Or.inl (Or.inl ⟨rfl, hb⟩)
      · exact Or.inr (Or.inl ⟨rfl, ha⟩)
      · exact (hih.mpr ⟨hne, ha, hb⟩).imp Or.inr Or.inr

end ContinuityLedger.Graph
