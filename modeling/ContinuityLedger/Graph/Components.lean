import ContinuityLedger.Foundations.UnionFind
import ContinuityLedger.Graph.Sparse

/-! The components of the sparse index: union-find over its groups and links ends, and gives the classes that they
generate. -/

namespace ContinuityLedger.Graph

open Foundations Foundations.UnionFind

/-! ### Union-find -/

/-- `find`, whose loop halves the path it walks; a node without a parent raises. -/
def find : ℕ → Dict String String → String → Option (Dict String String × String)
  | 0, _, _ => none
  | fuel + 1, parent, node =>
    match parent.get node with
    | none => none
    | some up =>
      if up = node then some (parent, node)
      else
        match parent.get up with
        | none => none
        | some grand => find fuel (parent.set node grand) grand

def union (fuel : ℕ) (parent : Dict String String) (pair : String × String) : Option (Dict String String) :=
  (find fuel parent pair.1).bind fun left => (find fuel left.1 pair.2).map fun right =>
    if left.2 = right.2 then right.1 else right.1.set right.2 left.2

/-- The first of a group with each of the others. -/
def star : List String → List (String × String)
  | [] => []
  | first :: others => others.map fun other => (first, other)

/-- The unions over an index, in their order. -/
def Runtime.unions (rt : Runtime) (ix : SparseMemoryIndex) : List (String × String) :=
  (ix.subjects.flatMap fun g => star (rt.order g.2)) ++ (ix.tags.flatMap fun g => star (rt.order g.2)) ++ ix.supersedes

/-- `grouped.setdefault(find(node), set()).add(node)`. -/
def collect (fuel : ℕ) (st : Dict String String × Dict String (List String)) (node : String) :
    Option (Dict String String × Dict String (List String)) :=
  (find fuel st.1 node).map fun found => (found.1, addTo node st.2 found.2)

/-- `_sparse_components`. -/
def Runtime.sparseComponents (rt : Runtime) (ix : SparseMemoryIndex) : Option (List (List String)) :=
  let nodes := ix.memories.map Prod.fst
  ((rt.unions ix).foldlM (union nodes.length) (nodes.map fun node => (node, node))).bind fun parent =>
    (nodes.foldlM (collect nodes.length) (parent, [])).map fun st => st.2.map Prod.snd

/-! ### Forests -/

/-- A node's parent, and its own where none is known. -/
def parentOf (parent : Dict String String) (x : String) : String := (parent.get x).getD x

structure Forest (nodes : List String) (parent : Dict String String) : Prop where
  keys : parent.map Prod.fst = nodes
  closed : ∀ x ∈ nodes, parentOf parent x ∈ nodes
  grounded : Grounded (parentOf parent)

lemma Forest.get {nodes : List String} {parent : Dict String String} (h : Forest nodes parent) {x : String} (hx : x ∈ nodes) :
    parent.get x = some (parentOf parent x) := by
  have hhas := (Dict.has_iff (d := parent)).mpr (h.keys ▸ hx)
  obtain ⟨v, hv⟩ := Option.isSome_iff_exists.mp hhas
  rw [parentOf, hv, Option.getD_some]

lemma parentOf_set (parent : Dict String String) (k v : String) :
    parentOf (parent.set k v) = Function.update (parentOf parent) k v := by
  funext x
  rw [parentOf, Dict.get_set]
  by_cases h : k = x
  · subst h
    rw [if_pos rfl, Option.getD_some, Function.update_self]
  · rw [if_neg h, Function.update_of_ne fun he => h he.symm, parentOf]

lemma Forest.set {nodes : List String} {parent : Dict String String} (h : Forest nodes parent) {k v : String} (hk : k ∈ nodes)
    (hv : v ∈ nodes) (hg : Grounded (Function.update (parentOf parent) k v)) : Forest nodes (parent.set k v) := by
  refine ⟨?_, fun x hx => ?_, by rwa [parentOf_set]⟩
  · rw [Dict.keys_set_of_has (h.keys ▸ hk), h.keys]
  · rw [parentOf_set]
    by_cases hxk : x = k
    · rw [hxk, Function.update_self]
      exact hv
    · rw [Function.update_of_ne hxk]
      exact h.closed x hx

lemma Forest.init (nodes : List String) : Forest nodes (nodes.map fun node => (node, node)) ∧
    parentOf (nodes.map fun node => (node, node)) = id := by
  have hid : parentOf (nodes.map fun node => (node, node)) = id := by
    funext x
    rw [parentOf]
    cases hx : Dict.get (nodes.map fun node => (node, node)) x with
    | none => rfl
    | some v =>
      obtain ⟨y, -, hy⟩ := List.mem_map.mp (Dict.get_mem hx)
      obtain ⟨rfl, rfl⟩ := Prod.mk.inj hy
      rfl
  refine ⟨⟨by simp [List.map_map, Function.comp_def], fun x hx => by rwa [hid], fun x => ⟨0, x, .root (by rw [hid]; rfl)⟩⟩, hid⟩

/-- `find` ends at the root, and no node gets another one. -/
lemma find_spec {nodes : List String} {fuel d : ℕ} {parent : Dict String String} (h : Forest nodes parent) {node r : String}
    (hnode : node ∈ nodes) (hup : Up (parentOf parent) d node r) (hd : d < fuel) :
    ∃ parent', find fuel parent node = some (parent', r) ∧ Forest nodes parent' ∧
      ∀ x s, (∃ e, Up (parentOf parent') e x s) ↔ ∃ e, Up (parentOf parent) e x s := by
  induction fuel generalizing d parent node with
  | zero => omega
  | succ fuel ih =>
    rw [find]
    simp only [h.get hnode]
    by_cases hroot : parentOf parent node = node
    · rw [if_pos hroot, hup.self hroot]
      exact ⟨parent, rfl, h, fun _ _ => Iff.rfl⟩
    · have hupper := h.closed _ hnode
      rw [if_neg hroot]
      simp only [h.get hupper]
      have hground := grounded_halve hroot h.grounded
      have hforest := h.set hnode (h.closed _ hupper) hground
      have hhalve : parentOf (parent.set node (parentOf parent (parentOf parent node))) = halve (parentOf parent) node :=
        parentOf_set ..
      have hgrand : ∃ e < d, Up (halve (parentOf parent) node) e (parentOf parent (parentOf parent node)) r := by
        cases hup with
        | root hx => exact absurd hx hroot
        | step _ h1 =>
          cases h1 with
          | root hx =>
            obtain ⟨e, he, hup'⟩ := (Up.root hx).halve hroot
            rw [hx]
            exact ⟨e, by omega, hup'⟩
          | step _ h2 =>
            obtain ⟨e, he, hup'⟩ := h2.halve hroot
            exact ⟨e, by omega, hup'⟩
      obtain ⟨e, he, hup'⟩ := hgrand
      obtain ⟨parent', hfind, hf', hsame⟩ := ih hforest (h.closed _ hupper) (by rwa [hhalve]) (by omega)
      refine ⟨parent', hfind, hf', fun x s => (hsame x s).trans ?_⟩
      rw [hhalve]
      exact root_halve hroot h.grounded

lemma find_total {nodes : List String} {parent : Dict String String} (h : Forest nodes parent) {node : String}
    (hnode : node ∈ nodes) : ∃ parent' r, find nodes.length parent node = some (parent', r) ∧ Forest nodes parent' ∧
      (∃ e, Up (parentOf parent') e node r) ∧ r ∈ nodes ∧
      ∀ x s, (∃ e, Up (parentOf parent') e x s) ↔ ∃ e, Up (parentOf parent) e x s := by
  obtain ⟨d, r, hup⟩ := h.grounded node
  obtain ⟨parent', hfind, hf', hroots⟩ := find_spec h hnode hup (hup.lt_length h.closed hnode)
  exact ⟨parent', r, hfind, hf', (hroots node r).mpr ⟨d, hup⟩, hup.mem h.closed hnode, hroots⟩

/-- One union adds its pair to what the trees are the classes of. -/
lemma union_spec {nodes : List String} {parent : Dict String String} (h : Forest nodes parent) {R : String → String → Prop}
    (hR : ∀ x y, Same (parentOf parent) x y ↔ Relation.EqvGen R x y) {pair : String × String} (hl : pair.1 ∈ nodes)
    (hr : pair.2 ∈ nodes) : ∃ parent', union nodes.length parent pair = some parent' ∧ Forest nodes parent' ∧
      ∀ x y, Same (parentOf parent') x y ↔ Relation.EqvGen (fun u v => R u v ∨ u = pair.1 ∧ v = pair.2) x y := by
  obtain ⟨p₁, a, hfind₁, hf₁, ⟨e₁, hup₁⟩, ha, hroots₁⟩ := find_total h hl
  obtain ⟨p₂, b, hfind₂, hf₂, ⟨e₂, hup₂⟩, hb, hroots₂⟩ := find_total hf₁ hr
  have hR₂ : ∀ x y, Same (parentOf p₂) x y ↔ Relation.EqvGen R x y := fun x y =>
    (same_congr hroots₂ x y).trans ((same_congr hroots₁ x y).trans (hR x y))
  obtain ⟨e₃, hup₃⟩ := (hroots₂ pair.1 a).mpr ⟨e₁, hup₁⟩
  refine ⟨if a = b then p₂ else p₂.set b a, by simp [union, hfind₁, hfind₂], ?_⟩
  by_cases hab : a = b
  · rw [if_pos hab]
    subst hab
    exact ⟨hf₂, eqvGen_same hR₂ ⟨a, e₃, e₂, hup₃, hup₂⟩⟩
  · rw [if_neg hab]
    have hlink : parentOf (p₂.set b a) = link (parentOf p₂) a b := parentOf_set ..
    refine ⟨hf₂.set hb ha (grounded_link hup₃.fixed hup₂.fixed hab hf₂.grounded), fun x y => ?_⟩
    rw [hlink]
    exact eqvGen_link hR₂ hf₂.grounded (same_of_root hup₃) (same_of_root hup₂) hup₃.fixed hup₂.fixed hab x y

/-- The trees after a run of unions are the classes that its pairs generate. -/
lemma unions_spec {nodes : List String} (pairs : List (String × String)) (hp : ∀ p ∈ pairs, p.1 ∈ nodes ∧ p.2 ∈ nodes)
    {parent : Dict String String} (h : Forest nodes parent) {R : String → String → Prop}
    (hR : ∀ x y, Same (parentOf parent) x y ↔ Relation.EqvGen R x y) :
    ∃ parent', pairs.foldlM (union nodes.length) parent = some parent' ∧ Forest nodes parent' ∧
      ∀ x y, Same (parentOf parent') x y ↔ Relation.EqvGen (fun u v => R u v ∨ (u, v) ∈ pairs) x y := by
  induction pairs generalizing parent R with
  | nil =>
    refine ⟨parent, rfl, h, fun x y => ?_⟩
    simpa using hR x y
  | cons p pairs ih =>
    obtain ⟨p₁, hunion, hf₁, hR₁⟩ := union_spec h hR (hp p List.mem_cons_self).1 (hp p List.mem_cons_self).2
    obtain ⟨p₂, hfold, hf₂, hR₂⟩ := ih (fun q hq => hp q (List.mem_cons_of_mem _ hq)) hf₁ hR₁
    refine ⟨p₂, by rw [List.foldlM_cons, hunion]; exact hfold, hf₂, fun x y => (hR₂ x y).trans ?_⟩
    have hrel : (fun u v => (R u v ∨ u = p.1 ∧ v = p.2) ∨ (u, v) ∈ pairs) = fun u v => R u v ∨ (u, v) ∈ p :: pairs := by
      funext u v
      rw [List.mem_cons, ← or_assoc, Prod.ext_iff]
    rw [hrel]

/-! ### Collecting -/

/-- The sets collected so far: each is what its root's tree has among the nodes that have been seen. -/
structure Collected (seen : List String) (st : Dict String String × Dict String (List String)) : Prop where
  keyed : Dict.Keyed st.2
  members : ∀ x r, x ∈ group st.2 r ↔ x ∈ seen ∧ ∃ e, Up (parentOf st.1) e x r
  nodup : ∀ r, (group st.2 r).Nodup
  keys : ∀ r ∈ st.2.map Prod.fst, group st.2 r ≠ []

lemma group_addTo_ne (id : String) (groups : Dict String (List String)) {key k : String} (h : key ≠ k) :
    group (addTo id groups key) k = group groups k := by
  rw [group, addTo, Dict.get_set_ne _ h, group]

lemma nodup_addTo {id : String} {groups : Dict String (List String)} {key : String} (h : ∀ k, (group groups k).Nodup) (k : String) :
    (group (addTo id groups key) k).Nodup := by
  by_cases hk : key = k
  · subst hk
    have hkey := h key
    rw [group, addTo, Dict.get_set_self, Option.getD_some, ← group]
    split_ifs with hin
    · exact hkey
    · exact List.nodup_append.mpr ⟨hkey, List.nodup_singleton _, fun x hx y hy he => hin (by
        rw [List.mem_singleton] at hy
        rwa [← hy, ← he])⟩
  · rw [group_addTo_ne _ _ hk]
    exact h k

lemma collect_spec {nodes seen : List String} {st : Dict String String × Dict String (List String)} (hf : Forest nodes st.1)
    (h : Collected seen st) {node : String} (hnode : node ∈ nodes) :
    ∃ st', collect nodes.length st node = some st' ∧ Forest nodes st'.1 ∧ Collected (seen ++ [node]) st' ∧
      ∀ x y, Same (parentOf st'.1) x y ↔ Same (parentOf st.1) x y := by
  obtain ⟨p', r, hfind, hf', hup, -, hroots⟩ := find_total hf hnode
  refine ⟨(p', addTo node st.2 r), by simp [collect, hfind], hf', ⟨?_, fun x s => ?_, nodup_addTo h.nodup, fun s hs => ?_⟩,
    same_congr hroots⟩
  · exact Dict.keyed_set h.keyed _ _
  · rw [mem_addTo, h.members, hroots, List.mem_append, List.mem_singleton, or_and_right]
    refine or_congr Iff.rfl ⟨?_, ?_⟩
    · rintro ⟨rfl, rfl⟩
      exact ⟨rfl, (hroots _ _).mp hup⟩
    · rintro ⟨rfl, e, hx⟩
      obtain ⟨e', hr⟩ := (hroots _ _).mp hup
      exact ⟨(hr.det hx).2, rfl⟩
  · intro he
    have hin : node ∈ group (addTo node st.2 r) r := mem_addTo.mpr (Or.inr ⟨rfl, rfl⟩)
    by_cases hrs : r = s
    · subst hrs
      rw [he] at hin
      exact List.not_mem_nil hin
    · rw [group_addTo_ne _ _ hrs] at he
      refine h.keys s ?_ he
      rcases Dict.mem_keys_set.mp hs with hsr | hs
      · exact absurd hsr.symm hrs
      · exact hs

lemma collects_spec {nodes : List String} (rest : List String) (hrest : ∀ x ∈ rest, x ∈ nodes) {seen : List String}
    {st : Dict String String × Dict String (List String)} (hf : Forest nodes st.1) (h : Collected seen st) :
    ∃ st', rest.foldlM (collect nodes.length) st = some st' ∧ Forest nodes st'.1 ∧ Collected (seen ++ rest) st' ∧
      ∀ x y, Same (parentOf st'.1) x y ↔ Same (parentOf st.1) x y := by
  induction rest generalizing seen st with
  | nil => exact ⟨st, rfl, hf, by rwa [List.append_nil], fun _ _ => Iff.rfl⟩
  | cons node rest ih =>
    obtain ⟨st₁, hcollect, hf₁, h₁, hsame₁⟩ := collect_spec hf h (hrest node List.mem_cons_self)
    obtain ⟨st₂, hfold, hf₂, h₂, hsame₂⟩ := ih (fun x hx => hrest x (List.mem_cons_of_mem _ hx)) hf₁ h₁
    refine ⟨st₂, by rw [List.foldlM_cons, hcollect]; exact hfold, hf₂, ?_, fun x y => (hsame₂ x y).trans (hsame₁ x y)⟩
    rwa [List.append_assoc] at h₂

end ContinuityLedger.Graph
