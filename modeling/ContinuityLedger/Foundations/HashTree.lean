import ContinuityLedger.Foundations.MerkleTree

/-! A hash tree kept as a tree. Where no leaf input can be read as the input of an inner node, two trees with one
digest are one tree, or two different inputs with one digest are among what they hashed. -/

namespace ContinuityLedger.Foundations.HashTree

inductive Tree (ι : Type*)
  | leaf (input : ι)
  | node (left right : Tree ι)

variable {ι δ : Type*} (hash : ι → δ) (join : δ → δ → ι)

def Tree.digest : Tree ι → δ
  | leaf x => hash x
  | node l r => hash (join l.digest r.digest)

/-- What is hashed on the way to the digest. -/
def Tree.hashed : Tree ι → List ι
  | leaf x => [x]
  | node l r => join (l.digest hash join) (r.digest hash join) :: (l.hashed ++ r.hashed)

def Tree.leaves : Tree ι → List ι
  | leaf x => [x]
  | node l r => l.leaves ++ r.leaves

/-- Two different inputs, one of each list, have one digest. -/
def Collide (xs ys : List ι) : Prop := ∃ x ∈ xs, ∃ y ∈ ys, x ≠ y ∧ hash x = hash y

variable {hash join}

lemma Collide.mono {xs xs' ys ys' : List ι} (h : Collide hash xs ys) (hx : xs ⊆ xs') (hy : ys ⊆ ys') :
    Collide hash xs' ys' := by
  obtain ⟨x, hxm, y, hym, hne, heq⟩ := h
  exact ⟨x, hx hxm, y, hy hym, hne, heq⟩

/-- The input under the digest of a tree. -/
lemma Tree.exists_top (t : Tree ι) : ∃ x ∈ t.hashed hash join, t.digest hash join = hash x := by
  cases t with
  | leaf x => exact ⟨x, List.mem_singleton_self x, rfl⟩
  | node l r => exact ⟨_, List.mem_cons_self, rfl⟩

theorem Tree.digest_binds (hjoin : ∀ a b c d, join a b = join c d → a = c ∧ b = d) {s t : Tree ι}
    (hs : ∀ x ∈ s.leaves, ∀ a b, x ≠ join a b) (ht : ∀ x ∈ t.leaves, ∀ a b, x ≠ join a b)
    (h : s.digest hash join = t.digest hash join) :
    s = t ∨ Collide hash (s.hashed hash join) (t.hashed hash join) := by
  induction s generalizing t with
  | leaf x =>
    cases t with
    | leaf y =>
      by_cases hxy : x = y
      · exact Or.inl (by rw [hxy])
      · exact Or.inr ⟨x, List.mem_singleton_self x, y, List.mem_singleton_self y, hxy, h⟩
    | node l r =>
      exact Or.inr ⟨x, List.mem_singleton_self x, _, List.mem_cons_self, hs x (List.mem_singleton_self x) _ _, h⟩
  | node l r ihl ihr =>
    cases t with
    | leaf y =>
      exact Or.inr ⟨_, List.mem_cons_self, y, List.mem_singleton_self y,
        (ht y (List.mem_singleton_self y) _ _).symm, h⟩
    | node l' r' =>
      by_cases hj : join (l.digest hash join) (r.digest hash join) = join (l'.digest hash join) (r'.digest hash join)
      · obtain ⟨hl, hr⟩ := hjoin _ _ _ _ hj
        rcases ihl (fun x hx => hs x (List.mem_append_left _ hx)) (fun x hx => ht x (List.mem_append_left _ hx)) hl
          with rfl | hc
        · rcases ihr (fun x hx => hs x (List.mem_append_right _ hx)) (fun x hx => ht x (List.mem_append_right _ hx)) hr
            with rfl | hc
          · exact Or.inl rfl
          · refine Or.inr (hc.mono (fun x hx => ?_) fun x hx => ?_) <;>
              exact List.mem_cons_of_mem _ (List.mem_append_right _ hx)
        · refine Or.inr (hc.mono (fun x hx => ?_) fun x hx => ?_) <;>
            exact List.mem_cons_of_mem _ (List.mem_append_left _ hx)
      · exact Or.inr ⟨_, List.mem_cons_self, _, List.mem_cons_self, hj, h⟩

/-- The tree that splitting at powers of two builds over inputs. -/
def build (inputs : List ι) : Option (Tree ι) := MerkleTree.mth Tree.node (inputs.map Tree.leaf)

/-- A map that carries one `node` into another carries the whole split. -/
lemma mth_map {α β : Type*} {node : α → α → α} {g : β → β → β} {f : α → β}
    (hf : ∀ a b, f (node a b) = g (f a) (f b)) (xs : List α) :
    MerkleTree.mth g (xs.map f) = (MerkleTree.mth node xs).map f := by
  induction xs using MerkleTree.mth.induct with
  | case1 => simp [MerkleTree.mth]
  | case2 x => simp [MerkleTree.mth]
  | case3 x y rest xs ihl ihr =>
    have hlen : 2 ≤ xs.length := by simp [xs]
    rw [MerkleTree.mth_of_two_le hlen, MerkleTree.mth_of_two_le (by rwa [List.length_map]), List.length_map,
      ← List.map_take, ← List.map_drop, ihl, ihr]
    cases MerkleTree.mth node (xs.take (MerkleTree.split xs.length)) <;>
      cases MerkleTree.mth node (xs.drop (MerkleTree.split xs.length)) <;> simp [hf]

/-- The root over hashed inputs is the digest of the tree. -/
lemma mth_eq_digest (inputs : List ι) :
    MerkleTree.mth (fun a b => hash (join a b)) (inputs.map hash) = (build inputs).map (Tree.digest hash join) := by
  rw [build, ← mth_map (g := fun a b => hash (join a b)) (f := Tree.digest hash join) (fun _ _ => rfl),
    List.map_map]
  rfl

lemma build_isSome {inputs : List ι} (h : inputs ≠ []) : (build inputs).isSome :=
  MerkleTree.mth_isSome (by simpa using h)

lemma mth_append {α : Type*} {xss : List (List α)} (h : xss ≠ []) :
    MerkleTree.mth (· ++ ·) xss = some xss.flatten := by
  induction xss using MerkleTree.mth.induct with
  | case1 => exact absurd rfl h
  | case2 xs => simp [MerkleTree.mth]
  | case3 x y rest xss ihl ihr =>
    have hlen : 2 ≤ xss.length := by simp [xss]
    have hl : xss.take (MerkleTree.split xss.length) ≠ [] :=
      List.ne_nil_of_length_pos (by rw [List.length_take]; have := MerkleTree.split_pos hlen; omega)
    have hr : xss.drop (MerkleTree.split xss.length) ≠ [] :=
      List.ne_nil_of_length_pos (by rw [List.length_drop]; have := MerkleTree.split_lt hlen; omega)
    rw [MerkleTree.mth_of_two_le hlen, ihl hl, ihr hr, Option.map₂_some_some, ← List.flatten_append,
      List.take_append_drop]

/-- The leaves of the tree are the inputs, in order. -/
lemma build_leaves {inputs : List ι} {t : Tree ι} (h : build inputs = some t) : t.leaves = inputs := by
  have hne : inputs ≠ [] := by
    rintro rfl
    simp [build, MerkleTree.mth] at h
  have hflat : MerkleTree.mth (fun a b : List ι => a ++ b) (inputs.map fun x => [x]) =
      (build inputs).map Tree.leaves := by
    rw [build, ← mth_map (g := (· ++ ·)) (f := Tree.leaves) (fun _ _ => rfl), List.map_map]
    rfl
  rw [mth_append (by simpa using hne), h, Option.map_some] at hflat
  rw [← Option.some.inj hflat]
  exact List.flatMap_singleton' inputs

end ContinuityLedger.Foundations.HashTree
