import ContinuityLedger.Foundations.HashTree
import ContinuityLedger.Foundations.Hex
import ContinuityLedger.Foundations.Prefixed
import ContinuityLedger.Replay.Served

/-! Roots bind: equal roots come of equal row hashes or equal states, or the bytes that were hashed for them hold two
different inputs with one digest. -/

namespace ContinuityLedger.Replay

open Foundations Foundations.Sha256 Foundations.HashTree Foundations.Listing Blocks

def leafBytes (rowHash : Hex64) : Bytes := 0 :: rowHash.bytes

def nodeBytes (left right : Digest) : Bytes := 1 :: (left.bytes ++ right.bytes)

def stateLeafBytes (memoryId : String) (rowHash : Hex64) : Bytes :=
  0 :: (utf8 ("jarvis-state|v1|" ++ toString (utf8 memoryId).length ++ ":") ++ utf8 memoryId ++ utf8 "|" ++
    utf8 rowHash.text)

/-- What is hashed for the tree over leaf inputs. -/
def treeHashed (inputs : List Bytes) : List Bytes := ((build inputs).map (Tree.hashed hash nodeBytes)).getD []

/-- What `merkle_root` hashes. -/
def merkleHashed (rowHashes : List Hex64) : List Bytes := treeHashed (rowHashes.map leafBytes)

def ordered (heads : List (String × Hex64)) : List (String × Hex64) :=
  heads.mergeSort (fun a b => idBytes a.1 ≤ idBytes b.1)

/-- The leaf inputs of a state. -/
def stateLeaves (heads : List (String × Hex64)) : List Bytes := (ordered heads).map fun h => stateLeafBytes h.1 h.2

/-- What `state_root` hashes; the root of the empty state is the hash of no bytes. -/
def stateHashed (heads : List (String × Hex64)) : List Bytes :=
  if heads = [] then [[]] else treeHashed (stateLeaves heads)

/-- Two different inputs, one of each list, have one SHA-256. -/
def Collision (xs ys : List Bytes) : Prop := ∃ x ∈ xs, ∃ y ∈ ys, x ≠ y ∧ sha256 x = sha256 y

lemma Collision.symm {xs ys : List Bytes} (h : Collision xs ys) : Collision ys xs := by
  obtain ⟨x, hx, y, hy, hne, heq⟩ := h
  exact ⟨y, hy, x, hx, hne.symm, heq.symm⟩

lemma collision_of_collide {xs ys : List Bytes} (h : Collide hash xs ys) : Collision xs ys := by
  obtain ⟨x, hx, y, hy, hne, heq⟩ := h
  exact ⟨x, hx, y, hy, hne, congrArg Digest.bytes heq⟩

lemma nodeBytes_injective (a b c d : Digest) (h : nodeBytes a b = nodeBytes c d) : a = c ∧ b = d := by
  obtain ⟨hl, hr⟩ := List.append_inj (List.cons.inj h).2 (by rw [a.size, c.size])
  exact ⟨Digest.ext hl, Digest.ext hr⟩

lemma leafBytes_injective : Function.Injective leafBytes :=
  fun _ _ h => Hex64.bytes_injective (List.cons.inj h).2

/-- The tag of a leaf is not the tag of a node. -/
lemma zero_ne_nodeBytes (bs : Bytes) (a b : Digest) : 0 :: bs ≠ nodeBytes a b := by
  intro h
  have htag := (List.cons.inj h).1
  exact absurd htag (by decide)

/-- The digest over inputs that all carry the tag of a leaf. -/
def treeRoot (inputs : List Bytes) : Option Hex64 :=
  (MerkleTree.mth nodeHash (inputs.map hash)).map Digest.hex

lemma treeRoot_eq (inputs : List Bytes) :
    treeRoot inputs = (build inputs).map fun t => (t.digest hash nodeBytes).hex := by
  have hroot : MerkleTree.mth nodeHash (inputs.map hash) = (build inputs).map (Tree.digest hash nodeBytes) :=
    mth_eq_digest inputs
  rw [treeRoot, hroot, Option.map_map]
  rfl

lemma merkleRoot_eq_treeRoot (rowHashes : List Hex64) : merkleRoot rowHashes = treeRoot (rowHashes.map leafBytes) := by
  rw [merkleRoot, treeRoot, List.map_map]
  rfl

lemma stateRoot_eq_treeRoot {heads : List (String × Hex64)} (hne : heads ≠ []) (hn : (heads.map Prod.fst).Nodup) :
    stateRoot heads = treeRoot (stateLeaves heads) := by
  have hdup : ((ordered heads).map Prod.fst).Nodup := by
    rw [ordered, ((List.mergeSort_perm heads _).map Prod.fst).nodup_iff]
    exact hn
  rw [stateRoot, if_neg hne, treeRoot, stateLeaves, List.map_map]
  exact if_pos hdup

/-- Trees over tagged leaves with one root have the same leaves, or a collision was hashed. -/
lemma treeRoot_binds {xs ys : List Bytes} (hx : xs ≠ []) (htx : ∀ x ∈ xs, ∃ bs, x = 0 :: bs)
    (hty : ∀ y ∈ ys, ∃ bs, y = 0 :: bs) (h : treeRoot xs = treeRoot ys) :
    xs = ys ∨ Collision (treeHashed xs) (treeHashed ys) := by
  obtain ⟨s, hs⟩ := Option.isSome_iff_exists.mp (build_isSome hx)
  rw [treeRoot_eq, treeRoot_eq, hs, Option.map_some] at h
  cases ht : build ys with
  | none => simp [ht] at h
  | some t =>
    rw [ht, Option.map_some] at h
    have hd : s.digest hash nodeBytes = t.digest hash nodeBytes := Digest.hex_injective (Option.some.inj h)
    have hls : ∀ x ∈ s.leaves, ∀ a b, x ≠ nodeBytes a b := by
      intro x hxm a b
      rw [build_leaves hs] at hxm
      obtain ⟨bs, rfl⟩ := htx x hxm
      exact zero_ne_nodeBytes bs a b
    have hlt : ∀ y ∈ t.leaves, ∀ a b, y ≠ nodeBytes a b := by
      intro y hym a b
      rw [build_leaves ht] at hym
      obtain ⟨bs, rfl⟩ := hty y hym
      exact zero_ne_nodeBytes bs a b
    rcases Tree.digest_binds nodeBytes_injective hls hlt hd with rfl | hc
    · exact Or.inl (by rw [← build_leaves hs, build_leaves ht])
    · refine Or.inr ?_
      rw [treeHashed, treeHashed, hs, ht]
      exact collision_of_collide hc

/-- The id ends where its length says, so a leaf tells id and hash. -/
lemma stateLeafBytes_injective {i j : String} {h k : Hex64} (heq : stateLeafBytes i h = stateLeafBytes j k) :
    i = j ∧ h = k := by
  have hbytes : utf8 ("jarvis-state|v1|" ++ (toString (utf8 i).length ++ (":" ++ (i ++ ("|" ++ h.text))))) =
      utf8 ("jarvis-state|v1|" ++ (toString (utf8 j).length ++ (":" ++ (j ++ ("|" ++ k.text))))) := by
    simpa only [Delimited.utf8_append, List.append_assoc] using (List.cons.inj heq).2
  have htext := PyStr.utf8_injective hbytes
  obtain ⟨hid, hrest⟩ := Delimited.cut_prefixed ((String.append_right_inj _).mp htext)
  exact ⟨hid, Hex64.ext ((String.append_right_inj _).mp hrest)⟩

/-- A state leaf is longer than the leaf of a row hash. -/
lemma leafBytes_ne_stateLeafBytes (rowHash h : Hex64) (id : String) : leafBytes rowHash ≠ stateLeafBytes id h := by
  intro heq
  have hlen := congrArg List.length heq
  have htag : (utf8 "jarvis-state|v1|").length = 16 := by decide
  have hhash := Delimited.length_le_utf8 h.text
  rw [h.chars_length] at hhash
  simp only [leafBytes, stateLeafBytes, Delimited.utf8_append, List.length_cons, List.length_append,
    Hex64.bytes_length, htag] at hlen
  omega

lemma merkleLeaves_tagged (xs : List Hex64) : ∀ z ∈ xs.map leafBytes, ∃ bs, z = 0 :: bs := by
  intro z hz
  obtain ⟨w, -, rfl⟩ := List.mem_map.mp hz
  exact ⟨w.bytes, rfl⟩

lemma merkleRoot_binds {xs ys : List Hex64} (hx : xs ≠ []) (h : merkleRoot xs = merkleRoot ys) :
    xs = ys ∨ Collision (merkleHashed xs) (merkleHashed ys) := by
  rw [merkleRoot_eq_treeRoot, merkleRoot_eq_treeRoot] at h
  exact (treeRoot_binds (by simpa using hx) (merkleLeaves_tagged xs) (merkleLeaves_tagged ys) h).imp_left fun heq =>
    List.map_injective_iff.mpr leafBytes_injective heq

lemma stateLeaves_tagged (s : List (String × Hex64)) : ∀ z ∈ stateLeaves s, ∃ bs, z = 0 :: bs := by
  intro z hz
  obtain ⟨p, -, rfl⟩ := List.mem_map.mp hz
  exact ⟨_, rfl⟩

lemma stateLeaves_ne_nil {s : List (String × Hex64)} (h : s ≠ []) : stateLeaves s ≠ [] := by
  have hlen : (stateLeaves s).length = s.length := by rw [stateLeaves, List.length_map, ordered, List.length_mergeSort]
  exact List.ne_nil_of_length_pos (hlen ▸ List.length_pos_of_ne_nil h)

lemma stateLeaves_perm {s t : List (String × Hex64)} (h : stateLeaves s = stateLeaves t) : s.Perm t := by
  have hinj : Function.Injective fun p : String × Hex64 => stateLeafBytes p.1 p.2 := by
    intro p q hpq
    obtain ⟨hid, hhash⟩ := stateLeafBytes_injective hpq
    exact Prod.ext hid hhash
  have hord : ordered s = ordered t := List.map_injective_iff.mpr hinj h
  have hs : (ordered s).Perm s := List.mergeSort_perm s _
  have ht : (ordered t).Perm t := List.mergeSort_perm t _
  exact hs.symm.trans (hord ▸ ht)

/-- Under a root over tagged leaves that is the empty one lies an input that is not empty. -/
lemma treeRoot_emptyRoot {inputs : List Bytes} (hne : inputs ≠ []) (htag : ∀ x ∈ inputs, ∃ bs, x = 0 :: bs)
    (h : treeRoot inputs = some emptyRoot) : Collision (treeHashed inputs) [[]] := by
  obtain ⟨t, ht⟩ := Option.isSome_iff_exists.mp (build_isSome hne)
  rw [treeRoot_eq, ht, Option.map_some] at h
  have hd : t.digest hash nodeBytes = hash [] := Digest.hex_injective (Option.some.inj h)
  rw [treeHashed, ht, Option.map_some, Option.getD_some]
  cases t with
  | leaf x =>
    have hmem : x ∈ inputs := by
      rw [← build_leaves ht]
      exact List.mem_singleton_self x
    obtain ⟨bs, rfl⟩ := htag x hmem
    exact ⟨_, List.mem_singleton_self _, [], List.mem_singleton_self _, by simp, congrArg Digest.bytes hd⟩
  | node l r =>
    exact ⟨_, List.mem_cons_self, [], List.mem_singleton_self _, by simp [nodeBytes], congrArg Digest.bytes hd⟩

lemma stateRoot_binds {s t : List (String × Hex64)} (hs : (s.map Prod.fst).Nodup) (ht : (t.map Prod.fst).Nodup)
    (h : stateRoot s = stateRoot t) : s.Perm t ∨ Collision (stateHashed s) (stateHashed t) := by
  have hempty : stateRoot [] = some emptyRoot := rfl
  by_cases hns : s = [] <;> by_cases hnt : t = []
  · exact Or.inl (by rw [hns, hnt])
  · rw [stateRoot_eq_treeRoot hnt ht, hns, hempty] at h
    rw [stateHashed, stateHashed, if_pos hns, if_neg hnt]
    exact Or.inr (treeRoot_emptyRoot (stateLeaves_ne_nil hnt) (stateLeaves_tagged t) h.symm).symm
  · rw [stateRoot_eq_treeRoot hns hs, hnt, hempty] at h
    rw [stateHashed, stateHashed, if_pos hnt, if_neg hns]
    exact Or.inr (treeRoot_emptyRoot (stateLeaves_ne_nil hns) (stateLeaves_tagged s) h)
  · rw [stateRoot_eq_treeRoot hns hs, stateRoot_eq_treeRoot hnt ht] at h
    rw [stateHashed, stateHashed, if_neg hns, if_neg hnt]
    exact (treeRoot_binds (stateLeaves_ne_nil hns) (stateLeaves_tagged s) (stateLeaves_tagged t) h).imp_left
      stateLeaves_perm

lemma merkleRoot_ne_stateRoot {xs : List Hex64} {s : List (String × Hex64)} (hx : xs ≠ [])
    (hs : (s.map Prod.fst).Nodup) (h : merkleRoot xs = stateRoot s) : Collision (merkleHashed xs) (stateHashed s) := by
  have hxs : xs.map leafBytes ≠ [] := by simpa using hx
  rw [merkleRoot_eq_treeRoot] at h
  by_cases hns : s = []
  · rw [hns] at h
    rw [stateHashed, if_pos hns]
    exact treeRoot_emptyRoot hxs (merkleLeaves_tagged xs) h
  · rw [stateRoot_eq_treeRoot hns hs] at h
    rw [stateHashed, if_neg hns]
    rcases treeRoot_binds hxs (merkleLeaves_tagged xs) (stateLeaves_tagged s) h with heq | hc
    · obtain ⟨x, xs, rfl⟩ := List.exists_cons_of_ne_nil hx
      have hmem : leafBytes x ∈ stateLeaves s := by
        rw [← heq]
        exact List.mem_cons_self
      obtain ⟨p, -, hp⟩ := List.mem_map.mp hmem
      exact absurd hp.symm (leafBytes_ne_stateLeafBytes x p.2 p.1)
    · exact hc

/-- Equal roots come of equal lists or equal states, or a collision was hashed; no block and no state share a root
without one; and the order of a state does not matter. -/
theorem roots_bind {xs ys : List Hex64} {s t : List (String × Hex64)} (hx : xs ≠ [])
    (hs : (s.map Prod.fst).Nodup) (ht : (t.map Prod.fst).Nodup) :
    (merkleRoot xs = merkleRoot ys → xs = ys ∨ Collision (merkleHashed xs) (merkleHashed ys)) ∧
      (stateRoot s = stateRoot t → (∀ p, p ∈ s ↔ p ∈ t) ∨ Collision (stateHashed s) (stateHashed t)) ∧
      (∀ l, l.Perm s → stateRoot l = stateRoot s) ∧
      (merkleRoot xs = stateRoot s → Collision (merkleHashed xs) (stateHashed s)) ∧
      (merkleRoot xs).isSome ∧ (stateRoot s).isSome := by
  refine ⟨merkleRoot_binds hx, fun h => ?_, fun l hl => (stateRoot_perm hs hl.symm).symm,
    merkleRoot_ne_stateRoot hx hs, ?_, stateRoot_isSome hs⟩
  · exact (stateRoot_binds hs ht h).imp_left fun hp p => hp.mem_iff
  · rw [← jarvisMerkleRoot_eq]
    exact jarvisMerkleRoot_isSome hx

theorem roots_bind_example :
    (merkleRoot [genesis, emptyRoot] = merkleRoot [genesis] → [genesis, emptyRoot] = [genesis] ∨
      Collision (merkleHashed [genesis, emptyRoot]) (merkleHashed [genesis])) ∧
    (stateRoot [("a", genesis), ("1:a", emptyRoot)] = stateRoot [("a", genesis)] →
      (∀ p, p ∈ [("a", genesis), ("1:a", emptyRoot)] ↔ p ∈ [("a", genesis)]) ∨
      Collision (stateHashed [("a", genesis), ("1:a", emptyRoot)]) (stateHashed [("a", genesis)])) :=
  have h := @roots_bind [genesis, emptyRoot] [genesis] [("a", genesis), ("1:a", emptyRoot)] [("a", genesis)] (by simp)
    (by decide) (by decide)
  ⟨h.1, h.2.1⟩

end ContinuityLedger.Replay
