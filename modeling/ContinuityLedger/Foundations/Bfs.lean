import Mathlib.Data.List.Nodup
import Mathlib.Data.List.Perm.Subperm
import Mathlib.Tactic

/-! Breadth-first search with a depth and a limit on what it sees: it finds every node within the depth once, at its
least number of steps. -/

namespace ContinuityLedger.Foundations.Bfs

variable {α β : Type*}

/-! ### Distances -/

inductive Steps (R : α → α → Prop) (s : α) : ℕ → α → Prop
  | refl : Steps R s 0 s
  | tail {n : ℕ} {x y : α} : Steps R s n x → R x y → Steps R s (n + 1) y

/-- The least number of steps. -/
def Dist (R : α → α → Prop) (s x : α) (k : ℕ) : Prop := Steps R s k x ∧ ∀ j < k, ¬ Steps R s j x

section
variable {R : α → α → Prop} {s x y : α} {j k : ℕ}

lemma Dist.unique (h : Dist R s x j) (h' : Dist R s x k) : j = k := by
  rcases Nat.lt_trichotomy j k with hlt | heq | hlt
  · exact absurd h.1 (h'.2 j hlt)
  · exact heq
  · exact absurd h'.1 (h.2 k hlt)

lemma dist_zero : Dist R s x 0 ↔ x = s := by
  constructor
  · rintro ⟨h, -⟩
    cases h
    rfl
  · rintro rfl
    exact ⟨.refl, fun j hj => absurd hj (Nat.not_lt_zero j)⟩

lemma exists_dist (h : Steps R s k x) : ∃ j ≤ k, Dist R s x j := by
  induction k using Nat.strong_induction_on with
  | _ k ih =>
    by_cases hleast : ∀ j < k, ¬ Steps R s j x
    · exact ⟨k, le_refl k, h, hleast⟩
    · push Not at hleast
      obtain ⟨j, hj, hsteps⟩ := hleast
      obtain ⟨i, hi, hd⟩ := ih j hj hsteps
      exact ⟨i, by omega, hd⟩

lemma Dist.step (h : Dist R s x k) (hxy : R x y) : ∃ j ≤ k + 1, Dist R s y j := exists_dist (h.1.tail hxy)

lemma Dist.pred (h : Dist R s y (k + 1)) : ∃ x, Dist R s x k ∧ R x y := by
  obtain ⟨hsteps, hleast⟩ := h
  cases hsteps with
  | @tail _ x _ hx hxy =>
    refine ⟨x, ⟨hx, fun j hj hj' => ?_⟩, hxy⟩
    exact hleast (j + 1) (by omega) (hj'.tail hxy)

/-- Distances have no gaps. -/
lemma Dist.below (h : Dist R s x k) (hjk : j ≤ k) : ∃ y, Dist R s y j := by
  induction k generalizing x with
  | zero => exact ⟨x, by rwa [Nat.le_zero.mp hjk]⟩
  | succ k ih =>
    rcases Nat.lt_or_ge j (k + 1) with hlt | hge
    · obtain ⟨z, hz, -⟩ := h.pred
      exact ih hz (by omega)
    · exact ⟨x, by rwa [show j = k + 1 by omega]⟩

/-- Two relations have the same distances up to a depth where no step of the first leaves the second's levels, and every
node of a level has a step of the first into it. -/
lemma dist_agree {T C : α → α → Prop} {depth : ℕ} :
    (∀ x k, k ≤ depth → (Dist T s x k ↔ Dist C s x k)) ↔
      (∀ x y k, k < depth → Dist C s x k → T x y → ∃ j ≤ k + 1, Dist C s y j) ∧
      ∀ y k, k + 1 ≤ depth → Dist C s y (k + 1) → ∃ x, Dist C s x k ∧ T x y := by
  constructor
  · refine fun h => ⟨fun x y k hk hx hxy => ?_, fun y k hk hy => ?_⟩
    · obtain ⟨j, hj, hyj⟩ := ((h x k hk.le).mpr hx).step hxy
      exact ⟨j, hj, (h y j (by omega)).mp hyj⟩
    · obtain ⟨x, hx, hxy⟩ := ((h y (k + 1) hk).mpr hy).pred
      exact ⟨x, (h x k (by omega)).mp hx, hxy⟩
  · rintro ⟨hout, hin⟩ x k
    induction k using Nat.strong_induction_on generalizing x with
    | _ k ih =>
      intro hk
      cases k with
      | zero => rw [dist_zero, dist_zero]
      | succ k =>
        constructor
        · intro hx
          obtain ⟨p, hp, hpx⟩ := hx.pred
          obtain ⟨j, hj, hxj⟩ := hout p x k (by omega) ((ih k (by omega) p (by omega)).mp hp) hpx
          rcases Nat.lt_or_ge j (k + 1) with hlt | hge
          · exact absurd (((ih j hlt x (by omega)).mpr hxj).unique hx) (by omega)
          · rwa [show k + 1 = j by omega]
        · intro hx
          obtain ⟨p, hp, hpx⟩ := hin x k hk hx
          obtain ⟨j, hj, hxj⟩ := ((ih k (by omega) p (by omega)).mpr hp).step hpx
          rcases Nat.lt_or_ge j (k + 1) with hlt | hge
          · exact absurd (((ih j hlt x (by omega)).mp hxj).unique hx) (by omega)
          · rwa [show k + 1 = j by omega]

end

/-! ### The search -/

structure Search (α β : Type*) where
  queue : List (α × ℕ)
  seen : List α
  out : List (α × ℕ × β)

/-- The neighbours of a node, at distance `d`, up to the limit. -/
def visit [DecidableEq α] (limit d : ℕ) : Search α β → List (α × β) → Search α β
  | st, [] => st
  | st, n :: rest =>
    if n.1 ∈ st.seen then visit limit d st rest
    else if limit ≤ st.seen.length + 1 then ⟨st.queue ++ [(n.1, d)], n.1 :: st.seen, st.out ++ [(n.1, d, n.2)]⟩
    else visit limit d ⟨st.queue ++ [(n.1, d)], n.1 :: st.seen, st.out ++ [(n.1, d, n.2)]⟩ rest

def run [DecidableEq α] (adj : α → Option (List (α × β))) (depth limit : ℕ) : ℕ → Search α β → Option (Search α β)
  | 0, _ => none
  | fuel + 1, st =>
    match st.queue with
    | [] => some st
    | next :: queue =>
      if limit ≤ st.seen.length then some st
      else if depth ≤ next.2 then run adj depth limit fuel { st with queue := queue }
      else
        match adj next.1 with
        | none => none
        | some neighbours => run adj depth limit fuel (visit limit (next.2 + 1) { st with queue := queue } neighbours)

/-- What a visit adds: new nodes, all of them unless the limit is reached. -/
lemma visit_spec [DecidableEq α] (limit d : ℕ) (neighbours : List (α × β)) (st : Search α β) :
    ∃ new : List (α × β), (∀ n ∈ new, n ∈ neighbours) ∧ (new.map Prod.fst).Nodup ∧ (∀ n ∈ new, n.1 ∉ st.seen) ∧
      visit limit d st neighbours = ⟨st.queue ++ new.map (fun n => (n.1, d)), (new.map Prod.fst).reverse ++ st.seen,
        st.out ++ new.map fun n => (n.1, d, n.2)⟩ ∧
      (limit ≤ (visit limit d st neighbours).seen.length ∨ ∀ n ∈ neighbours, n.1 ∈ (visit limit d st neighbours).seen) := by
  induction neighbours generalizing st with
  | nil => exact ⟨[], by simp, by simp, by simp, by simp [visit], Or.inr (by simp)⟩
  | cons n rest ih =>
    rw [visit]
    split_ifs with hseen hlimit
    · obtain ⟨new, hsub, hnd, hfresh, heq, hdone⟩ := ih st
      refine ⟨new, fun m hm => List.mem_cons_of_mem _ (hsub m hm), hnd, hfresh, heq, hdone.imp_right fun hall m hm => ?_⟩
      rcases List.mem_cons.mp hm with rfl | hm
      · rw [heq]
        exact List.mem_append_right _ hseen
      · exact hall m hm
    · refine ⟨[n], by simp, by simp, by simpa using hseen, by simp, Or.inl (by simpa using hlimit)⟩
    · obtain ⟨new, hsub, hnd, hfresh, heq, hdone⟩ :=
        ih ⟨st.queue ++ [(n.1, d)], n.1 :: st.seen, st.out ++ [(n.1, d, n.2)]⟩
      refine ⟨n :: new, ?_, ?_, ?_, ?_, hdone.imp_right fun hall m hm => ?_⟩
      · intro m hm
        rcases List.mem_cons.mp hm with rfl | hm
        · exact List.mem_cons_self
        · exact List.mem_cons_of_mem _ (hsub m hm)
      · rw [List.map_cons, List.nodup_cons]
        refine ⟨fun hmem => ?_, hnd⟩
        obtain ⟨m, hm, hmn⟩ := List.mem_map.mp hmem
        exact hfresh m hm (hmn ▸ List.mem_cons_self)
      · intro m hm
        rcases List.mem_cons.mp hm with rfl | hm
        · exact hseen
        · exact fun hin => hfresh m hm (List.mem_cons_of_mem _ hin)
      · rw [heq]
        simp
      · rcases List.mem_cons.mp hm with rfl | hm
        · rw [heq]
          exact List.mem_append_right _ List.mem_cons_self
        · exact hall m hm

/-! ### What it finds -/

/-- A step to a neighbour. -/
def Step (adj : α → Option (List (α × β))) (x y : α) : Prop := ∃ l b, adj x = some l ∧ (y, b) ∈ l

/-- Everything seen lies within the depth, and everything seen but the start has been given out at its distance. -/
structure Sound (R : α → α → Prop) (s : α) (depth : ℕ) (nodes : List α) (st : Search α β) : Prop where
  start : s ∈ st.seen
  nodup : st.seen.Nodup
  inside : ∀ x ∈ st.seen, x ∈ nodes
  seen : ∀ x ∈ st.seen, ∃ k ≤ depth, Dist R s x k
  queue : ∀ e ∈ st.queue, e.1 ∈ st.seen ∧ Dist R s e.1 e.2
  out : ∀ x k, (∃ b, (x, k, b) ∈ st.out) ↔ x ∈ st.seen ∧ x ≠ s ∧ Dist R s x k
  once : (st.out.map Prod.fst).Nodup

/-- Between two levels: `todo` is left of level `d`, and `next` is what has been found of level `d + 1`. -/
structure Level (R : α → α → Prop) (s : α) (d : ℕ) (todo next : List α) (st : Search α β) : Prop where
  queue : st.queue = todo.map (fun x => (x, d)) ++ next.map (fun x => (x, d + 1))
  full : ∀ x k, k ≤ d → Dist R s x k → x ∈ st.seen
  done : ∀ x y, Dist R s x d → x ∉ todo → R x y → y ∈ st.seen
  next : ∀ y ∈ st.seen, Dist R s y (d + 1) → y ∈ next
  near : ∀ y ∈ st.seen, ∃ k ≤ d + 1, Dist R s y k

section
variable {adj : α → Option (List (α × β))} {s : α} {depth limit : ℕ} {nodes : List α} {st : Search α β}

lemma sound_init (hs : s ∈ nodes) : Sound (Step adj) s depth nodes (⟨[(s, 0)], [s], []⟩ : Search α β) where
  start := List.mem_singleton_self s
  nodup := List.nodup_singleton s
  inside x hx := by rwa [List.mem_singleton.mp hx]
  seen x hx := ⟨0, Nat.zero_le _, dist_zero.mpr (List.mem_singleton.mp hx)⟩
  queue e he := by
    rw [List.mem_singleton.mp he]
    exact ⟨List.mem_singleton_self s, dist_zero.mpr rfl⟩
  out x k := by
    refine iff_of_false (by simp) ?_
    rintro ⟨hx, hne, -⟩
    exact hne (List.mem_singleton.mp hx)
  once := List.nodup_nil

lemma level_init : Level (Step adj) s 0 [s] [] (⟨[(s, 0)], [s], []⟩ : Search α β) where
  queue := rfl
  full x k hk hx := by
    obtain rfl := Nat.le_zero.mp hk
    exact List.mem_singleton.mpr (dist_zero.mp hx)
  done x y hx hnot _ := absurd (List.mem_singleton.mpr (dist_zero.mp hx)) hnot
  next y hy hd := by
    rw [List.mem_singleton.mp hy] at hd
    exact absurd (hd.unique (dist_zero.mpr rfl)) (Nat.succ_ne_zero 0)
  near y hy := ⟨0, Nat.zero_le _, dist_zero.mpr (List.mem_singleton.mp hy)⟩

/-- Dropping the head of the queue. -/
lemma Sound.drop (h : Sound (Step adj) s depth nodes st) {e : α × ℕ} {queue : List (α × ℕ)} (hq : st.queue = e :: queue) :
    Sound (Step adj) s depth nodes { st with queue := queue } where
  start := h.start
  nodup := h.nodup
  inside := h.inside
  seen := h.seen
  queue e' he' := h.queue e' (hq ▸ List.mem_cons_of_mem _ he')
  out := h.out
  once := h.once

/-- New nodes one step beyond the level are sound. -/
lemma Sound.add (h : Sound (Step adj) s depth nodes st) {d : ℕ} (hd : d ≤ depth) {new : List (α × β)}
    (hnd : (new.map Prod.fst).Nodup) (hfresh : ∀ n ∈ new, n.1 ∉ st.seen) (hin : ∀ n ∈ new, n.1 ∈ nodes)
    (hdist : ∀ n ∈ new, Dist (Step adj) s n.1 d) :
    Sound (Step adj) s depth nodes (⟨st.queue ++ new.map (fun n => (n.1, d)), (new.map Prod.fst).reverse ++ st.seen,
      st.out ++ new.map fun n => (n.1, d, n.2)⟩ : Search α β) := by
  have hmem : ∀ {x}, x ∈ (new.map Prod.fst).reverse ++ st.seen ↔ (∃ n ∈ new, n.1 = x) ∨ x ∈ st.seen := by
    intro x
    rw [List.mem_append, List.mem_reverse, List.mem_map]
  have hout : ∀ e ∈ st.out, e.1 ∈ st.seen := by
    rintro ⟨x, k, b⟩ he
    exact ((h.out x k).mp ⟨b, he⟩).1
  refine ⟨hmem.mpr (Or.inr h.start), ?_, ?_, ?_, ?_, ?_, ?_⟩
  · refine List.nodup_append.mpr ⟨List.nodup_reverse.mpr hnd, h.nodup, fun x hx y hy he => ?_⟩
    obtain ⟨n, hn, rfl⟩ := List.mem_map.mp (List.mem_reverse.mp hx)
    exact hfresh n hn (he ▸ hy)
  · intro x hx
    rcases hmem.mp hx with ⟨n, hn, rfl⟩ | hx
    · exact hin n hn
    · exact h.inside x hx
  · intro x hx
    rcases hmem.mp hx with ⟨n, hn, rfl⟩ | hx
    · exact ⟨d, hd, hdist n hn⟩
    · exact h.seen x hx
  · intro e he
    rcases List.mem_append.mp he with he | he
    · exact ⟨hmem.mpr (Or.inr (h.queue e he).1), (h.queue e he).2⟩
    · obtain ⟨n, hn, rfl⟩ := List.mem_map.mp he
      exact ⟨hmem.mpr (Or.inl ⟨n, hn, rfl⟩), hdist n hn⟩
  · intro x k
    rw [hmem]
    constructor
    · rintro ⟨b, hb⟩
      rcases List.mem_append.mp hb with hb | hb
      · obtain ⟨hx, hne, hk⟩ := (h.out x k).mp ⟨b, hb⟩
        exact ⟨Or.inr hx, hne, hk⟩
      · obtain ⟨n, hn, heq⟩ := List.mem_map.mp hb
        obtain ⟨rfl, rfl, rfl⟩ : n.1 = x ∧ d = k ∧ n.2 = b := by simpa using heq
        exact ⟨Or.inl ⟨n, hn, rfl⟩, fun he => hfresh n hn (he ▸ h.start), hdist n hn⟩
    · rintro ⟨⟨n, hn, rfl⟩ | hx, hne, hk⟩
      · obtain rfl := (hdist n hn).unique hk
        exact ⟨n.2, List.mem_append_right _ (List.mem_map.mpr ⟨n, hn, rfl⟩)⟩
      · obtain ⟨b, hb⟩ := (h.out x k).mpr ⟨hx, hne, hk⟩
        exact ⟨b, List.mem_append_left _ hb⟩
  · rw [List.map_append, List.map_map]
    refine List.nodup_append.mpr ⟨h.once, hnd, fun x hx y hy he => ?_⟩
    obtain ⟨e, he', rfl⟩ := List.mem_map.mp hx
    obtain ⟨n, hn, rfl⟩ := List.mem_map.mp hy
    have heq : e.1 = n.1 := he
    exact hfresh n hn (heq ▸ hout e he')

/-- With no room left, everything within the depth has been seen. -/
lemma Sound.all_of_limit (h : Sound (Step adj) s depth nodes st)
    (hlimit : ∀ l : List α, l.Nodup → (∀ x ∈ l, ∃ k ≤ depth, Dist (Step adj) s x k) → l.length ≤ limit)
    (hfull : limit ≤ st.seen.length) {x : α} {k : ℕ} (hk : k ≤ depth) (hx : Dist (Step adj) s x k) : x ∈ st.seen := by
  by_contra hnot
  have hlen := hlimit (x :: st.seen) (List.nodup_cons.mpr ⟨hnot, h.nodup⟩) fun y hy => by
    rcases List.mem_cons.mp hy with rfl | hy
    · exact ⟨k, hk, hx⟩
    · exact h.seen y hy
  rw [List.length_cons] at hlen
  omega

variable (adj limit) in
/-- At the depth the queue is only emptied. -/
lemma run_drain [DecidableEq α] {fuel : ℕ} (hfuel : st.queue.length < fuel) (hdeep : ∀ e ∈ st.queue, depth ≤ e.2) :
    ∃ queue, run adj depth limit fuel st = some { st with queue := queue } := by
  induction fuel generalizing st with
  | zero => omega
  | succ fuel ih =>
    rw [run]
    cases hq : st.queue with
    | nil => exact ⟨[], by simp [← hq]⟩
    | cons e queue =>
      dsimp only
      rw [hq] at hdeep hfuel
      split_ifs with hlimit hdepth
      · exact ⟨st.queue, rfl⟩
      · exact ih (by simpa using hfuel) fun e' he' => hdeep e' (List.mem_cons_of_mem _ he')
      · exact absurd (hdeep e List.mem_cons_self) hdepth

/-- When a level is done, what has been found beyond it is the next one. -/
lemma Level.shift {d : ℕ} {next : List α} (h : Level (Step adj) s d [] next st) :
    Level (Step adj) s (d + 1) next [] st where
  queue := by rw [h.queue]; simp
  full x k hk hx := by
    rcases Nat.lt_or_ge k (d + 1) with hlt | hge
    · exact h.full x k (by omega) hx
    · obtain rfl : k = d + 1 := by omega
      obtain ⟨p, hp, hpx⟩ := hx.pred
      exact h.done p x hp List.not_mem_nil hpx
  done x y hx hnot hxy := by
    obtain ⟨p, hp, hpx⟩ := hx.pred
    exact absurd (h.next x (h.done p x hp List.not_mem_nil hpx) hx) hnot
  next y hy hd := by
    obtain ⟨k, hk, hyk⟩ := h.near y hy
    have heq := hd.unique hyk
    omega
  near y hy := by
    obtain ⟨k, hk, hyk⟩ := h.near y hy
    exact ⟨k, by omega, hyk⟩

/-- When nothing is left and nothing was found, everything has been seen. -/
lemma Level.all {d : ℕ} (h : Level (Step adj) s d [] [] st) {x : α} {k : ℕ} (hx : Dist (Step adj) s x k) : x ∈ st.seen := by
  rcases Nat.lt_or_ge d k with hlt | hge
  · obtain ⟨y, hy⟩ := hx.below (show d + 1 ≤ k by omega)
    obtain ⟨p, hp, hpy⟩ := hy.pred
    exact absurd (h.next y (h.done p y hp List.not_mem_nil hpy) hy) List.not_mem_nil
  · exact h.full x k hge hx

variable (limit) in
/-- One node of a level below the depth: its neighbours are seen, unless the limit stops the search. -/
lemma Level.expand [DecidableEq α] (h : Sound (Step adj) s depth nodes st) {d : ℕ} {x : α} {todo next : List α}
    (hl : Level (Step adj) s d (x :: todo) next st) (hd : d < depth) {neighbours : List (α × β)}
    (hadj : adj x = some neighbours) (hin : ∀ n ∈ neighbours, n.1 ∈ nodes) {queue : List (α × ℕ)}
    (hq : queue = todo.map (fun x => (x, d)) ++ next.map (fun x => (x, d + 1))) :
    ∃ st' next', visit limit (d + 1) { st with queue := queue } neighbours = st' ∧ Sound (Step adj) s depth nodes st' ∧
      st'.queue.length + st.seen.length = queue.length + st'.seen.length ∧
      (limit ≤ st'.seen.length ∨ Level (Step adj) s d todo next' st') := by
  have hdrop : Sound (Step adj) s depth nodes { st with queue := queue } := h.drop (e := (x, d)) (by rw [hl.queue, hq]; rfl)
  have hx : Dist (Step adj) s x d := (h.queue (x, d) (by rw [hl.queue]; exact List.mem_cons_self)).2
  obtain ⟨new, hsub, hnd, hfresh, heq, hdone⟩ := visit_spec limit (d + 1) neighbours { st with queue := queue }
  have hstep : ∀ n ∈ neighbours, Step adj x n.1 := fun n hn => ⟨neighbours, n.2, hadj, hn⟩
  have hdist : ∀ n ∈ new, Dist (Step adj) s n.1 (d + 1) := by
    intro n hn
    obtain ⟨k, hk, hnk⟩ := hx.step (hstep n (hsub n hn))
    rcases Nat.lt_or_ge d k with hlt | hge
    · rwa [show d + 1 = k by omega]
    · exact absurd (hl.full n.1 k hge hnk) (hfresh n hn)
  have hsound := hdrop.add hd hnd hfresh (fun n hn => hin n (hsub n hn)) hdist
  rw [heq] at hdone ⊢
  refine ⟨_, next ++ new.map Prod.fst, rfl, hsound, by simp; omega, hdone.imp_right fun hall => ?_⟩
  have hkeep : ∀ {y}, y ∈ st.seen → y ∈ (new.map Prod.fst).reverse ++ st.seen := fun hy => List.mem_append_right _ hy
  have hback : ∀ {y}, y ∈ (new.map Prod.fst).reverse ++ st.seen → y ∈ new.map Prod.fst ∨ y ∈ st.seen := fun hy =>
    (List.mem_append.mp hy).imp_left List.mem_reverse.mp
  refine ⟨?_, fun y k hk hy => hkeep (hl.full y k hk hy), fun y z hy hnot hyz => ?_, fun y hy hyd => ?_, fun y hy => ?_⟩
  · simp [hq, List.map_map, Function.comp_def]
  · by_cases hyx : y = x
    · subst hyx
      obtain ⟨l, b, hl', hz⟩ := hyz
      obtain rfl := Option.some.inj (hadj.symm.trans hl')
      exact hall (z, b) hz
    · exact hkeep (hl.done y z hy (by simp [hyx, hnot]) hyz)
  · rcases hback hy with hy | hy
    · exact List.mem_append_right _ hy
    · exact List.mem_append_left _ (hl.next y hy hyd)
  · rcases hback hy with hy | hy
    · obtain ⟨n, hn, rfl⟩ := List.mem_map.mp hy
      exact ⟨d + 1, le_refl _, hdist n hn⟩
    · exact hl.near y hy

/-- All that lies within the depth, each but the start given out once and at its distance. -/
structure Finds (R : α → α → Prop) (s : α) (depth : ℕ) (st : Search α β) : Prop where
  seen : ∀ x, x ∈ st.seen ↔ ∃ k ≤ depth, Dist R s x k
  out : ∀ x k, (∃ b, (x, k, b) ∈ st.out) ↔ x ≠ s ∧ k ≤ depth ∧ Dist R s x k
  once : (st.out.map Prod.fst).Nodup

lemma Sound.finds (h : Sound (Step adj) s depth nodes st) (hall : ∀ x k, k ≤ depth → Dist (Step adj) s x k → x ∈ st.seen)
    (queue : List (α × ℕ)) : Finds (Step adj) s depth { st with queue := queue } where
  seen x := ⟨h.seen x, fun ⟨k, hk, hx⟩ => hall x k hk hx⟩
  out x k := by
    refine (h.out x k).trans ⟨fun ⟨hx, hne, hk⟩ => ⟨hne, ?_, hk⟩, fun ⟨hne, hk, hx⟩ => ⟨hall x k hk hx, hne, hx⟩⟩
    obtain ⟨j, hj, hxj⟩ := h.seen x hx
    rwa [hk.unique hxj]
  once := h.once

lemma run_full [DecidableEq α] {fuel : ℕ} (hfuel : 0 < fuel) (hlimit : limit ≤ st.seen.length) :
    run adj depth limit fuel st = some st := by
  obtain ⟨fuel, rfl⟩ := Nat.exists_eq_add_of_lt hfuel
  rw [run]
  cases st.queue with
  | nil => rfl
  | cons e queue => exact if_pos hlimit

/-- The search ends with everything within the depth. -/
lemma run_level [DecidableEq α] (hadj : ∀ x ∈ nodes, ∃ l, adj x = some l ∧ ∀ n ∈ l, n.1 ∈ nodes)
    (hlimit : ∀ l : List α, l.Nodup → (∀ x ∈ l, ∃ k ≤ depth, Dist (Step adj) s x k) → l.length ≤ limit) {fuel d : ℕ}
    {todo next : List α} (hs : Sound (Step adj) s depth nodes st) (hl : Level (Step adj) s d todo next st) (hd : d ≤ depth)
    (hfuel : st.queue.length + (nodes.length - st.seen.length) < fuel) :
    ∃ st', run adj depth limit fuel st = some st' ∧ Finds (Step adj) s depth st' := by
  induction fuel generalizing st d todo next with
  | zero => omega
  | succ fuel ih =>
    by_cases hempty : todo = [] ∧ next = []
    · obtain ⟨rfl, rfl⟩ := hempty
      have hqueue : st.queue = [] := hl.queue
      exact ⟨st, by rw [run, hqueue], hs.finds (fun x k _ hx => hl.all hx) st.queue⟩
    · obtain ⟨d', x, todo', next', hl', hd'⟩ : ∃ d' x todo' next', Level (Step adj) s d' (x :: todo') next' st ∧ d' ≤ depth := by
        cases todo with
        | cons x todo => exact ⟨d, x, todo, next, hl, hd⟩
        | nil =>
          obtain ⟨x, todo, rfl⟩ := List.exists_cons_of_ne_nil fun hn => hempty ⟨rfl, hn⟩
          refine ⟨d + 1, x, todo, [], hl.shift, ?_⟩
          obtain ⟨hx, hdx⟩ := hs.queue (x, d + 1) (by rw [hl.queue]; simp)
          obtain ⟨k, hk, hxk⟩ := hs.seen x hx
          have heq : d + 1 = k := hdx.unique hxk
          omega
      set queue := todo'.map (fun x => (x, d')) ++ next'.map (fun x => (x, d' + 1)) with hq
      have hqueue : st.queue = (x, d') :: queue := hl'.queue
      rw [run, hqueue]
      dsimp only
      split_ifs with hroom hdepth
      · exact ⟨st, rfl, hs.finds (fun y k hk hy => hs.all_of_limit hlimit hroom hk hy) st.queue⟩
      · have hdeep : ∀ e ∈ queue, depth ≤ e.2 := by
          intro e he
          rcases List.mem_append.mp he with he | he
          · obtain ⟨y, -, rfl⟩ := List.mem_map.mp he
            exact hdepth
          · obtain ⟨y, -, rfl⟩ := List.mem_map.mp he
            exact Nat.le_succ_of_le hdepth
        rw [hqueue, List.length_cons] at hfuel
        have hlen : { st with queue := queue }.queue.length < fuel := by
          show queue.length < fuel
          omega
        obtain ⟨queue', hrun⟩ := run_drain adj limit hlen hdeep
        exact ⟨_, hrun, hs.finds (fun y k hk hy => hl'.full y k (hk.trans hdepth) hy) queue'⟩
      · obtain ⟨l, hl₁, hin⟩ := hadj x (hs.inside x (hs.queue (x, d') (hqueue ▸ List.mem_cons_self)).1)
        simp only [hl₁]
        obtain ⟨st', next'', hvisit, hs', hlen, hdone⟩ := hl'.expand limit hs (not_le.mp hdepth) hl₁ hin hq
        rw [hvisit]
        have hle : st'.seen.length ≤ nodes.length := (hs'.nodup.subperm hs'.inside).length_le
        rw [hqueue, List.length_cons] at hfuel
        rcases hdone with hroom' | hl''
        · refine ⟨st', run_full (by omega) hroom', hs'.finds (fun y k hk hy => hs'.all_of_limit hlimit hroom' hk hy) st'.queue⟩
        · exact ih hs' hl'' hd' (by omega)

/-- Breadth-first search from a node of a closed graph, with room for what lies within the depth. -/
theorem run_finds [DecidableEq α] (hs : s ∈ nodes) (hadj : ∀ x ∈ nodes, ∃ l, adj x = some l ∧ ∀ n ∈ l, n.1 ∈ nodes)
    (hlimit : ∀ l : List α, l.Nodup → (∀ x ∈ l, ∃ k ≤ depth, Dist (Step adj) s x k) → l.length ≤ limit) {fuel : ℕ}
    (hfuel : nodes.length < fuel) :
    ∃ st, run adj depth limit fuel ⟨[(s, 0)], [s], []⟩ = some st ∧ Finds (Step adj) s depth st := by
  have hpos : 0 < nodes.length := List.length_pos_of_mem hs
  refine run_level hadj hlimit (sound_init hs) level_init (Nat.zero_le _) ?_
  simp only [List.length_singleton]
  omega

end

end ContinuityLedger.Foundations.Bfs
