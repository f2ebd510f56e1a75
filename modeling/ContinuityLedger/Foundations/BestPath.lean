import Mathlib.Tactic
import ContinuityLedger.Foundations.Dict

/-! Breadth-first search for the strongest paths of a bounded length. A path is cut where its end has been reached at least
as strongly: whatever reached it was no longer, so nothing beyond is lost. -/

namespace ContinuityLedger.Foundations.BestPath

structure Edge (α ε : Type) where
  target : α
  weight : ℚ
  label : ε

/-! ### Paths -/

section
variable {α ε : Type}

inductive Path (adj : α → List (Edge α ε)) (s : α) : List (Edge α ε) → α → Prop
  | nil : Path adj s [] s
  | snoc {es : List (Edge α ε)} {x : α} {e : Edge α ε} : Path adj s es x → e ∈ adj x → Path adj s (es ++ [e]) e.target

/-- The product of the weights, and of the decay for every edge after the first. -/
def worth (decay : ℚ) (es : List (Edge α ε)) : ℚ := (es.map Edge.weight).prod * decay ^ (es.length - 1)

lemma worth_nil (decay : ℚ) : worth decay ([] : List (Edge α ε)) = 1 := by simp [worth]

lemma worth_snoc (decay : ℚ) (es : List (Edge α ε)) (e : Edge α ε) :
    worth decay (es ++ [e]) = if 0 < es.length then worth decay es * e.weight * decay else worth decay es * e.weight := by
  rw [worth, worth, List.map_append, List.prod_append, List.map_singleton, List.prod_singleton, List.length_append,
    List.length_singleton, Nat.add_sub_cancel]
  split_ifs with h
  · obtain ⟨n, hn⟩ := Nat.exists_eq_succ_of_ne_zero h.ne'
    rw [hn, Nat.succ_sub_one, pow_succ]
    ring
  · rw [Nat.eq_zero_of_not_pos h]
    ring

/-- Weights and decay are factors: none makes a path stronger. -/
structure Factors (adj : α → List (Edge α ε)) (decay : ℚ) : Prop where
  nonneg : ∀ x, ∀ e ∈ adj x, 0 ≤ e.weight
  le_one : ∀ x, ∀ e ∈ adj x, e.weight ≤ 1
  decay_pos : 0 < decay
  decay_le_one : decay ≤ 1

variable {adj : α → List (Edge α ε)} {decay : ℚ} {s x : α} {es : List (Edge α ε)}

lemma Path.eq_of_nil (h : Path adj s [] x) : x = s := by
  generalize hnil : ([] : List (Edge α ε)) = es at h
  cases h with
  | nil => rfl
  | snoc => simp at hnil

lemma Path.worth_bounds (hf : Factors adj decay) (h : Path adj s es x) : 0 ≤ worth decay es ∧ worth decay es ≤ 1 := by
  induction h with
  | nil => simp [worth_nil]
  | @snoc es x e hes he ih =>
    have hw := hf.nonneg x e he
    have hw1 := hf.le_one x e he
    have hstep : 0 ≤ worth decay es * e.weight ∧ worth decay es * e.weight ≤ 1 :=
      ⟨mul_nonneg ih.1 hw, mul_le_one₀ ih.2 hw hw1⟩
    rw [worth_snoc]
    split_ifs
    · exact ⟨mul_nonneg hstep.1 hf.decay_pos.le, mul_le_one₀ hstep.2 hf.decay_pos.le hf.decay_le_one⟩
    · exact hstep

lemma Path.worth_pos_of_snoc (hf : Factors adj decay) (h : Path adj s es x) {e : Edge α ε}
    (hpos : 0 < worth decay (es ++ [e])) : 0 < worth decay es := by
  refine lt_of_le_of_ne (h.worth_bounds hf).1 fun hzero => ?_
  rw [worth_snoc, ← hzero] at hpos
  simp at hpos

end

/-! ### The search -/

structure Item (α ε : Type) where
  node : α
  depth : ℕ
  strength : ℚ
  path : List α
  edges : List ε

structure Search (α ε σ : Type) where
  queue : List (Item α ε)
  best : Dict α ℚ
  acc : σ

/-- What is kept of the paths found, and which ends are let in, is up to `record` and `admits`. -/
structure Rules (α ε σ : Type) where
  adj : α → List (Edge α ε)
  maxDepth : ℕ
  decay : ℚ
  admits : σ → α → Bool
  record : σ → Item α ε → σ

section
variable {α ε σ : Type}

def begin (s : α) : Item α ε := ⟨s, 0, 1, [s], []⟩

def extend (decay : ℚ) (z : Item α ε) (e : Edge α ε) : Item α ε where
  node := e.target
  depth := z.depth + 1
  strength := if 1 < z.depth + 1 then z.strength * e.weight * decay else z.strength * e.weight
  path := z.path ++ [e.target]
  edges := z.edges ++ [e.label]

variable [DecidableEq α]

def relax (r : Rules α ε σ) (z : Item α ε) (st : Search α ε σ) (e : Edge α ε) : Search α ε σ :=
  let y := extend r.decay z e
  if y.strength ≤ (st.best.get y.node).getD 0 then st
  else if r.admits st.acc y.node then ⟨st.queue ++ [y], st.best.set y.node y.strength, r.record st.acc y⟩
  else st

def run (r : Rules α ε σ) : ℕ → Search α ε σ → Option (Search α ε σ)
  | 0, _ => none
  | fuel + 1, st =>
    match st.queue with
    | [] => some st
    | z :: queue =>
      if r.maxDepth ≤ z.depth then run r fuel { st with queue := queue }
      else run r fuel ((r.adj z.node).foldl (relax r z) { st with queue := queue })

def start (s : α) (acc : σ) : Search α ε σ := ⟨[begin s], Dict.set [] s 1, acc⟩

end

/-! ### What it finds -/

section
variable {α ε σ : Type}

/-- An item tells the path it came by. -/
def Tells (r : Rules α ε σ) (s : α) (y : Item α ε) : Prop :=
  ∃ es, Path r.adj s es y.node ∧ y.depth = es.length ∧ y.strength = worth r.decay es ∧
    y.path = s :: es.map Edge.target ∧ y.edges = es.map Edge.label

/-- What the search may put in its queue. -/
structure Found (r : Rules α ε σ) (s : α) (y : Item α ε) : Prop where
  away : y.node ≠ s
  pos : 0 < y.strength
  depth : y.depth ≤ r.maxDepth
  tells : Tells r s y

/-- Whatever has been found, no end is turned away. -/
def Open (r : Rules α ε σ) (s : α) (acc : σ) : Prop :=
  ∀ log : List (Item α ε), (∀ w ∈ log, Found r s w) → ∀ y, Found r s y → r.admits (log.foldl r.record acc) y.node = true

/-- One of the items is as good as `y`: no longer and as strong. -/
def Covered (items : List (Item α ε)) (y : Item α ε) : Prop :=
  y.strength ≤ 0 ∨ ∃ w ∈ items, w.node = y.node ∧ w.depth ≤ y.depth ∧ y.strength ≤ w.strength

variable {r : Rules α ε σ} {s : α} {y z : Item α ε} {items : List (Item α ε)}

lemma tells_begin : Tells r s (begin s) := ⟨[], .nil, rfl, (worth_nil _).symm, rfl, rfl⟩

lemma Tells.extend (h : Tells r s z) {e : Edge α ε} (he : e ∈ r.adj z.node) : Tells r s (extend r.decay z e) := by
  obtain ⟨es, hes, hd, hs, hp, hl⟩ := h
  refine ⟨es ++ [e], hes.snoc he, ?_, ?_, ?_, ?_⟩
  · simp [BestPath.extend, hd]
  · rw [worth_snoc, BestPath.extend, hs, hd]
    simp
  · simp [BestPath.extend, hp]
  · simp [BestPath.extend, hl]

lemma Tells.strength_le_one (hf : Factors r.adj r.decay) (h : Tells r s y) : y.strength ≤ 1 := by
  obtain ⟨es, hes, -, hs, -, -⟩ := h
  exact hs ▸ (hes.worth_bounds hf).2

lemma Covered.mono {items' : List (Item α ε)} (hsub : items ⊆ items') (h : Covered items y) : Covered items' y := by
  refine h.imp_right ?_
  rintro ⟨w, hw, hrest⟩
  exact ⟨w, hsub hw, hrest⟩

/-- A stronger item that is no longer has the stronger extensions. -/
lemma extend_strength_le {decay : ℚ} (hd : 0 < decay) (hd1 : decay ≤ 1) {es : List (Edge α ε)} {e : Edge α ε} (hw : 0 ≤ e.weight)
    (hworth : 0 ≤ worth decay es) (hdepth : z.depth ≤ es.length) (hle : worth decay es ≤ z.strength) :
    worth decay (es ++ [e]) ≤ (extend decay z e).strength := by
  have hstep : worth decay es * e.weight ≤ z.strength * e.weight := mul_le_mul_of_nonneg_right hle hw
  have hdecayed : worth decay es * e.weight * decay ≤ z.strength * e.weight * decay := mul_le_mul_of_nonneg_right hstep hd.le
  have hshrink : worth decay es * e.weight * decay ≤ worth decay es * e.weight := mul_le_of_le_one_right (mul_nonneg hworth hw) hd1
  rw [worth_snoc, extend]
  dsimp only
  split_ifs with hes hz hz
  · exact hdecayed
  · exact hshrink.trans hstep
  · omega
  · exact hstep

/-- Once every item's extensions are covered, every path is. -/
lemma covers_paths (hf : Factors r.adj r.decay) (hbegin : begin s ∈ items)
    (hcovered : ∀ z ∈ items, z.depth < r.maxDepth → ∀ e ∈ r.adj z.node, Covered items (extend r.decay z e))
    {es : List (Edge α ε)} {x : α} (h : Path r.adj s es x) (hlen : es.length ≤ r.maxDepth) (hpos : 0 < worth r.decay es) :
    ∃ y ∈ items, y.node = x ∧ y.depth ≤ es.length ∧ worth r.decay es ≤ y.strength := by
  induction h with
  | nil => exact ⟨begin s, hbegin, rfl, le_refl 0, (worth_nil _).le⟩
  | @snoc es x e hes he ih =>
    rw [List.length_append, List.length_singleton] at hlen
    have hprefix := hes.worth_pos_of_snoc hf hpos
    obtain ⟨z, hz, rfl, hdepth, hle⟩ := ih (by omega) hprefix
    have hext := extend_strength_le hf.decay_pos hf.decay_le_one (hf.nonneg _ e he) hprefix.le hdepth hle
    rcases hcovered z hz (by omega) e he with hzero | ⟨w, hw, hnode, hwd, hws⟩
    · exact absurd (hpos.trans_le (hext.trans hzero)) (lt_irrefl 0)
    · refine ⟨w, hw, hnode, ?_, hext.trans hws⟩
      rw [List.length_append, List.length_singleton]
      exact hwd.trans (Nat.succ_le_succ hdepth)

variable [DecidableEq α]

/-- What holds while items of depth `d` are taken from the queue: `done` have been taken, `log` have been put in it. -/
structure Sound (r : Rules α ε σ) (s : α) (acc : σ) (d : ℕ) (done log : List (Item α ε)) (st : Search α ε σ) : Prop where
  items : done ++ st.queue = begin s :: log
  acc : st.acc = log.foldl r.record acc
  found : ∀ y ∈ log, Found r s y
  sorted : st.queue.Pairwise fun y z => y.depth ≤ z.depth
  upper : ∀ y ∈ begin s :: log, y.depth ≤ d + 1
  lower : ∀ y ∈ st.queue, d ≤ y.depth
  best : ∀ x q, st.best.get x = some q → ∃ y ∈ begin s :: log, y.node = x ∧ y.strength = q
  begun : (st.best.get s).getD 0 = 1

variable {acc : σ} {d : ℕ} {done log : List (Item α ε)} {st : Search α ε σ}

lemma sound_start (r : Rules α ε σ) (s : α) (acc : σ) : Sound r s acc 0 [] [] (start s acc) where
  items := rfl
  acc := rfl
  found := by simp
  sorted := List.pairwise_singleton _ _
  upper := by simp [begin]
  lower := by simp
  best x q hq := by
    rw [start, Dict.get_set] at hq
    split_ifs at hq with hx
    · exact ⟨begin s, List.mem_cons_self, hx, Option.some.inj hq⟩
    · exact absurd hq (Option.some_ne_none q).symm
  begun := by rw [start, Dict.get_set_self]; rfl

lemma Sound.tells_all (h : Sound r s acc d done log st) {y : Item α ε} (hy : y ∈ begin s :: log) : Tells r s y := by
  rcases List.mem_cons.mp hy with rfl | hy
  · exact tells_begin
  · exact (h.found y hy).tells

lemma Sound.pop {queue : List (Item α ε)} (h : Sound r s acc d done log st) (hq : st.queue = z :: queue) :
    Sound r s acc z.depth (done ++ [z]) log { st with queue := queue } where
  items := by rw [← h.items, hq]; simp
  acc := h.acc
  found := h.found
  sorted := (List.pairwise_cons.mp (hq ▸ h.sorted)).2
  upper y hy := (h.upper y hy).trans (Nat.succ_le_succ (h.lower z (hq ▸ List.mem_cons_self)))
  lower := (List.pairwise_cons.mp (hq ▸ h.sorted)).1
  best := h.best
  begun := h.begun

/-- A path that is stronger than what is known of its end has some strength, and does not lead back to the start. -/
lemma Sound.stronger (hf : Factors r.adj r.decay) (h : Sound r s acc d done log st) (hy : Tells r s y)
    (hbest : (st.best.get y.node).getD 0 < y.strength) : 0 < y.strength ∧ y.node ≠ s := by
  constructor
  · refine lt_of_le_of_lt ?_ hbest
    cases hx : st.best.get y.node with
    | none => exact le_refl 0
    | some q =>
      obtain ⟨w, hw, -, rfl⟩ := h.best _ q hx
      obtain ⟨es, hes, -, hs, -, -⟩ := h.tells_all hw
      exact hs ▸ (hes.worth_bounds hf).1
  · rintro hs
    rw [hs, h.begun] at hbest
    exact absurd hbest (not_lt.mpr (hy.strength_le_one hf))

lemma Sound.relax (hf : Factors r.adj r.decay) (hopen : Open r s acc) (h : Sound r s acc d done log st) (hz : z ∈ begin s :: log)
    (hd : z.depth = d) (hlt : z.depth < r.maxDepth) {e : Edge α ε} (he : e ∈ r.adj z.node) :
    ∃ new, Sound r s acc d done (log ++ new) (relax r z st e) ∧ Covered (begin s :: (log ++ new)) (extend r.decay z e) := by
  have htells := (h.tells_all hz).extend he
  have hdepth : (extend r.decay z e).depth = d + 1 := congrArg Nat.succ hd
  rw [BestPath.relax]
  generalize extend r.decay z e = y at htells hdepth
  split_ifs with hbest hadmits
  · refine ⟨[], by rwa [List.append_nil], ?_⟩
    rw [List.append_nil]
    cases hx : st.best.get y.node with
    | none => exact Or.inl (by rwa [hx] at hbest)
    | some q =>
      obtain ⟨w, hw, hnode, rfl⟩ := h.best _ q hx
      rw [hx] at hbest
      exact Or.inr ⟨w, hw, hnode, hdepth ▸ h.upper w hw, hbest⟩
  · obtain ⟨hpos, hne⟩ := h.stronger hf htells (not_le.mp hbest)
    refine ⟨[y], ⟨?_, ?_, ?_, ?_, ?_, ?_, ?_, ?_⟩, Or.inr ⟨y, by simp, rfl, le_refl _, le_refl _⟩⟩
    · rw [← List.append_assoc, h.items, List.cons_append]
    · rw [List.foldl_append, ← h.acc]
      rfl
    · intro w hw
      rcases List.mem_append.mp hw with hw | hw
      · exact h.found w hw
      · obtain rfl := List.mem_singleton.mp hw
        exact ⟨hne, hpos, by omega, htells⟩
    · rw [List.pairwise_append]
      refine ⟨h.sorted, List.pairwise_singleton _ _, fun w hw v hv => ?_⟩
      obtain rfl := List.mem_singleton.mp hv
      have hin : w ∈ begin s :: log := h.items ▸ List.mem_append_right _ hw
      exact hdepth ▸ h.upper w hin
    · intro w hw
      rcases List.mem_append.mp ((List.cons_append ..).symm ▸ hw) with hw | hw
      · exact h.upper w hw
      · obtain rfl := List.mem_singleton.mp hw
        exact hdepth.le
    · intro w hw
      rcases List.mem_append.mp hw with hw | hw
      · exact h.lower w hw
      · obtain rfl := List.mem_singleton.mp hw
        exact hdepth ▸ Nat.le_succ d
    · intro x q hq
      rw [Dict.get_set] at hq
      split_ifs at hq with hx
      · exact ⟨y, by simp, hx, Option.some.inj hq⟩
      · obtain ⟨w, hw, hrest⟩ := h.best x q hq
        exact ⟨w, List.mem_append_left [y] hw, hrest⟩
    · rw [Dict.get_set_ne _ hne]
      exact h.begun
  · obtain ⟨hpos, hne⟩ := h.stronger hf htells (not_le.mp hbest)
    exact absurd (h.acc ▸ hopen log h.found y ⟨hne, hpos, by omega, htells⟩) hadmits

lemma Sound.visit (hf : Factors r.adj r.decay) (hopen : Open r s acc) {edges : List (Edge α ε)}
    (hsub : ∀ e ∈ edges, e ∈ r.adj z.node) (h : Sound r s acc d done log st) (hz : z ∈ begin s :: log) (hd : z.depth = d)
    (hlt : z.depth < r.maxDepth) :
    ∃ new, Sound r s acc d done (log ++ new) (edges.foldl (BestPath.relax r z) st) ∧
      ∀ e ∈ edges, Covered (begin s :: (log ++ new)) (BestPath.extend r.decay z e) := by
  induction edges generalizing log st with
  | nil => exact ⟨[], by rwa [List.append_nil], by simp⟩
  | cons e edges ih =>
    obtain ⟨new, hnew, hcovered⟩ := h.relax hf hopen hz hd hlt (hsub e List.mem_cons_self)
    have hz' : z ∈ begin s :: (log ++ new) := List.mem_append_left new hz
    obtain ⟨more, hmore, hrest⟩ := ih (fun e he => hsub e (List.mem_cons_of_mem _ he)) hnew hz'
    rw [List.append_assoc] at hmore hrest
    refine ⟨new ++ more, hmore, fun f hf => ?_⟩
    rcases List.mem_cons.mp hf with rfl | hf
    · refine hcovered.mono fun w hw => ?_
      rw [← List.append_assoc]
      exact List.mem_append_left more hw
    · exact hrest f hf

/-! ### How long it takes -/

/-- The turns that an item `k` steps from the last depth can cause. -/
def turns (n : ℕ) : ℕ → ℕ
  | 0 => 1
  | k + 1 => 1 + n * turns n k

def turnsLeft (r : Rules α ε σ) (n : ℕ) (queue : List (Item α ε)) : ℕ :=
  (queue.map fun y => turns n (r.maxDepth - y.depth)).sum

omit [DecidableEq α] in
lemma turns_pos (n k : ℕ) : 0 < turns n k := by
  cases k with
  | zero => exact Nat.one_pos
  | succ k => exact Nat.add_pos_left Nat.one_pos _

lemma turnsLeft_visit (r : Rules α ε σ) (n : ℕ) (z : Item α ε) (edges : List (Edge α ε)) (st : Search α ε σ) :
    turnsLeft r n (edges.foldl (relax r z) st).queue ≤
      turnsLeft r n st.queue + edges.length * turns n (r.maxDepth - (z.depth + 1)) := by
  induction edges generalizing st with
  | nil => simp
  | cons e edges ih =>
    have hone : turnsLeft r n (relax r z st e).queue ≤ turnsLeft r n st.queue + turns n (r.maxDepth - (z.depth + 1)) := by
      rw [relax]
      split_ifs
      · exact Nat.le_add_right _ _
      · simp [turnsLeft, BestPath.extend]
      · exact Nat.le_add_right _ _
    calc turnsLeft r n ((e :: edges).foldl (relax r z) st).queue
        ≤ turnsLeft r n (relax r z st e).queue + edges.length * turns n (r.maxDepth - (z.depth + 1)) := ih _
      _ ≤ turnsLeft r n st.queue + (e :: edges).length * turns n (r.maxDepth - (z.depth + 1)) := by
        rw [List.length_cons, Nat.succ_mul]
        omega

/-- The items that are put in the queue are found paths, and every path of some strength is no stronger and no shorter than
one of them. -/
structure Complete (r : Rules α ε σ) (s : α) (log : List (Item α ε)) : Prop where
  found : ∀ y ∈ log, Found r s y
  covers : ∀ z ∈ begin s :: log, z.depth < r.maxDepth →
    ∀ e ∈ r.adj z.node, Covered (begin s :: log) (BestPath.extend r.decay z e)

/-- Induction on the fuel. Every turn takes an item, and covers what leads on from it. -/
lemma Sound.run {n : ℕ} (hf : Factors r.adj r.decay) (hn : ∀ x, (r.adj x).length ≤ n) (hopen : Open r s acc) {fuel : ℕ}
    (hfuel : turnsLeft r n st.queue < fuel) (h : Sound r s acc d done log st)
    (hdone : ∀ z ∈ done, z.depth < r.maxDepth → ∀ e ∈ r.adj z.node, Covered (begin s :: log) (BestPath.extend r.decay z e)) :
    ∃ log st', BestPath.run r fuel st = some st' ∧ st'.acc = log.foldl r.record acc ∧ Complete r s log := by
  induction fuel generalizing st d done log with
  | zero => exact absurd hfuel (Nat.not_lt_zero _)
  | succ fuel ih =>
    rw [BestPath.run]
    cases hq : st.queue with
    | nil =>
      have hitems := h.items
      rw [hq, List.append_nil] at hitems
      exact ⟨log, st, rfl, h.acc, h.found, hitems ▸ hdone⟩
    | cons z queue =>
      have hpop := h.pop hq
      have hz : z ∈ begin s :: log := h.items ▸ List.mem_append_right _ (hq ▸ List.mem_cons_self)
      have hleft : turnsLeft r n queue + turns n (r.maxDepth - z.depth) < fuel + 1 := by
        rw [hq, turnsLeft, List.map_cons, List.sum_cons, Nat.add_comm] at hfuel
        exact hfuel
      dsimp only
      split_ifs with hlast
      · have hpos := turns_pos n (r.maxDepth - z.depth)
        refine ih (show turnsLeft r n { st with queue := queue }.queue < fuel by dsimp only; omega) hpop fun w hw hwd => ?_
        rcases List.mem_append.mp hw with hw | hw
        · exact hdone w hw hwd
        · obtain rfl := List.mem_singleton.mp hw
          exact absurd hwd (not_lt.mpr hlast)
      · obtain ⟨new, hnew, hcovered⟩ := hpop.visit hf hopen (fun e he => he) hz rfl (not_le.mp hlast)
        have hvisit := turnsLeft_visit r n z (r.adj z.node) { st with queue := queue }
        have hturns : turns n (r.maxDepth - z.depth) = 1 + n * turns n (r.maxDepth - (z.depth + 1)) := by
          obtain ⟨k, hk⟩ := Nat.exists_eq_add_of_lt (not_le.mp hlast)
          rw [show r.maxDepth - z.depth = k + 1 by omega, show r.maxDepth - (z.depth + 1) = k by omega, turns]
        have hmany := Nat.mul_le_mul_right (turns n (r.maxDepth - (z.depth + 1))) (hn z.node)
        dsimp only at hvisit
        refine ih (by omega) hnew fun w hw hwd => ?_
        rcases List.mem_append.mp hw with hw | hw
        · exact fun e he => (hdone w hw hwd e he).mono fun v hv => List.mem_append_left new hv
        · obtain rfl := List.mem_singleton.mp hw
          exact hcovered

lemma run_mono {fuel fuel' : ℕ} {st' : Search α ε σ} (hle : fuel ≤ fuel') (h : run r fuel st = some st') : run r fuel' st = some st' := by
  induction fuel generalizing fuel' st with
  | zero => cases h
  | succ fuel ih =>
    obtain ⟨more, rfl⟩ := Nat.exists_eq_add_of_le' hle
    rw [show more + (fuel + 1) = more + fuel + 1 by omega]
    rw [BestPath.run] at h ⊢
    cases hq : st.queue with
    | nil =>
      rw [hq] at h
      exact h
    | cons z queue =>
      rw [hq] at h
      dsimp only at h ⊢
      split_ifs at h ⊢ <;> exact ih (Nat.le_add_left _ _) h

lemma run_complete {n : ℕ} (hf : Factors r.adj r.decay) (hn : ∀ x, (r.adj x).length ≤ n) (hopen : Open r s acc) :
    ∃ log st, (∀ fuel > turns n r.maxDepth, run r fuel (start s acc) = some st) ∧ st.acc = log.foldl r.record acc ∧
      Complete r s log := by
  have hleft : turnsLeft r n (start s acc : Search α ε σ).queue < turns n r.maxDepth + 1 := by simp [turnsLeft, start, begin]
  obtain ⟨log, st, hrun, hacc, hcomplete⟩ := (sound_start r s acc).run hf hn hopen hleft (by simp)
  exact ⟨log, st, fun fuel hfuel => run_mono hfuel hrun, hacc, hcomplete⟩

omit [DecidableEq α] in
lemma Complete.covers_path (hf : Factors r.adj r.decay) (h : Complete r s log) {es : List (Edge α ε)} {x : α}
    (hpath : Path r.adj s es x) (hlen : es.length ≤ r.maxDepth) (hpos : 0 < worth r.decay es) (hx : x ≠ s) :
    ∃ y ∈ log, y.node = x ∧ worth r.decay es ≤ y.strength := by
  obtain ⟨y, hy, hnode, -, hle⟩ := covers_paths hf List.mem_cons_self h.covers hpath hlen hpos
  rcases List.mem_cons.mp hy with rfl | hy
  · exact absurd hnode.symm hx
  · exact ⟨y, hy, hnode, hle⟩

end

end ContinuityLedger.Foundations.BestPath
