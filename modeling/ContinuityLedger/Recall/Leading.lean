import ContinuityLedger.Recall.Abstention

/-! Which candidates can lead the ranking, and when the decision depends on which of them does. -/

namespace ContinuityLedger.Recall

open Foundations Records

/-- A candidate that comes first in some order: none scores higher, and where another hash scores as high, one of its
candidates with that score has no smaller id. -/
def Leads (scored : List Scored) (s : Scored) : Prop :=
  s ∈ scored ∧ (∀ t ∈ scored, t.2.gateA ≤ s.2.gateA) ∧ ∀ t ∈ scored, t.2.gateA = s.2.gateA → hashKey t ≠ hashKey s →
    ∃ u ∈ scored, hashKey u = hashKey t ∧ u.2.gateA = s.2.gateA ∧ s.1.id ≤ u.1.id

/-- All that can lead lie on one side of the floor for the alignment, where it comes to that. -/
def Settled (config : AbstentionConfig) (enforce : Bool) (scored : List Scored) : Prop :=
  enforce = true → ∀ s t, Leads scored s → Leads scored t → config.minTopScore ≤ s.2.gateA →
    (s.2.Q < config.minTopQueryAlignment ↔ t.2.Q < config.minTopQueryAlignment)

lemma Leads.gateA_eq {scored : List Scored} {s t : Scored} (hs : Leads scored s) (ht : Leads scored t) :
    s.2.gateA = t.2.gateA :=
  le_antisymm (ht.2.1 s hs.1) (hs.2.1 t ht.1)

lemma Alike.leads {scored scored' : List Scored} (h : Alike scored scored') {s : Scored} (hs : Leads scored s) :
    ∃ t, Leads scored' t ∧ view t = view s := by
  obtain ⟨hmem, hall, hties⟩ := hs
  obtain ⟨t, ht, hview⟩ := h.mem hmem
  refine ⟨t, ⟨ht, fun u hu => ?_, fun u hu hgate hkey => ?_⟩, hview⟩
  · obtain ⟨v, hv, hvu⟩ := Alike.mem h.symm hu
    rw [← gateA_view hvu, gateA_view hview]
    exact hall v hv
  · obtain ⟨v, hv, hvu⟩ := Alike.mem h.symm hu
    rw [← gateA_view hvu, gateA_view hview] at hgate
    rw [← hashKey_view hvu, hashKey_view hview] at hkey
    obtain ⟨w, hw, hwk, hwg, hid⟩ := hties v hv hgate hkey
    obtain ⟨x, hx, hxw⟩ := h.mem hw
    refine ⟨x, hx, (hashKey_view hxw).trans (hwk.trans (hashKey_view hvu)), ?_, ?_⟩
    · rw [gateA_view hxw, hwg, gateA_view hview]
    · rw [id_view hxw, id_view hview]
      exact hid

/-! ### What comes first leads -/

lemma mem_ranked {scored : List Scored} {s : Scored} : s ∈ ranked scored ↔ ∃ k, (bestByHash scored).get k = some s := by
  have hkeyed := (keeps_bestByHash scored).keyed
  rw [ranked, List.mem_mergeSort]
  constructor
  · intro h
    obtain ⟨⟨k, s⟩, hs, rfl⟩ := List.mem_map.mp h
    exact ⟨k, (Dict.mem_iff_get hkeyed).mp hs⟩
  · rintro ⟨k, hk⟩
    exact List.mem_map.mpr ⟨(k, s), Dict.get_mem hk, rfl⟩

lemma rankKey_le {s t : Scored} (h : rankKey s ≤ rankKey t) :
    t.2.gateA ≤ s.2.gateA ∧ (t.2.gateA = s.2.gateA → s.1.id ≤ t.1.id) := by
  rcases Prod.Lex.le_iff.mp h with hlt | ⟨heq, hid⟩
  · have hgate : t.2.gateA < s.2.gateA := neg_lt_neg_iff.mp hlt
    exact ⟨hgate.le, fun h => absurd h hgate.ne⟩
  · exact ⟨(neg_inj.mp heq).ge, fun _ => hid⟩

lemma leads_of_first {scored : List Scored} {s : Scored} (h : (ranked scored)[0]? = some s) : Leads scored s := by
  have hkeeps := keeps_bestByHash scored
  obtain ⟨rest, hrest⟩ : ∃ rest, ranked scored = s :: rest := by
    cases hr : ranked scored with
    | nil => rw [hr] at h; cases h
    | cons t rest =>
      rw [hr] at h
      exact ⟨rest, by rw [Option.some.inj h]⟩
  have hsort : (ranked scored).Pairwise fun a b => rankKey a ≤ rankKey b := Listing.mergeSort_pairwise rankKey _
  rw [hrest] at hsort
  have hfirst : ∀ k c, (bestByHash scored).get k = some c → rankKey s ≤ rankKey c := by
    intro k c hc
    have hmem : c ∈ ranked scored := mem_ranked.mpr ⟨k, hc⟩
    rw [hrest] at hmem
    rcases List.mem_cons.mp hmem with rfl | hmem
    · exact le_refl _
    · exact (List.pairwise_cons.mp hsort).1 c hmem
  obtain ⟨k, hk⟩ := mem_ranked.mp (hrest ▸ List.mem_cons_self : s ∈ ranked scored)
  refine ⟨(hkeeps.mem k s hk).1, fun t ht => ?_, fun t ht hgate hkey => ?_⟩
  · obtain ⟨c, hc, hle⟩ := hkeeps.le t ht
    exact hle.trans (rankKey_le (hfirst _ c hc)).1
  · obtain ⟨c, hc, hle⟩ := hkeeps.le t ht
    obtain ⟨hmem, hck⟩ := hkeeps.mem _ c hc
    obtain ⟨hge, hid⟩ := rankKey_le (hfirst _ c hc)
    have heq : c.2.gateA = s.2.gateA := le_antisymm hge (hgate ▸ hle)
    exact ⟨c, hmem, hck, heq, hid heq⟩

/-! ### What leads can come first -/

/-- A best candidate at the front keeps the first place of the dictionary. -/
lemma foldl_first (best : Dict String Scored) {s : Scored} (rest : List Scored) (h : ∀ t ∈ rest, t.2.gateA ≤ s.2.gateA) :
    ∃ best', rest.foldl keepBest ((hashKey s, s) :: best) = (hashKey s, s) :: best' := by
  induction rest generalizing best with
  | nil => exact ⟨best, rfl⟩
  | cons t rest ih =>
    have ht := h t List.mem_cons_self
    obtain ⟨best₁, h₁⟩ : ∃ best₁, keepBest ((hashKey s, s) :: best) t = (hashKey s, s) :: best₁ := by
      by_cases hkey : hashKey s = hashKey t
      · have hget : Dict.get ((hashKey s, s) :: best) (hashKey t) = some s := by
          rw [← hkey, Dict.get, KeyedTable.row, List.find?_cons_of_pos (by simp)]
          rfl
        refine ⟨best, ?_⟩
        rw [keepBest, hget]
        exact if_neg (not_lt.mpr ht)
      · have hget : Dict.get ((hashKey s, s) :: best) (hashKey t) = best.get (hashKey t) := by
          rw [Dict.get, KeyedTable.row, List.find?_cons_of_neg (by simpa using hkey)]
          rfl
        rw [keepBest, hget]
        cases best.get (hashKey t) with
        | none => exact ⟨_, Dict.set_cons hkey t⟩
        | some current =>
          dsimp only
          split_ifs
          · exact ⟨_, Dict.set_cons hkey t⟩
          · exact ⟨best, rfl⟩
    rw [List.foldl_cons, h₁]
    exact ih best₁ fun u hu => h u (List.mem_cons_of_mem _ hu)

/-- What is kept of a hash stays where no later candidate of it scores higher. -/
lemma foldl_kept {best : Dict String Scored} {k : String} {c : Scored} (hget : best.get k = some c) (rest : List Scored)
    (h : ∀ t ∈ rest, hashKey t = k → t.2.gateA ≤ c.2.gateA) : (rest.foldl keepBest best).get k = some c := by
  induction rest generalizing best with
  | nil => exact hget
  | cons t rest ih =>
    refine ih ?_ fun u hu => h u (List.mem_cons_of_mem _ hu)
    rw [keepBest]
    by_cases hk : hashKey t = k
    · rw [hk, hget]
      dsimp only
      rw [if_neg (not_lt.mpr (h t List.mem_cons_self hk))]
      exact hget
    · cases best.get (hashKey t) with
      | none => rw [Dict.get_set_ne _ hk, hget]
      | some current =>
        dsimp only
        split_ifs
        · rw [Dict.get_set_ne _ hk, hget]
        · exact hget

lemma first_of_le {s : Scored} {vs : List Scored} (h : ∀ t ∈ vs, rankKey s ≤ rankKey t) :
    ((s :: vs).mergeSort fun a b => rankKey a ≤ rankKey b)[0]? = some s := by
  obtain ⟨before, after, hsort, hrest, hbefore⟩ := @List.mergeSort_cons Scored (fun a b => decide (rankKey a ≤ rankKey b))
    (fun a b c hab hbc => decide_eq_true ((of_decide_eq_true hab).trans (of_decide_eq_true hbc)))
    (fun a b => by simpa using le_total (rankKey a) (rankKey b)) s vs
  have hnil : before = [] := by
    refine List.eq_nil_iff_forall_not_mem.mpr fun t ht => ?_
    have hmem : t ∈ vs := (List.mergeSort_perm vs _).mem_iff.mp (hrest ▸ List.mem_append_left _ ht)
    have hlt := hbefore t ht
    rw [decide_eq_true (h t hmem)] at hlt
    cases hlt
  rw [hsort, hnil]
  rfl

/-- An order in which a candidate that leads comes first: itself, then all that may tie with it behind it. -/
lemma exists_first {scored : List Scored} {s : Scored} (h : Leads scored s) :
    ∃ scored', scored'.Perm scored ∧ (ranked scored')[0]? = some s := by
  obtain ⟨hmem, hall, hties⟩ := h
  obtain ⟨before, after, rfl⟩ := List.append_of_mem hmem
  let behind (t : Scored) : Bool := t.2.gateA = s.2.gateA ∧ s.1.id ≤ t.1.id
  let front := (before ++ after).filter behind
  let rest := (before ++ after).filter fun t => !behind t
  have hperm : (s :: (front ++ rest)).Perm (before ++ s :: after) :=
    ((List.filter_append_perm behind (before ++ after)).cons s).trans List.perm_middle.symm
  have hle : ∀ t ∈ s :: (front ++ rest), t.2.gateA ≤ s.2.gateA := fun t ht => hall t (hperm.mem_iff.mp ht)
  obtain ⟨best', hbest⟩ := foldl_first [] (front ++ rest) fun t ht => hle t (List.mem_cons_of_mem _ ht)
  have hdict : bestByHash (s :: (front ++ rest)) = (hashKey s, s) :: best' := hbest
  refine ⟨s :: (front ++ rest), hperm, ?_⟩
  rw [ranked, hdict, List.map_cons]
  refine first_of_le fun t ht => ?_
  obtain ⟨⟨k, t⟩, hkt, rfl⟩ := List.mem_map.mp ht
  have hkeeps := keeps_bestByHash (s :: (front ++ rest))
  have hget : (bestByHash (s :: (front ++ rest))).get k = some t :=
    (Dict.mem_iff_get hkeeps.keyed).mp (hdict ▸ List.mem_cons_of_mem _ hkt)
  obtain ⟨htmem, rfl⟩ := hkeeps.mem k t hget
  rcases lt_or_eq_of_le (hle t htmem) with hlt | heq
  · exact Prod.Lex.le_iff.mpr (Or.inl (neg_lt_neg hlt))
  · refine Prod.Lex.le_iff.mpr (Or.inr ⟨congrArg Neg.neg heq.symm, ?_⟩)
    by_cases hkey : hashKey t = hashKey s
    · have hself : (bestByHash (s :: (front ++ rest))).get (hashKey s) = some s := by
        rw [hdict, Dict.get, KeyedTable.row, List.find?_cons_of_pos (by simp)]
        rfl
      rw [hkey, hself] at hget
      rw [← Option.some.inj hget]
    · obtain ⟨u, hu, huk, hug, hid⟩ := hties t (hperm.mem_iff.mp htmem) heq hkey
      have hfront : u ∈ s :: front := by
        rcases List.mem_cons.mp (hperm.mem_iff.mpr hu) with rfl | hu
        · exact List.mem_cons_self
        · refine List.mem_cons_of_mem _ (List.mem_filter.mpr ⟨?_, decide_eq_true ⟨hug, hid⟩⟩)
          exact (List.filter_append_perm behind (before ++ after)).mem_iff.mp hu
      -- the first part has a candidate of this hash with the best score, so the kept one is of the first part
      obtain ⟨c, hc, hcle⟩ := (keeps_bestByHash (s :: front)).le u hfront
      rw [huk] at hc
      obtain ⟨hcmem, hck⟩ := (keeps_bestByHash (s :: front)).mem _ c hc
      have hkept : (bestByHash (s :: (front ++ rest))).get (hashKey t) = some c := by
        rw [bestByHash, ← List.cons_append, List.foldl_append]
        exact foldl_kept hc rest fun v hv _ => (hle v (List.mem_cons_of_mem _ (List.mem_append_right _ hv))).trans (hug ▸ hcle)
      rw [hget] at hkept
      obtain rfl := Option.some.inj hkept
      rcases List.mem_cons.mp hcmem with rfl | hcmem
      · exact le_refl _
      · exact (of_decide_eq_true (List.mem_filter.mp hcmem).2).2

/-! ### The decision -/

lemma getElem?_scores (scored : List Scored) (i : ℕ) : ((ranked scored)[i]?).map (·.2.gateA) = (scores scored)[i]? :=
  List.getElem?_map.symm

lemma assess_congr {config : AbstentionConfig} {enforce : Bool} {scored scored' : List Scored}
    (hscores : scores scored = scores scored')
    (hQ : enforce = true → ∀ s t, (ranked scored)[0]? = some s → (ranked scored')[0]? = some t →
      config.minTopScore ≤ s.2.gateA → (s.2.Q < config.minTopQueryAlignment ↔ t.2.Q < config.minTopQueryAlignment)) :
    assessAbstention scored config enforce = assessAbstention scored' config enforce := by
  have htop : ((ranked scored)[0]?).map (·.2.gateA) = ((ranked scored')[0]?).map (·.2.gateA) := by
    rw [getElem?_scores, getElem?_scores, hscores]
  have hrunner : ((ranked scored)[1]?).map (·.2.gateA) = ((ranked scored')[1]?).map (·.2.gateA) := by
    rw [getElem?_scores, getElem?_scores, hscores]
  have hsome : ((ranked scored)[1]?).isSome = ((ranked scored')[1]?).isSome := by
    rw [← Option.isSome_map (f := fun s : Scored => s.2.gateA), hrunner, Option.isSome_map]
  simp only [assessAbstention, htop, hrunner, hsome]
  refine congrArg (fun r => Assessment.mk r _ _ _ _) ?_
  cases enforce with
  | false => rfl
  | true =>
    simp only [Bool.not_true, Bool.false_eq_true, if_false]
    cases hs : (ranked scored)[0]? with
    | none =>
      rw [hs] at htop
      rw [Option.map_eq_none_iff.mp htop.symm]
    | some s =>
      rw [hs] at htop
      obtain ⟨t, ht, hgate⟩ := Option.map_eq_some_iff.mp htop.symm
      rw [ht]
      dsimp only
      rw [hgate]
      by_cases hfloor : s.2.gateA < config.minTopScore
      · rw [if_pos hfloor, if_pos hfloor]
      · rw [if_neg hfloor, if_neg hfloor, if_congr (hQ rfl s t hs ht (not_lt.mp hfloor)) rfl rfl]

lemma Settled.assess {config : AbstentionConfig} {enforce : Bool} {scored scored' : List Scored}
    (h : Settled config enforce scored) (halike : Alike scored' scored) :
    assessAbstention scored' config enforce = assessAbstention scored config enforce := by
  refine (assess_congr (Alike.scores_eq halike.symm) fun he s t hs ht hfloor => ?_).symm
  obtain ⟨u, hu, hview⟩ := halike.leads (leads_of_first ht)
  rw [← Q_view hview]
  exact h he s u (leads_of_first hs) hu hfloor

lemma reason_of_first {config : AbstentionConfig} {scored : List Scored} {s : Scored} (hs : (ranked scored)[0]? = some s)
    (hfloor : config.minTopScore ≤ s.2.gateA) :
    (assessAbstention scored config true).reason = some .queryAlignmentBelowFloor ↔ s.2.Q < config.minTopQueryAlignment := by
  simp only [assessAbstention, hs, Bool.not_true, Bool.false_eq_true, if_false, if_neg (not_lt.mpr hfloor)]
  split_ifs with hQ
  · exact iff_of_true rfl hQ
  · exact iff_of_false (by simp) hQ
  · exact iff_of_false (by simp) hQ

/-- What decides alike in every order has its leaders on one side. -/
lemma settled_of_reason {config : AbstentionConfig} {enforce : Bool} {scored : List Scored} {reason : Option AbstentionReason}
    (h : ∀ scored', Alike scored' scored → (assessAbstention scored' config enforce).reason = reason) :
    Settled config enforce scored := by
  rintro rfl s t hs ht hfloor
  obtain ⟨ss, hsperm, hsfirst⟩ := exists_first hs
  obtain ⟨ts, htperm, htfirst⟩ := exists_first ht
  rw [← reason_of_first hsfirst hfloor, ← reason_of_first htfirst (hs.gateA_eq ht ▸ hfloor), h ss (hsperm.map view),
    h ts (htperm.map view)]

lemma bestByHash_snoc {scored : List Scored} {s : Scored} (h : ∃ t ∈ scored, hashKey t = hashKey s ∧ s.2.gateA ≤ t.2.gateA) :
    bestByHash (scored ++ [s]) = bestByHash scored := by
  obtain ⟨t, ht, hkey, hle⟩ := h
  obtain ⟨c, hc, hcle⟩ := (keeps_bestByHash scored).le t ht
  have hfold : bestByHash (scored ++ [s]) = keepBest (bestByHash scored) s := List.foldl_append
  rw [hfold, keepBest, ← hkey, hc]
  exact if_neg (not_lt.mpr (hle.trans hcle))

/-- The assessment is that of the evidence alone, whatever its order, exactly where all candidates that can lead lie on one
side of the floor for the alignment; a candidate that is no better than another of its hash changes nothing at the end, and
nowhere exactly where the same holds with it. -/
theorem assessment_undisturbed_iff (config : AbstentionConfig) (enforce : Bool) (scored : List Scored) :
    ((∀ scored', Alike scored' scored → assessAbstention scored' config enforce = assessAbstention scored config enforce) ↔
      Settled config enforce scored) ∧
    ∀ s : Scored, (∃ t ∈ scored, hashKey t = hashKey s ∧ s.2.gateA ≤ t.2.gateA) →
      assessAbstention (scored ++ [s]) config enforce = assessAbstention scored config enforce ∧
      ((∀ scored', Alike scored' (scored ++ [s]) →
        (assessAbstention scored' config enforce).reason = (assessAbstention scored config enforce).reason) ↔
        Settled config enforce (scored ++ [s])) := by
  refine ⟨⟨fun h => settled_of_reason fun scored' ha => congrArg Assessment.reason (h scored' ha),
    fun h scored' ha => h.assess ha⟩, fun s hs => ?_⟩
  have hranked : ranked (scored ++ [s]) = ranked scored := by rw [ranked, bestByHash_snoc hs, ranked]
  have hsnoc : assessAbstention (scored ++ [s]) config enforce = assessAbstention scored config enforce := by
    simp only [assessAbstention, hranked]
  refine ⟨hsnoc, settled_of_reason, fun h scored' ha => ?_⟩
  rw [h.assess ha, hsnoc]

/-! ### Two records with one content -/

def noted (id : String) : MemoryRecord String :=
  ⟨id, "the gateway listens on 8080", "2026-10-01T00:00:00+00:00", "2026-10-01T00:00:00+00:00", "operator", "s-1", .fact,
    ⟨5, 1⟩, [], none, .draft, none, [], 1, "9f86d081884c7d65"⟩

def evidenced (id : String) (Q P : ℚ) : Scored := (noted id, ⟨Q, P, Q * P, Q * P, Q * P, 0, 0, none, [], []⟩)

/-- Of two records with one content and one score, the one that comes first decides. -/
def tied : List Scored := [evidenced "mem-a" (1 / 2) (1 / 5), evidenced "mem-b" (1 / 8) (4 / 5)]

def defaultConfig : AbstentionConfig := ⟨2 / 25, 1 / 5, 1 / 2000, 1 / 200⟩

lemma tied_leads : ∀ s ∈ tied, Leads tied s := by
  have hgate : ∀ s ∈ tied, s.2.gateA = 1 / 10 := by
    simp only [tied, List.forall_mem_cons, List.not_mem_nil, false_implies, implies_true, and_true, evidenced]
    norm_num
  have hkey : ∀ s ∈ tied, hashKey s = "9f86d081884c7d65" := by
    simp only [tied, List.forall_mem_cons, List.not_mem_nil, false_implies, implies_true, and_true]
    decide
  intro s hs
  refine ⟨hs, fun t ht => ?_, fun t ht _ hne => absurd ((hkey t ht).trans (hkey s hs).symm) hne⟩
  rw [hgate t ht, hgate s hs]

/-- The assessment depends on the order of candidates with one content. -/
theorem tied_disturbed : ¬ ∀ (config : AbstentionConfig) (enforce : Bool) (scored scored' : List Scored),
    Alike scored' scored → assessAbstention scored' config enforce = assessAbstention scored config enforce := by
  intro h
  have hsettled : Settled defaultConfig true tied :=
    settled_of_reason fun scored' ha => congrArg Assessment.reason (h defaultConfig true tied scored' ha)
  have hfirst : evidenced "mem-a" (1 / 2) (1 / 5) ∈ tied := List.mem_cons_self
  have hsecond : evidenced "mem-b" (1 / 8) (4 / 5) ∈ tied := List.mem_cons_of_mem _ List.mem_cons_self
  have hside := hsettled rfl _ _ (tied_leads _ hfirst) (tied_leads _ hsecond)
    (by norm_num [defaultConfig, evidenced])
  norm_num [defaultConfig, evidenced] at hside

end ContinuityLedger.Recall
