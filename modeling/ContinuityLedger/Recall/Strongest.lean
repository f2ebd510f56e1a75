import ContinuityLedger.Recall.Expansion

/-! Graph expansion gives every record its strongest path, whatever the order of the records. -/

namespace ContinuityLedger.Recall

open Foundations Records BestPath

variable {casefold : String → String} {cfg : GraphExpansionConfig} {graphWeight : ℚ} {scored scored' : List Scored}

def lifted (updates : Dict String GraphUpdate) (s : Scored) : Scored := (updates.get s.1.id).elim s (withUpdate s)

lemma Offered.boosted {offers : Offers} (h : Offered casefold cfg graphWeight scored (seeds cfg scored) offers) (s : Scored) :
    Boosted casefold cfg graphWeight scored s (lifted (offers.foldl (Greatest.keep (·.boost)) []) s) := by
  have hkept : Greatest.Kept GraphUpdate.boost offers _ := Greatest.kept_foldl offers
  rw [lifted]
  generalize offers.foldl (Greatest.keep (·.boost)) [] = updates at hkept
  cases hget : updates.get s.1.id with
  | none =>
    refine Or.inl ⟨?_, rfl⟩
    rintro ⟨seed, es, hjoins⟩
    obtain ⟨⟨id, u⟩, ho, rfl, -⟩ := h.greatest seed hjoins.mem _ es hjoins
    obtain ⟨w, hw, -⟩ := hkept.le _ u ho
    exact absurd (hget.symm.trans hw) (Option.some_ne_none w).symm
  | some u =>
    obtain ⟨seed, es, hjoins, hu⟩ := h.along _ (hkept.mem _ u hget)
    dsimp only at hu
    subst hu
    refine Or.inr ⟨seed, es, hjoins, ⟨⟨seed, es, hjoins, rfl⟩, ?_⟩, rfl⟩
    rintro b ⟨seed', es', hjoins', rfl⟩
    obtain ⟨⟨id, v⟩, ho, rfl, hle⟩ := h.greatest seed' hjoins'.mem _ es' hjoins'
    obtain ⟨w, hw, hvw⟩ := hkept.le _ v ho
    obtain rfl := Option.some.inj (hget.symm.trans hw)
    exact hle.trans hvw

/-- Two records are needed for one to be joined to the other. -/
lemma not_joined_of_short (hlen : scored.length < 2) {s : Scored} (hs : s ∈ scored) : ¬ Joined casefold cfg scored s.1.id := by
  rintro ⟨seed, es, hjoins⟩
  have hseed : seed ∈ scored := List.mem_mergeSort.mp (List.mem_filter.mp (List.mem_of_mem_take hjoins.mem)).1
  obtain ⟨t, ht⟩ := List.length_eq_one_iff.mp (show scored.length = 1 by have := List.length_pos_of_mem hs; omega)
  rw [ht] at hs hseed
  rw [List.mem_singleton.mp hseed, List.mem_singleton.mp hs] at hjoins
  exact hjoins.other rfl

lemma seeds_perm (hids : (scored.map (·.1.id)).Nodup) (h : scored.Perm scored') : seeds cfg scored = seeds cfg scored' := by
  have hkeys : (scored.map seedKey).Nodup := by
    refine List.Nodup.of_map (fun k => (ofLex k).2) ?_
    rw [List.map_map]
    exact hids
  rw [seeds, seeds, Listing.mergeSort_perm_eq hkeys h]

lemma expandSeed_perm (hids : (scored.map (·.1.id)).Nodup) (h : scored.Perm scored') :
    expandSeed casefold cfg graphWeight scored = expandSeed casefold cfg graphWeight scored' := by
  funext fuel updates seed
  rw [expandSeed, expandSeed, expansion, expansion, neighbors_perm hids h]

lemma bestUpdates_perm (hids : (scored.map (·.1.id)).Nodup) (h : scored.Perm scored') :
    bestUpdates casefold cfg graphWeight scored = bestUpdates casefold cfg graphWeight scored' := by
  funext fuel
  rw [bestUpdates, bestUpdates, seeds_perm hids h, expandSeed_perm hids h]

/-- One table of updates for the records in any order. -/
lemma exists_updates (hids : (scored.map (·.1.id)).Nodup) (henabled : cfg.enabled = true) (hgw : 0 < graphWeight)
    (hbase : ∀ s ∈ seeds cfg scored, 0 ≤ s.2.baseA) (hroom : Roomy casefold cfg scored) :
    ∃ updates, (∀ s ∈ scored, Boosted casefold cfg graphWeight scored s (lifted updates s)) ∧
      ∀ scored', scored.Perm scored' → ∀ fuel > turns scored.length cfg.maxDepth,
        applyGraphExpansion casefold cfg graphWeight scored' fuel = some (scored'.map (lifted updates), updates.length) := by
  by_cases hlen : scored.length < 2
  · refine ⟨[], fun s hs => Or.inl ⟨not_joined_of_short hlen hs, rfl⟩, fun scored' h fuel _ => ?_⟩
    rw [applyGraphExpansion, if_pos (Or.inr (Or.inr (h.length_eq ▸ hlen)))]
    rw [show lifted [] = id from rfl, List.map_id]
    rfl
  · obtain ⟨offers, hfold, hoffered⟩ := offered_foldlM hgw hbase hroom fun s hs => hs
    refine ⟨_, fun s _ => hoffered.boosted s, fun scored' h fuel hfuel => ?_⟩
    have hgoes : ¬ (cfg.enabled = false ∨ graphWeight ≤ 0 ∨ scored'.length < 2) := by
      rw [henabled, ← h.length_eq]
      exact fun h => h.elim Bool.noConfusion (Or.rec (not_le.mpr hgw) hlen)
    rw [applyGraphExpansion, if_neg hgoes, ← bestUpdates_perm hids h, bestUpdates, hfold fuel hfuel]
    rfl

lemma joined_known {id : String} (h : Joined casefold cfg scored id) : id ∈ knownIds scored := by
  obtain ⟨seed, es, hjoins⟩ := h
  obtain ⟨-, hother, hpath, -, -⟩ := hjoins
  cases hpath with
  | nil => exact absurd rfl hother
  | snoc _ he =>
    obtain ⟨rec, -, -, -, hin, -⟩ := mem_neighbors he
    exact candidateIds_subset rec hin

lemma roomy_of_length (h : scored.length ≤ cfg.maxNodes) : Roomy casefold cfg scored := by
  intro ids hnodup hjoined
  calc ids.length = ids.toFinset.card := (List.toFinset_card_of_nodup hnodup).symm
    _ ≤ (knownIds scored).card := Finset.card_le_card fun id hid => joined_known (hjoined id (List.mem_toFinset.mp hid))
    _ ≤ scored.length := (List.toFinset_card_le _).trans (List.length_map _).le
    _ ≤ cfg.maxNodes := h

theorem expansion_strongest (hids : (scored.map (·.1.id)).Nodup) (henabled : cfg.enabled = true) (hgw : 0 < graphWeight)
    (hbase : ∀ s ∈ seeds cfg scored, 0 ≤ s.2.baseA) (hroom : Roomy casefold cfg scored) :
    ∃ out count enough, (∀ fuel > enough, applyGraphExpansion casefold cfg graphWeight scored fuel = some (out, count)) ∧
      List.Forall₂ (Boosted casefold cfg graphWeight scored) scored out ∧
      ∀ scored', scored.Perm scored' → ∃ out', out.Perm out' ∧
        ∀ fuel > enough, applyGraphExpansion casefold cfg graphWeight scored' fuel = some (out', count) := by
  obtain ⟨updates, hboosted, hresult⟩ := exists_updates hids henabled hgw hbase hroom
  refine ⟨scored.map (lifted updates), updates.length, turns scored.length cfg.maxDepth, hresult scored (.refl scored), ?_, ?_⟩
  · rw [List.forall₂_map_right_iff]
    exact List.forall₂_same.mpr hboosted
  · exact fun scored' h => ⟨scored'.map (lifted updates), h.map _, hresult scored' h⟩

/-! ### A path of no weight -/

/-- What is changed is what another seed is joined to, whatever the path is worth. -/
def Exact (casefold : String → String) (cfg : GraphExpansionConfig) (graphWeight : ℚ) (scored : List Scored) : Prop :=
  ∀ fuel out count, applyGraphExpansion casefold cfg graphWeight scored fuel = some (out, count) →
    List.Forall₂ (fun s t => t ≠ s ↔ ∃ seed ∈ seeds cfg scored, s.1.id ≠ seed.1.id ∧
      ∃ es, Path (neighbors casefold cfg scored) seed.1.id es s.1.id ∧ es.length ≤ cfg.maxDepth) scored out

def particle (id subject : String) (p : ℚ) : Scored :=
  (⟨id, "x", "2026-10-01T00:00:00+00:00", "2026-10-01T00:00:00+00:00", "operator", "s-1", .fact, ⟨5, 1⟩, [], none, .draft,
    some subject, [], 1, id⟩, ⟨1 / 2, p, 1 / 4, 1 / 4, 1 / 4, 0, 0, none, [], []⟩)

/-- The subjects differ in their case only. -/
def likeNamed : List Scored := [particle "mem-a" "Deploys" (1 / 2), particle "mem-b" "deploys" 0]

def oneHop (enabled : Bool) : GraphExpansionConfig :=
  ⟨enabled, 1, 8, 48, 0, 4 / 5, by decide, by decide, by decide, by norm_num, by norm_num⟩

def lowered (s : String) : String := String.ofList (s.toList.map Char.toLower)

lemma ids_likeNamed : (likeNamed.map (·.1.id)).Nodup := by decide

lemma seeds_likeNamed (enabled : Bool) : seeds (oneHop enabled) likeNamed = [particle "mem-a" "Deploys" (1 / 2)] := by
  have hsorted : likeNamed.Pairwise fun a b => decide (seedKey a ≤ seedKey b) = true := by
    simp [likeNamed, particle, seedKey, Prod.Lex.toLex_le_toLex]
  rw [seeds, List.mergeSort_of_pairwise hsorted]
  norm_num [likeNamed, particle, oneHop]

lemma baseA_likeNamed (enabled : Bool) : ∀ s ∈ seeds (oneHop enabled) likeNamed, 0 ≤ s.2.baseA := by
  intro s hs
  rw [seeds_likeNamed] at hs
  rw [List.mem_singleton.mp hs]
  norm_num [particle]

theorem expansion_strongest_likeNamed : ∃ out count enough,
    (∀ fuel > enough, applyGraphExpansion lowered (oneHop true) (3 / 10) likeNamed fuel = some (out, count)) ∧
      List.Forall₂ (Boosted lowered (oneHop true) (3 / 10) likeNamed) likeNamed out ∧
      ∀ scored', likeNamed.Perm scored' → ∃ out', out.Perm out' ∧
        ∀ fuel > enough, applyGraphExpansion lowered (oneHop true) (3 / 10) scored' fuel = some (out', count) := by
  exact expansion_strongest ids_likeNamed rfl (by norm_num) (baseA_likeNamed true) (roomy_of_length (by decide))

lemma explicit_likeNamed : explicit likeNamed = [] := by
  simp [explicit, explicitOf, likeNamed, particle, evidenceMemoryIds]

lemma edgeWeight_likeNamed : edgeWeight likeNamed (particle "mem-a" "Deploys" (1 / 2)).1 (particle "mem-b" "deploys" 0).1 = 0 := by
  have hbond : bondStrength (particle "mem-a" "Deploys" (1 / 2)).1 (particle "mem-b" "deploys" 0).1 = 0 := by
    have hapart : sharesSubject (particle "mem-a" "Deploys" (1 / 2)).1 (particle "mem-b" "deploys" 0).1 = false := by decide
    rw [bondStrength, hapart]
    norm_num [particle, roundTo]
  rw [edgeWeight, hbond, explicitWeight, explicitBetween, explicit_likeNamed]
  simp

lemma candidate_likeNamed : "mem-b" ∈ candidateIds lowered likeNamed (particle "mem-a" "Deploys" (1 / 2)).1 := by
  have hlowered : lowered "deploys" = lowered "Deploys" := by decide
  simp [candidateIds, particle, subjectIndex, likeNamed, hlowered]

lemma get_likeNamed {s : Scored} (hs : s ∈ likeNamed) : (recordsById likeNamed).get s.1.id = some s.1 :=
  (get_recordsById ids_likeNamed).mpr ⟨List.mem_map_of_mem hs, rfl⟩

lemma first_likeNamed : particle "mem-a" "Deploys" (1 / 2) ∈ likeNamed := List.mem_cons_self

lemma second_likeNamed : particle "mem-b" "deploys" 0 ∈ likeNamed := List.mem_cons_of_mem _ List.mem_cons_self

lemma likeNamed_admitted (enabled : Bool) : ∃ seed ∈ seeds (oneHop enabled) likeNamed, "mem-b" ≠ seed.1.id ∧
    ∃ es, Path (neighbors lowered (oneHop enabled) likeNamed) seed.1.id es "mem-b" ∧ es.length ≤ (oneHop enabled).maxDepth := by
  have hmin : (oneHop enabled).minEdgeWeight ≤
      edgeWeight likeNamed (particle "mem-a" "Deploys" (1 / 2)).1 (particle "mem-b" "deploys" 0).1 :=
    edgeWeight_likeNamed.ge
  have hedge := neighbors_mem (get_likeNamed first_likeNamed) (get_likeNamed second_likeNamed) candidate_likeNamed hmin
  exact ⟨_, seeds_likeNamed enabled ▸ List.mem_singleton_self _, by decide, _, Path.nil.snoc hedge, le_refl 1⟩

lemma not_joined_likeNamed : ¬ Joined lowered (oneHop true) likeNamed "mem-b" := by
  rintro ⟨seed, es, hseed, hother, hpath, hshort, hstrong⟩
  rw [seeds_likeNamed] at hseed
  obtain rfl := List.mem_singleton.mp hseed
  generalize hid : "mem-b" = id at hpath
  cases hpath with
  | nil => exact hother hid
  | @snoc es x e hes he =>
    obtain rfl : es = [] := by
      rw [List.length_append, List.length_singleton] at hshort
      exact List.length_eq_zero_iff.mp (Nat.le_zero.mp (Nat.le_of_succ_le_succ hshort))
    obtain rfl := hes.eq_of_nil
    obtain ⟨rec, target, hrec, htarget, -, hweight, -, -⟩ := mem_neighbors he
    obtain rfl := Option.some.inj ((get_likeNamed first_likeNamed).symm.trans hrec)
    rw [← hid] at htarget
    obtain rfl := Option.some.inj ((get_likeNamed second_likeNamed).symm.trans htarget)
    rw [worth_snoc, hweight, edgeWeight_likeNamed] at hstrong
    simp at hstrong

/-- Where expansion is off nothing is lifted, and where it is on an edge of no weight lifts nothing. -/
theorem boosts_not_exact :
    ¬ Exact lowered (oneHop false) (3 / 10) likeNamed ∧ ¬ Exact lowered (oneHop true) (3 / 10) likeNamed := by
  constructor
  · intro h
    have hall := h 0 likeNamed 0 rfl
    exact ((List.forall₂_cons.mp (List.forall₂_cons.mp hall).2).1.mpr (likeNamed_admitted false)) rfl
  · intro h
    have hpos : (0 : ℚ) < 3 / 10 := by norm_num
    have hroom : Roomy lowered (oneHop true) likeNamed := roomy_of_length (by decide)
    obtain ⟨updates, hboosted, hresult⟩ := exists_updates ids_likeNamed rfl hpos (baseA_likeNamed true) hroom
    have hall := h _ _ _ (hresult likeNamed (.refl _) _ (Nat.lt_succ_self _))
    have hlifted := (List.forall₂_cons.mp (List.forall₂_cons.mp hall).2).1.mpr (likeNamed_admitted true)
    rcases hboosted _ second_likeNamed with ⟨-, hsame⟩ | ⟨seed, es, hjoins, -, -⟩
    · exact hlifted hsame
    · exact not_joined_likeNamed ⟨seed, es, hjoins⟩

end ContinuityLedger.Recall
