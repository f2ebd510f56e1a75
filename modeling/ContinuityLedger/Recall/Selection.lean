import ContinuityLedger.Recall.Summary

/-! The selection of short-term memory: one candidate after another, the densest of those whose summary fits. -/

namespace ContinuityLedger.Recall

open Foundations Records

/-- `query_alignment` of a record that shares no term with the query. -/
def qNoOverlap : ℚ := 1 / 20

structure SelectConfig where
  tokenBudget : ℕ
  thetaPromote : ℚ
  prior : List STMEntry
  bondWeight : ℚ
  excludeConflicts : Bool

variable (cfg : SelectConfig)

/-- `prior_res`. -/
def SelectConfig.priorRes : Dict String Resolution := Dict.ofPairs (cfg.prior.map fun e => (e.memoryId, e.resolution))

def SelectConfig.eligible (s : Scored) : Bool :=
  decide (cfg.thetaPromote ≤ s.2.A) && decide (0 < s.2.P) &&
    (decide (qNoOverlap < s.2.Q) || decide (0 < s.2.graphBoost) || cfg.priorRes.has s.1.id)

structure Bundle where
  selected : List STMEntry
  selRecs : List (MemoryRecord String)
  used : ℕ
  excluded : List String
  remaining : List Scored

def baseCost (rec : MemoryRecord String) : ℕ := max 1 (estimateTokens (makeSummary rec.content))

def SelectConfig.density (selRecs : List (MemoryRecord String)) (s : Scored) : ℚ :=
  (s.2.A + cfg.bondWeight * (selRecs.map (bondStrength s.1)).sum) / baseCost s.1

/-- The densest of the candidates whose summary fits, the first of several. -/
def SelectConfig.best (cfg : SelectConfig) (used : ℕ) (selRecs : List (MemoryRecord String)) :
    List Scored → Option (ℚ × Scored) → Option (ℚ × Scored)
  | [], best => best
  | s :: rest, best =>
    if cfg.tokenBudget < used + baseCost s.1 then cfg.best used selRecs rest best
    else
      let density := cfg.density selRecs s
      match best with
      | none => cfg.best used selRecs rest (some (density, s))
      | some b => cfg.best used selRecs rest (if b.1 < density then some (density, s) else some b)

/-- The entry of a candidate at the resolution it had before, or as a summary where that does not fit. -/
def SelectConfig.entry (used : ℕ) (s : Scored) : STMEntry :=
  let entry := entryFromRecord s ((cfg.priorRes.get s.1.id).getD .summary)
  if cfg.tokenBudget < used + entry.tokenCost ∧ entry.resolution ≠ .summary then entryFromRecord s .summary else entry

/-- One turn of the loop. -/
def SelectConfig.turn (b : Bundle) : Option Bundle :=
  match cfg.best b.used b.selRecs b.remaining none with
  | none => none
  | some (_, s) =>
    let remaining := b.remaining.filter fun t => t.1.id ≠ s.1.id
    if cfg.excludeConflicts && b.selRecs.any (isContradiction s.1) then
      some { b with excluded := b.excluded ++ [s.1.id], remaining := remaining }
    else
      let entry := cfg.entry b.used s
      if cfg.tokenBudget < b.used + entry.tokenCost then some { b with remaining := remaining }
      else some ⟨b.selected ++ [entry], b.selRecs ++ [s.1], b.used + entry.tokenCost, b.excluded, remaining⟩

def SelectConfig.run (cfg : SelectConfig) : ℕ → Bundle → Option Bundle
  | 0, _ => none
  | turns + 1, b =>
    match cfg.turn b with
    | none => some b
    | some b => cfg.run turns b

def SelectConfig.start (scored : List Scored) : Bundle := ⟨[], [], 0, [], scored.filter cfg.eligible⟩

/-- `select_stm`; each turn takes a candidate, so that one turn more than there are candidates is enough. -/
def SelectConfig.selectStm (scored : List Scored) : Option (List STMEntry × List String) :=
  (cfg.run (scored.length + 1) (cfg.start scored)).map fun b => (b.selected, b.excluded)

/-! ### One turn -/

variable {cfg}

lemma best_none {used : ℕ} {selRecs : List (MemoryRecord String)} {remaining : List Scored} :
    cfg.best used selRecs remaining none = none ↔ ∀ s ∈ remaining, cfg.tokenBudget < used + baseCost s.1 := by
  have hsome : ∀ (l : List Scored) (b : ℚ × Scored), cfg.best used selRecs l (some b) ≠ none := by
    intro l
    induction l with
    | nil =>
      intro b h
      cases h
    | cons s l ih =>
      intro b
      rw [SelectConfig.best]
      by_cases hfit : cfg.tokenBudget < used + baseCost s.1
      · rw [if_pos hfit]
        exact ih b
      · rw [if_neg hfit]
        dsimp only
        split_ifs
        · exact ih _
        · exact ih _
  induction remaining with
  | nil => simp [SelectConfig.best]
  | cons s remaining ih =>
    rw [SelectConfig.best, List.forall_mem_cons]
    split_ifs with hfit
    · exact ih.trans (and_iff_right hfit).symm
    · exact iff_of_false (hsome _ _) fun h => hfit h.1

lemma best_some {used : ℕ} {selRecs : List (MemoryRecord String)} {remaining : List Scored} {b : ℚ × Scored}
    (h : cfg.best used selRecs remaining none = some b) : b.2 ∈ remaining ∧ used + baseCost b.2.1 ≤ cfg.tokenBudget := by
  have hgen : ∀ (l : List Scored) (best : Option (ℚ × Scored)), cfg.best used selRecs l best = some b →
      best = some b ∨ b.2 ∈ l ∧ used + baseCost b.2.1 ≤ cfg.tokenBudget := by
    intro l
    induction l with
    | nil => exact fun best h => Or.inl h
    | cons s l ih =>
      intro best h
      rw [SelectConfig.best] at h
      have hnext : ∀ best', cfg.best used selRecs l best' = some b → (best' = some b → best = some b ∨ b.2 = s) →
          ¬ cfg.tokenBudget < used + baseCost s.1 →
          best = some b ∨ b.2 ∈ s :: l ∧ used + baseCost b.2.1 ≤ cfg.tokenBudget := by
        intro best' h hbest hfit
        rcases ih best' h with hb | ⟨hmem, hle⟩
        · rcases hbest hb with hb | rfl
          · exact Or.inl hb
          · exact Or.inr ⟨List.mem_cons_self, not_lt.mp hfit⟩
        · exact Or.inr ⟨List.mem_cons_of_mem _ hmem, hle⟩
      split_ifs at h with hfit
      · rcases ih best h with hb | ⟨hmem, hle⟩
        · exact Or.inl hb
        · exact Or.inr ⟨List.mem_cons_of_mem _ hmem, hle⟩
      · cases best with
        | none => exact hnext _ h (fun hb => Or.inr (by rw [← Option.some.inj hb])) hfit
        | some c =>
          refine hnext _ h (fun hb => ?_) hfit
          split_ifs at hb
          · exact Or.inr (by rw [← Option.some.inj hb])
          · exact Or.inl hb
  rcases hgen remaining none h with hb | hb
  · cases hb
  · exact hb

lemma tokenCost_summary_le (s : Scored) : (entryFromRecord s .summary).tokenCost ≤ baseCost s.1 := by
  simp only [entryFromRecord, renderResolution, baseCost]
  exact le_max_right _ _

/-- A candidate whose summary fits has an entry that fits. -/
lemma entry_fits {used : ℕ} {s : Scored} (h : used + baseCost s.1 ≤ cfg.tokenBudget) :
    used + (cfg.entry used s).tokenCost ≤ cfg.tokenBudget := by
  have hsummary : used + (entryFromRecord s .summary).tokenCost ≤ cfg.tokenBudget :=
    (Nat.add_le_add_left (tokenCost_summary_le s) used).trans h
  unfold SelectConfig.entry
  dsimp only
  split_ifs with hover
  · exact hsummary
  · rw [not_and_or, not_not] at hover
    rcases hover with hfit | hres
    · exact not_lt.mp hfit
    · have heq : (cfg.priorRes.get s.1.id).getD .summary = .summary := hres
      rw [heq]
      exact hsummary

lemma entry_memoryId (used : ℕ) (s : Scored) : (cfg.entry used s).memoryId = s.1.id := by
  unfold SelectConfig.entry
  dsimp only
  split_ifs <;> rfl

/-- What one turn does with the candidate it takes. -/
inductive Turn (cfg : SelectConfig) (b : Bundle) (s : Scored) : Bundle → Prop
  | excludes (hconflict : cfg.excludeConflicts = true ∧ ∃ rec ∈ b.selRecs, isContradiction s.1 rec = true) :
      Turn cfg b s { b with excluded := b.excluded ++ [s.1.id], remaining := b.remaining.filter fun t => t.1.id ≠ s.1.id }
  | selects (hfree : cfg.excludeConflicts = true → ∀ rec ∈ b.selRecs, isContradiction s.1 rec = false)
      (hfits : b.used + (cfg.entry b.used s).tokenCost ≤ cfg.tokenBudget) :
      Turn cfg b s ⟨b.selected ++ [cfg.entry b.used s], b.selRecs ++ [s.1], b.used + (cfg.entry b.used s).tokenCost, b.excluded,
        b.remaining.filter fun t => t.1.id ≠ s.1.id⟩

lemma turn_cases {b b' : Bundle} (h : cfg.turn b = some b') : ∃ s ∈ b.remaining, Turn cfg b s b' := by
  rw [SelectConfig.turn] at h
  cases hbest : cfg.best b.used b.selRecs b.remaining none with
  | none =>
    rw [hbest] at h
    cases h
  | some best =>
    obtain ⟨density, s⟩ := best
    obtain ⟨hmem, hle⟩ := best_some hbest
    refine ⟨s, hmem, ?_⟩
    rw [hbest] at h
    dsimp only at h
    rw [if_neg (not_lt.mpr (entry_fits hle))] at h
    split_ifs at h with hconflict
    · obtain ⟨hexclude, hany⟩ := Bool.and_eq_true_iff.mp hconflict
      cases h
      exact .excludes ⟨hexclude, List.any_eq_true.mp hany⟩
    · cases h
      refine .selects (fun hexclude rec hrec => ?_) (entry_fits hle)
      by_contra hne
      refine hconflict (Bool.and_eq_true_iff.mpr ⟨hexclude, List.any_eq_true.mpr ⟨rec, hrec, ?_⟩⟩)
      simpa using hne

lemma turn_none {b : Bundle} : cfg.turn b = none ↔ ∀ s ∈ b.remaining, cfg.tokenBudget < b.used + baseCost s.1 := by
  have hbest : cfg.best b.used b.selRecs b.remaining none = none ↔ _ := best_none
  rw [← hbest, SelectConfig.turn]
  cases cfg.best b.used b.selRecs b.remaining none with
  | none => exact iff_of_true rfl rfl
  | some best =>
    dsimp only
    refine iff_of_false ?_ (by simp)
    split_ifs <;> simp

end ContinuityLedger.Recall
