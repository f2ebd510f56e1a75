import Mathlib.Data.List.Nodup
import ContinuityLedger.Recall.Selection

/-! What is selected keeps to the budget and contradicts nothing that is selected, and everything else that is eligible no
longer fits or contradicts something that is selected. -/

namespace ContinuityLedger.Recall

open Foundations Records

variable {cfg : SelectConfig} {scored : List Scored}

/-- What holds between turns. -/
structure Sound (cfg : SelectConfig) (scored : List Scored) (b : Bundle) : Prop where
  ids : b.selected.map (·.memoryId) = b.selRecs.map (·.id)
  remaining : b.remaining.Sublist (scored.filter cfg.eligible)
  selRecs : ∀ rec ∈ b.selRecs, ∃ s ∈ scored, cfg.eligible s = true ∧ s.1 = rec
  covered : ∀ s ∈ scored, cfg.eligible s = true → s ∈ b.remaining ∨ s.1.id ∈ b.selRecs.map (·.id) ∨ s.1.id ∈ b.excluded
  nodup : (b.selRecs.map (·.id)).Nodup
  fresh : ∀ s ∈ b.remaining, s.1.id ∉ b.selRecs.map (·.id) ∧ s.1.id ∉ b.excluded
  used : b.used = (b.selected.map (·.tokenCost)).sum
  budget : b.used ≤ cfg.tokenBudget
  agreed : cfg.excludeConflicts = true → ∀ r ∈ b.selRecs, ∀ t ∈ b.selRecs, isContradiction r t = false
  excluded : ∀ id ∈ b.excluded, cfg.excludeConflicts = true ∧ id ∉ b.selRecs.map (·.id) ∧
    ∃ s ∈ scored, cfg.eligible s = true ∧ s.1.id = id ∧ ∃ rec ∈ b.selRecs, isContradiction s.1 rec = true
  listed : b.excluded.Nodup

lemma isContradiction_self (r : MemoryRecord String) : isContradiction r r = false := by simp [isContradiction]

lemma sound_start (cfg : SelectConfig) (scored : List Scored) : Sound cfg scored (cfg.start scored) where
  ids := rfl
  remaining := .refl _
  selRecs := by simp [SelectConfig.start]
  covered s hs he := Or.inl (List.mem_filter.mpr ⟨hs, he⟩)
  nodup := List.nodup_nil
  fresh := by simp [SelectConfig.start]
  used := rfl
  budget := Nat.zero_le _
  agreed := by simp [SelectConfig.start]
  excluded := by simp [SelectConfig.start]
  listed := List.nodup_nil

lemma mem_rest {remaining : List Scored} {s t : Scored} :
    t ∈ remaining.filter (fun u => u.1.id ≠ s.1.id) ↔ t ∈ remaining ∧ t.1.id ≠ s.1.id := by
  rw [List.mem_filter, decide_eq_true_eq]

lemma Sound.turn {b b' : Bundle} (h : Sound cfg scored b) {s : Scored} (hs : s ∈ b.remaining) (ht : Turn cfg b s b') : Sound cfg scored b' := by
  obtain ⟨hmem, helig⟩ := List.mem_filter.mp (h.remaining.subset hs)
  obtain ⟨hfreshSel, hfreshExc⟩ := h.fresh s hs
  have hrest (p : String → Prop) (hp : p s.1.id) :
      ∀ t ∈ scored, t ∈ b.remaining → t ∈ b.remaining.filter (fun u => u.1.id ≠ s.1.id) ∨ p t.1.id := by
    intro t _ ht
    by_cases hid : t.1.id = s.1.id
    · exact Or.inr (hid ▸ hp)
    · exact Or.inl (mem_rest.mpr ⟨ht, hid⟩)
  cases ht with
  | excludes hconflict =>
    obtain ⟨hexclude, rec, hrec, hcontra⟩ := hconflict
    refine ⟨h.ids, List.filter_sublist.trans h.remaining, h.selRecs, fun t ht he => ?_, h.nodup, fun t ht => ?_, h.used, h.budget,
      h.agreed, fun id hid => ?_, ?_⟩
    · rcases h.covered t ht he with hr | hr | hr
      · rcases hrest (· ∈ b.excluded ++ [s.1.id]) (by simp) t ht hr with h' | h'
        · exact Or.inl h'
        · exact Or.inr (Or.inr h')
      · exact Or.inr (Or.inl hr)
      · exact Or.inr (Or.inr (List.mem_append_left _ hr))
    · obtain ⟨ht, hne⟩ := mem_rest.mp ht
      obtain ⟨hsel, hexc⟩ := h.fresh t ht
      refine ⟨hsel, fun hin => ?_⟩
      rcases List.mem_append.mp hin with hin | hin
      · exact hexc hin
      · exact hne (List.mem_singleton.mp hin)
    · rcases List.mem_append.mp hid with hid | hid
      · exact h.excluded id hid
      · obtain rfl := List.mem_singleton.mp hid
        exact ⟨hexclude, hfreshSel, s, hmem, helig, rfl, rec, hrec, hcontra⟩
    · exact List.nodup_append.mpr ⟨h.listed, List.nodup_singleton _, fun a ha c hc hac =>
        hfreshExc (List.mem_singleton.mp hc ▸ hac ▸ ha)⟩
  | selects hfree hfits =>
    refine ⟨?_, List.filter_sublist.trans h.remaining, fun rec hrec => ?_, fun t ht he => ?_, ?_, fun t ht => ?_, ?_, hfits,
      fun hexclude r hr t ht => ?_, fun id hid => ?_, h.listed⟩
    · simp only [List.map_append, List.map_cons, List.map_nil, h.ids, entry_memoryId]
    · rcases List.mem_append.mp hrec with hrec | hrec
      · exact h.selRecs rec hrec
      · exact ⟨s, hmem, helig, (List.mem_singleton.mp hrec).symm⟩
    · rcases h.covered t ht he with hr | hr | hr
      · rcases hrest (· ∈ (b.selRecs ++ [s.1]).map (·.id)) (by simp) t ht hr with h' | h'
        · exact Or.inl h'
        · exact Or.inr (Or.inl h')
      · rw [List.map_append]
        exact Or.inr (Or.inl (List.mem_append_left _ hr))
      · exact Or.inr (Or.inr hr)
    · rw [List.map_append]
      refine List.nodup_append.mpr ⟨h.nodup, List.nodup_singleton _, fun a ha c hc hac => ?_⟩
      have hid : a = s.1.id := hac.trans (List.mem_singleton.mp hc)
      exact hfreshSel (hid ▸ ha)
    · obtain ⟨ht, hne⟩ := mem_rest.mp ht
      obtain ⟨hsel, hexc⟩ := h.fresh t ht
      refine ⟨fun hin => ?_, hexc⟩
      rw [List.map_append] at hin
      rcases List.mem_append.mp hin with hin | hin
      · exact hsel hin
      · exact hne (List.mem_singleton.mp hin)
    · rw [List.map_append, List.sum_append, h.used]
      rfl
    · have hnew := hfree hexclude
      rcases List.mem_append.mp hr with hr | hr <;> rcases List.mem_append.mp ht with ht | ht
      · exact h.agreed hexclude r hr t ht
      · rw [List.mem_singleton.mp ht, isContradiction_comm]
        exact hnew r hr
      · rw [List.mem_singleton.mp hr]
        exact hnew t ht
      · rw [List.mem_singleton.mp hr, List.mem_singleton.mp ht, isContradiction_self]
    · obtain ⟨hexclude, hnot, t, ht, hte, rfl, rec, hrec, hcontra⟩ := h.excluded id hid
      refine ⟨hexclude, fun hin => ?_, t, ht, hte, rfl, rec, List.mem_append_left _ hrec, hcontra⟩
      rw [List.map_append] at hin
      rcases List.mem_append.mp hin with hin | hin
      · exact hnot hin
      · have heq : t.1.id = s.1.id := List.mem_singleton.mp hin
        exact hfreshExc (heq ▸ hid)

lemma remaining_lt {b b' : Bundle} {s : Scored} (hs : s ∈ b.remaining) (ht : Turn cfg b s b') :
    b'.remaining.length < b.remaining.length := by
  have hlt : (b.remaining.filter fun t => t.1.id ≠ s.1.id).length < b.remaining.length :=
    List.length_filter_lt_length_iff_exists.mpr ⟨s, hs, by simp⟩
  cases ht <;> exact hlt

/-- The loop ends, with nothing left that fits. -/
lemma run_sound (turns : ℕ) {b : Bundle} (h : Sound cfg scored b) (hlen : b.remaining.length < turns) : ∃ b', cfg.run turns b = some b' ∧ Sound cfg scored b' ∧
      ∀ s ∈ b'.remaining, cfg.tokenBudget < b'.used + baseCost s.1 := by
  induction turns generalizing b with
  | zero => exact absurd hlen (Nat.not_lt_zero _)
  | succ turns ih =>
    rw [SelectConfig.run]
    cases hturn : cfg.turn b with
    | none => exact ⟨b, rfl, h, turn_none.mp hturn⟩
    | some b' =>
      obtain ⟨s, hs, ht⟩ := turn_cases hturn
      have hlt := remaining_lt hs ht
      exact ih (h.turn hs ht) (by omega)

/-- What is asked of a selection and of the list of excluded ids. -/
structure Selected (cfg : SelectConfig) (scored : List Scored) (selected : List STMEntry) (excluded : List String) : Prop where
  budget : (selected.map (·.tokenCost)).sum ≤ cfg.tokenBudget
  once : (selected.map (·.memoryId)).Nodup
  eligible : ∀ e ∈ selected, ∃ s ∈ scored, cfg.eligible s = true ∧ s.1.id = e.memoryId
  agreed : cfg.excludeConflicts = true → ∀ s ∈ scored, ∀ t ∈ scored, s.1.id ∈ selected.map (·.memoryId) →
    t.1.id ∈ selected.map (·.memoryId) → isContradiction s.1 t.1 = false
  conflicts : excluded.Nodup ∧ ∀ id ∈ excluded, cfg.excludeConflicts = true ∧ id ∉ selected.map (·.memoryId) ∧
    ∃ s ∈ scored, cfg.eligible s = true ∧ s.1.id = id ∧
      ∃ t ∈ scored, t.1.id ∈ selected.map (·.memoryId) ∧ isContradiction s.1 t.1 = true
  maximal : ∀ s ∈ scored, cfg.eligible s = true → s.1.id ∉ selected.map (·.memoryId) → s.1.id ∉ excluded →
    cfg.tokenBudget < (selected.map (·.tokenCost)).sum + baseCost s.1

/-- The selection ends; what it leaves out of the eligible candidates no longer fits or is excluded for a contradiction. -/
theorem selectStm_selected (cfg : SelectConfig) {scored : List Scored} (hn : (scored.map (·.1.id)).Nodup) :
    ∃ selected excluded, cfg.selectStm scored = some (selected, excluded) ∧ Selected cfg scored selected excluded := by
  have hlen : (cfg.start scored).remaining.length < scored.length + 1 := Nat.lt_succ_of_le (List.length_filter_le _ _)
  obtain ⟨b, hrun, hsound, hfull⟩ := run_sound _ (sound_start cfg scored) hlen
  have hinj : ∀ s ∈ scored, ∀ t ∈ scored, s.1.id = t.1.id → s = t := fun s hs t ht h => List.inj_on_of_nodup_map hn hs ht h
  refine ⟨b.selected, b.excluded, by rw [SelectConfig.selectStm, hrun]; rfl, ?_⟩
  refine ⟨hsound.used ▸ hsound.budget, hsound.ids ▸ hsound.nodup, fun e he => ?_, fun hexclude s hs t ht hsel htel => ?_,
    ⟨hsound.listed, fun id hid => ?_⟩, fun s hs he hsel hexc => ?_⟩
  · have hid : e.memoryId ∈ b.selRecs.map (·.id) := hsound.ids ▸ List.mem_map_of_mem he
    obtain ⟨rec, hrec, heq⟩ := List.mem_map.mp hid
    obtain ⟨s, hs, helig, rfl⟩ := hsound.selRecs rec hrec
    exact ⟨s, hs, helig, heq⟩
  · rw [hsound.ids] at hsel htel
    obtain ⟨r, hr, hrid⟩ := List.mem_map.mp hsel
    obtain ⟨q, hq, hqid⟩ := List.mem_map.mp htel
    obtain ⟨s', hs', -, rfl⟩ := hsound.selRecs r hr
    obtain ⟨t', ht', -, rfl⟩ := hsound.selRecs q hq
    obtain rfl := hinj s' hs' s hs hrid
    obtain rfl := hinj t' ht' t ht hqid
    exact hsound.agreed hexclude _ hr _ hq
  · obtain ⟨hexclude, hnot, s, hs, helig, hsid, rec, hrec, hcontra⟩ := hsound.excluded id hid
    obtain ⟨t, ht, -, rfl⟩ := hsound.selRecs rec hrec
    refine ⟨hexclude, hsound.ids ▸ hnot, s, hs, helig, hsid, t, ht, ?_, hcontra⟩
    rw [hsound.ids]
    exact List.mem_map_of_mem hrec
  · rcases hsound.covered s hs he with hr | hr | hr
    · exact hsound.used ▸ hfull s hr
    · exact absurd (hsound.ids ▸ hr) hsel
    · exact absurd hr hexc

/-! ### A contradiction that is not listed -/

def claiming (id content hash : String) : Scored :=
  (⟨id, content, "2026-10-01T00:00:00+00:00", "2026-10-01T00:00:00+00:00", "operator", "s-1", .fact, ⟨5, 1⟩, [], none, .draft,
    some "release", [], 1, hash⟩, ⟨1 / 2, 1 / 2, 1 / 4, 1 / 4, 1 / 4, 0, 0, none, [], []⟩)

def frugal : SelectConfig := ⟨5, 3 / 25, [], 3 / 20, true⟩

def disputed : List Scored := [claiming "mem-a" "ship on friday" "aa", claiming "mem-b" "never on a friday" "bb"]

theorem selectStm_selected_disputed : ∃ selected excluded, frugal.selectStm disputed = some (selected, excluded) ∧
    Selected frugal disputed selected excluded :=
  selectStm_selected frugal (by decide)

lemma selectStm_disputed :
    (frugal.selectStm disputed).map (fun r => (r.1.map (·.memoryId), r.2)) = some (["mem-a"], []) := by
  decide +kernel

/-- A record that contradicts a selected one and no longer fits is not among the excluded. -/
theorem crowded_out_not_listed : ¬ ∀ (cfg : SelectConfig) (scored : List Scored), (scored.map (·.1.id)).Nodup →
    cfg.excludeConflicts = true → ∀ selected excluded, cfg.selectStm scored = some (selected, excluded) →
      ∀ s ∈ scored, cfg.eligible s = true →
        (∃ t ∈ scored, t.1.id ∈ selected.map (·.memoryId) ∧ isContradiction s.1 t.1 = true) → s.1.id ∈ excluded := by
  intro h
  obtain ⟨⟨selected, excluded⟩, hselect, heq⟩ := Option.map_eq_some_iff.mp selectStm_disputed
  obtain ⟨hids, rfl⟩ := Prod.mk.inj heq
  have hin : claiming "mem-a" "ship on friday" "aa" ∈ disputed := List.mem_cons_self
  have hout : claiming "mem-b" "never on a friday" "bb" ∈ disputed := List.mem_cons_of_mem _ List.mem_cons_self
  have heligible : frugal.eligible (claiming "mem-b" "never on a friday" "bb") = true := by
    norm_num [SelectConfig.eligible, frugal, claiming, qNoOverlap]
  have hlisted := h frugal disputed (by decide) rfl selected [] hselect _ hout heligible
    ⟨_, hin, by rw [hids]; decide, by decide⟩
  cases hlisted

end ContinuityLedger.Recall
