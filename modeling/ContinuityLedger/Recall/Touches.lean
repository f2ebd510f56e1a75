import ContinuityLedger.Recall.Sidecar
import Mathlib.Data.List.Dedup
import Mathlib.Tactic.NormNum

/-! What a sequence of outcomes and corrections makes of one memory's state, and what one call does to each entry. -/

namespace ContinuityLedger.Recall

open Foundations

inductive Touch
  | outcome (nowIso id : String)
  | correction (nowIso id : String)

def Touch.apply : Touch → ReinforcementState → Option ReinforcementState
  | .outcome nowIso id => reinforced nowIso id
  | .correction nowIso id => corrected nowIso id

/-- A replay leaves the state. -/
def Touch.on (mid : String) (state : Option ReinforcementState) (t : Touch) : Option ReinforcementState :=
  (t.apply (state.getD (.fresh mid))).or state

def stateOf (mid : String) (ts : List Touch) : Option ReinforcementState := ts.foldl (Touch.on mid) none

/-- The state, or what it would start from. -/
def stateFrom (mid : String) (ts : List Touch) : ReinforcementState := (stateOf mid ts).getD (.fresh mid)

structure ReinforcementState.Bounded (s : ReinforcementState) : Prop where
  counted : s.useCount = s.outcomeIds.dedup.length
  distinct : s.outcomeIds.Nodup
  salience : 0 ≤ s.salience ∧ s.salience ≤ salienceCap
  decayDamp : 0 ≤ s.decayDamp ∧ s.decayDamp ≤ dampCap

lemma reinforced_eq_some {nowIso id : String} {s s' : ReinforcementState} (h : reinforced nowIso id s = some s') :
    id ∉ s.outcomeIds ∧ s' = { s with
      useCount := s.useCount + 1
      salience := min salienceCap (s.salience + salienceGain)
      decayDamp := min dampCap (s.decayDamp + dampGain)
      lastReinforcedAt := some nowIso
      outcomeIds := s.outcomeIds ++ [id] } := by
  rw [reinforced] at h
  split_ifs at h with hin
  exact ⟨hin, (Option.some.inj h).symm⟩

lemma corrected_eq_some {nowIso id : String} {s s' : ReinforcementState} (h : corrected nowIso id s = some s') :
    id ∉ s.correctionIds ∧ s' = { s with
      salience := 0
      decayDamp := 0
      lastReinforcedAt := some nowIso
      correctionIds := s.correctionIds ++ [id] } := by
  rw [corrected] at h
  split_ifs at h with hin
  exact ⟨hin, (Option.some.inj h).symm⟩

lemma bounded_fresh (mid : String) : (ReinforcementState.fresh mid).Bounded :=
  ⟨rfl, List.nodup_nil, ⟨le_refl _, by norm_num [ReinforcementState.fresh, salienceCap]⟩,
    le_refl _, by norm_num [ReinforcementState.fresh, dampCap]⟩

lemma bounded_apply {t : Touch} {s s' : ReinforcementState} (hs : s.Bounded) (h : t.apply s = some s') : s'.Bounded := by
  cases t with
  | outcome nowIso id =>
    obtain ⟨hnew, rfl⟩ := reinforced_eq_some h
    have hnodup : (s.outcomeIds ++ [id]).Nodup := by
      rw [List.nodup_append]
      exact ⟨hs.distinct, List.nodup_singleton id, fun a ha b hb => by
        rw [List.mem_singleton.mp hb]
        exact fun he => hnew (he ▸ ha)⟩
    refine ⟨?_, hnodup, ⟨?_, min_le_left _ _⟩, ?_, min_le_left _ _⟩
    · have hcount := hs.counted
      rw [hs.distinct.dedup] at hcount
      show s.useCount + 1 = (s.outcomeIds ++ [id]).dedup.length
      rw [hnodup.dedup, List.length_append, List.length_singleton, hcount]
    · exact le_min (by norm_num [salienceCap]) (add_nonneg hs.salience.1 (by norm_num [salienceGain]))
    · exact le_min (by norm_num [dampCap]) (add_nonneg hs.decayDamp.1 (by norm_num [dampGain]))
  | correction nowIso id =>
    obtain ⟨-, rfl⟩ := corrected_eq_some h
    exact ⟨hs.counted, hs.distinct, ⟨le_refl _, by norm_num [salienceCap]⟩, le_refl _, by norm_num [dampCap]⟩

lemma stateOf_append (mid : String) (ts : List Touch) (t : Touch) :
    stateOf mid (ts ++ [t]) = t.on mid (stateOf mid ts) := by
  rw [stateOf, List.foldl_append]
  rfl

lemma stateFrom_append (mid : String) (ts : List Touch) (t : Touch) :
    stateFrom mid (ts ++ [t]) = (t.apply (stateFrom mid ts)).getD (stateFrom mid ts) := by
  rw [stateFrom, stateOf_append, Touch.on, ← stateFrom]
  cases t.apply (stateFrom mid ts) <;> rfl

lemma bounded_stateFrom (mid : String) (ts : List Touch) : (stateFrom mid ts).Bounded := by
  induction ts using List.reverseRecOn with
  | nil => exact bounded_fresh mid
  | append_singleton ts t ih =>
    rw [stateFrom_append]
    cases h : t.apply (stateFrom mid ts) with
    | none => exact ih
    | some s => exact bounded_apply ih h

/-- The ids that a state keeps are those that came. -/
lemma mem_outcomeIds {mid id : String} {ts : List Touch} :
    id ∈ (stateFrom mid ts).outcomeIds ↔ ∃ nowIso, Touch.outcome nowIso id ∈ ts := by
  induction ts using List.reverseRecOn with
  | nil => simp [stateFrom, stateOf, ReinforcementState.fresh]
  | append_singleton ts t ih =>
    rw [stateFrom_append]
    cases t with
    | outcome nowIso j =>
      cases h : (Touch.outcome nowIso j).apply (stateFrom mid ts) with
      | none =>
        have hj : j ∈ (stateFrom mid ts).outcomeIds := by
          by_contra hnew
          rw [Touch.apply, reinforced, if_neg hnew] at h
          cases h
        rw [Option.getD_none, ih]
        constructor
        · rintro ⟨now, hin⟩
          exact ⟨now, List.mem_append_left _ hin⟩
        · rintro ⟨now, hin⟩
          rcases List.mem_append.mp hin with hin | hin
          · exact ⟨now, hin⟩
          · obtain ⟨-, rfl⟩ := Touch.outcome.inj (List.mem_singleton.mp hin)
            exact ih.mp hj
      | some s =>
        obtain ⟨-, rfl⟩ := reinforced_eq_some h
        simp only [Option.getD_some, List.mem_append, ih, List.mem_singleton]
        constructor
        · rintro (⟨now, hin⟩ | rfl)
          · exact ⟨now, .inl hin⟩
          · exact ⟨nowIso, .inr rfl⟩
        · rintro ⟨now, hin | heq⟩
          · exact .inl ⟨now, hin⟩
          · exact .inr (Touch.outcome.inj heq).2
    | correction nowIso j =>
      have hsame : (((Touch.correction nowIso j).apply (stateFrom mid ts)).getD (stateFrom mid ts)).outcomeIds =
          (stateFrom mid ts).outcomeIds := by
        cases h : (Touch.correction nowIso j).apply (stateFrom mid ts) with
        | none => rfl
        | some s =>
          obtain ⟨-, rfl⟩ := corrected_eq_some h
          rfl
      rw [hsame, ih]
      simp

lemma mem_correctionIds {mid id : String} {ts : List Touch} (h : id ∈ (stateFrom mid ts).correctionIds) :
    ∃ nowIso, Touch.correction nowIso id ∈ ts := by
  induction ts using List.reverseRecOn with
  | nil => simp [stateFrom, stateOf, ReinforcementState.fresh] at h
  | append_singleton ts t ih =>
    rw [stateFrom_append] at h
    have hold : id ∈ (stateFrom mid ts).correctionIds → ∃ nowIso, Touch.correction nowIso id ∈ ts ++ [t] := by
      intro hin
      obtain ⟨now, hnow⟩ := ih hin
      exact ⟨now, List.mem_append_left _ hnow⟩
    cases ha : t.apply (stateFrom mid ts) with
    | none =>
      rw [ha] at h
      exact hold h
    | some s =>
      rw [ha, Option.getD_some] at h
      cases t with
      | outcome nowIso j =>
        obtain ⟨-, rfl⟩ := reinforced_eq_some ha
        exact hold h
      | correction nowIso j =>
        obtain ⟨-, rfl⟩ := corrected_eq_some ha
        rcases List.mem_append.mp h with h | h
        · exact hold h
        · rw [List.mem_singleton.mp h]
          exact ⟨nowIso, by simp⟩

/-- After a correction that is not a replay, while only outcomes come that were there before it. Induction on what comes
after, from its end. -/
lemma settled {mid nowIso id : String} {before after : List Touch} (hnew : ∀ now, Touch.correction now id ∉ before)
    (hafter : ∀ now out, Touch.outcome now out ∈ after → ∃ now', Touch.outcome now' out ∈ before) :
    ∃ s, stateOf mid (before ++ .correction nowIso id :: after) = some s ∧ s.salience = 0 ∧ s.decayDamp = 0 := by
  induction after using List.reverseRecOn with
  | nil =>
    have hfree : id ∉ (stateFrom mid before).correctionIds := by
      intro hin
      obtain ⟨now, hnow⟩ := mem_correctionIds hin
      exact hnew now hnow
    rw [stateOf_append, Touch.on, ← stateFrom, Touch.apply, corrected, if_neg hfree]
    exact ⟨_, rfl, rfl, rfl⟩
  | append_singleton after t ih =>
    obtain ⟨s, hs, hsalience, hdamp⟩ := ih fun now out hin => hafter now out (List.mem_append_left _ hin)
    have hfrom : stateFrom mid (before ++ .correction nowIso id :: after) = s := by rw [stateFrom, hs, Option.getD_some]
    have hlist : before ++ .correction nowIso id :: (after ++ [t]) = (before ++ .correction nowIso id :: after) ++ [t] := by
      simp
    rw [hlist, stateOf_append, Touch.on, ← stateFrom, hfrom]
    cases ha : t.apply s with
    | none => exact ⟨s, by rw [Option.none_or, hs], hsalience, hdamp⟩
    | some s' =>
      refine ⟨s', rfl, ?_⟩
      cases t with
      | outcome now out =>
        obtain ⟨hout, -⟩ := reinforced_eq_some ha
        obtain ⟨now', hbefore⟩ := hafter now out (by simp)
        have hin : out ∈ (stateFrom mid (before ++ .correction nowIso id :: after)).outcomeIds :=
          mem_outcomeIds.mpr ⟨now', List.mem_append_left _ hbefore⟩
        rw [hfrom] at hin
        exact absurd hin hout
      | correction now j =>
        obtain ⟨-, rfl⟩ := corrected_eq_some ha
        exact ⟨rfl, rfl⟩

/-! ### One call -/

lemma visit_get (p : Principal) (known : List String) (t : Touch) (acc : Overlay × Touched) (mid k : String) :
    (visit p known t.apply acc mid).1.get k =
      if mid ∈ known ∧ dynKey mid p.tenant = k then t.on mid (acc.1.get k) else acc.1.get k := by
  rw [visit]
  by_cases hmem : mid ∈ known
  · rw [if_neg (not_not.mpr hmem)]
    by_cases hk : dynKey mid p.tenant = k
    · rw [if_pos ⟨hmem, hk⟩, hk, Touch.on]
      cases t.apply ((acc.1.get k).getD (.fresh mid)) with
      | none => rfl
      | some s => exact Dict.get_set_self _ k s
    · rw [if_neg fun h => hk h.2]
      cases t.apply ((acc.1.get (dynKey mid p.tenant)).getD (.fresh mid)) with
      | none => rfl
      | some s => exact Dict.get_set_ne _ hk s
  · rw [if_pos hmem, if_neg fun h => hmem h.1]

/-- What one principal's call brings to one memory. -/
def touchesIn (known requested : List String) (t : Touch) (mid : String) : List Touch :=
  if mid ∈ known then (requested.filter (· = mid)).map fun _ => t else []

/-- The ids of the call are read under one key each. -/
lemma visitAll_get {p : Principal} {known requested : List String} {k : String} {mid : String}
    (hkey : ∀ m ∈ requested, m ∈ known → (dynKey m p.tenant = k ↔ m = mid)) (t : Touch) (overlay : Overlay) :
    (visitAll p known requested t.apply overlay).1.get k =
      (touchesIn known requested t mid).foldl (Touch.on mid) (overlay.get k) := by
  rw [visitAll]
  induction requested using List.reverseRecOn with
  | nil => rw [touchesIn]; split_ifs <;> rfl
  | append_singleton ms m ih =>
    have hrest := ih fun m' hm' => hkey m' (List.mem_append_left _ hm')
    have hm := hkey m (by simp)
    rw [List.foldl_append, List.foldl_cons, List.foldl_nil, visit_get, hrest]
    by_cases hmem : m ∈ known ∧ dynKey m p.tenant = k
    · obtain rfl := (hm hmem.1).mp hmem.2
      rw [if_pos hmem, touchesIn, touchesIn, if_pos hmem.1, if_pos hmem.1, List.filter_append, List.map_append,
        List.foldl_append]
      simp
    · rw [if_neg hmem, touchesIn, touchesIn]
      by_cases hmid : mid ∈ known
      · have hne : m ≠ mid := by
          rintro rfl
          exact hmem ⟨hmid, (hm hmid).mpr rfl⟩
        rw [if_pos hmid, if_pos hmid, List.filter_append, List.filter_singleton]
        simp [hne]
      · rw [if_neg hmid, if_neg hmid]

/-- No id leaves another key than its own changed. -/
lemma visitAll_get_ne {p : Principal} {known requested : List String} {k : String}
    (hkey : ∀ m ∈ requested, m ∈ known → dynKey m p.tenant ≠ k) (t : Touch) (overlay : Overlay) :
    (visitAll p known requested t.apply overlay).1.get k = overlay.get k := by
  rw [visitAll]
  induction requested using List.reverseRecOn with
  | nil => rfl
  | append_singleton ms m ih =>
    rw [List.foldl_append, List.foldl_cons, List.foldl_nil, visit_get,
      if_neg fun h => hkey m (by simp) h.1 h.2]
    exact ih fun m' hm' => hkey m' (List.mem_append_left _ hm')

/-- A visit leaves the entries, or sets the one of the id. -/
lemma visit_cases (p : Principal) (known : List String) (touch : ReinforcementState → Option ReinforcementState)
    (acc : Overlay × Touched) (mid : String) :
    ((visit p known touch acc mid).1 = acc.1 ∧ (visit p known touch acc mid).2.states = acc.2.states) ∨
      ∃ s, mid ∈ known ∧ (visit p known touch acc mid).1 = acc.1.set (dynKey mid p.tenant) s ∧
        (visit p known touch acc mid).2.states = acc.2.states ++ [s] := by
  rw [visit]
  by_cases hmem : mid ∈ known
  · rw [if_neg (not_not.mpr hmem)]
    cases touch ((acc.1.get (dynKey mid p.tenant)).getD (.fresh mid)) with
    | none => exact .inl ⟨rfl, rfl⟩
    | some s => exact .inr ⟨s, hmem, rfl, rfl⟩
  · rw [if_pos hmem]
    exact .inl ⟨rfl, rfl⟩

lemma visitAll_quiet {p : Principal} {known requested : List String} {touch : ReinforcementState → Option ReinforcementState}
    {overlay : Overlay} (h : (visitAll p known requested touch overlay).2.states = []) :
    (visitAll p known requested touch overlay).1 = overlay := by
  rw [visitAll] at h ⊢
  induction requested using List.reverseRecOn with
  | nil => rfl
  | append_singleton ms m ih =>
    rw [List.foldl_append, List.foldl_cons, List.foldl_nil] at h ⊢
    rcases visit_cases p known touch (ms.foldl (visit p known touch) (overlay, ⟨[], [], []⟩)) m with
      ⟨heq, hstates⟩ | ⟨s, -, -, hstates⟩
    · rw [hstates] at h
      rw [heq, ih h]
    · rw [hstates] at h
      exact absurd h (by simp)

lemma keyed_visitAll (p : Principal) (known requested : List String)
    (touch : ReinforcementState → Option ReinforcementState) {overlay : Overlay} (h : Dict.Keyed overlay) :
    Dict.Keyed (visitAll p known requested touch overlay).1 := by
  rw [visitAll]
  induction requested using List.reverseRecOn with
  | nil => exact h
  | append_singleton ms m ih =>
    rw [List.foldl_append, List.foldl_cons, List.foldl_nil]
    rcases visit_cases p known touch (ms.foldl (visit p known touch) (overlay, ⟨[], [], []⟩)) m with
      ⟨heq, -⟩ | ⟨s, -, heq, -⟩
    · rw [heq]
      exact ih
    · rw [heq]
      exact Dict.keyed_set ih _ _

/-- A new key is of an id that was asked for and is known. -/
lemma keys_visitAll {p : Principal} {known requested : List String}
    {touch : ReinforcementState → Option ReinforcementState} {overlay : Overlay} {k : String}
    (h : k ∈ (visitAll p known requested touch overlay).1.map Prod.fst) :
    k ∈ overlay.map Prod.fst ∨ ∃ mid ∈ requested, mid ∈ known ∧ k = dynKey mid p.tenant := by
  rw [visitAll] at h
  induction requested using List.reverseRecOn with
  | nil => exact .inl h
  | append_singleton ms m ih =>
    have hrest : k ∈ (ms.foldl (visit p known touch) (overlay, ⟨[], [], []⟩)).1.map Prod.fst →
        k ∈ overlay.map Prod.fst ∨ ∃ mid ∈ ms ++ [m], mid ∈ known ∧ k = dynKey mid p.tenant := by
      intro hk
      rcases ih hk with hk | ⟨mid, hmid, hknown⟩
      · exact .inl hk
      · exact .inr ⟨mid, List.mem_append_left _ hmid, hknown⟩
    rw [List.foldl_append, List.foldl_cons, List.foldl_nil] at h
    rcases visit_cases p known touch (ms.foldl (visit p known touch) (overlay, ⟨[], [], []⟩)) m with
      ⟨heq, -⟩ | ⟨s, hm, heq, -⟩
    · rw [heq] at h
      exact hrest h
    · rw [heq] at h
      rcases Dict.mem_keys_set.mp h with rfl | hk
      · exact .inr ⟨m, by simp, hm, rfl⟩
      · exact hrest hk

end ContinuityLedger.Recall
