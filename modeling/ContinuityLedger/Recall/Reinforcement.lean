import ContinuityLedger.Recall.Touches

/-! Every run of outcomes, corrections and restarts: each entry of the overlay is what its principal's own calls made of
it. -/

namespace ContinuityLedger.Recall

open Foundations

/-- What a step brings to a memory of a principal. -/
def DynamicsStep.touches (p : Principal) (mid : String) : DynamicsStep → List Touch
  | .reinforce q nowIso _ known requested outcome =>
    match outcome with
    | some o =>
      if q.tenant = p.tenant ∧ o.signal = "positive" then touchesIn known requested (.outcome nowIso o.outcomeId) mid
      else []
    | none => []
  | .correct q nowIso _ known requested c =>
    if q.tenant = p.tenant then touchesIn known requested (.correction nowIso c.correctionId) mid else []
  | .restart => []

def touchesOf (p : Principal) (mid : String) (steps : List DynamicsStep) : List Touch :=
  steps.flatMap (DynamicsStep.touches p mid)

/-- An id whose entry is the principal's own: the operator's have no separator. -/
def Own (p : Principal) (mid : String) : Prop := p = none → tenanted mid = false

/-- The operator's ids without a separator. -/
def DynamicsStep.Plain : DynamicsStep → Prop
  | .reinforce p _ _ known requested _ => ∀ mid ∈ requested, mid ∈ known → Own p mid
  | .correct p _ _ known requested _ => ∀ mid ∈ requested, mid ∈ known → Own p mid
  | .restart => True

/-! ### Keys -/

lemma TenantKey.key_injective {s t : TenantKey} (h : s.key = t.key) : s = t := by
  cases s
  cases t
  cases h
  rfl

lemma tenanted_dynKey (t : TenantKey) (mid : String) : tenanted (dynKey mid t.key) = true := by
  rw [tenanted, dynKey_toList t.nonempty]
  simp

lemma splitTenant_tenant (t : TenantKey) (mid : String) : splitTenant (dynKey mid t.key) = (t.key, mid) :=
  splitTenant_dynKey t.nonempty t.unseparated

lemma dynKey_operator (mid : String) : dynKey mid "" = mid := if_pos rfl

lemma dynKey_injective {p q : Principal} {m n : String} (hm : Own p m) (hn : Own q n)
    (h : dynKey m p.tenant = dynKey n q.tenant) : p = q ∧ m = n := by
  cases p with
  | none =>
    cases q with
    | none =>
      change dynKey m "" = dynKey n "" at h
      rw [dynKey_operator, dynKey_operator] at h
      exact ⟨rfl, h⟩
    | some t =>
      change dynKey m "" = dynKey n t.key at h
      rw [dynKey_operator] at h
      have hbare := hm rfl
      rw [h, tenanted_dynKey] at hbare
      cases hbare
  | some s =>
    cases q with
    | none =>
      change dynKey m s.key = dynKey n "" at h
      rw [dynKey_operator] at h
      have hbare := hn rfl
      rw [← h, tenanted_dynKey] at hbare
      cases hbare
    | some t =>
      have hsplit := congrArg splitTenant h
      change splitTenant (dynKey m s.key) = splitTenant (dynKey n t.key) at hsplit
      rw [splitTenant_tenant, splitTenant_tenant] at hsplit
      obtain ⟨hkey, rfl⟩ := Prod.mk.inj hsplit
      rw [TenantKey.key_injective hkey]
      exact ⟨rfl, rfl⟩

lemma tenant_injective {p q : Principal} (h : p.tenant = q.tenant) : p = q := by
  cases p with
  | none =>
    cases q with
    | none => rfl
    | some t => exact absurd h.symm t.nonempty
  | some s =>
    cases q with
    | none => exact absurd h s.nonempty
    | some t => rw [TenantKey.key_injective h]

lemma separated_of_own {overlay : Overlay}
    (h : ∀ k ∈ overlay.map Prod.fst, ∃ p mid, Own p mid ∧ k = dynKey mid p.tenant) : Separated overlay := by
  intro k hk htenanted
  obtain ⟨p, mid, hown, rfl⟩ := h k hk
  cases p with
  | none =>
    change tenanted (dynKey mid "") = true at htenanted
    rw [dynKey_operator, hown rfl] at htenanted
    cases htenanted
  | some t =>
    change (splitTenant (dynKey mid t.key)).1 ≠ ""
    rw [splitTenant_tenant]
    exact t.nonempty

/-! ### What a run keeps -/

/-- The invariant of a run. -/
structure Upholds (steps : List DynamicsStep) (d : Dynamics) : Prop where
  keyed : Dict.Keyed d.current
  idle : d.loaded = false → d.overlay = [] ∧ d.saved = true
  keys : ∀ k ∈ d.current.map Prod.fst, ∃ p mid, Own p mid ∧ k = dynKey mid p.tenant
  synced : d.saved = true → ∀ k, d.restart.current.get k = d.current.get k
  own : ∀ p mid, Own p mid → d.current.get (dynKey mid p.tenant) = stateOf mid (touchesOf p mid steps)

lemma touchesOf_append (p : Principal) (mid : String) (steps : List DynamicsStep) (step : DynamicsStep) :
    touchesOf p mid (steps ++ [step]) = touchesOf p mid steps ++ step.touches p mid := by
  rw [touchesOf, List.flatMap_append]
  simp [touchesOf]

lemma upholds_start : Upholds [] .start where
  keyed := List.nodup_nil
  idle _ := ⟨rfl, rfl⟩
  keys _ hk := absurd hk List.not_mem_nil
  synced _ _ := rfl
  own _ _ _ := rfl

/-- A step that leaves the process as it is. -/
lemma Upholds.same {steps : List DynamicsStep} {d : Dynamics} (h : Upholds steps d) {step : DynamicsStep}
    (hnone : ∀ p mid, step.touches p mid = []) : Upholds (steps ++ [step]) d where
  keyed := h.keyed
  idle := h.idle
  keys := h.keys
  synced := h.synced
  own p mid hown := by
    rw [touchesOf_append, hnone, List.append_nil]
    exact h.own p mid hown

lemma current_loaded {d : Dynamics} (h : d.loaded = true) : d.current = d.overlay := by
  rw [Dynamics.current, ensureDynamics, if_pos h]

lemma ensured (d : Dynamics) : ensureDynamics d = ⟨d.current, true, d.file, d.saved⟩ := by
  rw [Dynamics.current, ensureDynamics]
  split_ifs with h
  · rw [← h]
  · rfl

lemma keyed_restart (d : Dynamics) : Dict.Keyed d.restart.current := by
  show Dict.Keyed (d.file.elim [] (·.loadInto []))
  cases d.file with
  | none => exact List.nodup_nil
  | some file => exact keyed_loadInto file List.nodup_nil

lemma Upholds.restart {steps : List DynamicsStep} {d : Dynamics} (h : Upholds steps d) (hsaved : d.saved = true) :
    Upholds (steps ++ [.restart]) d.restart where
  keyed := keyed_restart d
  idle _ := ⟨rfl, hsaved⟩
  keys k hk := by
    rw [← Dict.has_iff, Dict.has, h.synced hsaved k] at hk
    exact h.keys k (Dict.has_iff.mp hk)
  synced _ _ := rfl
  own p mid hown := by
    rw [h.synced hsaved, touchesOf_append]
    show _ = stateOf mid (touchesOf p mid steps ++ [])
    rw [List.append_nil]
    exact h.own p mid hown

lemma touchIds_snd (d : Dynamics) (p : Principal) (saves : Bool) (known requested : List String)
    (touch : ReinforcementState → Option ReinforcementState) :
    (touchIds d p saves known requested touch).2 =
      if (visitAll p known requested touch d.current).2.states = [] then
        ⟨(visitAll p known requested touch d.current).1, true, d.file, d.saved⟩
      else saveDynamics saves ⟨(visitAll p known requested touch d.current).1, true, d.file, d.saved⟩ := by
  rw [touchIds, ensured]

lemma current_touchIds (d : Dynamics) (p : Principal) (saves : Bool) (known requested : List String)
    (touch : ReinforcementState → Option ReinforcementState) :
    (touchIds d p saves known requested touch).2.current = (visitAll p known requested touch d.current).1 := by
  rw [touchIds_snd]
  split_ifs
  · rfl
  · cases saves <;> rfl

lemma Upholds.touchIds {steps : List DynamicsStep} {d : Dynamics} (h : Upholds steps d) {p : Principal} (saves : Bool)
    {known requested : List String} (hplain : ∀ mid ∈ requested, mid ∈ known → Own p mid) (t : Touch) {step : DynamicsStep}
    (hstep : ∀ q mid, step.touches q mid = if p.tenant = q.tenant then touchesIn known requested t mid else []) :
    Upholds (steps ++ [step]) (touchIds d p saves known requested t.apply).2 := by
  have hkeyed := keyed_visitAll p known requested t.apply h.keyed
  have hkeys : ∀ k ∈ (visitAll p known requested t.apply d.current).1.map Prod.fst,
      ∃ q mid, Own q mid ∧ k = dynKey mid q.tenant := by
    intro k hk
    rcases keys_visitAll hk with hk | ⟨mid, hmid, hknown, rfl⟩
    · exact h.keys k hk
    · exact ⟨p, mid, hplain mid hmid hknown, rfl⟩
  have hcurrent := current_touchIds d p saves known requested t.apply
  refine ⟨by rw [hcurrent]; exact hkeyed, fun hl => ?_, by rw [hcurrent]; exact hkeys, fun hsaved k => ?_,
    fun q mid hown => ?_⟩
  · rw [touchIds_snd] at hl
    split_ifs at hl
    cases saves <;> cases hl
  · rw [hcurrent]
    rw [touchIds_snd] at hsaved ⊢
    by_cases hquiet : (visitAll p known requested t.apply d.current).2.states = []
    · rw [if_pos hquiet] at hsaved ⊢
      rw [visitAll_quiet hquiet]
      exact h.synced hsaved k
    · rw [if_neg hquiet] at hsaved ⊢
      cases saves with
      | false => cases hsaved
      | true => exact get_loadInto hkeyed (separated_of_own hkeys) k
  · rw [hcurrent, touchesOf_append, hstep, stateOf, List.foldl_append, ← stateOf, ← h.own q mid hown]
    split_ifs with htenant
    · obtain rfl := tenant_injective htenant
      apply visitAll_get
      intro m hm hknown
      constructor
      · intro hkey
        exact (dynKey_injective (hplain m hm hknown) hown hkey).2
      · rintro rfl
        rfl
    · apply visitAll_get_ne
      intro m hm hknown hkey
      exact htenant (by rw [(dynKey_injective (hplain m hm hknown) hown hkey).1])

lemma Upholds.step {steps : List DynamicsStep} {d d' : Dynamics} (h : Upholds steps d) {step : DynamicsStep}
    (hplain : step.Plain) (hs : d.step step = some d') : Upholds (steps ++ [step]) d' := by
  cases step with
  | reinforce p nowIso saves known requested outcome =>
    obtain rfl := Option.some.inj hs
    cases outcome with
    | none => exact h.same fun _ _ => rfl
    | some o =>
      rw [reinforceIds]
      by_cases hsignal : o.signal = "positive"
      · rw [if_neg (not_not.mpr hsignal)]
        apply h.touchIds saves hplain (.outcome nowIso o.outcomeId)
        intro q mid
        simp [DynamicsStep.touches, hsignal]
      · rw [if_pos hsignal]
        apply h.same
        intro q mid
        simp [DynamicsStep.touches, hsignal]
  | correct p nowIso saves known requested c =>
    obtain rfl := Option.some.inj hs
    exact h.touchIds saves hplain (.correction nowIso c.correctionId) fun _ _ => rfl
  | restart =>
    have hs : (if d.saved then some d.restart else none) = some d' := hs
    split_ifs at hs with hsaved
    obtain rfl := Option.some.inj hs
    exact h.restart hsaved

lemma run_append {d d' : Dynamics} {steps : List DynamicsStep} {step : DynamicsStep}
    (h : d.run (steps ++ [step]) = some d') : ∃ e, d.run steps = some e ∧ e.step step = some d' := by
  rw [Dynamics.run, List.foldlM_append] at h
  obtain ⟨e, he, hstep⟩ := Option.bind_eq_some_iff.mp h
  refine ⟨e, he, ?_⟩
  simpa using hstep

/-- Induction on the run, from its end. -/
lemma keeps_run {steps : List DynamicsStep} (hplain : ∀ step ∈ steps, step.Plain) {d : Dynamics}
    (h : Dynamics.start.run steps = some d) : Upholds steps d := by
  induction steps using List.reverseRecOn generalizing d with
  | nil =>
    obtain rfl := Option.some.inj h
    exact upholds_start
  | append_singleton steps step ih =>
    obtain ⟨e, he, hstep⟩ := run_append h
    exact (ih (fun s hs => hplain s (List.mem_append_left _ hs)) he).step (hplain step (by simp)) hstep

/-! ### What is promised -/

structure Upheld (steps : List DynamicsStep) (d : Dynamics) : Prop where
  bounded : ∀ k s, d.current.get k = some s → s.Bounded
  owner : ∀ k s, d.current.get k = some s → ∃ p mid, k = dynKey mid p.tenant ∧ stateOf mid (touchesOf p mid steps) = some s
  owned : ∀ p mid s, stateOf mid (touchesOf p mid steps) = some s → d.current.get (dynKey mid p.tenant) = some s
  separate : ∀ p q m n, stateOf m (touchesOf p m steps) ≠ none → stateOf n (touchesOf q n steps) ≠ none →
    dynKey m p.tenant = dynKey n q.tenant → p = q ∧ m = n
  replayedOutcome : ∀ p nowIso saves known requested o mid s, d.current.get (dynKey mid p.tenant) = some s →
    o.outcomeId ∈ s.outcomeIds →
      (reinforceIds d p nowIso saves known requested (some o)).2.current.get (dynKey mid p.tenant) = some s
  replayedCorrection : ∀ p nowIso saves known requested c mid s, d.current.get (dynKey mid p.tenant) = some s →
    c.correctionId ∈ s.correctionIds →
      (correctMemoryIds d p nowIso saves known requested c).2.current.get (dynKey mid p.tenant) = some s
  settled : ∀ before p nowIso saves known requested c after mid,
    steps = before ++ .correct p nowIso saves known requested c :: after → mid ∈ known → mid ∈ requested →
      (∀ now, Touch.correction now c.correctionId ∉ touchesOf p mid before) →
      (∀ now out, Touch.outcome now out ∈ touchesOf p mid after → ∃ now', Touch.outcome now' out ∈ touchesOf p mid before) →
        ∃ s, d.current.get (dynKey mid p.tenant) = some s ∧ s.salience = 0 ∧ s.decayDamp = 0
  reloaded : d.saved = true → ∀ k, d.restart.current.get k = d.current.get k

lemma own_of_touches {steps : List DynamicsStep} (hplain : ∀ step ∈ steps, step.Plain) {p : Principal} {mid : String}
    (h : touchesOf p mid steps ≠ []) : Own p mid := by
  obtain ⟨t, ht⟩ := List.exists_mem_of_ne_nil _ h
  obtain ⟨step, hstep, ht⟩ := List.mem_flatMap.mp ht
  have hplain := hplain step hstep
  have hin : ∀ {known requested : List String} {t' : Touch}, t ∈ touchesIn known requested t' mid →
      mid ∈ requested ∧ mid ∈ known := by
    intro known requested t' hin
    rw [touchesIn] at hin
    split_ifs at hin with hknown
    · obtain ⟨m, hm, -⟩ := List.mem_map.mp hin
      obtain ⟨hmem, heq⟩ := List.mem_filter.mp hm
      obtain rfl : m = mid := by simpa using heq
      exact ⟨hmem, hknown⟩
    · exact absurd hin List.not_mem_nil
  cases step with
  | reinforce q nowIso saves known requested outcome =>
    cases outcome with
    | none => exact absurd ht List.not_mem_nil
    | some o =>
      rw [DynamicsStep.touches] at ht
      split_ifs at ht with hq
      · obtain ⟨hmem, hknown⟩ := hin ht
        exact tenant_injective hq.1 ▸ hplain mid hmem hknown
      · exact absurd ht List.not_mem_nil
  | correct q nowIso saves known requested c =>
    rw [DynamicsStep.touches] at ht
    split_ifs at ht with hq
    · obtain ⟨hmem, hknown⟩ := hin ht
      exact tenant_injective hq ▸ hplain mid hmem hknown
    · exact absurd ht List.not_mem_nil
  | restart => exact absurd ht List.not_mem_nil

lemma touches_ne_nil {mid : String} {ts : List Touch} (h : stateOf mid ts ≠ none) : ts ≠ [] := by
  rintro rfl
  exact h rfl

lemma dynKey_same {p : Principal} {m n : String} (h : dynKey m p.tenant = dynKey n p.tenant) : m = n := by
  cases p with
  | none =>
    change dynKey m "" = dynKey n "" at h
    rw [dynKey_operator, dynKey_operator] at h
    exact h
  | some t =>
    have hsplit := congrArg splitTenant h
    change splitTenant (dynKey m t.key) = splitTenant (dynKey n t.key) at hsplit
    rw [splitTenant_tenant, splitTenant_tenant] at hsplit
    exact (Prod.mk.inj hsplit).2

lemma foldl_replay {mid : String} {s : ReinforcementState} {ts : List Touch} (h : ∀ t ∈ ts, t.apply s = none) :
    ts.foldl (Touch.on mid) (some s) = some s := by
  induction ts with
  | nil => rfl
  | cons t ts ih =>
    rw [List.foldl_cons, Touch.on, Option.getD_some, h t List.mem_cons_self]
    exact ih fun t' ht' => h t' (List.mem_cons_of_mem t ht')

lemma replayed (d : Dynamics) (p : Principal) (saves : Bool) (known requested : List String) {t : Touch} {mid : String}
    {s : ReinforcementState} (hs : d.current.get (dynKey mid p.tenant) = some s) (ht : t.apply s = none) :
    (touchIds d p saves known requested t.apply).2.current.get (dynKey mid p.tenant) = some s := by
  have hkey : ∀ m ∈ requested, m ∈ known → (dynKey m p.tenant = dynKey mid p.tenant ↔ m = mid) := by
    intro m _ _
    exact ⟨dynKey_same, fun h => by rw [h]⟩
  rw [current_touchIds, visitAll_get hkey, hs]
  apply foldl_replay
  intro t' ht'
  rw [touchesIn] at ht'
  split_ifs at ht' with hknown
  · obtain ⟨-, -, rfl⟩ := List.mem_map.mp ht'
    exact ht
  · exact absurd ht' List.not_mem_nil

lemma Upholds.settled {before after : List DynamicsStep} {p : Principal} {nowIso : String} {saves : Bool}
    {known requested : List String} {c : OperatorCorrectionSignal} {mid : String} {d : Dynamics}
    (h : Upholds (before ++ .correct p nowIso saves known requested c :: after) d) (hown : Own p mid) (hknown : mid ∈ known)
    (hrequested : mid ∈ requested) (hnew : ∀ now, Touch.correction now c.correctionId ∉ touchesOf p mid before)
    (hafter : ∀ now out, Touch.outcome now out ∈ touchesOf p mid after →
      ∃ now', Touch.outcome now' out ∈ touchesOf p mid before) :
    ∃ s, d.current.get (dynKey mid p.tenant) = some s ∧ s.salience = 0 ∧ s.decayDamp = 0 := by
  obtain ⟨m, rest, hrest⟩ := List.exists_cons_of_ne_nil (List.ne_nil_of_mem
    (List.mem_filter.mpr ⟨hrequested, decide_eq_true rfl⟩ : mid ∈ requested.filter (· = mid)))
  have htouches : touchesOf p mid (before ++ .correct p nowIso saves known requested c :: after) =
      touchesOf p mid before ++ .correction nowIso c.correctionId ::
        ((rest.map fun _ => .correction nowIso c.correctionId) ++ touchesOf p mid after) := by
    rw [touchesOf, List.flatMap_append, List.flatMap_cons, DynamicsStep.touches, if_pos rfl, touchesIn, if_pos hknown,
      hrest]
    rfl
  rw [h.own p mid hown, htouches]
  apply Recall.settled hnew
  intro now out hin
  rcases List.mem_append.mp hin with hin | hin
  · obtain ⟨-, -, heq⟩ := List.mem_map.mp hin
    cases heq
  · exact hafter now out hin

/-- Every run in which the operator names no known id with the separator in it. -/
theorem overlay_upheld (steps : List DynamicsStep) (hplain : ∀ step ∈ steps, step.Plain) (d : Dynamics)
    (h : Dynamics.start.run steps = some d) : Upheld steps d := by
  have hkeeps := keeps_run hplain h
  have howner : ∀ k s, d.current.get k = some s →
      ∃ p mid, k = dynKey mid p.tenant ∧ stateOf mid (touchesOf p mid steps) = some s := by
    intro k s hs
    obtain ⟨p, mid, hown, rfl⟩ := hkeeps.keys k (Dict.mem_keys.mpr ⟨s, Dict.get_mem hs⟩)
    exact ⟨p, mid, rfl, (hkeeps.own p mid hown).symm.trans hs⟩
  have hown : ∀ p mid, stateOf mid (touchesOf p mid steps) ≠ none → Own p mid := fun p mid hs =>
    own_of_touches hplain (touches_ne_nil hs)
  refine
    { bounded := fun k s hs => ?_
      owner := howner
      owned := fun p mid s hs => ?_
      separate := fun p q m n hm hn hkey => dynKey_injective (hown p m hm) (hown q n hn) hkey
      replayedOutcome := fun p nowIso saves known requested o mid s hs hin => ?_
      replayedCorrection := fun p nowIso saves known requested c mid s hs hin => ?_
      settled := ?_
      reloaded := hkeeps.synced }
  · obtain ⟨p, mid, -, hstate⟩ := howner k s hs
    have hbounded := bounded_stateFrom mid (touchesOf p mid steps)
    rw [stateFrom, hstate] at hbounded
    exact hbounded
  · rw [hkeeps.own p mid (hown p mid (by rw [hs]; exact Option.some_ne_none s))]
    exact hs
  · rw [reinforceIds]
    split_ifs with hsignal
    · exact hs
    · exact replayed d p saves known requested (t := .outcome nowIso o.outcomeId) hs (if_pos hin)
  · exact replayed d p saves known requested (t := .correction nowIso c.correctionId) hs (if_pos hin)
  · rintro before p nowIso saves known requested c after mid rfl hknown hrequested hnew hafter
    have hplain := hplain _ (List.mem_append_right _ List.mem_cons_self)
    exact hkeeps.settled (hplain mid hrequested hknown) hknown hrequested hnew hafter

def useful : List DynamicsStep :=
  [.reinforce none "2026-10-01T00:00:00+00:00" true ["mem-1"] ["mem-1"] (some ⟨"positive", "o-1"⟩), .restart]

theorem overlay_upheld_useful : ∃ d, Dynamics.start.run useful = some d ∧ Upheld useful d :=
  ⟨_, rfl, overlay_upheld useful (by simp [useful, DynamicsStep.Plain, Own, tenanted, tenantSep]) _ rfl⟩

/-! ### An id with the separator in it -/

def separatorFirst : List DynamicsStep :=
  [.reinforce none "2026-10-01T00:00:00+00:00" true ["\x1fmem-1"] ["\x1fmem-1"] (some ⟨"positive", "o-1"⟩)]

def separatorEntry : String × ReinforcementState :=
  ("\x1fmem-1", ⟨"\x1fmem-1", 1, min salienceCap (0 + salienceGain), min dampCap (0 + dampGain),
    some "2026-10-01T00:00:00+00:00", ["o-1"], []⟩)

lemma sidecar_separatorEntry : sidecar [separatorEntry] = ⟨[], [("", [("mem-1", separatorEntry.2)])]⟩ := by
  rw [sidecar, List.mergeSort_singleton]
  rfl

/-- The operator's entry is saved among the tenants', and comes back under another id. -/
theorem separator_reloads_elsewhere :
    ¬ ∀ steps d, Dynamics.start.run steps = some d → Upheld steps d := by
  intro h
  have hrun : Dynamics.start.run separatorFirst =
      some ⟨[separatorEntry], true, some (sidecar [separatorEntry]), true⟩ := rfl
  have hreloaded := (h _ _ hrun).reloaded rfl "mem-1"
  have hload : Dict.get ((sidecar [separatorEntry]).loadInto []) "mem-1" = Dict.get [separatorEntry] "mem-1" := hreloaded
  rw [sidecar_separatorEntry] at hload
  exact absurd hload (by decide)

end ContinuityLedger.Recall
