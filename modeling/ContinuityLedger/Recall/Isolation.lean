import ContinuityLedger.Foundations.Noninterference
import ContinuityLedger.Foundations.PyText
import ContinuityLedger.Recall.Reinforcement
import ContinuityLedger.Recall.Summary

/-! Short-term memory and the reinforcement overlay of all principals in one process: each is answered as if the others were not
there, while the operator names no session and no memory with the separator in it. -/

namespace ContinuityLedger.Recall

open Foundations Foundations.Noninterference Records

instance : DecidableEq TenantKey := fun s t => decidable_of_iff (s.key = t.key) ⟨TenantKey.key_injective, congrArg _⟩

instance : DecidableEq Principal := inferInstanceAs (DecidableEq (Option TenantKey))

/-- `_STM` and the overlay. -/
structure Emr where
  stm : Dict String (List STMEntry)
  dynamics : Dynamics

/-- `_stm_key`. -/
def stmKey (p : Principal) (sessionKey : String) : String := dynKey sessionKey p.tenant

def keyPrefix (t : TenantKey) : String := t.key ++ String.singleton tenantSep

/-- The keys that are shown to a principal. -/
def visible (p : Principal) (k : String) : Bool := p.elim (!tenanted k) fun t => PyText.startsWith k (keyPrefix t)

/-- The caller's name of a key that is shown. -/
def sessionOf (p : Principal) (k : String) : String := p.elim k fun t => String.ofList (k.toList.drop (keyPrefix t).length)

namespace Emr

variable (p : Principal) (e : Emr)

def visibleStmKeys : Dict String String := (Dict.restrict (visible p) e.stm).map fun s => (s.1, sessionOf p s.1)

def tenantStates : List ReinforcementState := (Dict.restrict (visible p) e.dynamics.current).map Prod.snd

def getStm (sessionKey : String) : List STMEntry := (e.stm.get (stmKey p sessionKey)).getD []

def setStm (sessionKey : String) (entries : List STMEntry) : Emr := { e with stm := e.stm.set (stmKey p sessionKey) entries }

/-- Without a session, a tenant's keys go one by one, and for the operator everything goes. -/
def clearStm : Option String → Emr
  | some sessionKey => { e with stm := e.stm.erase (stmKey p sessionKey) }
  | none =>
    match p with
    | some _ => { e with stm := (e.visibleStmKeys p).foldl (fun stm k => stm.erase k.1) e.stm }
    | none => { e with stm := [] }

/-- `get_reinforcement`, where the overlay is loaded. -/
def getReinforcement (mid : String) : Option ReinforcementState := e.dynamics.current.get (dynKey mid p.tenant)

structure ExpandRequest where
  memoryId : String
  resolution : Resolution
  sessionKey : String

def expandStmEntry (recordsById : Dict String (MemoryRecord String)) (req : ExpandRequest) : Option STMEntry × Emr :=
  let stm := e.getStm p req.sessionKey
  match stm.findIdx? (·.memoryId = req.memoryId) with
  | none => (none, e)
  | some i =>
    match stm[i]?, recordsById.get req.memoryId with
    | some entry, some rec =>
      let updated := { entryFromRecord (rec, entry.components) req.resolution with
        activation := entry.activation
        components := entry.components }
      (some updated, e.setStm p req.sessionKey (stm.set i updated))
    | _, _ => (none, e)

/-- What `emr_status` tells of the caller's own. -/
structure StatusReport where
  sessions : List String
  counts : Dict String ℕ
  reinforcedParticles : ℕ
  top : List ReinforcementState

def status : StatusReport :=
  let reinforced := (e.tenantStates p).mergeSort fun a b => b.useCount ≤ a.useCount
  let keys := e.visibleStmKeys p
  ⟨(keys.map Prod.snd).mergeSort fun a b => a ≤ b,
    Dict.ofPairs (keys.map fun k => (k.2, ((e.stm.get k.1).getD []).length)), reinforced.length, reinforced.take 5⟩

end Emr

inductive Call
  | getStm (sessionKey : String)
  | setStm (sessionKey : String) (entries : List STMEntry)
  | clearStm (sessionKey : Option String)
  | expandStmEntry (recordsById : Dict String (MemoryRecord String)) (req : Emr.ExpandRequest)
  | getReinforcement (mid : String)
  | reinforceIds (nowIso : String) (saves : Bool) (known requested : List String) (outcome : Option PositiveOutcomeSignal)
  | correctMemoryIds (nowIso : String) (saves : Bool) (known requested : List String) (correction : OperatorCorrectionSignal)
  | status

inductive Answered
  | done
  | entries (stm : List STMEntry)
  | entry (updated : Option STMEntry)
  | state (s : Option ReinforcementState)
  | touched (t : Except String Touched)
  | status (report : Emr.StatusReport)

def Emr.step (e : Emr) (p : Principal) : Call → Emr × Answered
  | .getStm sessionKey => (e, .entries (e.getStm p sessionKey))
  | .setStm sessionKey entries => (e.setStm p sessionKey entries, .done)
  | .clearStm sessionKey => (e.clearStm p sessionKey, .done)
  | .expandStmEntry recordsById req =>
    let r := e.expandStmEntry p recordsById req
    (r.2, .entry r.1)
  | .getReinforcement mid => (e, .state (e.getReinforcement p mid))
  | .reinforceIds nowIso saves known requested outcome =>
    let r := Recall.reinforceIds e.dynamics p nowIso saves known requested outcome
    ({ e with dynamics := r.2 }, .touched r.1)
  | .correctMemoryIds nowIso saves known requested correction =>
    let r := Recall.correctMemoryIds e.dynamics p nowIso saves known requested correction
    ({ e with dynamics := r.2 }, .touched (.ok r.1))
  | .status => ({ e with dynamics := ensureDynamics e.dynamics }, .status (e.status p))

/-- The operator's sessions and memories are named without the separator, and the operator does not clear everything. -/
def Call.Fair (p : Principal) : Call → Prop
  | .getStm sessionKey => Own p sessionKey
  | .setStm sessionKey _ => Own p sessionKey
  | .clearStm (some sessionKey) => Own p sessionKey
  | .clearStm none => p ≠ none
  | .expandStmEntry _ req => Own p req.sessionKey
  | .getReinforcement mid => Own p mid
  | .reinforceIds _ _ known requested _ => ∀ mid ∈ requested, mid ∈ known → Own p mid
  | .correctMemoryIds _ _ known requested _ => ∀ mid ∈ requested, mid ∈ known → Own p mid
  | .status => True

variable {p q : Principal} {mid : String}

/-! ### Whose keys -/

lemma own_tenant (t : TenantKey) (mid : String) : Own (some t) mid := fun h => nomatch h

lemma visible_own (h : Own p mid) : visible p (dynKey mid p.tenant) = true := by
  cases p with
  | none =>
    change (!tenanted (dynKey mid "")) = true
    rw [dynKey_operator, h rfl]
    rfl
  | some t =>
    change PyText.startsWith (dynKey mid t.key) (keyPrefix t) = true
    rw [PyText.startsWith, dynKey_toList t.nonempty, keyPrefix, String.toList_append, String.toList_singleton,
      List.isPrefixOf_iff_prefix]
    exact ⟨mid.toList, by simp⟩

/-- A key that is shown to a tenant is one of the tenant's. -/
lemma dynKey_of_visible {t : TenantKey} {k : String} (h : visible (some t) k = true) :
    ∃ mid, k = dynKey mid (Principal.tenant (some t)) := by
  change ∃ mid, k = dynKey mid t.key
  obtain ⟨rest, hrest⟩ := List.isPrefixOf_iff_prefix.mp h
  refine ⟨String.ofList rest, String.toList_inj.mp ?_⟩
  rw [← hrest, dynKey_toList t.nonempty, keyPrefix, String.toList_append, String.toList_singleton, String.toList_ofList,
    List.append_assoc]
  rfl

lemma visible_other (hpq : q ≠ p) (h : Own q mid) : visible p (dynKey mid q.tenant) = false := by
  rw [Bool.eq_false_iff]
  intro hv
  cases p with
  | none =>
    cases q with
    | none => exact hpq rfl
    | some t =>
      change (!tenanted (dynKey mid t.key)) = true at hv
      rw [tenanted_dynKey] at hv
      cases hv
  | some t =>
    obtain ⟨mid', hk⟩ := dynKey_of_visible hv
    exact hpq (dynKey_injective h (own_tenant t mid') hk).1

/-! ### The view of a principal -/

def ownView (p : Principal) (e : Emr) : Dict String (List STMEntry) × Overlay :=
  (Dict.restrict (visible p) e.stm, Dict.restrict (visible p) e.dynamics.current)

variable {known requested : List String} {touch : ReinforcementState → Option ReinforcementState}

/-- The principal's own ids are looked up among the principal's own entries. -/
lemma visit_restrict {acc acc' : Overlay × Touched} (hown : mid ∈ known → Own p mid)
    (hacc : Dict.restrict (visible p) acc.1 = Dict.restrict (visible p) acc'.1) (htouched : acc.2 = acc'.2) :
    Dict.restrict (visible p) (visit p known touch acc mid).1 = Dict.restrict (visible p) (visit p known touch acc' mid).1 ∧
      (visit p known touch acc mid).2 = (visit p known touch acc' mid).2 := by
  rw [visit, visit]
  by_cases hmem : mid ∈ known
  · have hmine := visible_own (hown hmem)
    have hget : acc.1.get (dynKey mid p.tenant) = acc'.1.get (dynKey mid p.tenant) := by
      rw [← Dict.get_restrict (d := acc.1) hmine, hacc, Dict.get_restrict hmine]
    rw [if_neg (not_not.mpr hmem), if_neg (not_not.mpr hmem), hget, htouched]
    cases touch ((acc'.1.get (dynKey mid p.tenant)).getD (.fresh mid)) with
    | none => exact ⟨hacc, rfl⟩
    | some s =>
      refine ⟨?_, rfl⟩
      dsimp only
      rw [Dict.restrict_set hmine, Dict.restrict_set hmine, hacc]
  · rw [if_pos hmem, if_pos hmem, htouched]
    exact ⟨hacc, rfl⟩

variable (touch) in
lemma visitAll_restrict {overlay overlay' : Overlay} (hown : ∀ mid ∈ requested, mid ∈ known → Own p mid)
    (h : Dict.restrict (visible p) overlay = Dict.restrict (visible p) overlay') :
    Dict.restrict (visible p) (visitAll p known requested touch overlay).1 =
      Dict.restrict (visible p) (visitAll p known requested touch overlay').1 ∧
    (visitAll p known requested touch overlay).2 = (visitAll p known requested touch overlay').2 := by
  rw [visitAll, visitAll]
  induction requested using List.reverseRecOn with
  | nil => exact ⟨h, rfl⟩
  | append_singleton ms m ih =>
    obtain ⟨hentries, htouched⟩ := ih fun mid hmid => hown mid (List.mem_append_left _ hmid)
    rw [List.foldl_append, List.foldl_append]
    exact visit_restrict (hown m (by simp)) hentries htouched

/-- Another's ids are under other keys. -/
lemma visitAll_other {overlay : Overlay} (hpq : q ≠ p) (hown : ∀ mid ∈ requested, mid ∈ known → Own q mid) :
    Dict.restrict (visible p) (visitAll q known requested touch overlay).1 = Dict.restrict (visible p) overlay := by
  rw [visitAll]
  induction requested using List.reverseRecOn with
  | nil => rfl
  | append_singleton ms m ih =>
    rw [List.foldl_append, List.foldl_cons, List.foldl_nil]
    have hrest := ih fun mid hmid => hown mid (List.mem_append_left _ hmid)
    rcases visit_cases q known touch (ms.foldl (visit q known touch) (overlay, ⟨[], [], []⟩)) m with
      ⟨heq, -⟩ | ⟨s, hm, heq, -⟩
    · rw [heq, hrest]
    · rw [heq, Dict.restrict_set_other (visible_other hpq (hown m (by simp) hm)), hrest]

variable {e e' : Emr}

lemma getStm_view (hown : Own p mid) (h : ownView p e = ownView p e') : e.getStm p mid = e'.getStm p mid := by
  have hmine : visible p (stmKey p mid) = true := visible_own hown
  rw [Emr.getStm, Emr.getStm, ← Dict.get_restrict (d := e.stm) hmine, (Prod.mk.inj h).1, Dict.get_restrict hmine]

lemma setStm_view {entries : List STMEntry} (hown : Own p mid) (h : ownView p e = ownView p e') :
    ownView p (e.setStm p mid entries) = ownView p (e'.setStm p mid entries) := by
  have hmine : visible p (stmKey p mid) = true := visible_own hown
  obtain ⟨hstm, hoverlay⟩ := Prod.mk.inj h
  refine Prod.ext ?_ hoverlay
  change Dict.restrict (visible p) (e.stm.set _ _) = Dict.restrict (visible p) (e'.stm.set _ _)
  rw [Dict.restrict_set hmine, Dict.restrict_set hmine, hstm]

lemma setStm_other {entries : List STMEntry} (hpq : q ≠ p) (hown : Own q mid) : ownView p (e.setStm q mid entries) = ownView p e :=
  Prod.ext (Dict.restrict_set_other (visible_other hpq hown)) rfl

lemma restrict_foldl_erase {V : Type} (ks : List (String × String)) (d : Dict String V) :
    Dict.restrict (visible p) (ks.foldl (fun d k => d.erase k.1) d) =
      ks.foldl (fun d k => d.erase k.1) (Dict.restrict (visible p) d) := by
  induction ks generalizing d with
  | nil => rfl
  | cons k ks ih => rw [List.foldl_cons, List.foldl_cons, ih, Dict.restrict_erase]

lemma restrict_foldl_erase_other {V : Type} {ks : List (String × String)} (h : ∀ k ∈ ks, visible p k.1 = false)
    (d : Dict String V) :
    Dict.restrict (visible p) (ks.foldl (fun d k => d.erase k.1) d) = Dict.restrict (visible p) d := by
  induction ks generalizing d with
  | nil => rfl
  | cons k ks ih =>
    obtain ⟨hk, hks⟩ := List.forall_mem_cons.mp h
    rw [List.foldl_cons, ih hks, Dict.restrict_erase_other hk]

lemma visibleStmKeys_view (h : ownView p e = ownView p e') : e.visibleStmKeys p = e'.visibleStmKeys p := by
  rw [Emr.visibleStmKeys, Emr.visibleStmKeys, (Prod.mk.inj h).1]

lemma clearStm_view {sessionKey : Option String} (hfair : (Call.clearStm sessionKey).Fair p) (h : ownView p e = ownView p e') :
    ownView p (e.clearStm p sessionKey) = ownView p (e'.clearStm p sessionKey) := by
  obtain ⟨hstm, hoverlay⟩ := Prod.mk.inj h
  cases sessionKey with
  | some s =>
    refine Prod.ext ?_ hoverlay
    change Dict.restrict (visible p) (e.stm.erase _) = Dict.restrict (visible p) (e'.stm.erase _)
    rw [Dict.restrict_erase, Dict.restrict_erase, hstm]
  | none =>
    cases p with
    | none => exact absurd rfl hfair
    | some t =>
      refine Prod.ext ?_ hoverlay
      change Dict.restrict _ ((e.visibleStmKeys (some t)).foldl _ e.stm) =
        Dict.restrict _ ((e'.visibleStmKeys (some t)).foldl _ e'.stm)
      rw [restrict_foldl_erase, restrict_foldl_erase, visibleStmKeys_view h, hstm]

lemma clearStm_other {sessionKey : Option String} (hpq : q ≠ p) (hfair : (Call.clearStm sessionKey).Fair q) :
    ownView p (e.clearStm q sessionKey) = ownView p e := by
  cases sessionKey with
  | some s => exact Prod.ext (Dict.restrict_erase_other (visible_other hpq hfair)) rfl
  | none =>
    cases q with
    | none => exact absurd rfl hfair
    | some t =>
      refine congrArg (·, _) (restrict_foldl_erase_other (fun k hk => ?_) e.stm)
      obtain ⟨s, hs, rfl⟩ := List.mem_map.mp hk
      have hvisible : visible (some t) s.1 = true := (List.mem_filter.mp hs).2
      obtain ⟨mid, hmid⟩ := dynKey_of_visible hvisible
      change visible p s.1 = false
      rw [hmid]
      exact visible_other hpq (own_tenant t mid)

lemma expandStmEntry_view {recordsById : Dict String (MemoryRecord String)} {req : Emr.ExpandRequest}
    (hown : Own p req.sessionKey) (h : ownView p e = ownView p e') :
    (e.expandStmEntry p recordsById req).1 = (e'.expandStmEntry p recordsById req).1 ∧
      ownView p (e.expandStmEntry p recordsById req).2 = ownView p (e'.expandStmEntry p recordsById req).2 := by
  unfold Emr.expandStmEntry
  rw [getStm_view hown h]
  dsimp only
  split
  · exact ⟨rfl, h⟩
  · split
    · exact ⟨rfl, setStm_view hown h⟩
    · exact ⟨rfl, h⟩

lemma expandStmEntry_other {recordsById : Dict String (MemoryRecord String)} {req : Emr.ExpandRequest} (hpq : q ≠ p)
    (hown : Own q req.sessionKey) : ownView p (e.expandStmEntry q recordsById req).2 = ownView p e := by
  unfold Emr.expandStmEntry
  dsimp only
  split
  · rfl
  · split
    · exact setStm_other hpq hown
    · rfl

lemma touchIds_view {d d' : Dynamics} {saves : Bool} (hown : ∀ mid ∈ requested, mid ∈ known → Own p mid)
    (h : Dict.restrict (visible p) d.current = Dict.restrict (visible p) d'.current) :
    (touchIds d p saves known requested touch).1 = (touchIds d' p saves known requested touch).1 ∧
      Dict.restrict (visible p) (touchIds d p saves known requested touch).2.current =
        Dict.restrict (visible p) (touchIds d' p saves known requested touch).2.current := by
  obtain ⟨hentries, htouched⟩ := visitAll_restrict touch hown h
  rw [current_touchIds, current_touchIds]
  refine ⟨?_, hentries⟩
  rw [touchIds, touchIds, ensured, ensured]
  exact htouched

lemma touchIds_other {d : Dynamics} {saves : Bool} (hpq : q ≠ p) (hown : ∀ mid ∈ requested, mid ∈ known → Own q mid) :
    Dict.restrict (visible p) (touchIds d q saves known requested touch).2.current =
      Dict.restrict (visible p) d.current := by
  rw [current_touchIds]
  exact visitAll_other hpq hown

lemma current_ensure (d : Dynamics) : (ensureDynamics d).current = d.current := by
  rw [ensured]
  rfl

lemma status_view (h : ownView p e = ownView p e') : e.status p = e'.status p := by
  have hkeys := visibleStmKeys_view h
  have hcounts : (e'.visibleStmKeys p).map (fun k => (k.2, ((e.stm.get k.1).getD []).length)) =
      (e'.visibleStmKeys p).map fun k => (k.2, ((e'.stm.get k.1).getD []).length) := by
    refine List.map_congr_left fun k hk => ?_
    obtain ⟨s, hs, rfl⟩ := List.mem_map.mp hk
    have hmine : visible p s.1 = true := (List.mem_filter.mp hs).2
    rw [← Dict.get_restrict (d := e.stm) hmine, (Prod.mk.inj h).1, Dict.get_restrict hmine]
  have hstates : e.tenantStates p = e'.tenantStates p := by rw [Emr.tenantStates, Emr.tenantStates, (Prod.mk.inj h).2]
  unfold Emr.status
  rw [hkeys, hstates]
  dsimp only
  rw [hcounts]

lemma getReinforcement_view (hown : Own p mid) (h : ownView p e = ownView p e') :
    e.getReinforcement p mid = e'.getReinforcement p mid := by
  have hmine := visible_own hown
  rw [Emr.getReinforcement, Emr.getReinforcement, ← Dict.get_restrict (d := e.dynamics.current) hmine, (Prod.mk.inj h).2,
    Dict.get_restrict hmine]

lemma reinforceIds_view {d d' : Dynamics} {nowIso : String} {saves : Bool} {outcome : Option PositiveOutcomeSignal}
    (hown : ∀ mid ∈ requested, mid ∈ known → Own p mid)
    (h : Dict.restrict (visible p) d.current = Dict.restrict (visible p) d'.current) :
    (reinforceIds d p nowIso saves known requested outcome).1 = (reinforceIds d' p nowIso saves known requested outcome).1 ∧
      Dict.restrict (visible p) (reinforceIds d p nowIso saves known requested outcome).2.current =
        Dict.restrict (visible p) (reinforceIds d' p nowIso saves known requested outcome).2.current := by
  cases outcome with
  | none => exact ⟨rfl, h⟩
  | some outcome =>
    rw [reinforceIds, reinforceIds]
    dsimp only
    split_ifs
    · exact ⟨rfl, h⟩
    · exact (touchIds_view hown h).imp_left (congrArg Except.ok)

lemma reinforceIds_other {d : Dynamics} {nowIso : String} {saves : Bool} {outcome : Option PositiveOutcomeSignal}
    (hpq : q ≠ p) (hown : ∀ mid ∈ requested, mid ∈ known → Own q mid) :
    Dict.restrict (visible p) (reinforceIds d q nowIso saves known requested outcome).2.current =
      Dict.restrict (visible p) d.current := by
  cases outcome with
  | none => rfl
  | some outcome =>
    rw [reinforceIds]
    dsimp only
    split_ifs
    · rfl
    · exact touchIds_other hpq hown

/-- Each principal's view decides what the principal is answered, and is the principal's own to change. -/
lemma apart (p : Principal) : Apart Emr.step Call.Fair p (ownView p) where
  answer {e e' c} hfair h := by
    cases c with
    | getStm s => exact congrArg Answered.entries (getStm_view hfair h)
    | setStm | clearStm => rfl
    | expandStmEntry recordsById req => exact congrArg Answered.entry (expandStmEntry_view hfair h).1
    | getReinforcement mid => exact congrArg Answered.state (getReinforcement_view hfair h)
    | reinforceIds => exact congrArg Answered.touched (reinforceIds_view hfair (Prod.mk.inj h).2).1
    | correctMemoryIds =>
      exact congrArg (fun t => Answered.touched (.ok t)) (touchIds_view hfair (Prod.mk.inj h).2).1
    | status => exact congrArg Answered.status (status_view h)
  own {e e' c} hfair h := by
    obtain ⟨hstm, hoverlay⟩ := Prod.mk.inj h
    cases c with
    | getStm | getReinforcement => exact h
    | setStm s entries => exact setStm_view hfair h
    | clearStm s => exact clearStm_view hfair h
    | expandStmEntry recordsById req => exact (expandStmEntry_view hfair h).2
    | reinforceIds => exact Prod.ext hstm (reinforceIds_view hfair hoverlay).2
    | correctMemoryIds => exact Prod.ext hstm (touchIds_view hfair hoverlay).2
    | status =>
      refine Prod.ext hstm ?_
      change Dict.restrict _ (ensureDynamics e.dynamics).current = Dict.restrict _ (ensureDynamics e'.dynamics).current
      rw [current_ensure, current_ensure]
      exact hoverlay
  others {e q c} hpq hfair := by
    cases c with
    | getStm | getReinforcement => rfl
    | setStm s entries => exact setStm_other hpq hfair
    | clearStm s => exact clearStm_other hpq hfair
    | expandStmEntry recordsById req => exact expandStmEntry_other hpq hfair
    | reinforceIds => exact congrArg (_, ·) (reinforceIds_other hpq hfair)
    | correctMemoryIds => exact congrArg (_, ·) (touchIds_other hpq hfair)
    | status => exact congrArg (_, ·) (congrArg _ (current_ensure e.dynamics))

def guest : TenantKey := ⟨"t_0", by decide, by decide⟩

/-- A tenant and the operator use one name of a session. -/
def oneName : List (Principal × Call) :=
  [(some guest, .setStm "default" []), (none, .clearStm (some "default")), (none, .status), (some guest, .getStm "default")]

/-- By a name with a tenant's key and the separator in it the operator has the tenant's session. -/
lemma getStm_operator (e : Emr) (t : TenantKey) (sessionKey : String) (entries : List STMEntry) :
    (e.setStm (some t) sessionKey entries).getStm none (dynKey sessionKey t.key) = entries := by
  have hkey : stmKey none (dynKey sessionKey t.key) = stmKey (some t) sessionKey := dynKey_operator _
  rw [Emr.getStm, Emr.setStm, hkey, Dict.get_set_self]
  rfl

end ContinuityLedger.Recall
