import Mathlib.Algebra.Order.Ring.Rat
import Mathlib.Data.List.Induction
import Mathlib.Data.List.TakeWhile
import ContinuityLedger.Foundations.Dict

/-! The reinforcement overlay: what good outcomes and corrections have made of each memory of each principal, and the sidecar file that
carries it over a restart: what it holds, and what loading it gives back. -/

namespace ContinuityLedger.Recall

open Foundations

structure ReinforcementState where
  memoryId : String
  useCount : ℕ
  salience : ℚ
  decayDamp : ℚ
  lastReinforcedAt : Option String
  outcomeIds : List String
  correctionIds : List String
deriving DecidableEq

def salienceGain : ℚ := 1 / 20
def salienceCap : ℚ := 1 / 2
def dampGain : ℚ := 3 / 100
def dampCap : ℚ := 1 / 2

def ReinforcementState.fresh (mid : String) : ReinforcementState := ⟨mid, 0, 0, 0, none, [], []⟩

structure PositiveOutcomeSignal where
  signal : String
  outcomeId : String

structure OperatorCorrectionSignal where
  correctionId : String

def tenantSep : Char := '\x1f'

/-- An opaque namespace: a hash or an identifier of a key. -/
structure TenantKey where
  key : String
  nonempty : key ≠ ""
  unseparated : tenantSep ∉ key.toList

/-- The operator has no key. -/
abbrev Principal := Option TenantKey

def Principal.tenant (p : Principal) : String := p.elim "" TenantKey.key

/-- `_dyn_key`. -/
def dynKey (mid tenant : String) : String := if tenant = "" then mid else tenant ++ String.singleton tenantSep ++ mid

abbrev Overlay := Dict String ReinforcementState

/-! ### One call -/

/-- `none` where the outcome is a replay. -/
def reinforced (nowIso outcomeId : String) (state : ReinforcementState) : Option ReinforcementState :=
  if outcomeId ∈ state.outcomeIds then none
  else some { state with
    useCount := state.useCount + 1
    salience := min salienceCap (state.salience + salienceGain)
    decayDamp := min dampCap (state.decayDamp + dampGain)
    lastReinforcedAt := some nowIso
    outcomeIds := state.outcomeIds ++ [outcomeId] }

/-- `none` where the correction is a replay. -/
def corrected (nowIso correctionId : String) (state : ReinforcementState) : Option ReinforcementState :=
  if correctionId ∈ state.correctionIds then none
  else some { state with
    salience := 0
    decayDamp := 0
    lastReinforcedAt := some nowIso
    correctionIds := state.correctionIds ++ [correctionId] }

structure Touched where
  states : List ReinforcementState
  unknown : List String
  replayed : List String

/-- What both calls do with each requested id. -/
def visit (p : Principal) (known : List String) (touch : ReinforcementState → Option ReinforcementState)
    (acc : Overlay × Touched) (mid : String) : Overlay × Touched :=
  if mid ∉ known then (acc.1, { acc.2 with unknown := acc.2.unknown ++ [mid] })
  else
    match touch ((acc.1.get (dynKey mid p.tenant)).getD (.fresh mid)) with
    | none => (acc.1, { acc.2 with replayed := acc.2.replayed ++ [mid] })
    | some state => (acc.1.set (dynKey mid p.tenant) state, { acc.2 with states := acc.2.states ++ [state] })

def visitAll (p : Principal) (known requested : List String) (touch : ReinforcementState → Option ReinforcementState)
    (overlay : Overlay) : Overlay × Touched :=
  requested.foldl (visit p known touch) (overlay, ⟨[], [], []⟩)

/-! ### The sidecar -/

/-- The operator's entries, and every other tenant's by its key. -/
structure Sidecar where
  reinforcement : Overlay
  tenants : Dict String Overlay

/-- `k.split(_TENANT_SEP, 1)` where the separator occurs. -/
def splitTenant (k : String) : String × String :=
  (String.ofList (k.toList.takeWhile (· ≠ tenantSep)), String.ofList (k.toList.dropWhile (· ≠ tenantSep)).tail)

def tenanted (k : String) : Bool := tenantSep ∈ k.toList

/-- `tenant_entries.setdefault(tenant, {})[mid] = ...`. -/
def addEntry (tenants : Dict String Overlay) (e : String × ReinforcementState) : Dict String Overlay :=
  let (tenant, mid) := splitTenant e.1
  tenants.set tenant (((tenants.get tenant).getD []).set mid e.2)

def sidecar (overlay : Overlay) : Sidecar :=
  let sorted := overlay.mergeSort fun a b => a.1 ≤ b.1
  ⟨sorted.filter fun e => !tenanted e.1, (sorted.filter fun e => tenanted e.1).foldl addEntry []⟩

/-- Every entry of the file, under the key it is loaded under. -/
def Sidecar.entries (file : Sidecar) : List (String × ReinforcementState) :=
  (file.reinforcement.map fun e => (dynKey e.1 "", e.2)) ++
    file.tenants.flatMap fun t => t.2.map fun e => (dynKey e.1 t.1, e.2)

def Sidecar.loadInto (file : Sidecar) (overlay : Overlay) : Overlay :=
  file.entries.foldl (fun d e => d.set e.1 e.2) overlay

/-! ### The process -/

/-- `saved` says whether the last save worked. -/
structure Dynamics where
  overlay : Overlay
  loaded : Bool
  file : Option Sidecar
  saved : Bool

def Dynamics.start : Dynamics := ⟨[], false, none, true⟩

def ensureDynamics (d : Dynamics) : Dynamics :=
  if d.loaded then d else { d with loaded := true, overlay := d.file.elim d.overlay (·.loadInto d.overlay) }

def saveDynamics (saves : Bool) (d : Dynamics) : Dynamics :=
  if saves then { d with file := some (sidecar d.overlay), saved := true } else { d with saved := false }

/-- The part that both calls share: the file is written when a state has changed. -/
def touchIds (d : Dynamics) (p : Principal) (saves : Bool) (known requested : List String)
    (touch : ReinforcementState → Option ReinforcementState) : Touched × Dynamics :=
  let d := ensureDynamics d
  let (overlay, touched) := visitAll p known requested touch d.overlay
  let d := { d with overlay := overlay }
  (touched, if touched.states = [] then d else saveDynamics saves d)

def reinforceIds (d : Dynamics) (p : Principal) (nowIso : String) (saves : Bool) (known requested : List String)
    (outcome : Option PositiveOutcomeSignal) : Except String Touched × Dynamics :=
  match outcome with
  | none => (.error "an explicit positive outcome signal is required", d)
  | some outcome =>
    if outcome.signal ≠ "positive" then (.error "an explicit positive outcome signal is required", d)
    else
      let r := touchIds d p saves known requested (reinforced nowIso outcome.outcomeId)
      (.ok r.1, r.2)

def correctMemoryIds (d : Dynamics) (p : Principal) (nowIso : String) (saves : Bool) (known requested : List String)
    (correction : OperatorCorrectionSignal) : Touched × Dynamics :=
  touchIds d p saves known requested (corrected nowIso correction.correctionId)

/-- A new process has loaded nothing. -/
def Dynamics.restart (d : Dynamics) : Dynamics := ⟨[], false, d.file, d.saved⟩

inductive DynamicsStep
  | reinforce (p : Principal) (nowIso : String) (saves : Bool) (known requested : List String)
      (outcome : Option PositiveOutcomeSignal)
  | correct (p : Principal) (nowIso : String) (saves : Bool) (known requested : List String)
      (correction : OperatorCorrectionSignal)
  | restart

/-- The process restarts where the last save worked. -/
def Dynamics.step (d : Dynamics) : DynamicsStep → Option Dynamics
  | .reinforce p nowIso saves known requested outcome => some (reinforceIds d p nowIso saves known requested outcome).2
  | .correct p nowIso saves known requested correction => some (correctMemoryIds d p nowIso saves known requested correction).2
  | .restart => if d.saved then some d.restart else none

def Dynamics.run (d : Dynamics) (steps : List DynamicsStep) : Option Dynamics := steps.foldlM Dynamics.step d

/-- The overlay that the next call works on. -/
def Dynamics.current (d : Dynamics) : Overlay := (ensureDynamics d).overlay

lemma dynKey_toList {tenant : String} (h : tenant ≠ "") (mid : String) :
    (dynKey mid tenant).toList = tenant.toList ++ tenantSep :: mid.toList := by
  rw [dynKey, if_neg h, String.toList_append, String.toList_append, String.toList_singleton, List.append_assoc]
  rfl

lemma takeWhile_sep {cs ds : List Char} (h : tenantSep ∉ cs) :
    (cs ++ tenantSep :: ds).takeWhile (· ≠ tenantSep) = cs := by
  rw [List.takeWhile_append_of_pos]
  · simp
  · intro c hc
    have hne : c ≠ tenantSep := fun he => h (he ▸ hc)
    simpa using hne

lemma dropWhile_sep {cs ds : List Char} (h : tenantSep ∉ cs) :
    (cs ++ tenantSep :: ds).dropWhile (· ≠ tenantSep) = tenantSep :: ds := by
  rw [List.dropWhile_append_of_pos]
  · simp
  · intro c hc
    have hne : c ≠ tenantSep := fun he => h (he ▸ hc)
    simpa using hne

lemma splitTenant_dynKey {tenant mid : String} (hne : tenant ≠ "") (h : tenantSep ∉ tenant.toList) :
    splitTenant (dynKey mid tenant) = (tenant, mid) := by
  rw [splitTenant, dynKey_toList hne, takeWhile_sep h, dropWhile_sep h]
  simp

lemma splitTenant_chars {k : String} (h : tenanted k = true) :
    k.toList = (splitTenant k).1.toList ++ tenantSep :: (splitTenant k).2.toList := by
  have hin : tenantSep ∈ k.toList := by simpa [tenanted] using h
  have hne : k.toList.dropWhile (· ≠ tenantSep) ≠ [] := by
    intro hnil
    have hall := List.dropWhile_eq_nil_iff.mp hnil tenantSep hin
    simp at hall
  have hhead : (k.toList.dropWhile (· ≠ tenantSep)).head hne = tenantSep := by
    have hnot := List.head_dropWhile_not (p := fun c : Char => decide (c ≠ tenantSep)) hne
    simpa using hnot
  have hsplit : k.toList.dropWhile (· ≠ tenantSep) = tenantSep :: (k.toList.dropWhile (· ≠ tenantSep)).tail := by
    conv_lhs => rw [← List.cons_head_tail hne, hhead]
  rw [splitTenant, String.toList_ofList, String.toList_ofList, ← hsplit]
  exact (List.takeWhile_append_dropWhile).symm

lemma splitTenant_free (k : String) : tenantSep ∉ (splitTenant k).1.toList := by
  rw [splitTenant, String.toList_ofList]
  intro hin
  have hp := List.mem_takeWhile_imp hin
  simp at hp

lemma splitTenant_injective {j k : String} (hj : tenanted j = true) (hk : tenanted k = true)
    (h : splitTenant j = splitTenant k) : j = k := by
  apply String.toList_injective
  rw [splitTenant_chars hj, splitTenant_chars hk, h]

/-- The key that an entry of the file is loaded under is its own, where its tenant is not empty. -/
lemma dynKey_splitTenant {k : String} (h : tenanted k = true) (hne : (splitTenant k).1 ≠ "") :
    dynKey (splitTenant k).2 (splitTenant k).1 = k := by
  apply String.toList_injective
  rw [dynKey_toList hne, ← splitTenant_chars h]

/-! ### Saving -/

def nested (tenants : Dict String Overlay) (place : String × String) : Option ReinforcementState :=
  (tenants.get place.1).bind fun d => d.get place.2

lemma nested_addEntry (tenants : Dict String Overlay) (e : String × ReinforcementState) (place : String × String) :
    nested (addEntry tenants e) place = if splitTenant e.1 = place then some e.2 else nested tenants place := by
  obtain ⟨t, m⟩ := place
  rw [nested, addEntry]
  generalize splitTenant e.1 = p
  obtain ⟨t', m'⟩ := p
  show ((tenants.set t' (((tenants.get t').getD []).set m' e.2)).get t).bind (fun d => d.get m) = _
  by_cases ht : t' = t
  · subst ht
    rw [Dict.get_set_self, Option.bind_some, Dict.get_set]
    by_cases hm : m' = m
    · rw [if_pos hm, if_pos (by rw [hm])]
    · rw [if_neg hm, if_neg (fun h => hm (Prod.mk.inj h).2), nested]
      cases tenants.get t' <;> rfl
  · rw [Dict.get_set_ne _ ht, if_neg (fun h => ht (Prod.mk.inj h).1)]
    rfl

/-- A dictionary of dictionaries, each with one entry for each key. -/
structure NestedKeyed (tenants : Dict String Overlay) : Prop where
  outer : Dict.Keyed tenants
  inner : ∀ t ∈ tenants, Dict.Keyed t.2

lemma NestedKeyed.addEntry {tenants : Dict String Overlay} (h : NestedKeyed tenants) (e : String × ReinforcementState) :
    NestedKeyed (addEntry tenants e) := by
  rw [Recall.addEntry]
  generalize splitTenant e.1 = p
  obtain ⟨t', m'⟩ := p
  refine ⟨Dict.keyed_set h.outer _ _, fun t ht => ?_⟩
  rcases KeyedTable.mem_upsert Prod.fst ht with rfl | ht
  · apply Dict.keyed_set
    cases hg : tenants.get t' with
    | none => exact List.nodup_nil
    | some d => exact h.inner (t', d) (Dict.get_mem hg)
  · exact h.inner t ht

lemma nestedKeyed_foldl (es : List (String × ReinforcementState)) : NestedKeyed (es.foldl addEntry []) := by
  induction es using List.reverseRecOn with
  | nil => exact ⟨List.nodup_nil, fun t ht => absurd ht List.not_mem_nil⟩
  | append_singleton es e ih =>
    rw [List.foldl_append]
    exact ih.addEntry e

lemma nested_mem {tenants : Dict String Overlay} (h : NestedKeyed tenants) {t m : String} {v : ReinforcementState} :
    (∃ d, (t, d) ∈ tenants ∧ (m, v) ∈ d) ↔ nested tenants (t, m) = some v := by
  rw [nested, Option.bind_eq_some_iff]
  constructor
  · rintro ⟨d, hd, hm⟩
    exact ⟨d, (Dict.mem_iff_get h.outer).mp hd, (Dict.mem_iff_get (h.inner _ hd)).mp hm⟩
  · rintro ⟨d, hd, hm⟩
    exact ⟨d, Dict.get_mem hd, Dict.get_mem hm⟩

/-- Where no two entries have one place, each is at its place. -/
lemma nested_foldl {es : List (String × ReinforcementState)} (hn : (es.map fun e => splitTenant e.1).Nodup)
    {place : String × String} {v : ReinforcementState} :
    nested (es.foldl addEntry []) place = some v ↔ ∃ e ∈ es, splitTenant e.1 = place ∧ e.2 = v := by
  induction es using List.reverseRecOn with
  | nil => simp [nested]
  | append_singleton es e ih =>
    rw [List.map_append, List.nodup_append] at hn
    obtain ⟨hn, -, hdisj⟩ := hn
    rw [List.foldl_append, List.foldl_cons, List.foldl_nil, nested_addEntry]
    by_cases he : splitTenant e.1 = place
    · rw [if_pos he]
      constructor
      · intro hv
        exact ⟨e, by simp, he, Option.some.inj hv⟩
      · rintro ⟨f, hf, hplace, rfl⟩
        rcases List.mem_append.mp hf with hf | hf
        · exact absurd (hplace.trans he.symm) (hdisj _ (List.mem_map_of_mem hf) _ (by simp))
        · rw [List.mem_singleton.mp hf]
    · rw [if_neg he, ih hn]
      constructor
      · rintro ⟨f, hf, hrest⟩
        exact ⟨f, List.mem_append_left _ hf, hrest⟩
      · rintro ⟨f, hf, hplace, hv⟩
        rcases List.mem_append.mp hf with hf | hf
        · exact ⟨f, hf, hplace, hv⟩
        · rw [List.mem_singleton.mp hf] at hplace
          exact absurd hplace he

/-! ### Loading -/

/-- Every key with a separator has something before it. -/
def Separated (overlay : Overlay) : Prop := ∀ k ∈ overlay.map Prod.fst, tenanted k = true → (splitTenant k).1 ≠ ""

lemma mem_sorted_filter {overlay : Overlay} {p : String × ReinforcementState → Bool} {e : String × ReinforcementState} :
    e ∈ (overlay.mergeSort fun a b => a.1 ≤ b.1).filter p ↔ e ∈ overlay ∧ p e = true := by
  rw [List.mem_filter, List.mem_mergeSort]

lemma split_once {overlay : Overlay} (h : Dict.Keyed overlay) :
    (((overlay.mergeSort fun a b => a.1 ≤ b.1).filter fun e => tenanted e.1).map fun e => splitTenant e.1).Nodup := by
  have hkeys : ((overlay.mergeSort fun a b => a.1 ≤ b.1).map Prod.fst).Nodup :=
    (((List.mergeSort_perm _ _).map _).nodup_iff).mpr h
  have hfilter : (((overlay.mergeSort fun a b => a.1 ≤ b.1).filter fun e => tenanted e.1).map Prod.fst).Nodup :=
    hkeys.sublist (List.filter_sublist.map _)
  have hmap := List.Nodup.map_on (f := splitTenant) (fun j hj k hk hjk => ?_) hfilter
  · rw [List.map_map] at hmap
    exact hmap
  · obtain ⟨e, he, rfl⟩ := List.mem_map.mp hj
    obtain ⟨f, hf, rfl⟩ := List.mem_map.mp hk
    exact splitTenant_injective (mem_sorted_filter.mp he).2 (mem_sorted_filter.mp hf).2 hjk

lemma mem_entries {overlay : Overlay} (h : Dict.Keyed overlay) (hs : Separated overlay) {e : String × ReinforcementState} :
    e ∈ (sidecar overlay).entries ↔ e ∈ overlay := by
  have hnested := nestedKeyed_foldl ((overlay.mergeSort fun a b => a.1 ≤ b.1).filter fun e => tenanted e.1)
  have hbare : ∀ mid, dynKey mid "" = mid := fun mid => if_pos rfl
  rw [Sidecar.entries, List.mem_append]
  constructor
  · rintro (he | he)
    · obtain ⟨f, hf, rfl⟩ := List.mem_map.mp he
      rw [hbare]
      exact (mem_sorted_filter.mp hf).1
    · obtain ⟨⟨t, d⟩, hd, he⟩ := List.mem_flatMap.mp he
      obtain ⟨⟨m, v⟩, hm, rfl⟩ := List.mem_map.mp he
      obtain ⟨f, hf, hplace, rfl⟩ := (nested_foldl (split_once h)).mp ((nested_mem hnested).mp ⟨d, hd, hm⟩)
      obtain ⟨hin, htenanted⟩ := mem_sorted_filter.mp hf
      have hne := hs f.1 (List.mem_map_of_mem hin) htenanted
      have hkey := dynKey_splitTenant htenanted hne
      rw [hplace] at hkey
      show (dynKey m t, f.2) ∈ overlay
      rw [hkey]
      exact hin
  · intro he
    cases htenanted : tenanted e.1 with
    | false =>
      left
      refine List.mem_map.mpr ⟨e, mem_sorted_filter.mpr ⟨he, by rw [htenanted]; rfl⟩, ?_⟩
      rw [hbare]
    | true =>
      right
      have hne := hs e.1 (List.mem_map_of_mem he) htenanted
      obtain ⟨d, hd, hm⟩ := (nested_mem hnested (t := (splitTenant e.1).1) (m := (splitTenant e.1).2)).mpr
        ((nested_foldl (split_once h)).mpr ⟨e, mem_sorted_filter.mpr ⟨he, htenanted⟩, rfl, rfl⟩)
      refine List.mem_flatMap.mpr ⟨_, hd, List.mem_map.mpr ⟨_, hm, ?_⟩⟩
      rw [dynKey_splitTenant htenanted hne]

lemma get_ofPairs_of_unique {V : Type} {pairs : List (String × V)} {k : String} {v : V} (hin : (k, v) ∈ pairs)
    (hv : ∀ w, (k, w) ∈ pairs → w = v) : (Dict.ofPairs pairs).get k = some v := by
  rw [Dict.get_ofPairs]
  have hmem : (k, v) ∈ pairs.filter fun p => p.1 = k := by simp [hin]
  obtain ⟨p, hp⟩ := Option.isSome_iff_exists.mp (List.getLast?_isSome.mpr (List.ne_nil_of_mem hmem))
  obtain ⟨hpin, hpk⟩ := List.mem_filter.mp (List.mem_of_getLast? hp)
  obtain rfl : p.1 = k := by simpa using hpk
  rw [hp, Option.map_some, hv p.2 hpin]

/-- Loading what was saved gives every entry back. -/
lemma get_loadInto {overlay : Overlay} (h : Dict.Keyed overlay) (hs : Separated overlay) (k : String) :
    Dict.get ((sidecar overlay).loadInto []) k = overlay.get k := by
  have hload : (sidecar overlay).loadInto [] = Dict.ofPairs (sidecar overlay).entries := rfl
  rw [hload]
  cases hk : overlay.get k with
  | some v =>
    apply get_ofPairs_of_unique ((mem_entries h hs).mpr (Dict.get_mem hk))
    intro w hw
    have hget := (Dict.mem_iff_get h).mp ((mem_entries h hs).mp hw)
    exact Option.some.inj (hget.symm.trans hk)
  | none =>
    rw [Option.eq_none_iff_forall_ne_some]
    intro v hv
    have hin := (mem_entries h hs).mp (Dict.mem_ofPairs (Dict.get_mem hv))
    rw [(Dict.mem_iff_get h).mp hin] at hk
    cases hk

lemma keyed_loadInto (file : Sidecar) {overlay : Overlay} (h : Dict.Keyed overlay) : Dict.Keyed (file.loadInto overlay) := by
  rw [Sidecar.loadInto]
  induction file.entries using List.reverseRecOn with
  | nil => exact h
  | append_singleton es e ih =>
    rw [List.foldl_append]
    exact Dict.keyed_set ih _ _

end ContinuityLedger.Recall
