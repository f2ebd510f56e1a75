import Mathlib.Data.Finset.Sort
import Mathlib.Data.String.Basic
import ContinuityLedger.Foundations.BestPath
import ContinuityLedger.Recall.Summary

/-! The edges between recalled records that the ledger shows: supersession, evidence that names a record, a shared subject
and shared tags. They do not depend on the order of the records. -/

namespace ContinuityLedger.Recall

open Foundations Records

structure GraphExpansionConfig where
  enabled : Bool
  maxDepth : ℕ
  seedLimit : ℕ
  maxNodes : ℕ
  minEdgeWeight : ℚ
  hopDecay : ℚ
  maxDepth_mem : 1 ≤ maxDepth ∧ maxDepth ≤ 4
  seedLimit_mem : 1 ≤ seedLimit ∧ seedLimit ≤ 32
  maxNodes_mem : 1 ≤ maxNodes ∧ maxNodes ≤ 256
  minEdgeWeight_mem : 0 ≤ minEdgeWeight ∧ minEdgeWeight ≤ 1
  hopDecay_mem : 1 / 10 ≤ hopDecay ∧ hopDecay ≤ 1

/-! ### Evidence that names a record -/

/-- A character of `[A-Za-z0-9_.-]`. -/
def isIdChar (c : Char) : Bool := c.isAlphanum || c == '_' || c == '.' || c == '-'

/-- `re.findall(r"mem-[A-Za-z0-9_.-]+", ref)`; the number counts the characters of the last match that are left. -/
def memTokens : ℕ → List Char → List String
  | _, [] => []
  | skip + 1, _ :: cs => memTokens skip cs
  | 0, c :: cs =>
    let tail := ((c :: cs).drop 4).takeWhile isIdChar
    if "mem-".toList.isPrefixOf (c :: cs) && !tail.isEmpty then
      String.ofList ("mem-".toList ++ tail) :: memTokens (3 + tail.length) cs
    else memTokens 0 cs

/-- `ref.removeprefix("memory:")`. -/
def removeMemoryPrefix (ref : String) : String :=
  if PyText.startsWith ref "memory:" then String.ofList (ref.toList.drop 7) else ref

/-- `_evidence_memory_ids`. -/
def evidenceMemoryIds (rec : MemoryRecord String) (knownIds : Finset String) : Finset String :=
  let named := rec.evidence.flatMap fun link =>
    let ref := PyText.strip link.ref
    removeMemoryPrefix ref :: memTokens 0 ref.toList
  (named.toFinset ∩ knownIds).erase rec.id

/-! ### The edges -/

/-- A call of `add_explicit`. -/
structure ExplicitEdge where
  a : String
  b : String
  weight : ℚ
  type : String

section
variable (casefold : String → String) (cfg : GraphExpansionConfig) (scored : List Scored)

def knownIds : Finset String := (scored.map (·.1.id)).toFinset

def recordsById : Dict String (MemoryRecord String) := Dict.ofPairs (scored.map fun s => (s.1.id, s.1))

def explicitOf (rec : MemoryRecord String) : List ExplicitEdge :=
  (match rec.supersedes with
    | none => []
    | some old =>
      if old ≠ "" ∧ old ∈ knownIds scored then [⟨rec.id, old, 1, "supersedes"⟩, ⟨old, rec.id, 1, "superseded-by"⟩] else []) ++
  ((evidenceMemoryIds rec (knownIds scored)).sort).flatMap fun target =>
    [⟨rec.id, target, 9 / 10, "evidence-ref"⟩, ⟨target, rec.id, 9 / 10, "evidence-backref"⟩]

/-- The calls that `add_explicit` does not turn away. -/
def explicit : List ExplicitEdge :=
  (scored.flatMap fun s => explicitOf scored s.1).filter fun e => e.a ≠ e.b ∧ e.a ∈ knownIds scored ∧ e.b ∈ knownIds scored

def explicitBetween (a b : String) : List ExplicitEdge := (explicit scored).filter fun e => e.a = a ∧ e.b = b

def explicitWeight (a b : String) : ℚ := ((explicitBetween scored a b).map (·.weight)).foldl max 0

def explicitTypes (a b : String) : Finset String := ((explicitBetween scored a b).map (·.type)).toFinset

/-- `subject_index.get(key)`. -/
def subjectIndex (key : String) : Finset String :=
  ((scored.filter fun s => s.1.subject.any fun subject => subject ≠ "" ∧ casefold subject = key).map (·.1.id)).toFinset

/-- `tag_index.get(key)`. -/
def tagIndex (key : String) : Finset String := ((scored.filter fun s => key ∈ s.1.tags.map casefold).map (·.1.id)).toFinset

def candidateIds (rec : MemoryRecord String) : Finset String :=
  let linked := (((explicit scored).filter fun e => e.a = rec.id).map (·.b)).toFinset
  let subject := match rec.subject with
    | none => ∅
    | some subject => if subject = "" then ∅ else subjectIndex casefold scored (casefold subject)
  let tags := (rec.tags.map casefold).toFinset.biUnion (tagIndex casefold scored)
  (linked ∪ subject ∪ tags).erase rec.id

def edgeWeight (rec target : MemoryRecord String) : ℚ := max (explicitWeight scored rec.id target.id) (bondStrength rec target)

def edgeTypes (rec target : MemoryRecord String) : Finset String :=
  let shared := if sharesSubject rec target then {"subject"} else ∅
  let tags := if rec.tags.toFinset ∩ target.tags.toFinset = ∅ then ∅ else {"tags"}
  explicitTypes scored rec.id target.id ∪ shared ∪ tags

abbrev MemoryEdge := BestPath.Edge String (List String × ℚ)

/-- `neighbors`; it is asked for known ids only. -/
def neighbors (memoryId : String) : List MemoryEdge :=
  match (recordsById scored).get memoryId with
  | none => []
  | some rec => ((candidateIds casefold scored rec).sort).filterMap fun targetId =>
    (recordsById scored).get targetId |>.bind fun target =>
      let weight := edgeWeight scored rec target
      if cfg.minEdgeWeight ≤ weight then some ⟨targetId, weight, ((edgeTypes scored rec target).sort, weight)⟩ else none

/-! ### Weights are factors -/

variable {casefold cfg scored}

lemma roundTo_le_one {places : ℕ} {x : ℚ} (h : x ≤ 1) : roundTo places x ≤ 1 := by
  have hten : (0 : ℚ) < 10 ^ places := by positivity
  have hscaled : x * 10 ^ places ≤ ((10 ^ places : ℤ) : ℚ) := by
    push_cast
    exact mul_le_of_le_one_left hten.le h
  have hfloor : ⌊x * 10 ^ places⌋ ≤ 10 ^ places := Int.cast_le.mp ((Int.floor_le _).trans hscaled)
  rw [roundTo, div_le_one hten]
  suffices hnearest : (if x * 10 ^ places - ⌊x * 10 ^ places⌋ < 1 / 2 then ⌊x * 10 ^ places⌋
      else if 1 / 2 < x * 10 ^ places - ⌊x * 10 ^ places⌋ then ⌊x * 10 ^ places⌋ + 1
      else if ⌊x * 10 ^ places⌋ % 2 = 0 then ⌊x * 10 ^ places⌋ else ⌊x * 10 ^ places⌋ + 1) ≤ 10 ^ places by
    exact_mod_cast hnearest
  rcases hfloor.lt_or_eq with hlt | heq
  · split_ifs <;> omega
  · have hpart : x * 10 ^ places - ⌊x * 10 ^ places⌋ < 1 / 2 := by
      rw [heq]
      linarith
    rw [if_pos hpart]
    exact hfloor

lemma bondStrength_le_one (a b : MemoryRecord String) : bondStrength a b ≤ 1 := by
  by_cases hid : a.id = b.id
  · rw [bondStrength, if_pos hid]
    exact zero_le_one
  · rw [bondStrength, if_neg hid]
    exact roundTo_le_one (min_le_left _ _)

lemma le_foldl_max (xs : List ℚ) (x : ℚ) : x ≤ xs.foldl max x := by
  induction xs generalizing x with
  | nil => exact le_refl x
  | cons y xs ih => exact (le_max_left x y).trans (ih _)

lemma foldl_max_le {xs : List ℚ} {x bound : ℚ} (hx : x ≤ bound) (h : ∀ y ∈ xs, y ≤ bound) : xs.foldl max x ≤ bound := by
  induction xs generalizing x with
  | nil => exact hx
  | cons y xs ih => exact ih (max_le hx (h y List.mem_cons_self)) fun z hz => h z (List.mem_cons_of_mem _ hz)

lemma explicitOf_weight {rec : MemoryRecord String} {e : ExplicitEdge} (h : e ∈ explicitOf scored rec) : e.weight ≤ 1 := by
  rcases List.mem_append.mp h with h | h
  · cases hs : rec.supersedes with
    | none => simp [hs] at h
    | some old =>
      rw [hs] at h
      dsimp only at h
      split_ifs at h
      · rcases List.mem_cons.mp h with rfl | h
        · exact le_refl 1
        · obtain rfl := List.mem_singleton.mp h
          exact le_refl 1
      · exact absurd h List.not_mem_nil
  · obtain ⟨target, -, h⟩ := List.mem_flatMap.mp h
    rcases List.mem_cons.mp h with rfl | h
    · norm_num
    · obtain rfl := List.mem_singleton.mp h
      norm_num

lemma edgeWeight_bounds (rec target : MemoryRecord String) : 0 ≤ edgeWeight scored rec target ∧ edgeWeight scored rec target ≤ 1 := by
  refine ⟨(le_foldl_max _ 0).trans (le_max_left _ _), max_le (foldl_max_le zero_le_one fun w hw => ?_) (bondStrength_le_one _ _)⟩
  obtain ⟨e, he, rfl⟩ := List.mem_map.mp hw
  obtain ⟨s, -, hs⟩ := List.mem_flatMap.mp (List.mem_filter.mp (List.mem_filter.mp he).1).1
  exact explicitOf_weight hs

lemma mem_neighbors {memoryId : String} {e : MemoryEdge} (h : e ∈ neighbors casefold cfg scored memoryId) :
    ∃ rec target, (recordsById scored).get memoryId = some rec ∧ (recordsById scored).get e.target = some target ∧
      e.target ∈ candidateIds casefold scored rec ∧ e.weight = edgeWeight scored rec target ∧
      e.label = ((edgeTypes scored rec target).sort, e.weight) ∧ cfg.minEdgeWeight ≤ e.weight := by
  rw [neighbors] at h
  cases hrec : (recordsById scored).get memoryId with
  | none =>
    rw [hrec] at h
    exact absurd h List.not_mem_nil
  | some rec =>
    rw [hrec] at h
    obtain ⟨targetId, hin, hsome⟩ := List.mem_filterMap.mp h
    obtain ⟨target, htarget, hif⟩ := Option.bind_eq_some_iff.mp hsome
    dsimp only at hif
    split_ifs at hif with hmin
    · obtain rfl := Option.some.inj hif
      exact ⟨rec, target, rfl, htarget, (Finset.mem_sort _).mp hin, rfl, rfl, hmin⟩

lemma neighbors_mem {memoryId targetId : String} {rec target : MemoryRecord String}
    (hrec : (recordsById scored).get memoryId = some rec) (htarget : (recordsById scored).get targetId = some target)
    (hin : targetId ∈ candidateIds casefold scored rec) (hmin : cfg.minEdgeWeight ≤ edgeWeight scored rec target) :
    ⟨targetId, edgeWeight scored rec target, ((edgeTypes scored rec target).sort, edgeWeight scored rec target)⟩ ∈
      neighbors casefold cfg scored memoryId := by
  rw [neighbors, hrec]
  refine List.mem_filterMap.mpr ⟨targetId, (Finset.mem_sort _).mpr hin, ?_⟩
  rw [htarget, Option.bind_some]
  exact if_pos hmin

lemma factors_neighbors : BestPath.Factors (neighbors casefold cfg scored) cfg.hopDecay where
  nonneg x e he := by
    obtain ⟨rec, target, -, -, -, hw, -, -⟩ := mem_neighbors he
    exact hw ▸ (edgeWeight_bounds rec target).1
  le_one x e he := by
    obtain ⟨rec, target, -, -, -, hw, -, -⟩ := mem_neighbors he
    exact hw ▸ (edgeWeight_bounds rec target).2
  decay_pos := lt_of_lt_of_le (by norm_num) cfg.hopDecay_mem.1
  decay_le_one := cfg.hopDecay_mem.2

lemma candidateIds_subset (rec : MemoryRecord String) : candidateIds casefold scored rec ⊆ knownIds scored := by
  intro id hid
  have hindex : ∀ p : Scored → Bool, id ∈ ((scored.filter p).map (·.1.id)).toFinset → id ∈ knownIds scored := by
    intro p hp
    obtain ⟨s, hs, rfl⟩ := List.mem_map.mp (List.mem_toFinset.mp hp)
    exact List.mem_toFinset.mpr (List.mem_map_of_mem (List.mem_filter.mp hs).1)
  have hmem := Finset.mem_of_mem_erase hid
  rcases Finset.mem_union.mp hmem with hmem | htags
  · rcases Finset.mem_union.mp hmem with hlinked | hsubject
    · obtain ⟨e, he, rfl⟩ := List.mem_map.mp (List.mem_toFinset.mp hlinked)
      have hkept := (List.mem_filter.mp (List.mem_filter.mp he).1).2
      exact (of_decide_eq_true hkept).2.2
    · cases hs : rec.subject with
      | none => simp [hs] at hsubject
      | some subject =>
        rw [hs] at hsubject
        dsimp only at hsubject
        split_ifs at hsubject
        · exact absurd hsubject (Finset.notMem_empty id)
        · exact hindex _ hsubject
  · obtain ⟨key, -, hkey⟩ := Finset.mem_biUnion.mp htags
    exact hindex _ hkey

lemma length_neighbors (memoryId : String) : (neighbors casefold cfg scored memoryId).length ≤ scored.length := by
  rw [neighbors]
  cases (recordsById scored).get memoryId with
  | none => exact Nat.zero_le _
  | some rec =>
    calc _ ≤ ((candidateIds casefold scored rec).sort).length := List.length_filterMap_le _ _
      _ = (candidateIds casefold scored rec).card := Finset.length_sort _
      _ ≤ (knownIds scored).card := Finset.card_le_card (candidateIds_subset rec)
      _ ≤ scored.length := (List.toFinset_card_le _).trans (List.length_map _).le

/-! ### The order of the records -/

variable {scored' : List Scored}

lemma knownIds_perm (h : scored.Perm scored') : knownIds scored = knownIds scored' := List.toFinset_eq_of_perm _ _ (h.map _)

lemma get_recordsById (hids : (scored.map (·.1.id)).Nodup) {id : String} {rec : MemoryRecord String} :
    (recordsById scored).get id = some rec ↔ rec ∈ scored.map Prod.fst ∧ rec.id = id := by
  have hkeys : ((scored.map fun s => (s.1.id, s.1)).map Prod.fst).Nodup := by simpa [Function.comp_def] using hids
  constructor
  · intro hget
    obtain ⟨s, hs, heq⟩ := List.mem_map.mp (Dict.mem_ofPairs (Dict.get_mem hget))
    obtain ⟨rfl, rfl⟩ := Prod.mk.inj heq
    exact ⟨List.mem_map_of_mem hs, rfl⟩
  · rintro ⟨hrec, rfl⟩
    obtain ⟨s, hs, rfl⟩ := List.mem_map.mp hrec
    exact Dict.get_ofPairs_of_nodup hkeys (List.mem_map.mpr ⟨s, hs, rfl⟩)

lemma recordsById_perm (hids : (scored.map (·.1.id)).Nodup) (h : scored.Perm scored') (id : String) :
    (recordsById scored).get id = (recordsById scored').get id := by
  have hids' : (scored'.map (·.1.id)).Nodup := ((h.map _).nodup_iff).mp hids
  apply Option.ext
  intro rec
  rw [get_recordsById hids, get_recordsById hids', (h.map Prod.fst).mem_iff]

lemma explicit_perm (h : scored.Perm scored') : (explicit scored).Perm (explicit scored') := by
  have hof : explicitOf scored = explicitOf scored' := by
    funext rec
    rw [explicitOf, explicitOf, knownIds_perm h]
  rw [explicit, explicit, hof, knownIds_perm h]
  exact (h.flatMap_right _).filter _

lemma explicitBetween_perm (h : scored.Perm scored') (a b : String) :
    (explicitBetween scored a b).Perm (explicitBetween scored' a b) := (explicit_perm h).filter _

lemma edgeWeight_perm (h : scored.Perm scored') : edgeWeight scored = edgeWeight scored' := by
  funext rec target
  rw [edgeWeight, edgeWeight, explicitWeight, explicitWeight]
  rw [((explicitBetween_perm h rec.id target.id).map (·.weight)).foldl_eq]

lemma edgeTypes_perm (h : scored.Perm scored') : edgeTypes scored = edgeTypes scored' := by
  funext rec target
  rw [edgeTypes, edgeTypes, explicitTypes, explicitTypes]
  rw [List.toFinset_eq_of_perm _ _ ((explicitBetween_perm h rec.id target.id).map (·.type))]

lemma candidateIds_perm (h : scored.Perm scored') : candidateIds casefold scored = candidateIds casefold scored' := by
  have hsubject : subjectIndex casefold scored = subjectIndex casefold scored' := by
    funext key
    exact List.toFinset_eq_of_perm _ _ ((h.filter _).map _)
  have htag : tagIndex casefold scored = tagIndex casefold scored' := by
    funext key
    exact List.toFinset_eq_of_perm _ _ ((h.filter _).map _)
  funext rec
  rw [candidateIds, candidateIds, hsubject, htag, List.toFinset_eq_of_perm _ _ (((explicit_perm h).filter _).map _)]

lemma neighbors_perm (hids : (scored.map (·.1.id)).Nodup) (h : scored.Perm scored') :
    neighbors casefold cfg scored = neighbors casefold cfg scored' := by
  have hget : (recordsById scored).get = (recordsById scored').get := funext (recordsById_perm hids h)
  funext memoryId
  rw [neighbors, neighbors, hget, edgeWeight_perm h, edgeTypes_perm h, candidateIds_perm h]

end

end ContinuityLedger.Recall
