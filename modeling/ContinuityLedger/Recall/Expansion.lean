import Mathlib.Data.Prod.Lex
import Mathlib.Order.Bounds.Basic
import ContinuityLedger.Foundations.Gathered
import ContinuityLedger.Foundations.Listing
import ContinuityLedger.Recall.Edges

/-! Graph expansion: the strongest scores lift the records they are joined to, each by its best path. -/

namespace ContinuityLedger.Recall

open Foundations Records BestPath

structure GraphUpdate where
  boost : ℚ
  hops : ℕ
  seedId : String
  path : List String
  edges : List (List String × ℚ)

abbrev Found := BestPath.Item String (List String × ℚ)

/-- `(-breakdown.A, rec.id)`. -/
def seedKey (s : Scored) : ℚ ×ₗ String := toLex (-s.2.A, s.1.id)

def seeds (cfg : GraphExpansionConfig) (scored : List Scored) : List Scored :=
  ((scored.mergeSort fun a b => seedKey a ≤ seedKey b).filter fun s => 0 < s.2.P ∧ 0 < s.2.A).take cfg.seedLimit

section
variable (casefold : String → String) (cfg : GraphExpansionConfig) (graphWeight : ℚ) (scored : List Scored)

def recordUpdate (seed : Scored) (updates : Dict String GraphUpdate) (y : Found) : Dict String GraphUpdate :=
  if y.node = seed.1.id then updates
  else
    let boost := seed.2.baseA * graphWeight * y.strength
    let update := ⟨boost, y.depth, seed.1.id, y.path, y.edges⟩
    match updates.get y.node with
    | none => updates.set y.node update
    | some previous => if previous.boost < boost then updates.set y.node update else updates

def expansion (seed : Scored) : Rules String (List String × ℚ) (Dict String GraphUpdate) where
  adj := neighbors casefold cfg scored
  maxDepth := cfg.maxDepth
  decay := cfg.hopDecay
  admits updates id := updates.has id || updates.length < cfg.maxNodes
  record := recordUpdate graphWeight seed

def expandSeed (fuel : ℕ) (updates : Dict String GraphUpdate) (seed : Scored) : Option (Dict String GraphUpdate) :=
  (run (expansion casefold cfg graphWeight scored seed) fuel (start seed.1.id updates)).map (·.acc)

def bestUpdates (fuel : ℕ) : Option (Dict String GraphUpdate) :=
  (seeds cfg scored).foldlM (expandSeed casefold cfg graphWeight scored fuel) []

def withUpdate (s : Scored) (u : GraphUpdate) : Scored :=
  (s.1, { s.2 with
    A := roundTo 6 (s.2.baseA + u.boost)
    graphBoost := roundTo 6 u.boost
    graphHops := u.hops
    graphSeedId := some u.seedId
    graphPath := u.path
    graphEdges := u.edges })

/-- `apply_graph_expansion`; `fuel` bounds the turns of each seed's search. -/
def applyGraphExpansion (fuel : ℕ) : Option (List Scored × ℕ) :=
  if cfg.enabled = false ∨ graphWeight ≤ 0 ∨ scored.length < 2 then some (scored, 0)
  else (bestUpdates casefold cfg graphWeight scored fuel).map fun updates =>
    (scored.map fun s => (updates.get s.1.id).elim s (withUpdate s), updates.length)

/-! ### What the boosts are -/

/-- A path of admitted edges of some weight from another record that is a seed. -/
structure Joins (seed : Scored) (id : String) (es : List MemoryEdge) : Prop where
  mem : seed ∈ seeds cfg scored
  other : id ≠ seed.1.id
  path : Path (neighbors casefold cfg scored) seed.1.id es id
  short : es.length ≤ cfg.maxDepth
  strong : 0 < worth cfg.hopDecay es

def Joined (id : String) : Prop := ∃ seed es, Joins casefold cfg scored seed id es

def boostAlong (seed : Scored) (es : List MemoryEdge) : ℚ := graphWeight * (seed.2.baseA * worth cfg.hopDecay es)

def boosts (id : String) : Set ℚ := {b | ∃ seed es, Joins casefold cfg scored seed id es ∧ b = boostAlong cfg graphWeight seed es}

def updateAlong (seed : Scored) (es : List MemoryEdge) : GraphUpdate :=
  ⟨boostAlong cfg graphWeight seed es, es.length, seed.1.id, seed.1.id :: es.map (·.target), es.map (·.label)⟩

/-- The record as it was if no other seed is joined to it, and else with the greatest boost along a path that gives it. -/
def Boosted (s t : Scored) : Prop :=
  (¬ Joined casefold cfg scored s.1.id ∧ t = s) ∨
    ∃ seed es, Joins casefold cfg scored seed s.1.id es ∧
      IsGreatest (boosts casefold cfg graphWeight scored s.1.id) (boostAlong cfg graphWeight seed es) ∧
      t = withUpdate s (updateAlong cfg graphWeight seed es)

/-- `max_nodes` leaves room for all the records that are joined to a seed. -/
def Roomy : Prop := ∀ ids : List String, ids.Nodup → (∀ id ∈ ids, Joined casefold cfg scored id) → ids.length ≤ cfg.maxNodes

end

/-! ### One seed after another -/

variable {casefold : String → String} {cfg : GraphExpansionConfig} {graphWeight : ℚ} {scored : List Scored}

abbrev Offers := List (String × GraphUpdate)

def offer (graphWeight : ℚ) (seed : Scored) (y : Found) : String × GraphUpdate :=
  (y.node, ⟨seed.2.baseA * graphWeight * y.strength, y.depth, seed.1.id, y.path, y.edges⟩)

lemma recordUpdate_of_ne {seed : Scored} {y : Found} (h : y.node ≠ seed.1.id) (updates : Dict String GraphUpdate) :
    recordUpdate graphWeight seed updates y = Greatest.keep (·.boost) updates (offer graphWeight seed y) := by
  rw [recordUpdate, if_neg h, Greatest.keep]
  dsimp only [offer]
  cases updates.get y.node <;> rfl

lemma foldl_recordUpdate {seed : Scored} {log : List Found} (h : ∀ y ∈ log, y.node ≠ seed.1.id) (updates : Dict String GraphUpdate) :
    log.foldl (recordUpdate graphWeight seed) updates =
      (log.map (offer graphWeight seed)).foldl (Greatest.keep (·.boost)) updates := by
  induction log generalizing updates with
  | nil => rfl
  | cons y log ih =>
    rw [List.foldl_cons, List.map_cons, List.foldl_cons, recordUpdate_of_ne (h y List.mem_cons_self)]
    exact ih (fun z hz => h z (List.mem_cons_of_mem _ hz)) _

lemma offer_of_found {seed : Scored} (hseed : seed ∈ seeds cfg scored) {y : Found}
    (hy : BestPath.Found (expansion casefold cfg graphWeight scored seed) seed.1.id y) :
    ∃ es, Joins casefold cfg scored seed y.node es ∧ offer graphWeight seed y = (y.node, updateAlong cfg graphWeight seed es) := by
  obtain ⟨es, hes, hdepth, hstrength, hpath, hedges⟩ := hy.tells
  refine ⟨es, ⟨hseed, hy.away, hes, hdepth ▸ hy.depth, hstrength ▸ hy.pos⟩, ?_⟩
  rw [offer, updateAlong, boostAlong, hstrength, hdepth, hpath, hedges]
  congr 2
  dsimp only [expansion]
  ring

/-- The offers are boosts along paths, and as great as any from the seeds that have had their turn. -/
structure Offered (casefold : String → String) (cfg : GraphExpansionConfig) (graphWeight : ℚ) (scored : List Scored)
    (done : List Scored) (offers : Offers) : Prop where
  along : ∀ o ∈ offers, ∃ seed es, Joins casefold cfg scored seed o.1 es ∧ o.2 = updateAlong cfg graphWeight seed es
  greatest : ∀ seed ∈ done, ∀ id es, Joins casefold cfg scored seed id es →
    ∃ o ∈ offers, o.1 = id ∧ boostAlong cfg graphWeight seed es ≤ o.2.boost

variable {done : List Scored} {offers : Offers} {seed : Scored}

lemma Offered.open (hroom : Roomy casefold cfg scored) (hseed : seed ∈ seeds cfg scored)
    (h : Offered casefold cfg graphWeight scored done offers) :
    Open (expansion casefold cfg graphWeight scored seed) seed.1.id (offers.foldl (Greatest.keep (·.boost)) []) := by
  intro log hlog y hy
  obtain ⟨es, hjoins, -⟩ := offer_of_found hseed hy
  have hfold : log.foldl (expansion casefold cfg graphWeight scored seed).record (offers.foldl (Greatest.keep (·.boost)) []) =
      (offers ++ log.map (offer graphWeight seed)).foldl (Greatest.keep (·.boost)) [] := by
    rw [List.foldl_append]
    exact foldl_recordUpdate (fun w hw => (hlog w hw).away) _
  have hkept : Greatest.Kept GraphUpdate.boost (offers ++ log.map (offer graphWeight seed)) _ := Greatest.kept_foldl _
  rw [hfold]
  generalize (offers ++ log.map (offer graphWeight seed)).foldl (Greatest.keep (·.boost)) [] = updates at hkept
  have hkeys : ∀ id ∈ updates.map Prod.fst, Joined casefold cfg scored id := by
    intro id hid
    obtain ⟨o, ho, rfl⟩ := List.mem_map.mp (hkept.key_mem hid)
    rcases List.mem_append.mp ho with ho | ho
    · obtain ⟨seed', es', hjoins', -⟩ := h.along o ho
      exact ⟨seed', es', hjoins'⟩
    · obtain ⟨w, hw, rfl⟩ := List.mem_map.mp ho
      obtain ⟨es', hjoins', -⟩ := offer_of_found hseed (hlog w hw)
      exact ⟨seed, es', hjoins'⟩
  by_cases hhas : y.node ∈ updates.map Prod.fst
  · have hyes : updates.has y.node = true := Dict.has_iff.mpr hhas
    simp [expansion, hyes]
  · have hlen := hroom (y.node :: updates.map Prod.fst) (List.nodup_cons.mpr ⟨hhas, hkept.keyed⟩) fun id hid => by
      rcases List.mem_cons.mp hid with rfl | hid
      · exact ⟨seed, es, hjoins⟩
      · exact hkeys id hid
    rw [List.length_cons, List.length_map] at hlen
    have hlt : updates.length < cfg.maxNodes := hlen
    simp [expansion, hlt]

lemma boostAlong_le {es : List MemoryEdge} {y : Found} (hgw : 0 < graphWeight) (hbase : 0 ≤ seed.2.baseA)
    (hle : worth cfg.hopDecay es ≤ y.strength) : boostAlong cfg graphWeight seed es ≤ (offer graphWeight seed y).2.boost := by
  calc boostAlong cfg graphWeight seed es = seed.2.baseA * graphWeight * worth cfg.hopDecay es := by rw [boostAlong]; ring
    _ ≤ seed.2.baseA * graphWeight * y.strength := mul_le_mul_of_nonneg_left hle (mul_nonneg hbase hgw.le)

lemma Offered.expandSeed (hgw : 0 < graphWeight) (hbase : 0 ≤ seed.2.baseA) (hroom : Roomy casefold cfg scored)
    (hseed : seed ∈ seeds cfg scored) (h : Offered casefold cfg graphWeight scored done offers) :
    ∃ new, (∀ fuel > turns scored.length cfg.maxDepth,
        expandSeed casefold cfg graphWeight scored fuel (offers.foldl (Greatest.keep (·.boost)) []) seed =
          some ((offers ++ new).foldl (Greatest.keep (·.boost)) [])) ∧
      Offered casefold cfg graphWeight scored (done ++ [seed]) (offers ++ new) := by
  obtain ⟨log, st, hrun, hacc, hcomplete⟩ := run_complete (r := expansion casefold cfg graphWeight scored seed)
    factors_neighbors length_neighbors (h.open hroom hseed)
  refine ⟨log.map (offer graphWeight seed), fun fuel hfuel => ?_, fun o ho => ?_, fun seed' hseed' id es hjoins => ?_⟩
  · rw [Recall.expandSeed, hrun fuel hfuel, Option.map_some, hacc, List.foldl_append]
    exact congrArg some (foldl_recordUpdate (fun y hy => (hcomplete.found y hy).away) _)
  · rcases List.mem_append.mp ho with ho | ho
    · exact h.along o ho
    · obtain ⟨y, hy, rfl⟩ := List.mem_map.mp ho
      obtain ⟨es, hjoins, heq⟩ := offer_of_found hseed (hcomplete.found y hy)
      exact ⟨seed, es, hjoins, congrArg Prod.snd heq⟩
  · rcases List.mem_append.mp hseed' with hin | hin
    · obtain ⟨o, ho, hrest⟩ := h.greatest seed' hin id es hjoins
      exact ⟨o, List.mem_append_left _ ho, hrest⟩
    · obtain rfl := List.mem_singleton.mp hin
      obtain ⟨y, hy, hnode, hle⟩ := hcomplete.covers_path factors_neighbors hjoins.path hjoins.short hjoins.strong hjoins.other
      exact ⟨_, List.mem_append_right _ (List.mem_map_of_mem hy), hnode, boostAlong_le hgw hbase hle⟩

/-- Induction on the seeds from the last. -/
lemma offered_foldlM (hgw : 0 < graphWeight) (hbase : ∀ s ∈ seeds cfg scored, 0 ≤ s.2.baseA) (hroom : Roomy casefold cfg scored)
    (hdone : ∀ s ∈ done, s ∈ seeds cfg scored) :
    ∃ offers, (∀ fuel > turns scored.length cfg.maxDepth, done.foldlM (Recall.expandSeed casefold cfg graphWeight scored fuel) [] =
        some (offers.foldl (Greatest.keep (·.boost)) [])) ∧ Offered casefold cfg graphWeight scored done offers := by
  induction done using List.reverseRecOn with
  | nil => exact ⟨[], fun _ _ => rfl, by simp, by simp⟩
  | append_singleton done seed ih =>
    obtain ⟨offers, hfold, hoffered⟩ := ih fun s hs => hdone s (List.mem_append_left _ hs)
    have hseed := hdone seed (by simp)
    obtain ⟨new, hexpand, hnew⟩ := hoffered.expandSeed hgw (hbase seed hseed) hroom hseed
    refine ⟨offers ++ new, fun fuel hfuel => ?_, hnew⟩
    rw [List.foldlM_append, hfold fuel hfuel]
    simpa using hexpand fuel hfuel

end ContinuityLedger.Recall
