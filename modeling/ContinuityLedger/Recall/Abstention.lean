import Mathlib.Data.Prod.Lex
import ContinuityLedger.Foundations.Dict
import ContinuityLedger.Foundations.Listing
import ContinuityLedger.Recall.Summary

/-! Whether recall has enough evidence to answer. The scores do not depend on the order of the candidates; which record
leads a tie does. -/

namespace ContinuityLedger.Recall

open Foundations Records

structure AbstentionConfig where
  minTopScore : ℚ
  minTopQueryAlignment : ℚ
  minScoreMargin : ℚ
  minRelativeMargin : ℚ

inductive AbstentionReason
  | noCandidates
  | topScoreBelowFloor
  | queryAlignmentBelowFloor
  | ambiguousScoreMargin
deriving DecidableEq

def AbstentionReason.text : AbstentionReason → String
  | .noCandidates => "no-candidates"
  | .topScoreBelowFloor => "top-score-below-floor"
  | .queryAlignmentBelowFloor => "query-alignment-below-floor"
  | .ambiguousScoreMargin => "ambiguous-score-margin"

structure Assessment where
  reason : Option AbstentionReason
  topEvidenceScore : Option ℚ
  runnerUpEvidenceScore : Option ℚ
  scoreMargin : Option ℚ
  relativeScoreMargin : Option ℚ
deriving DecidableEq

def Assessment.abstained (a : Assessment) : Bool := a.reason.isSome

/-- `rec.content_sha256 or rec.id`. -/
def hashKey (s : Scored) : String := if s.1.contentSha256 = "" then s.1.id else s.1.contentSha256

def keepBest (best : Dict String Scored) (s : Scored) : Dict String Scored :=
  match best.get (hashKey s) with
  | none => best.set (hashKey s) s
  | some current => if current.2.gateA < s.2.gateA then best.set (hashKey s) s else best

def bestByHash (scored : List Scored) : Dict String Scored := scored.foldl keepBest []

/-- `(-breakdown.gate_A, rec.id)`. -/
def rankKey (s : Scored) : ℚ ×ₗ String := toLex (-s.2.gateA, s.1.id)

def ranked (scored : List Scored) : List Scored :=
  ((bestByHash scored).map Prod.snd).mergeSort fun a b => rankKey a ≤ rankKey b

def marginOf (topScore runnerScore : Option ℚ) : Option ℚ :=
  match topScore, runnerScore with
  | some t, some r => some (max 0 (t - r))
  | _, _ => topScore

def relativeOf (margin topScore : Option ℚ) : Option ℚ :=
  match margin, topScore with
  | some m, some t => if 0 < t then some (m / t) else none
  | _, _ => none

def below (bound : ℚ) (x : Option ℚ) : Bool := x.any (· < bound)

/-- `assess_abstention`. -/
def assessAbstention (scored : List Scored) (config : AbstentionConfig) (enforce : Bool) : Assessment :=
  let top := (ranked scored)[0]?
  let runnerUp := (ranked scored)[1]?
  let topScore := top.map (·.2.gateA)
  let runnerScore := runnerUp.map (·.2.gateA)
  let margin := marginOf topScore runnerScore
  let relative := relativeOf margin topScore
  let reason :=
    if !enforce then none
    else match top with
      | none => some .noCandidates
      | some top =>
        if top.2.gateA < config.minTopScore then some .topScoreBelowFloor
        else if top.2.Q < config.minTopQueryAlignment then some .queryAlignmentBelowFloor
        else if runnerUp.isSome && (below config.minScoreMargin margin || below config.minRelativeMargin relative) then
          some .ambiguousScoreMargin
        else none
  ⟨reason, topScore.map (roundTo 6), runnerScore.map (roundTo 6), margin.map (roundTo 6), relative.map (roundTo 6)⟩

/-! ### What is kept of each hash -/

/-- The first of the best, one for each hash. -/
structure Keeps (scored : List Scored) (best : Dict String Scored) : Prop where
  keyed : Dict.Keyed best
  mem : ∀ k s, best.get k = some s → s ∈ scored ∧ hashKey s = k
  le : ∀ s ∈ scored, ∃ c, best.get (hashKey s) = some c ∧ s.2.gateA ≤ c.2.gateA

lemma Keeps.snoc {scored : List Scored} {best : Dict String Scored} (h : Keeps scored best) (s : Scored) :
    Keeps (scored ++ [s]) (keepBest best s) := by
  have hset (hle : ∀ c, best.get (hashKey s) = some c → c.2.gateA ≤ s.2.gateA) :
      Keeps (scored ++ [s]) (best.set (hashKey s) s) := by
    refine ⟨Dict.keyed_set h.keyed _ _, ?_, ?_⟩
    · intro k t ht
      rw [Dict.get_set] at ht
      split_ifs at ht with hk
      · obtain rfl := Option.some.inj ht
        exact ⟨by simp, hk⟩
      · obtain ⟨hmem, hkey⟩ := h.mem k t ht
        exact ⟨List.mem_append_left _ hmem, hkey⟩
    · intro t ht
      rw [Dict.get_set]
      rcases List.mem_append.mp ht with ht | ht
      · obtain ⟨c, hc, hle'⟩ := h.le t ht
        split_ifs with hk
        · rw [← hk] at hc
          exact ⟨s, rfl, hle'.trans (hle c hc)⟩
        · exact ⟨c, hc, hle'⟩
      · obtain rfl := List.mem_singleton.mp ht
        exact ⟨t, if_pos rfl, le_refl _⟩
  rw [keepBest]
  cases hget : best.get (hashKey s) with
  | none => exact hset fun c hc => by rw [hget] at hc; cases hc
  | some current =>
    dsimp only
    split_ifs with hlt
    · refine hset fun c hc => ?_
      obtain rfl := Option.some.inj (hget.symm.trans hc)
      exact hlt.le
    · refine ⟨h.keyed, fun k t ht => ?_, fun t ht => ?_⟩
      · obtain ⟨hmem, hkey⟩ := h.mem k t ht
        exact ⟨List.mem_append_left _ hmem, hkey⟩
      · rcases List.mem_append.mp ht with ht | ht
        · exact h.le t ht
        · obtain rfl := List.mem_singleton.mp ht
          exact ⟨current, hget, not_lt.mp hlt⟩

lemma keeps_bestByHash (scored : List Scored) : Keeps scored (bestByHash scored) := by
  induction scored using List.reverseRecOn with
  | nil => exact ⟨List.nodup_nil, by simp [bestByHash], by simp⟩
  | append_singleton scored s ih =>
    rw [bestByHash, List.foldl_append]
    exact ih.snoc s

/-- The best score of a hash. -/
def IsBest (scored : List Scored) (k : String) (score : ℚ) : Prop :=
  (∃ s ∈ scored, hashKey s = k ∧ s.2.gateA = score) ∧ ∀ s ∈ scored, hashKey s = k → s.2.gateA ≤ score

lemma Keeps.isBest {scored : List Scored} {best : Dict String Scored} (h : Keeps scored best) {k : String} {score : ℚ} :
    (∃ s, best.get k = some s ∧ s.2.gateA = score) ↔ IsBest scored k score := by
  constructor
  · rintro ⟨s, hs, rfl⟩
    obtain ⟨hmem, hkey⟩ := h.mem k s hs
    refine ⟨⟨s, hmem, hkey, rfl⟩, fun t ht hk => ?_⟩
    obtain ⟨c, hc, hle⟩ := h.le t ht
    rw [hk, hs] at hc
    obtain rfl := Option.some.inj hc
    exact hle
  · rintro ⟨⟨s, hs, hk, rfl⟩, hall⟩
    obtain ⟨c, hc, hle⟩ := h.le s hs
    rw [hk] at hc
    obtain ⟨hmem, hkey⟩ := h.mem k c hc
    exact ⟨c, hc, le_antisymm (hall c hmem hkey) hle⟩

/-! ### Scores -/

/-- The id, the hash, the alignment and the score of the evidence. -/
def view (s : Scored) : String × String × ℚ × ℚ := (s.1.id, s.1.contentSha256, s.2.Q, s.2.gateA)

/-- The same evidence in any order, whatever the other fields are. -/
def Alike (scored scored' : List Scored) : Prop := (scored.map view).Perm (scored'.map view)

lemma hashKey_view {s t : Scored} (h : view s = view t) : hashKey s = hashKey t := by
  obtain ⟨hid, hhash, -, -⟩ : s.1.id = t.1.id ∧ s.1.contentSha256 = t.1.contentSha256 ∧ s.2.Q = t.2.Q ∧ s.2.gateA = t.2.gateA := by
    simpa [view] using h
  rw [hashKey, hashKey, hid, hhash]

lemma id_view {s t : Scored} (h : view s = view t) : s.1.id = t.1.id := (Prod.mk.inj h).1

lemma Q_view {s t : Scored} (h : view s = view t) : s.2.Q = t.2.Q := (Prod.mk.inj (Prod.mk.inj (Prod.mk.inj h).2).2).1

lemma gateA_view {s t : Scored} (h : view s = view t) : s.2.gateA = t.2.gateA :=
  (Prod.mk.inj (Prod.mk.inj (Prod.mk.inj h).2).2).2

lemma Alike.mem {scored scored' : List Scored} (h : Alike scored scored') {s : Scored} (hs : s ∈ scored) :
    ∃ t ∈ scored', view t = view s :=
  List.mem_map.mp (h.mem_iff.mp (List.mem_map_of_mem hs))

lemma Alike.isBest {scored scored' : List Scored} (h : Alike scored scored') {k : String} {score : ℚ}
    (hb : IsBest scored k score) : IsBest scored' k score := by
  obtain ⟨⟨s, hs, hk, hscore⟩, hall⟩ := hb
  obtain ⟨t, ht, hview⟩ := h.mem hs
  refine ⟨⟨t, ht, (hashKey_view hview).trans hk, (gateA_view hview).trans hscore⟩, fun u hu huk => ?_⟩
  obtain ⟨v, hv, hview'⟩ := Alike.mem h.symm hu
  rw [← gateA_view hview']
  exact hall v hv ((hashKey_view hview').trans huk)

def scores (scored : List Scored) : List ℚ := (ranked scored).map (·.2.gateA)

lemma scores_pairwise (scored : List Scored) : (scores scored).Pairwise (· ≥ ·) := by
  refine List.pairwise_map.mpr ((Listing.mergeSort_pairwise rankKey _).imp fun {a b} hab => ?_)
  rcases Prod.Lex.le_iff.mp hab with hlt | ⟨heq, -⟩
  · exact (neg_lt_neg_iff.mp hlt).le
  · exact (neg_inj.mp heq).ge

lemma Alike.scores_eq {scored scored' : List Scored} (h : Alike scored scored') : scores scored = scores scored' := by
  have hpairs (l : List Scored) : ((bestByHash l).map fun p => (p.1, p.2.2.gateA)).Nodup := by
    refine List.Nodup.of_map Prod.fst ?_
    rw [List.map_map]
    exact (keeps_bestByHash l).keyed
  have hmem (l : List Scored) (p : String × ℚ) :
      p ∈ (bestByHash l).map (fun p => (p.1, p.2.2.gateA)) ↔ IsBest l p.1 p.2 := by
    rw [← (keeps_bestByHash l).isBest]
    constructor
    · intro hp
      obtain ⟨⟨k, s⟩, hs, rfl⟩ := List.mem_map.mp hp
      exact ⟨s, (Dict.mem_iff_get (keeps_bestByHash l).keyed).mp hs, rfl⟩
    · rintro ⟨s, hs, hscore⟩
      exact List.mem_map.mpr ⟨(p.1, s), Dict.get_mem hs, Prod.ext rfl hscore⟩
  have hperm := (List.perm_ext_iff_of_nodup (hpairs scored) (hpairs scored')).mpr fun p => by
    rw [hmem, hmem]
    exact ⟨h.isBest, Alike.isBest h.symm⟩
  have hvalues := hperm.map Prod.snd
  rw [List.map_map, List.map_map] at hvalues
  have hsorted (l : List Scored) : (scores l).Perm ((bestByHash l).map fun p => p.2.2.gateA) := by
    have hsort := (List.mergeSort_perm ((bestByHash l).map Prod.snd) fun a b => rankKey a ≤ rankKey b).map (·.2.gateA)
    rw [List.map_map] at hsort
    exact hsort
  exact List.Perm.eq_of_pairwise (fun a b _ _ hab hba => le_antisymm hba hab) (scores_pairwise scored)
    (scores_pairwise scored') ((hsorted scored).trans (hvalues.trans (hsorted scored').symm))

end ContinuityLedger.Recall
