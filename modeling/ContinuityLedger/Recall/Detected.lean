import Mathlib.Data.List.Perm.Subperm
import Mathlib.Data.Multiset.Dedup
import Mathlib.Data.String.Basic
import ContinuityLedger.Foundations.Gathered
import ContinuityLedger.Foundations.Listing
import ContinuityLedger.Records.JarvisStore
import ContinuityLedger.Records.Row

/-! Records of one subject that no other has replaced: the sets that are surfaced, never merged. What the scan reports of a list of
records does not depend on the order of the list. -/

namespace ContinuityLedger.Recall

open Foundations Records Ledger

structure ConflictSet where
  subject : String
  unresolved : Bool
  memories : List (MemoryRecord String)
  policyHint : String

def policyHint : String :=
  "Do not merge. Ledger preserves both records with provenance. A writer may later append a record with " ++
    "supersedes=<id> or status=archived as a continuity claim — other engines evaluate whether that claim is warranted."

def duplicateHint : String :=
  "Same content_sha256 across non-superseded records; duplicate continuity entries, not a semantic conflict. " ++
    "Consumers may archive duplicates; ledger does not auto-collapse or rank by confidence."

def active (rec : MemoryRecord String) : Bool := rec.status ≠ .archived

/-- `_non_superseded_ids`. -/
def nonSupersededIds (records : List (MemoryRecord String)) : List String :=
  let byId := records.map (·.id)
  let supersededTargets := (records.filter active).filterMap fun r => (target r.supersedes).filter (· ∈ byId)
  (records.filter fun r => active r && r.id ∉ supersededTargets).map (·.id)

/-- The subject that a record is grouped under. -/
def cohort (subject : Option String) (rec : MemoryRecord String) : Option String :=
  (target rec.subject).filter fun s => subject.all (s = ·)

variable (contentSha256 : String → String)

def claimHash (rec : MemoryRecord String) : String :=
  if rec.contentSha256 = "" then contentSha256 rec.content else rec.contentSha256

/-- Both branches that append: distinct claims, or one claim restated. -/
def conflictSet (subject : String) (openRecs : List (MemoryRecord String)) : ConflictSet :=
  let unresolved : Bool := 2 ≤ (openRecs.map (claimHash contentSha256)).dedup.length
  { subject := subject
    unresolved := unresolved
    memories := openRecs.mergeSort fun a b => a.createdAt ≤ b.createdAt
    policyHint := if unresolved then policyHint else duplicateHint }

def conflictIn (subject : String) (group : List (MemoryRecord String)) : Option ConflictSet :=
  let openIds := nonSupersededIds group
  let openRecs := group.filter (·.id ∈ openIds)
  let hashes := (openRecs.map (claimHash contentSha256)).dedup
  if 2 ≤ openRecs.length ∧ 2 ≤ hashes.length then some (conflictSet contentSha256 subject openRecs)
  else if 2 ≤ openRecs.length ∧ hashes.length = 1 then some (conflictSet contentSha256 subject openRecs)
  else none

def detectConflicts (records : List (MemoryRecord String)) (subject : Option String) : List ConflictSet :=
  ((Grouped.groupBy (cohort subject) records).mergeSort fun a b => a.1 ≤ b.1).filterMap fun g =>
    conflictIn contentSha256 g.1 g.2

/-! ### Open records -/

/-- A record of the same subject that is not archived names it. -/
def superseded (records : List (MemoryRecord String)) (rec : MemoryRecord String) : Bool :=
  records.any fun s => active s && s.subject = rec.subject && target s.supersedes = some rec.id

def isOpen (records : List (MemoryRecord String)) (rec : MemoryRecord String) : Bool :=
  active rec && !superseded records rec

def openOf (records : List (MemoryRecord String)) (subject : String) : List (MemoryRecord String) :=
  records.filter fun r => r.subject = some subject && isOpen records r

/-- Two conflict sets that differ in the order of records created at one time only. -/
structure ConflictSet.Agrees (c d : ConflictSet) : Prop where
  subject : c.subject = d.subject
  unresolved : c.unresolved = d.unresolved
  policyHint : c.policyHint = d.policyHint
  memories : c.memories.Perm d.memories

lemma superseded_iff {records : List (MemoryRecord String)} {rec : MemoryRecord String} :
    superseded records rec = true ↔
      ∃ s ∈ records, active s = true ∧ s.subject = rec.subject ∧ target s.supersedes = some rec.id := by
  simp [superseded, and_assoc]

lemma superseded_perm {records records' : List (MemoryRecord String)} (h : records.Perm records') :
    superseded records = superseded records' := by
  funext rec
  rw [Bool.eq_iff_iff, superseded_iff, superseded_iff]
  constructor
  · rintro ⟨s, hs, hrest⟩
    exact ⟨s, h.mem_iff.mp hs, hrest⟩
  · rintro ⟨s, hs, hrest⟩
    exact ⟨s, h.mem_iff.mpr hs, hrest⟩

lemma openOf_perm {records records' : List (MemoryRecord String)} (h : records.Perm records') (subject : String) :
    (openOf records subject).Perm (openOf records' subject) := by
  have hopen : isOpen records = isOpen records' := by
    funext rec
    rw [isOpen, isOpen, superseded_perm h]
  rw [openOf, openOf, hopen]
  exact h.filter _

lemma mem_openOf {records : List (MemoryRecord String)} {subject : String} {rec : MemoryRecord String} :
    rec ∈ openOf records subject ↔ rec ∈ records ∧ rec.subject = some subject ∧ active rec = true ∧
      superseded records rec = false := by
  simp [openOf, isOpen]

lemma cohort_eq_some {subject : Option String} {rec : MemoryRecord String} {s : String} :
    cohort subject rec = some s ↔ rec.subject = some s ∧ s ≠ "" ∧ subject.all (s = ·) = true := by
  rw [cohort, target, Option.filter_eq_some_iff, Option.filter_eq_some_iff]
  simp [and_assoc]

/-- A group holds one subject, so what a record of it supersedes in the group is what it supersedes of its subject. -/
lemma mem_nonSupersededIds {records : List (MemoryRecord String)} {subject : String} {id : String} :
    id ∈ nonSupersededIds (records.filter fun r => r.subject = some subject) ↔
      ∃ r ∈ openOf records subject, r.id = id := by
  have htargets : ∀ r ∈ records, r.subject = some subject →
      (r.id ∈ ((records.filter fun r => r.subject = some subject).filter active).filterMap (fun s =>
        (target s.supersedes).filter (· ∈ (records.filter fun r => r.subject = some subject).map (·.id))) ↔
      superseded records r = true) := by
    intro r hr hsub
    have hid : r.id ∈ (records.filter fun r => r.subject = some subject).map (·.id) :=
      List.mem_map.mpr ⟨r, List.mem_filter.mpr ⟨hr, by simpa using hsub⟩, rfl⟩
    rw [superseded_iff, List.mem_filterMap]
    constructor
    · rintro ⟨s, hs, htarget⟩
      obtain ⟨hin, hactive⟩ := List.mem_filter.mp hs
      obtain ⟨hrec, hsubject⟩ := List.mem_filter.mp hin
      refine ⟨s, hrec, hactive, ?_, (Option.filter_eq_some_iff.mp htarget).1⟩
      rw [hsub]
      simpa using hsubject
    · rintro ⟨s, hs, hactive, hsubject, htarget⟩
      refine ⟨s, List.mem_filter.mpr ⟨List.mem_filter.mpr ⟨hs, ?_⟩, hactive⟩, ?_⟩
      · simpa [hsub] using hsubject
      · exact Option.filter_eq_some_iff.mpr ⟨htarget, by simpa using hid⟩
  rw [nonSupersededIds, List.mem_map]
  constructor
  · rintro ⟨r, hr, rfl⟩
    obtain ⟨hin, hcond⟩ := List.mem_filter.mp hr
    obtain ⟨hrec, hsubject⟩ := List.mem_filter.mp hin
    have hsub : r.subject = some subject := by simpa using hsubject
    rw [Bool.and_eq_true, decide_eq_true_eq, htargets r hrec hsub] at hcond
    exact ⟨r, mem_openOf.mpr ⟨hrec, hsub, hcond.1, by simpa using hcond.2⟩, rfl⟩
  · rintro ⟨r, hr, rfl⟩
    obtain ⟨hrec, hsub, hactive, hopen⟩ := mem_openOf.mp hr
    refine ⟨r, List.mem_filter.mpr ⟨List.mem_filter.mpr ⟨hrec, by simpa using hsub⟩, ?_⟩, rfl⟩
    rw [Bool.and_eq_true, decide_eq_true_eq, htargets r hrec hsub, hopen]
    exact ⟨hactive, Bool.false_ne_true⟩

lemma group_open {records : List (MemoryRecord String)} (hn : (records.map (·.id)).Nodup) (subject : String) :
    ((records.filter fun r => r.subject = some subject).filter
      (·.id ∈ nonSupersededIds (records.filter fun r => r.subject = some subject))) = openOf records subject := by
  rw [openOf, List.filter_filter]
  apply List.filter_congr
  intro r hr
  rw [Bool.eq_iff_iff, Bool.and_eq_true, Bool.and_eq_true, decide_eq_true_eq, mem_nonSupersededIds]
  constructor
  · rintro ⟨⟨s, hs, hid⟩, hsub⟩
    obtain rfl : s = r := List.inj_on_of_nodup_map hn (mem_openOf.mp hs).1 hr hid
    exact ⟨hsub, (List.mem_filter.mp hs).2 |> fun h => by simpa using (Bool.and_eq_true _ _ ▸ h).2⟩
  · rintro ⟨hsub, hopen⟩
    refine ⟨⟨r, List.mem_filter.mpr ⟨hr, ?_⟩, rfl⟩, hsub⟩
    rw [Bool.and_eq_true]
    exact ⟨hsub, hopen⟩

variable (contentSha256 : String → String)

/-- The subjects that a scan looks at. -/
def Scanned (subject : Option String) (s : String) : Prop := s ≠ "" ∧ subject.all (s = ·) = true

lemma group_cohort {subject : Option String} {s : String} (h : Scanned subject s) (records : List (MemoryRecord String)) :
    Grouped.group (cohort subject) records s = records.filter fun r => r.subject = some s := by
  apply List.filter_congr
  intro r _
  rw [decide_eq_decide, cohort_eq_some]
  exact ⟨fun hr => hr.1, fun hr => ⟨hr, h⟩⟩

lemma group_eq_nil {subject : Option String} {s : String} (h : ¬ Scanned subject s) (records : List (MemoryRecord String)) :
    Grouped.group (cohort subject) records s = [] := by
  apply List.filter_eq_nil_iff.mpr
  intro r _ hr
  exact h (cohort_eq_some.mp (by simpa using hr)).2

lemma dedup_pos {α : Type} [DecidableEq α] {xs : List α} (h : xs ≠ []) : 0 < xs.dedup.length := by
  obtain ⟨x, hx⟩ := List.exists_mem_of_ne_nil xs h
  exact List.length_pos_of_mem (List.mem_dedup.mpr hx)

/-- Both branches need two open records, and there is at least one hash among them. -/
lemma conflictIn_eq {records : List (MemoryRecord String)} (hn : (records.map (·.id)).Nodup) (s : String) :
    conflictIn contentSha256 s (records.filter fun r => r.subject = some s) =
      if 2 ≤ (openOf records s).length then some (conflictSet contentSha256 s (openOf records s)) else none := by
  rw [conflictIn, group_open hn]
  set hashes := ((openOf records s).map (claimHash contentSha256)).dedup with hhashes
  by_cases htwo : 2 ≤ (openOf records s).length
  · have hne : (openOf records s).map (claimHash contentSha256) ≠ [] := by
      intro hnil
      rw [List.map_eq_nil_iff] at hnil
      rw [hnil] at htwo
      simp at htwo
    have hpos : 0 < hashes.length := dedup_pos hne
    by_cases hdistinct : 2 ≤ hashes.length
    · rw [if_pos ⟨htwo, hdistinct⟩, if_pos htwo]
    · rw [if_neg (fun h => hdistinct h.2), if_pos ⟨htwo, by omega⟩, if_pos htwo]
  · rw [if_neg (fun h => htwo h.1), if_neg (fun h => htwo h.1), if_neg htwo]

lemma mem_detectConflicts {records : List (MemoryRecord String)} (hn : (records.map (·.id)).Nodup)
    {subject : Option String} {c : ConflictSet} :
    c ∈ detectConflicts contentSha256 records subject ↔ ∃ s, Scanned subject s ∧ 2 ≤ (openOf records s).length ∧
      c = conflictSet contentSha256 s (openOf records s) := by
  rw [detectConflicts, List.mem_filterMap]
  constructor
  · rintro ⟨⟨s, g⟩, hg, hc⟩
    obtain ⟨hne, rfl⟩ := (Grouped.mem_groupBy _).mp (List.mem_mergeSort.mp hg)
    have hs : Scanned subject s := by
      by_contra hs
      exact hne (group_eq_nil hs records)
    rw [group_cohort hs, conflictIn_eq contentSha256 hn] at hc
    split_ifs at hc with htwo
    exact ⟨s, hs, htwo, (Option.some.inj hc).symm⟩
  · rintro ⟨s, hs, htwo, rfl⟩
    refine ⟨(s, Grouped.group (cohort subject) records s), List.mem_mergeSort.mpr ?_, ?_⟩
    · refine (Grouped.mem_groupBy _).mpr ⟨?_, rfl⟩
      rw [group_cohort hs]
      obtain ⟨r, hr⟩ := List.exists_mem_of_ne_nil (openOf records s) (List.ne_nil_of_length_pos (by omega))
      have hopen := mem_openOf.mp hr
      exact List.ne_nil_of_mem (List.mem_filter.mpr ⟨hopen.1, by simpa using hopen.2.1⟩)
    · rw [group_cohort hs, conflictIn_eq contentSha256 hn, if_pos htwo]

lemma memories_perm (s : String) (recs : List (MemoryRecord String)) :
    (conflictSet contentSha256 s recs).memories.Perm recs :=
  List.mergeSort_perm _ _

lemma conflictSet_agrees (s : String) {recs recs' : List (MemoryRecord String)} (h : recs.Perm recs') :
    (conflictSet contentSha256 s recs).Agrees (conflictSet contentSha256 s recs') := by
  have hlen := ((h.map (claimHash contentSha256)).dedup).length_eq
  refine ⟨rfl, ?_, ?_, (memories_perm contentSha256 s recs).trans (h.trans (memories_perm contentSha256 s recs').symm)⟩
  · rw [conflictSet, conflictSet, hlen]
  · rw [conflictSet, conflictSet, hlen]

/-! ### The order of the list -/

def subjectsOf (records : List (MemoryRecord String)) (subject : Option String) : List String :=
  ((Grouped.groupBy (cohort subject) records).map Prod.fst).mergeSort fun a b => a ≤ b

lemma detectConflicts_eq (records : List (MemoryRecord String)) (subject : Option String) :
    detectConflicts contentSha256 records subject = (subjectsOf records subject).filterMap fun s =>
      conflictIn contentSha256 s (Grouped.group (cohort subject) records s) := by
  have hsort : subjectsOf records subject =
      ((Grouped.groupBy (cohort subject) records).mergeSort fun a b => a.1 ≤ b.1).map Prod.fst :=
    (List.map_mergeSort (f := Prod.fst) fun _ _ _ _ => rfl).symm
  rw [detectConflicts, hsort, List.filterMap_map]
  apply List.filterMap_congr
  rintro ⟨s, g⟩ hg
  obtain ⟨-, rfl⟩ := (Grouped.mem_groupBy _).mp (List.mem_mergeSort.mp hg)
  rfl

lemma subjectsOf_perm {records records' : List (MemoryRecord String)} (h : records.Perm records')
    (subject : Option String) : subjectsOf records subject = subjectsOf records' subject := by
  have hkeyed := Grouped.keyed_groupBy (cohort subject) records
  apply @Listing.mergeSort_perm_eq _ _ _ id
  · rw [List.map_id]
    exact hkeyed
  · apply (List.perm_ext_iff_of_nodup hkeyed (Grouped.keyed_groupBy (cohort subject) records')).mpr
    intro s
    rw [Grouped.mem_keys_groupBy, Grouped.mem_keys_groupBy]
    constructor
    · rintro ⟨r, hr, hs⟩
      exact ⟨r, h.mem_iff.mp hr, hs⟩
    · rintro ⟨r, hr, hs⟩
      exact ⟨r, h.mem_iff.mpr hr, hs⟩

lemma conflictIn_perm {records records' : List (MemoryRecord String)} (hn : (records.map (·.id)).Nodup)
    (h : records.Perm records') {subject : Option String} {s : String} (hs : Scanned subject s) :
    Option.Rel ConflictSet.Agrees (conflictIn contentSha256 s (Grouped.group (cohort subject) records s))
      (conflictIn contentSha256 s (Grouped.group (cohort subject) records' s)) := by
  have hn' : (records'.map (·.id)).Nodup := (h.map _).nodup_iff.mp hn
  have hperm := openOf_perm h s
  rw [group_cohort hs, group_cohort hs, conflictIn_eq contentSha256 hn, conflictIn_eq contentSha256 hn', hperm.length_eq]
  split_ifs
  · exact .some (conflictSet_agrees contentSha256 s hperm)
  · exact .none

lemma forall₂_filterMap {A B : Type} {R : B → B → Prop} {f g : A → Option B} {xs : List A}
    (h : ∀ x ∈ xs, Option.Rel R (f x) (g x)) : List.Forall₂ R (xs.filterMap f) (xs.filterMap g) := by
  induction xs with
  | nil => exact .nil
  | cons x xs ih =>
    have hrest := ih fun y hy => h y (List.mem_cons_of_mem x hy)
    have hx := h x List.mem_cons_self
    rw [List.filterMap_cons, List.filterMap_cons]
    cases hf : f x with
    | none =>
      rw [hf] at hx
      cases hg : g x with
      | none => exact hrest
      | some c => rw [hg] at hx; cases hx
    | some b =>
      rw [hf] at hx
      cases hg : g x with
      | none => rw [hg] at hx; cases hx
      | some c =>
        rw [hg] at hx
        cases hx with
        | some hbc => exact .cons hbc hrest

lemma detectConflicts_perm {records records' : List (MemoryRecord String)} (hn : (records.map (·.id)).Nodup)
    (h : records.Perm records') (subject : Option String) :
    List.Forall₂ ConflictSet.Agrees (detectConflicts contentSha256 records subject)
      (detectConflicts contentSha256 records' subject) := by
  rw [detectConflicts_eq, detectConflicts_eq, ← subjectsOf_perm h]
  apply forall₂_filterMap
  intro s hs
  apply conflictIn_perm contentSha256 hn h
  obtain ⟨r, -, hr⟩ := (Grouped.mem_keys_groupBy _).mp (List.mem_mergeSort.mp hs)
  exact (cohort_eq_some.mp hr).2

lemma subjects_lt {records : List (MemoryRecord String)} (hn : (records.map (·.id)).Nodup) (subject : Option String) :
    (detectConflicts contentSha256 records subject).Pairwise fun c d => c.subject < d.subject := by
  rw [detectConflicts_eq, List.pairwise_filterMap]
  have hlt : (subjectsOf records subject).Pairwise (· < ·) :=
    @Listing.mergeSort_pairwise_lt _ _ _ id _ (by rw [List.map_id]; exact Grouped.keyed_groupBy _ records)
  refine hlt.imp_of_mem fun hs ht hst => ?_
  have hsubject : ∀ s ∈ subjectsOf records subject, ∀ c,
      conflictIn contentSha256 s (Grouped.group (cohort subject) records s) = some c → c.subject = s := by
    intro s hs c hc
    obtain ⟨r, -, hr⟩ := (Grouped.mem_keys_groupBy _).mp (List.mem_mergeSort.mp hs)
    rw [group_cohort (cohort_eq_some.mp hr).2, conflictIn_eq contentSha256 hn] at hc
    split_ifs at hc
    rw [← Option.some.inj hc]
    rfl
  intro c hc d hd
  rw [hsubject _ hs c hc, hsubject _ ht d hd]
  exact hst

end ContinuityLedger.Recall
