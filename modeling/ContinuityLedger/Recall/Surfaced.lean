import ContinuityLedger.Recall.Retrieve

/-! When the conflicts that a page of records touches are all reported with it. -/

namespace ContinuityLedger.Recall

open Foundations Records Ledger

variable (contentSha256 : String → String)

/-! ### What is claimed, and what it takes -/

/-- Each conflict among the live records with a returned record in it is reported. -/
def Surfaced (store : Backend) (call : Listed) : Prop :=
  ∀ c ∈ detectConflicts contentSha256 store.live none, (∃ m ∈ c.memories, m ∈ (store.retrieve contentSha256 call).1) →
    ∃ d ∈ (store.retrieve contentSha256 call).2.2, c.Agrees d

/-- One set for each subject with two open records or more, of exactly these, whatever the order of the list. -/
structure DetectsExactly (records : List (MemoryRecord String)) : Prop where
  subjects : ∀ subject s, (∃ c ∈ detectConflicts contentSha256 records subject, c.subject = s) ↔
    Scanned subject s ∧ 2 ≤ (openOf records s).length
  memories : ∀ subject, ∀ c ∈ detectConflicts contentSha256 records subject, c.memories.Perm (openOf records c.subject)
  once : ∀ subject, (detectConflicts contentSha256 records subject).Pairwise fun c d => c.subject < d.subject
  anyOrder : ∀ subject records', records.Perm records' → List.Forall₂ ConflictSet.Agrees
    (detectConflicts contentSha256 records subject) (detectConflicts contentSha256 records' subject)

/-- The call does not name the empty subject, the scan looks at every open record of a subject in question, and at one
that supersedes each superseded record of it that it looks at. -/
def Covered (store : Backend) (call : Listed) : Prop :=
  ∀ s, s ≠ "" → 2 ≤ (openOf store.live s).length → (∃ m ∈ openOf store.live s, m ∈ store.list call) →
    call.subject ≠ some "" ∧ (∀ r ∈ openOf store.live s, r ∈ store.scanned) ∧
      ∀ r ∈ store.scanned, r.subject = some s → superseded store.live r = true → superseded store.scanned r = true

variable {contentSha256}

lemma detects_exactly {records : List (MemoryRecord String)} (hn : (records.map (·.id)).Nodup) :
    DetectsExactly contentSha256 records where
  subjects subject s := by
    constructor
    · rintro ⟨c, hc, rfl⟩
      obtain ⟨s, hs, htwo, rfl⟩ := (mem_detectConflicts contentSha256 hn).mp hc
      exact ⟨hs, htwo⟩
    · rintro ⟨hs, htwo⟩
      exact ⟨_, (mem_detectConflicts contentSha256 hn).mpr ⟨s, hs, htwo, rfl⟩, rfl⟩
  memories subject c hc := by
    obtain ⟨s, hs, htwo, rfl⟩ := (mem_detectConflicts contentSha256 hn).mp hc
    exact memories_perm contentSha256 s _
  once := subjects_lt contentSha256 hn
  anyOrder subject _ h := detectConflicts_perm contentSha256 hn h subject

lemma superseded_mono {records records' : List (MemoryRecord String)} (h : ∀ r ∈ records, r ∈ records')
    {r : MemoryRecord String} (hr : superseded records r = true) : superseded records' r = true := by
  obtain ⟨s, hs, hrest⟩ := superseded_iff.mp hr
  exact superseded_iff.mpr ⟨s, h s hs, hrest⟩

/-- The scan finds a subject's open records. -/
lemma openOf_scanned (store : Backend) (s : String) :
    (openOf store.scanned s).Perm (openOf store.live s) ↔ (∀ r ∈ openOf store.live s, r ∈ store.scanned) ∧
      ∀ r ∈ store.scanned, r.subject = some s → superseded store.live r = true → superseded store.scanned r = true := by
  have hsub : ∀ r ∈ store.scanned, r ∈ store.live := fun r => store.scanned_subset
  constructor
  · intro hperm
    refine ⟨fun r hr => (mem_openOf.mp (hperm.mem_iff.mpr hr)).1, fun r hr hsubject hlive => ?_⟩
    by_contra hscan
    have hactive : active r = true := (List.mem_filter.mp (hsub r hr)).2
    have hopen := hperm.mem_iff.mp (mem_openOf.mpr ⟨hr, hsubject, hactive, by simpa using hscan⟩)
    rw [(mem_openOf.mp hopen).2.2.2] at hlive
    exact Bool.false_ne_true hlive
  · rintro ⟨hin, hnamed⟩
    have hnd : ∀ {records : List (MemoryRecord String)}, (records.map (·.id)).Nodup → (openOf records s).Nodup :=
      fun h => (List.Nodup.of_map _ h).sublist List.filter_sublist
    apply (List.perm_ext_iff_of_nodup (hnd store.scanned_once) (hnd store.live_once)).mpr
    intro r
    constructor
    · intro hr
      obtain ⟨hscan, hsubject, hactive, hopen⟩ := mem_openOf.mp hr
      refine mem_openOf.mpr ⟨hsub r hscan, hsubject, hactive, ?_⟩
      by_contra hlive
      rw [hnamed r hscan hsubject (by simpa using hlive)] at hopen
      exact Bool.false_ne_true hopen.symm
    · intro hr
      obtain ⟨hlive, hsubject, hactive, hopen⟩ := mem_openOf.mp hr
      refine mem_openOf.mpr ⟨hin r hr, hsubject, hactive, ?_⟩
      by_contra hscan
      rw [superseded_mono hsub (by simpa using hscan)] at hopen
      exact Bool.false_ne_true hopen.symm

lemma mem_touching {store : Backend} {call : Listed} {d : ConflictSet} :
    d ∈ (store.retrieve contentSha256 call).2.2 ↔ d ∈ detectConflicts contentSha256 store.scanned call.subject ∧
      (call.subject = none → ∃ m ∈ d.memories, m.id ∈ (store.list call).map (·.id)) := by
  show d ∈ (if call.subject.isNone then (detectConflicts contentSha256 store.scanned call.subject).filter fun c =>
    c.memories.any fun m => m.id ∈ (store.list call).map (·.id) else detectConflicts contentSha256 store.scanned
      call.subject) ↔ _
  cases call.subject with
  | none =>
    rw [Option.isNone_none, if_pos rfl, List.mem_filter, List.any_eq_true]
    simp only [decide_eq_true_eq, true_implies]
  | some s => simp

/-- A page asked for by its subject holds records of that subject. -/
lemma subject_of_listed {store : Backend} {call : Listed} {m : MemoryRecord String} (hm : m ∈ store.list call) {s t : String}
    (hs : m.subject = some s) (ht : call.subject = some t) (hne : t ≠ "") : t = s := by
  have hp := (store.mem_list hm).2
  simp only [Listed.passes, Bool.and_eq_true] at hp
  have hsubject := hp.1.2
  rw [ht] at hsubject
  have heq : s = t := by simpa [given, hne, hs] using hsubject
  exact heq.symm

lemma surfaced_of_covered {store : Backend} {call : Listed} (h : Covered store call) : Surfaced contentSha256 store call := by
  rintro c hc ⟨m, hm, hreturned⟩
  obtain ⟨s, hs, htwo, rfl⟩ := (mem_detectConflicts contentSha256 store.live_once).mp hc
  have hopen : m ∈ openOf store.live s := (memories_perm contentSha256 s _).mem_iff.mp hm
  obtain ⟨hsubject, hcover⟩ := h s hs.1 htwo ⟨m, hopen, hreturned⟩
  have hperm := (openOf_scanned store s).mpr hcover
  have hscan : Scanned call.subject s := by
    refine ⟨hs.1, ?_⟩
    cases ht : call.subject with
    | none => rfl
    | some t =>
      have hne : t ≠ "" := fun he => hsubject (by rw [ht, he])
      have heq := subject_of_listed hreturned (mem_openOf.mp hopen).2.1 ht hne
      simp [heq]
  refine ⟨conflictSet contentSha256 s (openOf store.scanned s), mem_touching.mpr ⟨?_, fun _ => ?_⟩,
    conflictSet_agrees contentSha256 s hperm.symm⟩
  · rw [mem_detectConflicts contentSha256 store.scanned_once]
    exact ⟨s, hscan, by rw [hperm.length_eq]; exact htwo, rfl⟩
  · refine ⟨m, (memories_perm contentSha256 s _).mem_iff.mpr (hperm.mem_iff.mpr hopen), ?_⟩
    exact List.mem_map.mpr ⟨m, hreturned, rfl⟩

lemma covered_of_surfaced {store : Backend} {call : Listed} (h : Surfaced contentSha256 store call) : Covered store call := by
  rintro s hs htwo ⟨m, hopen, hreturned⟩
  have hc : conflictSet contentSha256 s (openOf store.live s) ∈ detectConflicts contentSha256 store.live none :=
    (mem_detectConflicts contentSha256 store.live_once).mpr ⟨s, ⟨hs, rfl⟩, htwo, rfl⟩
  have hm : m ∈ (conflictSet contentSha256 s (openOf store.live s)).memories :=
    (memories_perm contentSha256 s _).mem_iff.mpr hopen
  obtain ⟨d, hd, hagrees⟩ := h _ hc ⟨m, hm, hreturned⟩
  obtain ⟨t, ht, htwo', rfl⟩ := (mem_detectConflicts contentSha256 store.scanned_once).mp (mem_touching.mp hd).1
  obtain rfl : s = t := hagrees.subject
  refine ⟨fun he => ?_, (openOf_scanned store s).mp ?_⟩
  · have hempty := ht.2
    rw [he] at hempty
    exact hs (by simpa using hempty)
  · exact (memories_perm contentSha256 s _).symm.trans (hagrees.memories.symm.trans (memories_perm contentSha256 s _))

/-- What a page's conflicts take to be all there; the scan itself is exact. -/
theorem conflicts_surfaced_iff (store : Backend) (call : Listed) :
    (Surfaced contentSha256 store call ∧
      ∀ records : List (MemoryRecord String), (records.map (·.id)).Nodup → DetectsExactly contentSha256 records) ↔
      Covered store call := by
  constructor
  · rintro ⟨h, -⟩
    exact covered_of_surfaced h
  · intro h
    exact ⟨surfaced_of_covered h, fun _ => detects_exactly⟩

/-! ### A ledger with more live records than the scan lists -/

def plainRecord (id content createdAt : String) (subject : Option String) : MemoryRecord String where
  id := id
  content := content
  createdAt := createdAt
  updatedAt := createdAt
  sourceAgent := "agent"
  sessionId := "session"
  type := .fact
  confidence := ⟨8, 1⟩
  evidence := []
  supersedes := none
  status := .draft
  subject := subject
  tags := []
  version := 1
  contentSha256 := content

/-- Notes of one day, without a subject. -/
def note (n : ℕ) : MemoryRecord String :=
  plainRecord (String.ofList (List.replicate n 'n')) "note" "2026-02-02T00:00:00+00:00" none

def notes : List (MemoryRecord String) := ((List.range 9999).map note).mergeSort newestFirst

/-- Two claims of the day before. -/
def claims : List (MemoryRecord String) :=
  [plainRecord "mem-b" "ship on friday" "2026-02-01T00:00:00+00:00" (some "deploys"),
    plainRecord "mem-a" "never on a friday" "2026-02-01T00:00:00+00:00" (some "deploys")]

lemma note_injective : Function.Injective fun n => (note n).id := by
  intro m n h
  have hlist := String.ofList_injective h
  simpa using congrArg List.length hlist

lemma mem_notes {m : MemoryRecord String} (h : m ∈ notes) : ∃ n, m = note n := by
  obtain ⟨n, -, rfl⟩ := List.mem_map.mp (List.mem_mergeSort.mp h)
  exact ⟨n, rfl⟩

lemma notes_claims_once : ((notes ++ claims).map (·.id)).Nodup := by
  rw [List.map_append]
  apply List.nodup_append.mpr
  refine ⟨?_, by decide, ?_⟩
  · apply (((List.mergeSort_perm _ _).map _).nodup_iff).mpr
    rw [List.map_map]
    exact (List.nodup_range).map note_injective
  · intro id hid id' hid' heq
    obtain ⟨m, hm, rfl⟩ := List.mem_map.mp hid
    obtain ⟨n, rfl⟩ := mem_notes hm
    have hdash : '-' ∈ id'.toList := by
      rcases List.mem_cons.mp hid' with rfl | hid'
      · decide
      · rw [List.mem_singleton.mp hid']
        decide
    rw [← heq] at hdash
    have hn : '-' ∉ (note n).id.toList := by simp [note, plainRecord]
    exact hn hdash

def crowded : Backend := fileStore (notes ++ claims) notes_claims_once

lemma mem_crowded {P : MemoryRecord String → Prop} (hnotes : ∀ n, P (note n)) (hclaims : ∀ c ∈ claims, P c) :
    ∀ m ∈ notes ++ claims, P m := by
  intro m hm
  rcases List.mem_append.mp hm with hm | hm
  · obtain ⟨n, rfl⟩ := mem_notes hm
    exact hnotes n
  · exact hclaims m hm

lemma of_claims {P : MemoryRecord String → Prop} (hb : P claims[0]) (ha : P claims[1]) : ∀ c ∈ claims, P c := by
  intro c hc
  rcases List.mem_cons.mp hc with rfl | hc
  · exact hb
  · rw [List.mem_singleton.mp hc]
    exact ha

lemma newestFirst_sorted (ms : List (MemoryRecord String)) :
    (ms.mergeSort newestFirst).Pairwise fun a b => newestFirst a b = true := by
  apply List.pairwise_mergeSort
  · intro a b c hab hbc
    exact decide_eq_true (le_trans (of_decide_eq_true hbc) (of_decide_eq_true hab))
  · intro a b
    simpa [newestFirst] using le_total (toLex (b.createdAt, b.id)) (toLex (a.createdAt, a.id))

lemma claims_sorted : claims.mergeSort newestFirst = claims := List.mergeSort_of_pairwise (by decide)

lemma crowded_sorted : (notes ++ claims).mergeSort newestFirst = notes ++ claims := by
  apply List.mergeSort_of_pairwise
  refine List.pairwise_append.mpr ⟨newestFirst_sorted _, by decide, fun m hm c hc => ?_⟩
  obtain ⟨n, rfl⟩ := mem_notes hm
  have hlt : ∀ c ∈ claims, c.createdAt < "2026-02-02T00:00:00+00:00" := of_claims (by decide) (by decide)
  exact decide_eq_true (Prod.Lex.toLex_le_toLex.mpr (.inl (hlt c hc)))

lemma live_crowded : crowded.live = notes ++ claims :=
  List.filter_eq_self.mpr (mem_crowded (fun _ => rfl) (of_claims rfl rfl))

lemma scanned_crowded : crowded.scanned = notes := by
  have hall : (notes ++ claims).filter cohortCall.passes = notes ++ claims := by
    apply List.filter_eq_self.mpr
    intro m hm
    rw [Backend.passes_cohortCall]
    exact (List.filter_eq_self.mp live_crowded) m hm
  have hlength : notes.length = 9999 := by
    rw [notes, List.length_mergeSort, List.length_map, List.length_range]
  have hlist : crowded.scanned = slice 9999 (((notes ++ claims).filter cohortCall.passes).mergeSort newestFirst) := rfl
  rw [hlist, hall, crowded_sorted, slice, if_pos (by decide)]
  exact List.take_left' hlength

lemma openOf_crowded : openOf crowded.live "deploys" = claims := by
  have hnone : ∀ m ∈ crowded.live, superseded crowded.live m = false := by
    intro m _
    rw [Bool.eq_false_iff]
    intro hm
    obtain ⟨s, hs, -, -, htarget⟩ := superseded_iff.mp hm
    rw [live_crowded] at hs
    have hfree : target s.supersedes = none := mem_crowded (P := fun s => target s.supersedes = none) (fun _ => rfl)
      (of_claims rfl rfl) s hs
    rw [hfree] at htarget
    cases htarget
  have hopen : openOf crowded.live "deploys" = crowded.live.filter fun r => r.subject = some "deploys" := by
    apply List.filter_congr
    intro r hr
    have hactive : active r = true := (List.mem_filter.mp hr).2
    simp [isOpen, hactive, hnone r hr]
  have hnotes : (notes.filter fun r => r.subject = some "deploys") = [] := by
    apply List.filter_eq_nil_iff.mpr
    intro m hm
    obtain ⟨n, rfl⟩ := mem_notes hm
    simp [note, plainRecord]
  rw [hopen, live_crowded, List.filter_append, hnotes]
  rfl

def aboutDeploys : Listed := ⟨none, none, 50, none, none, none, some "deploys"⟩

lemma list_aboutDeploys : crowded.list aboutDeploys = claims := by
  have hnotes : notes.filter aboutDeploys.passes = [] := by
    apply List.filter_eq_nil_iff.mpr
    intro m hm
    obtain ⟨n, rfl⟩ := mem_notes hm
    simp [Listed.passes, aboutDeploys, given, note, plainRecord]
  have hlist : crowded.list aboutDeploys = slice 50 (((notes ++ claims).filter aboutDeploys.passes).mergeSort newestFirst) := rfl
  have hclaims : claims.filter aboutDeploys.passes = claims := rfl
  rw [hlist, List.filter_append, hnotes, List.nil_append, hclaims, claims_sorted]
  rfl

def pair : Backend := fileStore claims (by decide)

def everything : Listed := ⟨none, none, 50, none, none, none, some ""⟩

/-- Two claims behind 9999 newer notes are not seen to conflict, and neither are two alone where the subject asked for is
empty. -/
theorem conflict_not_surfaced : ¬ Surfaced id crowded aboutDeploys ∧ ¬ Surfaced id pair everything := by
  constructor
  · intro h
    have hcovered := covered_of_surfaced h "deploys" (by decide)
    rw [openOf_crowded, list_aboutDeploys, scanned_crowded] at hcovered
    have hseen := (hcovered (by decide) ⟨_, List.mem_cons_self, List.mem_cons_self⟩).2.1 _ List.mem_cons_self
    obtain ⟨n, hn⟩ := mem_notes hseen
    exact absurd (congrArg MemoryRecord.subject hn) (by simp [note, plainRecord])
  · intro h
    have hopen : openOf pair.live "deploys" = claims := rfl
    have hlist : pair.list everything = claims := by
      show slice 50 (claims.mergeSort newestFirst) = claims
      rw [claims_sorted]
      rfl
    have hcovered := covered_of_surfaced h "deploys" (by decide)
    rw [hopen, hlist] at hcovered
    exact (hcovered (by decide) ⟨_, List.mem_cons_self, List.mem_cons_self⟩).1 rfl

end ContinuityLedger.Recall
