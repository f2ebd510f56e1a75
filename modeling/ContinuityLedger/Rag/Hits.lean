import ContinuityLedger.Rag.Answer

/-! What a hit is: a document of the index that is not archived, one hit for a document, the hits in a strict order; and when
hits are refused for a declared conflict. Archived documents take places on the two lists of a search before they are left
out: when the hits and the refusals are those of the index without them. -/

namespace ContinuityLedger.Rag

open Foundations Recall

/-! ### The order -/

instance : Std.Total outranks := ⟨fun a b => by
  rcases lt_trichotomy a.final b.final with h | h | h
  · exact .inr (.inl h)
  · rcases le_total a.id b.id with hid | hid
    · exact .inl (.inr ⟨h, hid⟩)
    · exact .inr (.inr ⟨h.symm, hid⟩)
  · exact .inl (.inl h)⟩

instance : IsTrans Hit outranks := ⟨fun a b c hab hbc => by
  rcases hab with hab | ⟨hab, hidab⟩
  · rcases hbc with hbc | ⟨hbc, -⟩
    · exact .inl (hbc.trans hab)
    · exact .inl (hbc ▸ hab)
  · rcases hbc with hbc | ⟨hbc, hidbc⟩
    · exact .inl (hab ▸ hbc)
    · exact .inr ⟨hab.trans hbc, hidab.trans hidbc⟩⟩

lemma eq_of_outranks {hits : List Hit} (h : (hits.map Hit.id).Nodup) {a b : Hit} (ha : a ∈ hits) (hb : b ∈ hits)
    (hab : outranks a b) (hba : outranks b a) : a = b := by
  refine List.inj_on_of_nodup_map h ha hb ?_
  rcases hab with hab | ⟨hab, hid⟩
  · rcases hba with hba | ⟨hba, -⟩
    · exact absurd hab hba.asymm
    · exact absurd hab (by rw [hba]; exact lt_irrefl _)
  · rcases hba with hba | ⟨-, hid'⟩
    · exact absurd hba (by rw [hab]; exact lt_irrefl _)
    · exact le_antisymm hid hid'

lemma ids_results (index : RagIndex) (sc : Scores) (cfg : RetrievalConfig) : ((results index sc cfg).map Hit.id).Nodup := by
  unfold results
  rw [List.map_map]
  exact index.nodup.sublist ((List.filter_sublist).map RagDocument.id)

lemma strict_results (index : RagIndex) (sc : Scores) (cfg : RetrievalConfig) :
    TopRanked.Strict outranks (results index sc cfg) :=
  ⟨(ids_results index sc cfg).of_map, fun _ ha _ hb => eq_of_outranks (ids_results index sc cfg) ha hb⟩

lemma supported_results {index : RagIndex} {sc : Scores} {cfg : RetrievalConfig} {h : Hit} (hh : h ∈ supported index sc cfg) :
    h ∈ hybridRetrieve index sc cfg ∧ h ∈ results index sc cfg := by
  have hretrieved := (List.mem_filter.mp hh).1
  exact ⟨hretrieved, TopRanked.mem_of_mem_top hretrieved⟩

lemma ids_supported (index : RagIndex) (sc : Scores) (cfg : RetrievalConfig) : ((supported index sc cfg).map Hit.id).Nodup := by
  have hsorted : (((results index sc cfg).insertionSort outranks).map Hit.id).Nodup :=
    ((List.perm_insertionSort outranks _).map Hit.id).nodup_iff.mpr (ids_results index sc cfg)
  have htop : ((hybridRetrieve index sc cfg).map Hit.id).Nodup := hsorted.sublist ((List.take_sublist _ _).map Hit.id)
  exact htop.sublist (List.filter_sublist.map Hit.id)

lemma sorted_supported (index : RagIndex) (sc : Scores) (cfg : RetrievalConfig) :
    (supported index sc cfg).Pairwise outranks :=
  (TopRanked.pairwise_top cfg.k (results index sc cfg)).sublist List.filter_sublist

/-! ### Documents -/

lemma doc_of_mem {index : RagIndex} {d : RagDocument} (h : d ∈ index.docs) : index.doc d.id = some d :=
  KeyedTable.row_eq_some index.nodup h

lemma doc_some {index : RagIndex} {id : String} {d : RagDocument} (h : index.doc id = some d) : d ∈ index.docs ∧ d.id = id :=
  ⟨KeyedTable.row_mem h, KeyedTable.row_key h⟩

/-- A hit is a document of the index that is not archived. -/
lemma doc_of_result {index : RagIndex} {sc : Scores} {cfg : RetrievalConfig} {h : Hit} (hh : h ∈ results index sc cfg) :
    ∃ d, index.doc h.id = some d ∧ d.live = true := by
  obtain ⟨d, hd, rfl⟩ := List.mem_map.mp hh
  obtain ⟨hmem, hcond⟩ := List.mem_filter.mp hd
  exact ⟨d, doc_of_mem hmem, (Bool.and_eq_true _ _ ▸ hcond).2⟩

/-! ### Conflicts -/

/-- A document of the index that a hit's document declares a conflict with. -/
def Declares (index : RagIndex) (h : Hit) (d : RagDocument) : Prop :=
  d ∈ index.docs ∧ d.id ≠ h.id ∧ ∃ doc, index.doc h.id = some doc ∧ d.id ∈ doc.conflictIds

lemma present_iff {index : RagIndex} {doc : RagDocument} :
    1 < (present index doc).length ↔ ∃ d ∈ index.docs, d.id ≠ doc.id ∧ d.id ∈ doc.conflictIds := by
  rw [present, List.length_insertionSort]
  constructor
  · intro hlen
    by_contra hnone
    have hall : ∀ id ∈ (doc.id :: doc.conflictIds.filter fun cid => (index.doc cid).isSome).dedup, id = doc.id := by
      intro id hid
      rcases List.mem_cons.mp (List.mem_dedup.mp hid) with rfl | hid
      · rfl
      · obtain ⟨hin, hsome⟩ := List.mem_filter.mp hid
        obtain ⟨d, hd⟩ := Option.isSome_iff_exists.mp hsome
        obtain ⟨hmem, rfl⟩ := doc_some hd
        by_contra hne
        exact hnone ⟨d, hmem, hne, hin⟩
    have hone := (List.subperm_of_subset (List.nodup_dedup _) fun id hid => List.mem_singleton.mpr (hall id hid)).length_le
    rw [List.length_singleton] at hone
    omega
  · rintro ⟨d, hd, hne, hin⟩
    have hpair : [doc.id, d.id].Nodup := by simp [hne.symm]
    have hsub : [doc.id, d.id] ⊆ (doc.id :: doc.conflictIds.filter fun cid => (index.doc cid).isSome).dedup := by
      intro id hid
      rw [List.mem_dedup]
      rcases List.mem_cons.mp hid with rfl | hid
      · exact List.mem_cons_self
      · rw [List.mem_singleton.mp hid]
        exact List.mem_cons_of_mem _ (List.mem_filter.mpr ⟨hin, by simp [doc_of_mem hd]⟩)
    exact (List.subperm_of_subset hpair hsub).length_le

lemma conflicts_iff {index : RagIndex} {hits : List Hit} :
    conflictsForHits index hits ≠ [] ↔ ∃ h ∈ hits, ∃ d, Declares index h d := by
  have hne : conflictsForHits index hits ≠ [] ↔
      ∃ h ∈ hits, ∃ doc, index.doc h.id = some doc ∧ 1 < (present index doc).length := by
    constructor
    · intro hne
      obtain ⟨c, hc⟩ := List.exists_mem_of_ne_nil _ hne
      obtain ⟨ids, hids, -⟩ := List.mem_map.mp hc
      obtain ⟨hids, hlen⟩ := List.mem_filter.mp (List.mem_dedup.mp ((List.mem_insertionSort _).mp hids))
      obtain ⟨doc, hdoc, rfl⟩ := List.mem_map.mp hids
      obtain ⟨h, hh, hdoc⟩ := List.mem_filterMap.mp hdoc
      exact ⟨h, hh, doc, hdoc, of_decide_eq_true hlen⟩
    · rintro ⟨h, hh, doc, hdoc, hlen⟩
      have hids : present index doc ∈ (hits.filterMap fun h => index.doc h.id).map (present index) :=
        List.mem_map_of_mem (List.mem_filterMap.mpr ⟨h, hh, hdoc⟩)
      have hgroup : present index doc ∈ ((hits.filterMap fun h => index.doc h.id).map (present index)).filter
          fun ids => 1 < ids.length := List.mem_filter.mpr ⟨hids, decide_eq_true hlen⟩
      exact List.ne_nil_of_mem (List.mem_map_of_mem ((List.mem_insertionSort _).mpr (List.mem_dedup.mpr hgroup)))
  rw [hne]
  constructor
  · rintro ⟨h, hh, doc, hdoc, hlen⟩
    obtain ⟨d, hd, hid, hin⟩ := present_iff.mp hlen
    exact ⟨h, hh, d, hd, (doc_some hdoc).2 ▸ hid, doc, hdoc, hin⟩
  · rintro ⟨h, hh, d, hd, hid, doc, hdoc, hin⟩
    exact ⟨h, hh, doc, hdoc, present_iff.mpr ⟨d, hd, (doc_some hdoc).2.symm ▸ hid, hin⟩⟩

/-! ### Refusals -/

/-- The best hit has the support that the mode asks for. -/
def Gate (cfg : RetrievalConfig) (hits : List Hit) : Prop := ∃ h ∈ hits.head?, cfg.minSupport ≤ h.final

def RefusesForConflict (p : Provider) (sc : Scores) (work : RagIndex) (query : String) : Prop :=
  ∃ r, answerOn p sc work query = .ok r ∧ r.status = .conflictedEvidence

lemma gate_iff {cfg : RetrievalConfig} {hits : List Hit} :
    Gate cfg hits ↔ (hits = [] || (hits.head?.map Hit.final).getD 0 < cfg.minSupport) = false := by
  cases hits with
  | nil => simp [Gate]
  | cons h hits =>
    rw [List.head?_cons, Option.map_some, Option.getD_some, Bool.or_eq_false_iff, decide_eq_false_iff_not,
      decide_eq_false_iff_not, not_lt]
    simp [Gate]

/-- The hits of a query without retrieval. -/
lemma supported_chatty (work : RagIndex) (sc : Scores) : supported work sc (retrievalConfig .chatty) = [] := rfl

lemma refuses_iff {p : Provider} {sc : Scores} {work : RagIndex} {query : String} :
    RefusesForConflict p sc work query ↔
      Gate (retrievalConfig (classifyQuery query)) (supported work sc (retrievalConfig (classifyQuery query))) ∧
        ∃ h ∈ supported work sc (retrievalConfig (classifyQuery query)), ∃ d, Declares work h d := by
  unfold RefusesForConflict answerOn
  rw [← conflicts_iff, gate_iff]
  by_cases hchat : classifyQuery query = .chatty
  · rw [hchat, supported_chatty]
    simp
  · simp only [if_neg hchat]
    generalize retrievalConfig (classifyQuery query) = cfg
    generalize supported work sc cfg = hits
    cases hgate : (hits = [] || (hits.head?.map Hit.final).getD 0 < cfg.minSupport) with
    | true => simp
    | false =>
      by_cases hconf : conflictsForHits work hits = []
      · refine iff_of_false ?_ (fun h => h.2 hconf)
        rintro ⟨r, hr, hstatus⟩
        simp only [hconf, List.isEmpty_nil, Bool.not_true, Bool.false_eq_true, if_false] at hr
        generalize (buildContext work hits (generationConfig (classifyQuery query)).maxContextTokens).2 = usedIds at hr
        split_ifs at hr
        · obtain rfl := Except.ok.inj hr
          exact absurd hstatus (by simp)
        · cases hgen : llmGenerate p usedIds with
          | error e => simp [hgen, bind, Except.bind] at hr
          | ok generated =>
            rw [hgen] at hr
            obtain rfl := Except.ok.inj hr
            exact absurd hstatus (by simp)
      · simp [hconf]

variable (index : RagIndex) (sc : Scores) (cfg : RetrievalConfig)

/-- The listed documents whose scores are the same without the archived documents. -/
def steady : List Hit := (results index sc cfg).filter (· ∈ results index.current sc cfg)

/-- The first `k` of them that have support. -/
def leading : List Hit := (TopRanked.top outranks cfg.k (steady index sc cfg)).filter fun h => decide (0 < h.final)

/-- A listed document that is not steady, with the archived documents or without them, comes behind `k` that are; and where
the support suffices, a leading document that declares a conflict with an archived one is not alone to declare one. -/
structure Uncrowded : Prop where
  listed : ∀ h ∈ results index sc cfg, h ∉ results index.current sc cfg → cfg.k ≤ TopRanked.beaten outranks h (steady index sc cfg)
  unlisted : ∀ h ∈ results index.current sc cfg, h ∉ results index sc cfg →
    cfg.k ≤ TopRanked.beaten outranks h (steady index sc cfg)
  declared : Gate cfg (leading index sc cfg) → (∃ h ∈ leading index sc cfg, ∃ d, Declares index h d ∧ d.live = false) →
    ∃ h ∈ leading index sc cfg, ∃ d, Declares index h d ∧ d.live = true

variable {index sc cfg}

lemma mem_current {d : RagDocument} : d ∈ index.current.docs ↔ d ∈ index.docs ∧ d.live = true := List.mem_filter

lemma declares_current {h : Hit} {d : RagDocument} (hh : h ∈ results index sc cfg) :
    Declares index.current h d ↔ Declares index h d ∧ d.live = true := by
  obtain ⟨doc, hdoc, hlive⟩ := doc_of_result hh
  have hcurrent : index.current.doc h.id = some doc := by
    obtain ⟨hmem, hid⟩ := doc_some hdoc
    exact hid ▸ doc_of_mem (mem_current.mpr ⟨hmem, hlive⟩)
  simp only [Declares, mem_current, hdoc, hcurrent]
  tauto

lemma supported_eq_leading {work : RagIndex} (h : hybridRetrieve work sc cfg = TopRanked.top outranks cfg.k (steady index sc cfg)) :
    supported work sc cfg = leading index sc cfg := by
  rw [supported, h, leading]

lemma leading_results {h : Hit} (hh : h ∈ leading index sc cfg) : h ∈ results index sc cfg :=
  List.mem_of_mem_filter (TopRanked.mem_of_mem_top (List.mem_of_mem_filter hh))

/-- The refusals of the same hits differ only where all the conflicts that are declared are with archived documents. -/
lemma refusals_iff {hits : List Hit} (hhits : ∀ h ∈ hits, h ∈ results index sc cfg) :
    ((Gate cfg hits ∧ ∃ h ∈ hits, ∃ d, Declares index h d) ↔ (Gate cfg hits ∧ ∃ h ∈ hits, ∃ d, Declares index.current h d)) ↔
      (Gate cfg hits → (∃ h ∈ hits, ∃ d, Declares index h d ∧ d.live = false) →
        ∃ h ∈ hits, ∃ d, Declares index h d ∧ d.live = true) := by
  have hcurrent : (∃ h ∈ hits, ∃ d, Declares index.current h d) ↔ ∃ h ∈ hits, ∃ d, Declares index h d ∧ d.live = true := by
    refine exists_congr fun h => and_congr_right fun hh => exists_congr fun d => ?_
    exact declares_current (hhits h hh)
  have hall : (∃ h ∈ hits, ∃ d, Declares index h d) ↔ (∃ h ∈ hits, ∃ d, Declares index h d ∧ d.live = false) ∨
      ∃ h ∈ hits, ∃ d, Declares index h d ∧ d.live = true := by
    constructor
    · rintro ⟨h, hh, d, hd⟩
      cases hlive : d.live with
      | false => exact .inl ⟨h, hh, d, hd, hlive⟩
      | true => exact .inr ⟨h, hh, d, hd, hlive⟩
    · rintro (⟨h, hh, d, hd, -⟩ | ⟨h, hh, d, hd, -⟩) <;> exact ⟨h, hh, d, hd⟩
  have hlogic : ∀ gate archived live : Prop, ((gate ∧ (archived ∨ live)) ↔ gate ∧ live) ↔ (gate → archived → live) := by
    intro gate archived live
    tauto
  rw [hcurrent, hall]
  exact hlogic _ _ _

/-- The hits and the refusals are those of the index without its archived documents exactly where it is not crowded. -/
theorem crowding_iff (p : Provider) (sc : Scores) (index : RagIndex) (query : String) :
    (hybridRetrieve index sc (retrievalConfig (classifyQuery query)) =
        hybridRetrieve index.current sc (retrievalConfig (classifyQuery query)) ∧
      (RefusesForConflict p sc index query ↔ RefusesForConflict p sc index.current query)) ↔
      Uncrowded index sc (retrievalConfig (classifyQuery query)) := by
  rw [refuses_iff, refuses_iff]
  generalize retrievalConfig (classifyQuery query) = cfg
  have hindex := strict_results index sc cfg
  have hcurrent := strict_results index.current sc cfg
  have hsame : hybridRetrieve index sc cfg = hybridRetrieve index.current sc cfg ↔ _ := TopRanked.top_eq_iff hindex hcurrent
  constructor
  · rintro ⟨hhits, hrefuse⟩
    obtain ⟨hleft, hright⟩ := hsame.mp hhits
    obtain ⟨h₁, h₂⟩ := TopRanked.top_shared hindex hcurrent hleft hright
    rw [supported_eq_leading h₁, supported_eq_leading h₂] at hrefuse
    exact ⟨hleft, hright, (refusals_iff fun _ => leading_results).mp hrefuse⟩
  · intro h
    obtain ⟨h₁, h₂⟩ := TopRanked.top_shared hindex hcurrent h.listed h.unlisted
    refine ⟨hsame.mpr ⟨h.listed, h.unlisted⟩, ?_⟩
    rw [supported_eq_leading h₁, supported_eq_leading h₂]
    exact (refusals_iff fun _ => leading_results).mpr h.declared

/-! ### A crowded index -/

def crowdDoc (id : String) (status : DocumentStatus) : RagDocument := ⟨id, id, "b", "repo", .verified, status, none, []⟩

/-- Five archived documents score as high as the one that is left, and come before it. -/
def crowd : RagIndex := rebuild (["a1", "a2", "a3", "a4", "a5"].map (crowdDoc · .archived) ++ [crowdDoc "b" .draft])

theorem crowd_hides : ¬ ∀ (p : Provider) (sc : Scores) (index : RagIndex) (query : String),
    hybridRetrieve index sc (retrievalConfig (classifyQuery query)) =
        hybridRetrieve index.current sc (retrievalConfig (classifyQuery query)) ∧
      (RefusesForConflict p sc index query ↔ RefusesForConflict p sc index.current query) := by
  intro h
  have hhits := (h ⟨false, false, "", none⟩ ⟨fun _ => 1, fun _ => 1⟩ crowd "what color").1
  have hnone : hybridRetrieve crowd ⟨fun _ => 1, fun _ => 1⟩ (retrievalConfig (classifyQuery "what color")) = [] := by
    decide +kernel
  have hone : hybridRetrieve crowd.current ⟨fun _ => 1, fun _ => 1⟩ (retrievalConfig (classifyQuery "what color")) ≠ [] := by
    decide +kernel
  exact hone (hhits.symm.trans hnone)

end ContinuityLedger.Rag
