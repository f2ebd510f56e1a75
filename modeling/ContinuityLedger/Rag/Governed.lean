import Mathlib.Algebra.Order.BigOperators.Group.List
import ContinuityLedger.Foundations.Delimited
import ContinuityLedger.Rag.Answer
import ContinuityLedger.Rag.Hits

/-! The markers of an extractive answer are those of its quotes, each quote by itself; what an answer owes to its evidence, and
when the answers that are given do. -/

namespace ContinuityLedger.Rag

open Foundations

/-- An opening bracket forgets what was opened before it. -/
lemma markersFrom_open (opened : Option (List Char)) (cs ds : List Char) :
    markersFrom opened (cs ++ '[' :: ds) = markersFrom opened cs ++ markersFrom (some []) ds := by
  induction cs generalizing opened with
  | nil => rfl
  | cons c cs ih =>
    rw [List.cons_append, markersFrom, markersFrom]
    split_ifs
    · exact ih _
    · rw [ih, List.append_assoc]
    · exact ih _

/-- A closing bracket leaves nothing open. -/
lemma markersFrom_close (opened : Option (List Char)) (cs ds : List Char) :
    markersFrom opened (cs ++ ']' :: ds) = markersFrom opened (cs ++ [']']) ++ markersFrom none ds := by
  induction cs generalizing opened with
  | nil =>
    simp [markersFrom]
  | cons c cs ih =>
    rw [List.cons_append, List.cons_append, markersFrom, markersFrom]
    split_ifs
    · exact ih _
    · rw [ih, List.append_assoc]
    · exact ih _

/-- Outside brackets a text without them says nothing. -/
lemma markersFrom_plain {cs : List Char} (h : '[' ∉ cs) (ds : List Char) :
    markersFrom none (cs ++ ds) = markersFrom none ds := by
  induction cs with
  | nil => rfl
  | cons c cs ih =>
    rw [List.mem_cons, not_or] at h
    rw [List.cons_append, markersFrom, if_neg fun hc => h.1 hc.symm]
    split_ifs
    · exact ih h.2
    · exact ih h.2

lemma markersFrom_blank (opened : Option (List Char)) (cs : List Char) :
    markersFrom opened (cs ++ [' ']) = markersFrom opened cs := by
  induction cs generalizing opened with
  | nil => rfl
  | cons c cs ih =>
    rw [List.cons_append, markersFrom, markersFrom]
    split_ifs
    · exact ih _
    · rw [ih]
    · exact ih _

/-- What the brackets around an id enclose. -/
def Quote.marker (q : Quote) : List (List Char) := markersFrom (some []) (q.id.toList ++ [']'])

lemma markers_cited (q : Quote) (rest : List Char) :
    markersFrom none (q.cited.toList ++ rest) = markersFrom none q.text.toList ++ q.marker ++ markersFrom none rest := by
  have htext : q.cited.toList ++ rest = (q.text.toList ++ [' ']) ++ '[' :: (q.id.toList ++ ']' :: rest) := by
    simp [Quote.cited, String.toList_append]
  rw [htext, markersFrom_open, markersFrom_blank, markersFrom_close, Quote.marker, List.append_assoc]

lemma markers_joined (quotes : List Quote) :
    markersFrom none ([' '].intercalate (quotes.map fun q => q.cited.toList)) =
      quotes.flatMap fun q => markersFrom none q.text.toList ++ q.marker := by
  induction quotes with
  | nil => rfl
  | cons q quotes ih =>
    rw [List.flatMap_cons, ← ih, List.map_cons]
    by_cases hq : quotes = []
    · subst hq
      have hone := markers_cited q []
      rw [List.append_nil] at hone
      simpa [markersFrom] using hone
    · rw [List.intercalate_cons_of_ne_nil (by simpa using hq), List.append_assoc, markers_cited]
      rfl

/-- Every marker of an extractive answer stands in a sentence that is quoted or around the id it is quoted by. -/
lemma markers_extractive (query : String) (index : RagIndex) {usedIds : List String} (h : usedIds ≠ []) :
    markers (extractiveAnswer query index usedIds) =
      (picks query index usedIds).flatMap fun q => markers q.text ++ q.marker.map String.ofList := by
  have htext : (extractiveAnswer query index usedIds).toList = "Based on retrieved documents: ".toList ++
      [' '].intercalate ((picks query index usedIds).map fun q => q.cited.toList) := by
    rw [extractiveAnswer, if_neg h, String.toList_append, String.toList_intercalate, List.map_map]
    rfl
  have hplain : '[' ∉ "Based on retrieved documents: ".toList := by decide
  rw [markers, htext, markersFrom_plain hplain, markers_joined, List.map_flatMap]
  simp only [List.map_append, markers]

open Foundations Recall

/-! ### The context -/

section

variable {index : RagIndex} {maxTokens : ℕ}

lemma admit_sublist (hits : List Hit) (used : ℕ) : (admitHits index maxTokens hits used).Sublist hits := by
  induction hits generalizing used with
  | nil => exact List.Sublist.slnil
  | cons h hits ih =>
    rw [admitHits]
    split_ifs
    · exact (ih used).cons h
    · exact (ih _).cons_cons h

lemma admit_sum {hits : List Hit} {used : ℕ} (hused : used ≤ maxTokens) :
    used + ((admitHits index maxTokens hits used).map (cost index)).sum ≤ maxTokens := by
  induction hits generalizing used with
  | nil => simpa [admitHits] using hused
  | cons h hits ih =>
    rw [admitHits]
    split_ifs with hfull
    · exact ih hused
    · have hrest := ih (not_lt.mp hfull)
      rw [List.map_cons, List.sum_cons]
      omega

/-- The best hit that fits by itself finds its place, or a better one does. -/
lemma admit_support {hits : List Hit} (hsorted : hits.Pairwise outranks) {support : ℚ} :
    (∃ h ∈ admitHits index maxTokens hits 0, support ≤ h.final) ↔ ∃ h ∈ hits, support ≤ h.final ∧ cost index h ≤ maxTokens := by
  constructor
  · rintro ⟨h, hh, hfinal⟩
    have hsum : 0 + ((admitHits index maxTokens hits 0).map (cost index)).sum ≤ maxTokens := admit_sum (Nat.zero_le maxTokens)
    have hone := List.single_le_sum (fun _ _ => Nat.zero_le _) _ (List.mem_map_of_mem (f := cost index) hh)
    exact ⟨h, (admit_sublist hits 0).mem hh, hfinal, by omega⟩
  · rintro ⟨h, hh, hfinal, hcost⟩
    induction hits with
    | nil => exact absurd hh List.not_mem_nil
    | cons g hits ih =>
      obtain ⟨hbefore, hrest⟩ := List.pairwise_cons.mp hsorted
      rw [admitHits]
      split_ifs with hfull
      · refine ih hrest ((List.mem_cons.mp hh).resolve_left ?_)
        rintro rfl
        omega
      · refine ⟨g, List.mem_cons_self, ?_⟩
        rcases List.mem_cons.mp hh with rfl | hh
        · exact hfinal
        · rcases hbefore h hh with hlt | ⟨heq, -⟩
          · exact hfinal.trans hlt.le
          · exact heq ▸ hfinal

/-- The hits with an admitted id are the admitted hits. -/
lemma filter_admitted {used hits : List Hit} (hsub : used.Sublist hits) (hids : (hits.map Hit.id).Nodup) :
    (hits.filter fun h => (used.map Hit.id).contains h.id) = used := by
  induction hsub with
  | slnil => rfl
  | @cons used hits g hsub ih =>
    obtain ⟨hg, hrest⟩ := List.nodup_cons.mp hids
    have hout : (used.map Hit.id).contains g.id = false := by
      simpa using fun (h : Hit) hh (he : h.id = g.id) => hg (he ▸ List.mem_map_of_mem (hsub.mem hh))
    rw [List.filter_cons, hout]
    exact ih hrest
  | @cons_cons used hits g hsub ih =>
    obtain ⟨hg, hrest⟩ := List.nodup_cons.mp hids
    have hkeep : ((g :: used).map Hit.id).contains g.id = true := by simp
    rw [List.filter_cons, hkeep, if_pos rfl]
    conv_rhs => rw [← ih hrest]
    refine congrArg _ (List.filter_congr fun h hh => ?_)
    have hne : h.id ≠ g.id := fun he => hg (he ▸ List.mem_map_of_mem hh)
    simp [hne]

end

/-! ### Answers -/

section

variable (sc : Scores) (work : RagIndex) (query : String)

/-- The hits that a query finds with support, and those of them that are admitted. -/
def found : List Hit := supported work sc (retrievalConfig (classifyQuery query))

def admitted : List Hit := admitHits work (generationConfig (classifyQuery query)).maxContextTokens (found sc work query) 0

/-- What an answered query owes: live hits, enough support, a context within the budget, citations of used documents, and no
conflict that one of two live documents declares with the other. -/
structure Governed (r : EvidenceRecord) : Prop where
  hits : ∀ h ∈ r.docsUsed, h ∈ hybridRetrieve work sc (retrievalConfig (classifyQuery query)) ∧
    ∃ d, work.doc h.id = some d ∧ d.live = true
  support : ∃ h ∈ r.docsUsed, (retrievalConfig (classifyQuery query)).minSupport ≤ h.final
  budget : (r.docsUsed.map (cost work)).sum ≤ (generationConfig (classifyQuery query)).maxContextTokens
  cited : markers r.answer ≠ [] ∧ ∀ m ∈ markers r.answer, m ∈ r.docsUsed.map Hit.id
  unconflicted : ∀ h ∈ r.docsUsed, ∀ doc, work.doc h.id = some doc → ∀ d ∈ work.docs, d.live = true → d.id ≠ h.id →
    d.id ∉ doc.conflictIds ∧ h.id ∉ d.conflictIds

/-- In the sentences that are quoted and around the ids they are quoted by, brackets enclose ids of admitted documents, and
some do. -/
structure QuotesCite : Prop where
  texts : ∀ q ∈ picks query work ((admitted sc work query).map Hit.id), ∀ m ∈ markers q.text,
    m ∈ (admitted sc work query).map Hit.id
  ids : ∀ q ∈ picks query work ((admitted sc work query).map Hit.id), ∀ m ∈ q.marker,
    String.ofList m ∈ (admitted sc work query).map Hit.id
  cites : ∃ q ∈ picks query work ((admitted sc work query).map Hit.id), markers q.text ≠ [] ∨ q.marker ≠ []

/-- A hit with enough support fits into the budget by itself; the provider's text is taken, or the quotes cite; and no live
document that is no hit declares a conflict with an admitted one. -/
structure Sound (p : Provider) : Prop where
  fits : ∃ h ∈ found sc work query, (retrievalConfig (classifyQuery query)).minSupport ≤ h.final ∧
    cost work h ≤ (generationConfig (classifyQuery query)).maxContextTokens
  cites : (∃ g, llmGenerate p ((admitted sc work query).map Hit.id) = .ok (some g)) ∨ QuotesCite sc work query
  undeclared : ∀ d ∈ work.docs, d.live = true → d.id ∉ (found sc work query).map Hit.id →
    ∀ h ∈ admitted sc work query, h.id ∉ d.conflictIds

end

section

variable {p : Provider} {sc : Scores} {work : RagIndex} {query : String} {r : EvidenceRecord}

lemma answered_cases (h : answerOn p sc work query = .ok r) (hs : r.status = .answered) :
    conflictsForHits work (found sc work query) = [] ∧ (admitted sc work query).map Hit.id ≠ [] ∧
      r.docsUsed = admitted sc work query ∧ ∃ generated, llmGenerate p ((admitted sc work query).map Hit.id) = .ok generated ∧
        r.answer = (generated.map Prod.fst).getD (extractiveAnswer query work ((admitted sc work query).map Hit.id)) := by
  have hids := ids_supported work sc (retrievalConfig (classifyQuery query))
  unfold answerOn at h
  by_cases hchat : classifyQuery query = .chatty
  · rw [if_pos hchat] at h
    obtain rfl := Except.ok.inj h
    exact absurd hs (by simp)
  · simp only [if_neg hchat] at h
    unfold admitted found
    generalize supported work sc (retrievalConfig (classifyQuery query)) = hits at h hids ⊢
    generalize retrievalConfig (classifyQuery query) = cfg at h
    generalize (generationConfig (classifyQuery query)).maxContextTokens = maxTokens at h ⊢
    split_ifs at h with hgate hconf hused
    · obtain rfl := Except.ok.inj h
      exact absurd hs (by simp)
    · obtain rfl := Except.ok.inj h
      exact absurd hs (by simp)
    · obtain rfl := Except.ok.inj h
      exact absurd hs (by simp)
    · have hfilter := filter_admitted (admit_sublist hits 0 : (admitHits work maxTokens hits 0).Sublist hits) hids
      simp only [buildContext] at h hused
      rw [hfilter] at h
      cases hgen : llmGenerate p ((admitHits work maxTokens hits 0).map Hit.id) with
      | error e =>
        rw [hgen] at h
        exact absurd h (by simp [bind, Except.bind])
      | ok generated =>
        rw [hgen] at h
        obtain rfl := Except.ok.inj h
        refine ⟨by simpa using hconf, hused, rfl, generated, rfl, ?_⟩
        cases generated <;> rfl

/-! ### Clauses -/

lemma markers_accepted {content answer : String} {allowed : List String} (h : accepted content allowed = some answer) :
    markers answer ≠ [] ∧ ∀ m ∈ markers answer, m ∈ allowed := by
  simp only [accepted] at h
  split_ifs at h with hcontract
  obtain rfl := Option.some.inj h
  rw [Bool.and_eq_true, Bool.and_eq_true] at hcontract
  obtain ⟨⟨-, hsome⟩, hall⟩ := hcontract
  refine ⟨by simpa using hsome, fun m hm => ?_⟩
  simpa using List.all_eq_true.mp hall m hm

/-- What the provider's text is taken for: markers, and of admitted documents only. -/
lemma markers_generated {allowed : List String} {g : String × String} (h : llmGenerate p allowed = .ok (some g)) :
    markers g.1 ≠ [] ∧ ∀ m ∈ markers g.1, m ∈ allowed := by
  unfold llmGenerate at h
  by_cases hoff : (!p.url || allowed.isEmpty) = true
  · rw [if_pos hoff] at h
    exact absurd (Except.ok.inj h) (by simp)
  · rw [if_neg hoff] at h
    split at h
    · rename_i generated hgenerated
      obtain rfl := Option.some.inj (Except.ok.inj h)
      obtain ⟨reply, -, hreply⟩ := Option.bind_eq_some_iff.mp hgenerated
      obtain ⟨answer, hanswer, rfl⟩ := Option.map_eq_some_iff.mp hreply
      exact markers_accepted hanswer
    · cases hrequired : p.required <;> simp [hrequired] at h

lemma cited_iff (hused : (admitted sc work query).map Hit.id ≠ []) :
    (markers (extractiveAnswer query work ((admitted sc work query).map Hit.id)) ≠ [] ∧
      ∀ m ∈ markers (extractiveAnswer query work ((admitted sc work query).map Hit.id)),
        m ∈ (admitted sc work query).map Hit.id) ↔ QuotesCite sc work query := by
  rw [markers_extractive query work hused]
  constructor
  · rintro ⟨hne, hall⟩
    refine ⟨fun q hq m hm => ?_, fun q hq m hm => ?_, ?_⟩
    · exact hall m (List.mem_flatMap.mpr ⟨q, hq, List.mem_append_left _ hm⟩)
    · exact hall _ (List.mem_flatMap.mpr ⟨q, hq, List.mem_append_right _ (List.mem_map_of_mem hm)⟩)
    · obtain ⟨m, hm⟩ := List.exists_mem_of_ne_nil _ hne
      obtain ⟨q, hq, hm⟩ := List.mem_flatMap.mp hm
      rcases List.mem_append.mp hm with hm | hm
      · exact ⟨q, hq, .inl (List.ne_nil_of_mem hm)⟩
      · obtain ⟨cs, hcs, -⟩ := List.mem_map.mp hm
        exact ⟨q, hq, .inr (List.ne_nil_of_mem hcs)⟩
  · rintro ⟨htexts, hids, q, hq, hsome⟩
    constructor
    · rcases hsome with hsome | hsome
      · obtain ⟨m, hm⟩ := List.exists_mem_of_ne_nil _ hsome
        exact List.ne_nil_of_mem (List.mem_flatMap.mpr ⟨q, hq, List.mem_append_left _ hm⟩)
      · obtain ⟨m, hm⟩ := List.exists_mem_of_ne_nil _ hsome
        exact List.ne_nil_of_mem (List.mem_flatMap.mpr ⟨q, hq, List.mem_append_right _ (List.mem_map_of_mem hm)⟩)
    · intro m hm
      obtain ⟨q, hq, hm⟩ := List.mem_flatMap.mp hm
      rcases List.mem_append.mp hm with hm | hm
      · exact htexts q hq m hm
      · obtain ⟨cs, hcs, rfl⟩ := List.mem_map.mp hm
        exact hids q hq cs hcs

lemma admitted_found {h : Hit} (hh : h ∈ admitted sc work query) : h ∈ found sc work query := (admit_sublist _ 0).mem hh

/-- No hit declares a conflict, so that one is left only to a document that is no hit. -/
lemma unconflicted_iff (hnone : conflictsForHits work (found sc work query) = []) :
    (∀ h ∈ admitted sc work query, ∀ doc, work.doc h.id = some doc → ∀ d ∈ work.docs, d.live = true → d.id ≠ h.id →
      d.id ∉ doc.conflictIds ∧ h.id ∉ d.conflictIds) ↔
    ∀ d ∈ work.docs, d.live = true → d.id ∉ (found sc work query).map Hit.id → ∀ h ∈ admitted sc work query,
      h.id ∉ d.conflictIds := by
  have hdeclares : ∀ h ∈ found sc work query, ∀ d, ¬ Declares work h d :=
    fun h hh d hd => conflicts_iff.mpr ⟨h, hh, d, hd⟩ hnone
  constructor
  · intro hall d hd hlive hout h hh
    obtain ⟨doc, hdoc, -⟩ := doc_of_result (supported_results (admitted_found hh)).2
    refine (hall h hh doc hdoc d hd hlive fun he => hout ?_).2
    exact he ▸ List.mem_map_of_mem (admitted_found hh)
  · intro hundeclared h hh doc hdoc d hd hlive hne
    refine ⟨fun hin => hdeclares h (admitted_found hh) d ⟨hd, hne, doc, hdoc, hin⟩, fun hin => ?_⟩
    by_cases hhit : d.id ∈ (found sc work query).map Hit.id
    · obtain ⟨g, hg, hid⟩ := List.mem_map.mp hhit
      obtain ⟨hmem, hdocid⟩ := doc_some hdoc
      refine hdeclares g hg doc ⟨hmem, ?_, d, ?_, ?_⟩
      · rw [hid, hdocid]
        exact hne.symm
      · rw [hid]
        exact doc_of_mem hd
      · rw [hdocid]
        exact hin
    · exact hundeclared d hd hlive hhit h hh hin

/-- An answer is governed exactly where what it rests on is sound. -/
theorem governed_iff (p : Provider) (persists : Bool) (sc : Scores) (index : RagIndex) (extraDocs : List RagDocument)
    (query : String) (r : EvidenceRecord) (h : answerQuery p persists sc index extraDocs query = .ok r)
    (hs : r.status = .answered) :
    Governed sc (workIndex index extraDocs) query r ↔ Sound sc (workIndex index extraDocs) query p := by
  have hanswer : answerOn p sc (workIndex index extraDocs) query = .ok r := by
    unfold answerQuery at h
    cases hon : answerOn p sc (workIndex index extraDocs) query with
    | error e =>
      rw [hon] at h
      exact absurd h (by simp [bind, Except.bind])
    | ok record =>
      rw [hon] at h
      cases persists with
      | false => exact absurd h (by simp [bind, Except.bind, throw, throwThe, MonadExceptOf.throw])
      | true => exact h
  generalize workIndex index extraDocs = work at hanswer ⊢
  obtain ⟨hnone, hused, hdocs, generated, hgen, htext⟩ := answered_cases hanswer hs
  have hsupport : (∃ h ∈ admitted sc work query, (retrievalConfig (classifyQuery query)).minSupport ≤ h.final) ↔ _ :=
    admit_support (sorted_supported work sc (retrievalConfig (classifyQuery query)))
  have hcited : (markers r.answer ≠ [] ∧ ∀ m ∈ markers r.answer, m ∈ r.docsUsed.map Hit.id) ↔
      (∃ g, llmGenerate p ((admitted sc work query).map Hit.id) = .ok (some g)) ∨ QuotesCite sc work query := by
    rw [htext, hdocs, hgen]
    cases generated with
    | none =>
      rw [← cited_iff hused]
      simp
    | some g => exact iff_of_true (markers_generated hgen) (.inl ⟨g, rfl⟩)
  constructor
  · intro hgov
    refine ⟨hsupport.mp (hdocs ▸ hgov.support), hcited.mp hgov.cited, ?_⟩
    exact (unconflicted_iff hnone).mp (hdocs ▸ hgov.unconflicted)
  · intro hsound
    refine ⟨fun g hg => ?_, ?_, ?_, hcited.mpr hsound.cites, ?_⟩
    · have hfound := admitted_found (hdocs ▸ hg)
      exact ⟨(supported_results hfound).1, doc_of_result (supported_results hfound).2⟩
    · exact hdocs ▸ hsupport.mpr hsound.fits
    · rw [hdocs]
      have hsum : 0 + ((admitted sc work query).map (cost work)).sum ≤ _ := admit_sum (Nat.zero_le _)
      rwa [Nat.zero_add] at hsum
    · rw [hdocs]
      exact (unconflicted_iff hnone).mpr hsound.undeclared

end

/-! ### Two documents -/

def sky (body : String) : RagDocument := ⟨"d", "sky", body, "repo", .verified, .verified, none, []⟩

def extractiveOnly : Provider := ⟨false, false, "extractive-v0", none⟩

theorem governed_sky : ∃ r, answerQuery extractiveOnly true ⟨fun _ => 1, fun _ => 1⟩ (rebuild [sky "Blue."]) [] "what color" = .ok r ∧
    Governed ⟨fun _ => 1, fun _ => 1⟩ (workIndex (rebuild [sky "Blue."]) []) "what color" r := by
  have hstatus : (answerQuery extractiveOnly true ⟨fun _ => 1, fun _ => 1⟩ (rebuild [sky "Blue."]) [] "what color").toOption.map
      (·.status) = some .answered := by decide +kernel
  cases h : answerQuery extractiveOnly true ⟨fun _ => 1, fun _ => 1⟩ (rebuild [sky "Blue."]) [] "what color" with
  | error e =>
    rw [h] at hstatus
    exact absurd hstatus (by simp [Except.toOption])
  | ok r =>
    rw [h] at hstatus
    refine ⟨r, rfl, (governed_iff _ _ _ _ _ _ r h (Option.some.inj hstatus)).mpr ⟨?_, .inr ⟨?_, ?_, ?_⟩, ?_⟩⟩
    · decide +kernel
    · decide +kernel
    · decide +kernel
    · decide +kernel
    · decide +kernel

/-- The brackets of a document's own text become markers of the answer. -/
theorem foreign_marker : ¬ ∀ (p : Provider) (persists : Bool) (sc : Scores) (index : RagIndex) (extraDocs : List RagDocument)
    (query : String) (r : EvidenceRecord), answerQuery p persists sc index extraDocs query = .ok r → r.status = .answered →
      Governed sc (workIndex index extraDocs) query r := by
  intro hall
  have hbad : (answerQuery extractiveOnly true ⟨fun _ => 1, fun _ => 1⟩ (rebuild [sky "See [x]."]) [] "what color").toOption.any
      (fun r => r.status == .answered && (markers r.answer).contains "x" && !(r.docsUsed.map Hit.id).contains "x") = true := by
    decide +kernel
  cases h : answerQuery extractiveOnly true ⟨fun _ => 1, fun _ => 1⟩ (rebuild [sky "See [x]."]) [] "what color" with
  | error e =>
    rw [h] at hbad
    exact absurd hbad (by simp [Except.toOption])
  | ok r =>
    rw [h] at hbad
    obtain ⟨⟨hstatus, hmarker⟩, hout⟩ : (r.status = .answered ∧ "x" ∈ markers r.answer) ∧ "x" ∉ r.docsUsed.map Hit.id := by
      simpa [Except.toOption] using hbad
    exact hout ((hall _ _ _ _ _ _ r h hstatus).cited.2 "x" hmarker)

end ContinuityLedger.Rag
