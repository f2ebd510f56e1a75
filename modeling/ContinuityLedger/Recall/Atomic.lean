import ContinuityLedger.Recall.Governed

/-! What the store makes of a governed write: the calls that do not get as far, when a write keeps the ledger legal, and a save that fails
in between. -/

namespace ContinuityLedger.Recall

open Foundations Records Ledger Evidence

variable {contentSha256 : String → String}

/-! ### The store's part -/

lemma createMemory_refused {sur : JarvisStore.Surroundings} {resolve : Resolver} {memories : List (MemoryRecord String)}
    {data : MemoryCreate} {e : StoreError} (h : JarvisStore.checkCreate sur resolve memories data = .error e) :
    JarvisStore.createMemory contentSha256 sur resolve memories data = (.error e, memories) := by
  rw [JarvisStore.createMemory, h]

lemma createMemory_passed {sur : JarvisStore.Surroundings} {resolve : Resolver} {memories : List (MemoryRecord String)}
    {data : MemoryCreate} (h : JarvisStore.checkCreate sur resolve memories data = .ok ()) :
    JarvisStore.createMemory contentSha256 sur resolve memories data =
      if sur.saves then (.ok (JarvisStore.created contentSha256 sur data),
        KeyedTable.upsert MemoryRecord.id (JarvisStore.created contentSha256 sur data) memories)
      else (.error (.unavailable "the ledger could not be saved"), KeyedTable.remove MemoryRecord.id sur.drawnId
        (KeyedTable.upsert MemoryRecord.id (JarvisStore.created contentSha256 sur data) memories)) := by
  rw [JarvisStore.createMemory, h]
  rfl

/-- Archiving is always let in. -/
lemma checkUpdate_archiving (gate : GateSettings) (resolve : Resolver) (existing : MemoryRecord String) :
    JarvisStore.checkUpdate gate resolve existing archiving = .ok () := by
  have hgate : ∃ warnings, gateUpdate gate resolve existing archiving = .ok warnings := by
    have hadmits : (admits existing archiving && (merged existing archiving).status ≠ .archived) = false := by
      simp [merged, archiving]
    have hsoft : (((archiving.content.isSome || archiving.subject.isSome) || archiving.tags.isSome) &&
        (merged existing archiving).status ≠ .archived) = false := by
      simp [archiving]
    rw [gateUpdate, hadmits, hsoft, judge]
    by_cases hoff : gate.isOff = true
    · exact ⟨[], by rw [if_pos hoff]⟩
    · refine ⟨[], ?_⟩
      rw [if_neg hoff, judgedHard, if_neg Bool.false_ne_true, judgedSoft]
      simp
      rfl
  obtain ⟨warnings, hwarnings⟩ := hgate
  rw [JarvisStore.checkUpdate, hwarnings]
  rfl

def archivedAt (now : String) (target : MemoryRecord String) : MemoryRecord String :=
  { target with status := .archived, version := target.version + 1, updatedAt := now }

lemma updated_archiving (sur : JarvisStore.Surroundings) (target : MemoryRecord String) :
    JarvisStore.updated contentSha256 sur target archiving = archivedAt sur.now target := rfl

lemma updateMemory_archiving {sur : JarvisStore.Surroundings} {resolve : Resolver} {memories : List (MemoryRecord String)}
    {id : String} {target : MemoryRecord String} (h : JarvisStore.get memories id = some target) :
    JarvisStore.updateMemory contentSha256 sur resolve memories id archiving =
      if sur.saves then (.ok (some (archivedAt sur.now target)),
        KeyedTable.replace MemoryRecord.id (archivedAt sur.now target) memories)
      else (.error (.unavailable "the ledger could not be saved"), memories) := by
  rw [JarvisStore.updateMemory, h]
  dsimp only
  rw [checkUpdate_archiving]
  rfl

/-! ### Tables -/

lemma upsert_fresh {memories : List (MemoryRecord String)} {new : MemoryRecord String} (h : new.id ∉ ids memories) :
    KeyedTable.upsert MemoryRecord.id new memories = memories ++ [new] := by
  have hrow : ¬ (KeyedTable.row MemoryRecord.id new.id memories).isSome = true := fun hs => h (KeyedTable.row_isSome.mp hs)
  rw [KeyedTable.upsert, if_neg hrow]

lemma upsert_taken {memories : List (MemoryRecord String)} {new : MemoryRecord String} (h : new.id ∈ ids memories) :
    KeyedTable.upsert MemoryRecord.id new memories = KeyedTable.replace MemoryRecord.id new memories := by
  rw [KeyedTable.upsert, if_pos (KeyedTable.row_isSome.mpr h)]

lemma length_replace (r : MemoryRecord String) (memories : List (MemoryRecord String)) :
    (KeyedTable.replace MemoryRecord.id r memories).length = memories.length := List.length_map _

/-- A record that takes the place of its equal. -/
lemma replace_eq_self {memories : List (MemoryRecord String)} {new : MemoryRecord String} :
    KeyedTable.replace MemoryRecord.id new memories = memories ↔ ∀ r ∈ memories, r.id = new.id → r = new := by
  have hmap : KeyedTable.replace MemoryRecord.id new memories = memories ↔
      ∀ r ∈ memories, (if r.id = new.id then new else r) = r := by
    rw [KeyedTable.replace]
    nth_rewrite 2 [← List.map_id memories]
    exact List.map_inj_left
  rw [hmap]
  apply forall₂_congr
  intro r _
  split_ifs with hid
  · exact ⟨fun h _ => h.symm, fun h => (h hid).symm⟩
  · exact ⟨fun _ h => absurd h hid, fun _ => rfl⟩

lemma remove_fresh {memories : List (MemoryRecord String)} {new : MemoryRecord String} (h : new.id ∉ ids memories) :
    KeyedTable.remove MemoryRecord.id new.id (KeyedTable.upsert MemoryRecord.id new memories) = memories :=
  KeyedTable.remove_upsert MemoryRecord.id (Option.not_isSome_iff_eq_none.mp fun hs => h (KeyedTable.row_isSome.mp hs))

lemma remove_taken {memories : List (MemoryRecord String)} {new : MemoryRecord String} {rows : List (MemoryRecord String)}
    (h : new.id ∈ ids memories) : KeyedTable.remove MemoryRecord.id new.id rows ≠ memories := by
  intro heq
  obtain ⟨r, hr, hid⟩ := List.mem_map.mp h
  rw [← heq] at hr
  have hne := (List.mem_filter.mp hr).2
  simp [hid] at hne

/-! ### A call that does not reach the store's tables -/

variable (contentSha256) in
/-- An answer without a change that is either a refusal or a record that says the same. -/
def Unchanged (w : GovernedWrite) (memories : List (MemoryRecord String)) : Prop :=
  (w.run contentSha256 memories).2 = memories ∧ ∀ resp, (w.run contentSha256 memories).1 = .ok resp →
    resp.accepted = true → Promised contentSha256 w.request memories memories resp

lemma Unchanged.legal {w : GovernedWrite} {memories : List (MemoryRecord String)}
    (h : Unchanged contentSha256 w memories) : Legal contentSha256 w memories where
  refused _ := h.1
  accepted resp hresp haccepted := by
    rw [h.1]
    exact h.2 resp hresp haccepted
  verified r _ := by rw [h.1]

lemma unchanged_of_refused {w : GovernedWrite} {memories : List (MemoryRecord String)}
    {out : Except StoreError EmrWriteResponse} (h : w.run contentSha256 memories = (out, memories))
    (hout : ∀ resp, out = .ok resp → resp.accepted = false) : Unchanged contentSha256 w memories := by
  refine ⟨by rw [h], fun resp hresp haccepted => ?_⟩
  rw [h] at hresp
  rw [hout resp hresp] at haccepted
  cases haccepted

/-- From a plan on, both calls go the same way up to the create. -/
lemma unchanged_of_not_admitted {w : GovernedWrite} {memories : List (MemoryRecord String)}
    (h : ∀ data, ¬ w.Admits contentSha256 memories data) : Unchanged contentSha256 w memories := by
  have hstop : ∀ raw, w.plan contentSha256 memories = .create raw →
      ∃ e, w.run contentSha256 memories = (caught w.gateway e, memories) := by
    intro raw hplan
    cases hvalid : memoryCreate w.gateway raw with
    | error e =>
      refine ⟨e, ?_⟩
      rw [GovernedWrite.plan] at hplan
      rw [GovernedWrite.run]
      cases hreq : w.request with
      | remember req =>
        rw [hreq] at hplan
        simp only [emrRemember, hplan, hvalid]
      | upsert req =>
        rw [hreq] at hplan
        simp only [emrUpsert, hplan, hvalid]
    | ok data =>
      cases hcheck : JarvisStore.checkCreate w.creating w.resolve memories data with
      | ok u => exact absurd ⟨raw, hplan, hvalid, hcheck⟩ (h data)
      | error e =>
        refine ⟨e, ?_⟩
        rw [GovernedWrite.plan] at hplan
        rw [GovernedWrite.run]
        cases hreq : w.request with
        | remember req =>
          rw [hreq] at hplan
          simp only [emrRemember, hplan, hvalid, createMemory_refused hcheck]
        | upsert req =>
          rw [hreq] at hplan
          simp only [emrUpsert, hplan, hvalid, createMemory_refused hcheck]
  cases hreq : w.request with
  | remember req =>
    rcases planRemember_cases contentSha256 w.gateway memories req w.requireWriteFlag with
      ⟨r, hplan, hr⟩ | ⟨raw, hplan, -⟩
    · have hrun : w.run contentSha256 memories = (.ok r, memories) := by
        rw [GovernedWrite.run, hreq]
        simp only [emrRemember, hplan]
      rcases hr with hr | hr
      · apply unchanged_of_refused hrun
        intro resp hresp
        rw [← Except.ok.inj hresp]
        exact hr
      · refine ⟨by rw [hrun], fun resp hresp _ => ?_⟩
        rw [hrun] at hresp
        rw [hreq, ← Except.ok.inj hresp]
        exact .inr ⟨rfl, hr⟩
    · obtain ⟨e, hrun⟩ := hstop raw (by rw [GovernedWrite.plan, hreq]; exact hplan)
      exact unchanged_of_refused hrun fun _ => caught_refuses
  | upsert req =>
    rcases planUpsert_cases contentSha256 w.gateway memories req w.requireWriteFlag with
      ⟨r, hplan, hr⟩ | ⟨raw, existing, hplan, -⟩
    · have hrun : w.run contentSha256 memories = (.ok r, memories) := by
        rw [GovernedWrite.run, hreq]
        simp only [emrUpsert, hplan]
      apply unchanged_of_refused hrun
      intro resp hresp
      rw [← Except.ok.inj hresp]
      exact hr
    · obtain ⟨e, hrun⟩ := hstop raw (by rw [GovernedWrite.plan, hreq]; exact hplan)
      exact unchanged_of_refused hrun fun _ => caught_refuses

lemma run_remember {w : GovernedWrite} {memories : List (MemoryRecord String)} {req : EmrRememberRequest} {data : MemoryCreate}
    (hreq : w.request = .remember req) (h : w.Admits contentSha256 memories data) :
    w.run contentSha256 memories =
      if w.creating.saves then (.ok (acceptedResponse (JarvisStore.created contentSha256 w.creating data) none),
        KeyedTable.upsert MemoryRecord.id (JarvisStore.created contentSha256 w.creating data) memories)
      else (.error (.unavailable "the ledger could not be saved"), KeyedTable.remove MemoryRecord.id w.creating.drawnId
        (KeyedTable.upsert MemoryRecord.id (JarvisStore.created contentSha256 w.creating data) memories)) := by
  obtain ⟨raw, hplan, hvalid, hcheck⟩ := h
  rw [GovernedWrite.plan, hreq] at hplan
  rw [GovernedWrite.run, hreq]
  simp only [emrRemember, hplan, hvalid, createMemory_passed hcheck]
  cases w.creating.saves <;> rfl

/-- The record of an admitted write says what the request says. -/
lemma created_remember {w : GovernedWrite} {memories : List (MemoryRecord String)} {req : EmrRememberRequest}
    {data : MemoryCreate} (hreq : w.request = .remember req) (h : w.Admits contentSha256 memories data) :
    data.status = .draft ∧ data.content = req.content ∧ data.subject = req.subject := by
  obtain ⟨raw, hplan, hvalid, -⟩ := h
  rw [GovernedWrite.plan, hreq] at hplan
  have hdata : data = { raw with confidence := w.gateway.roundConfidence raw.confidence } := by
    rw [memoryCreate] at hvalid
    split_ifs at hvalid
    exact (Except.ok.inj hvalid).symm
  rcases planRemember_cases contentSha256 w.gateway memories req w.requireWriteFlag with
    ⟨r, hanswer, -⟩ | ⟨raw', hcreate, hstatus, hcontent, hsubject⟩
  · cases hplan.symm.trans hanswer
  · obtain rfl := WritePlan.create.inj (hplan.symm.trans hcreate)
    rw [hdata]
    exact ⟨hstatus, hcontent, hsubject⟩

lemma claimHash_created (sur : JarvisStore.Surroundings) (data : MemoryCreate) :
    claimHash contentSha256 (JarvisStore.created contentSha256 sur data) = contentSha256 data.content := by
  rw [claimHash]
  split_ifs <;> rfl

lemma legal_remember_iff {w : GovernedWrite} {memories : List (MemoryRecord String)} {req : EmrRememberRequest}
    {data : MemoryCreate} (hreq : w.request = .remember req) (h : w.Admits contentSha256 memories data) :
    Legal contentSha256 w memories ↔ Harmless contentSha256 w memories data := by
  have hrun := run_remember hreq h
  obtain ⟨hstatus, hcontent, hsubject⟩ := created_remember hreq h
  set new := JarvisStore.created contentSha256 w.creating data with hnew
  have hid : new.id = w.creating.drawnId := rfl
  rw [← hid] at hrun
  constructor
  · intro hlegal r hr hrid
    have htaken : new.id ∈ ids memories := List.mem_map.mpr ⟨r, hr, hrid⟩
    cases hsaves : w.creating.saves with
    | false =>
      rw [hsaves, if_neg Bool.false_ne_true] at hrun
      have hafter := hlegal.refused fun resp hresp => by
        rw [hrun] at hresp
        cases hresp
      rw [hrun] at hafter
      exact absurd hafter (remove_taken htaken)
    | true =>
      rw [hsaves, if_pos rfl, upsert_taken htaken] at hrun
      have hpromised := hlegal.accepted _ (by rw [hrun]) rfl
      rw [hreq, hrun] at hpromised
      refine ⟨rfl, ?_⟩
      rcases hpromised with ⟨new', hafter, -⟩ | ⟨hafter, -⟩
      · have hlen := congrArg List.length hafter
        rw [length_replace, List.length_append] at hlen
        simp at hlen
      · exact replace_eq_self.mp hafter r hr hrid
  · intro hharmless
    by_cases htaken : new.id ∈ ids memories
    · obtain ⟨r, hr, hrid⟩ := List.mem_map.mp htaken
      obtain ⟨hsaves, rfl⟩ := hharmless r hr hrid
      have hsame : KeyedTable.upsert MemoryRecord.id new memories = memories := by
        rw [upsert_taken htaken, replace_eq_self]
        exact fun s hs hsid => (hharmless s hs hsid).2
      rw [hsaves, if_pos rfl, hsame] at hrun
      apply Unchanged.legal
      refine ⟨by rw [hrun], fun resp hresp _ => ?_⟩
      rw [hrun] at hresp
      rw [hreq, ← Except.ok.inj hresp]
      refine .inr ⟨rfl, new, hr, ?_, hsubject, ?_, rfl⟩
      · show decide (data.status ≠ .archived) = true
        rw [hstatus]
        rfl
      · rw [hnew, claimHash_created, hcontent]
    · cases hsaves : w.creating.saves with
      | false =>
        rw [hsaves, if_neg Bool.false_ne_true, remove_fresh htaken] at hrun
        apply Unchanged.legal
        apply unchanged_of_refused hrun
        intro resp hresp
        cases hresp
      | true =>
        rw [hsaves, if_pos rfl, upsert_fresh htaken] at hrun
        refine ⟨fun hall => ?_, fun resp hresp _ => ?_, fun r hr => ?_⟩
        · have hfalse := hall _ (by rw [hrun])
          cases hfalse
        · rw [hrun] at hresp ⊢
          rw [hreq, ← Except.ok.inj hresp]
          exact .inl ⟨new, rfl, htaken, hstatus, hcontent, rfl⟩
        · rw [hrun, List.mem_append, List.mem_singleton]
          refine ⟨fun hin => hin.resolve_right fun heq => ?_, .inl⟩
          have hdraft : r.status = .draft := by rw [heq]; exact hstatus
          rw [hr] at hdraft
          cases hdraft

lemma run_upsert {w : GovernedWrite} {memories : List (MemoryRecord String)} {req : EmrUpsertRequest} {data : MemoryCreate}
    (hreq : w.request = .upsert req) (h : w.Admits contentSha256 memories data)
    {target : MemoryRecord String}
    (htarget : JarvisStore.get (KeyedTable.upsert MemoryRecord.id (JarvisStore.created contentSha256 w.creating data) memories)
      req.id = some target) :
    w.run contentSha256 memories =
      if w.creating.saves then
        if w.closing.saves then (.ok (acceptedResponse (JarvisStore.created contentSha256 w.creating data) (some req.id)),
          KeyedTable.replace MemoryRecord.id (archivedAt w.closing.now target)
            (KeyedTable.upsert MemoryRecord.id (JarvisStore.created contentSha256 w.creating data) memories))
        else (.error (.unavailable "the ledger could not be saved"),
          KeyedTable.upsert MemoryRecord.id (JarvisStore.created contentSha256 w.creating data) memories)
      else (.error (.unavailable "the ledger could not be saved"), KeyedTable.remove MemoryRecord.id w.creating.drawnId
        (KeyedTable.upsert MemoryRecord.id (JarvisStore.created contentSha256 w.creating data) memories)) := by
  obtain ⟨raw, hplan, hvalid, hcheck⟩ := h
  rw [GovernedWrite.plan, hreq] at hplan
  rw [GovernedWrite.run, hreq]
  simp only [emrUpsert, hplan, hvalid, createMemory_passed hcheck]
  cases w.creating.saves with
  | false => rfl
  | true =>
    simp only [if_true, updateMemory_archiving htarget]
    cases w.closing.saves <;> rfl

lemma created_upsert {w : GovernedWrite} {memories : List (MemoryRecord String)} {req : EmrUpsertRequest}
    {data : MemoryCreate} (hreq : w.request = .upsert req) (h : w.Admits contentSha256 memories data) :
    ∃ existing, JarvisStore.get memories req.id = some existing ∧ existing.status ≠ .verified ∧ data.status = .draft ∧
      data.content = req.content ∧ data.supersedes = some req.id := by
  obtain ⟨raw, hplan, hvalid, -⟩ := h
  rw [GovernedWrite.plan, hreq] at hplan
  have hdata : data = { raw with confidence := w.gateway.roundConfidence raw.confidence } := by
    rw [memoryCreate] at hvalid
    split_ifs at hvalid
    exact (Except.ok.inj hvalid).symm
  rcases planUpsert_cases contentSha256 w.gateway memories req w.requireWriteFlag with
    ⟨r, hanswer, -⟩ | ⟨raw', existing, hcreate, hget, hverified, hstatus, hcontent, hsupersedes⟩
  · cases hplan.symm.trans hanswer
  · obtain rfl := WritePlan.create.inj (hplan.symm.trans hcreate)
    rw [hdata]
    exact ⟨existing, hget, hverified, hstatus, hcontent, hsupersedes⟩

lemma replace_append_fresh {memories : List (MemoryRecord String)} {r new : MemoryRecord String} (h : new.id ≠ r.id) :
    KeyedTable.replace MemoryRecord.id r (memories ++ [new]) = KeyedTable.replace MemoryRecord.id r memories ++ [new] := by
  rw [KeyedTable.replace, List.map_append, List.map_singleton, if_neg h]
  rfl

/-- Archiving one record keeps the verified ones, where it is not one of them. -/
lemma verified_replace {memories : List (MemoryRecord String)} (hn : (ids memories).Nodup) {existing r : MemoryRecord String}
    (hexisting : existing ∈ memories) (hverified : existing.status ≠ .verified) (now : String) (hr : r.status = .verified) :
    r ∈ KeyedTable.replace MemoryRecord.id (archivedAt now existing) memories ↔ r ∈ memories := by
  rw [KeyedTable.replace, List.mem_map]
  constructor
  · rintro ⟨m, hm, rfl⟩
    split_ifs at hr ⊢ with hid
    · cases hr
    · exact hm
  · intro hmem
    refine ⟨r, hmem, if_neg fun hid => ?_⟩
    have heq : r = existing := List.inj_on_of_nodup_map hn hmem hexisting hid
    rw [heq] at hr
    exact hverified hr

lemma upserted_of_saved {w : GovernedWrite} {memories : List (MemoryRecord String)} (hn : (ids memories).Nodup)
    {req : EmrUpsertRequest} (hreq : w.request = .upsert req) {existing new : MemoryRecord String} {now : String}
    (hget : JarvisStore.get memories req.id = some existing) (hverified : existing.status ≠ .verified)
    (hfresh : new.id ∉ ids memories) (hstatus : new.status = .draft) (hcontent : new.content = req.content)
    (hsupersedes : new.supersedes = some req.id)
    (hrun : w.run contentSha256 memories = (.ok (acceptedResponse new (some req.id)),
      KeyedTable.replace MemoryRecord.id (archivedAt now existing) memories ++ [new])) : Legal contentSha256 w memories := by
  have hexisting : existing ∈ memories := KeyedTable.row_mem hget
  refine ⟨fun hall => ?_, fun resp hresp _ => ?_, fun r hr => ?_⟩
  · have hfalse := hall _ (by rw [hrun])
    cases hfalse
  · rw [hrun] at hresp ⊢
    rw [hreq, ← Except.ok.inj hresp]
    exact ⟨existing, new, now, hexisting, KeyedTable.row_key hget, hverified, rfl, hfresh, hstatus, hcontent, hsupersedes, rfl⟩
  · rw [hrun, List.mem_append, List.mem_singleton, verified_replace hn hexisting hverified now hr]
    refine ⟨fun hin => hin.resolve_right fun heq => ?_, .inl⟩
    rw [heq, hstatus] at hr
    cases hr

lemma legal_upsert_iff {w : GovernedWrite} {memories : List (MemoryRecord String)} (hn : (ids memories).Nodup)
    {req : EmrUpsertRequest} {data : MemoryCreate} (hreq : w.request = .upsert req)
    (h : w.Admits contentSha256 memories data) :
    Legal contentSha256 w memories ↔ Harmless contentSha256 w memories data ∧
      (w.creating.saves = true → (w.closing.saves = true ↔ w.creating.drawnId ∉ ids memories)) := by
  obtain ⟨existing, hget, hverified, hstatus, hcontent, hsupersedes⟩ := created_upsert hreq h
  set new := JarvisStore.created contentSha256 w.creating data with hnew
  have hid : new.id = w.creating.drawnId := rfl
  have hrow : JarvisStore.get (KeyedTable.upsert MemoryRecord.id new memories) req.id =
      if new.id = req.id then some new else some existing := by
    rw [JarvisStore.get, KeyedTable.row_upsert, ← hget]
    rfl
  have hfound : ∃ target, JarvisStore.get (KeyedTable.upsert MemoryRecord.id new memories) req.id = some target := by
    rw [hrow]
    split_ifs <;> exact ⟨_, rfl⟩
  obtain ⟨target, htarget⟩ := hfound
  have hrun := run_upsert hreq h htarget
  rw [← hid]
  rw [← hnew, ← hid] at hrun
  have hrefused : ∀ {e : StoreError} {after : List (MemoryRecord String)}, w.run contentSha256 memories = (.error e, after) →
      Legal contentSha256 w memories → after = memories := by
    intro e after hout hlegal
    have hafter := hlegal.refused fun resp hresp => by
      rw [hout] at hresp
      cases hresp
    rwa [hout] at hafter
  cases hsaves : w.creating.saves with
  | false =>
    rw [hsaves, if_neg Bool.false_ne_true] at hrun
    constructor
    · intro hlegal
      refine ⟨fun r hr hrid => ?_, fun hfalse => by cases hfalse⟩
      exact absurd (hrefused hrun hlegal) (remove_taken (List.mem_map.mpr ⟨r, hr, hrid⟩))
    · rintro ⟨hharmless, -⟩
      have hfresh : new.id ∉ ids memories := by
        intro htaken
        obtain ⟨r, hr, hrid⟩ := List.mem_map.mp htaken
        have htrue := (hharmless r hr hrid).1
        rw [hsaves] at htrue
        cases htrue
      rw [remove_fresh hfresh] at hrun
      apply Unchanged.legal
      apply unchanged_of_refused hrun
      intro resp hresp
      cases hresp
  | true =>
    rw [hsaves, if_pos rfl] at hrun
    by_cases htaken : new.id ∈ ids memories
    · rw [upsert_taken htaken] at hrun
      constructor
      · intro hlegal
        cases hcloses : w.closing.saves with
        | true =>
          rw [hcloses, if_pos rfl] at hrun
          have hpromised := hlegal.accepted _ (by rw [hrun]) rfl
          rw [hreq, hrun] at hpromised
          obtain ⟨_, _, _, -, -, -, hafter, -⟩ := hpromised
          have hlen := congrArg List.length hafter
          rw [length_replace, length_replace, List.length_append, length_replace] at hlen
          simp at hlen
        | false =>
          rw [hcloses, if_neg Bool.false_ne_true] at hrun
          refine ⟨fun r hr hrid => ⟨hsaves, replace_eq_self.mp (hrefused hrun hlegal) r hr hrid⟩, fun _ => ?_⟩
          exact ⟨fun hfalse => absurd hfalse Bool.false_ne_true, fun hfresh => absurd htaken hfresh⟩
      · rintro ⟨hharmless, hcloses⟩
        have hcloses : w.closing.saves = false := by
          rw [Bool.eq_false_iff]
          exact fun htrue => (hcloses rfl).mp htrue htaken
        have hsame : KeyedTable.replace MemoryRecord.id new memories = memories :=
          replace_eq_self.mpr fun r hr hrid => (hharmless r hr hrid).2
        rw [hcloses, if_neg Bool.false_ne_true, hsame] at hrun
        apply Unchanged.legal
        apply unchanged_of_refused hrun
        intro resp hresp
        cases hresp
    · have hne : new.id ≠ req.id := by
        intro heq
        apply htaken
        rw [heq, ← KeyedTable.row_key hget]
        exact List.mem_map_of_mem (KeyedTable.row_mem hget)
      rw [hrow, if_neg hne] at htarget
      obtain rfl := Option.some.inj htarget
      rw [upsert_fresh htaken] at hrun
      constructor
      · intro hlegal
        refine ⟨fun r hr hrid => absurd (List.mem_map.mpr ⟨r, hr, hrid⟩) htaken, fun _ => ?_⟩
        cases hcloses : w.closing.saves with
        | true => exact ⟨fun _ => htaken, fun _ => rfl⟩
        | false =>
          rw [hcloses, if_neg Bool.false_ne_true] at hrun
          have hlen := congrArg List.length (hrefused hrun hlegal)
          simp at hlen
      · rintro ⟨-, hcloses⟩
        rw [(hcloses rfl).mpr htaken, if_pos rfl, replace_append_fresh] at hrun
        · exact upserted_of_saved hn hreq hget hverified htaken hstatus hcontent hsupersedes hrun
        · have hkey : existing.id = req.id := KeyedTable.row_key hget
          show new.id ≠ existing.id
          rw [hkey]
          exact hne

/-! ### Every call -/

/-- A store's records, each under its own id. -/
structure StoreContent where
  memories : List (MemoryRecord String)
  distinct : (ids memories).Nodup

theorem writes_legal_iff (w : GovernedWrite) (content : StoreContent) :
    Legal contentSha256 w content.memories ↔
      ∀ data, w.Admits contentSha256 content.memories data → Completes contentSha256 w content.memories data := by
  by_cases h : ∃ data, w.Admits contentSha256 content.memories data
  · obtain ⟨data, hdata⟩ := h
    have hunique : ∀ data', w.Admits contentSha256 content.memories data' → data' = data := by
      rintro data' ⟨raw', hplan', hvalid', -⟩
      obtain ⟨raw, hplan, hvalid, -⟩ := hdata
      obtain rfl := WritePlan.create.inj (hplan'.symm.trans hplan)
      exact Except.ok.inj (hvalid'.symm.trans hvalid)
    have hone : Legal contentSha256 w content.memories ↔ Completes contentSha256 w content.memories data := by
      cases hreq : w.request with
      | remember req =>
        rw [Completes, hreq]
        exact legal_remember_iff hreq hdata
      | upsert req =>
        rw [Completes, hreq]
        exact legal_upsert_iff content.distinct hreq hdata
    rw [hone]
    constructor
    · intro hcompletes data' hdata'
      rw [hunique data' hdata']
      exact hcompletes
    · intro hall
      exact hall data hdata
  · constructor
    · intro _ data hdata
      exact absurd ⟨data, hdata⟩ h
    · intro _
      exact (unchanged_of_not_admitted fun data hdata => h ⟨data, hdata⟩).legal

/-! ### A second save that fails -/

def surroundings (drawnId : String) (saves : Bool) : JarvisStore.Surroundings :=
  ⟨⟨none, none, fun _ _ _ => []⟩, drawnId, "2026-10-02T00:00:00+00:00", saves⟩

def plain : Gateway := ⟨true, none, fun _ => false, fun _ => 0, fun s => "'" ++ s ++ "'", fun d => d, fun _ => "", ""⟩

lemma ticket_length : 1 ≤ "ticket-1".length ∧ "ticket-1".length ≤ 1000 := by decide

lemma no_note : "".length ≤ 500 := by decide

def ticket : EvidenceLink := ⟨"ref", "ticket-1", "", ticket_length, no_note⟩

def friday : MemoryRecord String where
  id := "mem-1"
  content := "deploys go out on fridays"
  createdAt := "2026-10-01T00:00:00+00:00"
  updatedAt := "2026-10-01T00:00:00+00:00"
  sourceAgent := "mcp:agent"
  sessionId := "session"
  type := .decision
  confidence := ⟨8, 1⟩
  evidence := [ticket]
  supersedes := none
  status := .draft
  subject := none
  tags := []
  version := 1
  contentSha256 := "deploys go out on fridays"

def toMonday : EmrUpsertRequest where
  id := "mem-1"
  content := "deploys go out on mondays"
  supersedes := none
  sourceAgent := "agent"
  sessionId := none
  type := none
  subject := none
  tags := none
  evidence := none
  confidence := none
  userRequested := true
  userStatement := none
  status := none

/-- The record is saved, the archiving is not. -/
def halfSaved : GovernedWrite :=
  ⟨plain, surroundings "mem-2" true, surroundings "" false, fun _ => .ok none, true, .upsert toMonday⟩

def monday : MemoryRecord String :=
  { friday with
    id := "mem-2"
    content := "deploys go out on mondays"
    createdAt := "2026-10-02T00:00:00+00:00"
    updatedAt := "2026-10-02T00:00:00+00:00"
    supersedes := some "mem-1"
    contentSha256 := "deploys go out on mondays" }

lemma run_halfSaved :
    halfSaved.run id [friday] = (.error (.unavailable "the ledger could not be saved"), [friday, monday]) := by
  rfl

/-- A call that raises leaves the new draft, and two open records. -/
theorem half_upsert_remains :
    ¬ ∀ (w : GovernedWrite) (content : StoreContent), Legal id w content.memories := by
  intro h
  have hafter := (h halfSaved ⟨[friday], by decide⟩).refused fun resp hresp => by
    rw [run_halfSaved] at hresp
    cases hresp
  rw [run_halfSaved] at hafter
  exact absurd (congrArg List.length hafter) (by decide)

end ContinuityLedger.Recall
