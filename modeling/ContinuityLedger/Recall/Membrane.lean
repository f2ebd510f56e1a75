import ContinuityLedger.Recall.Atomic

/-! The conflict membrane: when runs of governed writes leave no subject with two open claims. -/

namespace ContinuityLedger.Recall

open Foundations Records Ledger Evidence

variable (contentSha256 : String → String)

/-- The scan of the live records reports no set as unresolved. -/
def Quiet (memories : List (MemoryRecord String)) : Prop :=
  ∀ c ∈ detectConflicts contentSha256 (memories.filter active) none, c.unresolved = false

/-- A live record of another subject names it. -/
def Overlooked (memories : List (MemoryRecord String)) (r : MemoryRecord String) : Prop :=
  ∃ s ∈ memories, active s = true ∧ s.subject ≠ r.subject ∧ target s.supersedes = some r.id

/-- A live record that, of the live ones of its subject, the named one supersedes and no other. -/
structure Released (memories : List (MemoryRecord String)) (id : String) (p : MemoryRecord String) : Prop where
  mem : p ∈ memories
  live : active p = true
  other : p.id ≠ id
  superseded : superseded memories p = true
  only : ∀ s ∈ memories, active s = true → s.subject = p.subject → target s.supersedes = some p.id → s.id = id

namespace GovernedWrite

variable (w : GovernedWrite) (memories : List (MemoryRecord String))

def subject : Option String :=
  match w.request with
  | .remember req => req.subject
  | .upsert req => req.subject.or ((JarvisStore.get memories req.id).bind (·.subject))

def content : String :=
  match w.request with
  | .remember req => req.content
  | .upsert req => req.content

/-- The record that the call supersedes. -/
def named : Option String :=
  match w.request with
  | .remember _ => none
  | .upsert req => some req.id

/-- What a write that is let in takes for the scan to stay quiet. -/
structure Steady : Prop where
  fresh : w.creating.drawnId ∉ ids memories
  closes : w.closing.saves = true
  listed : (memories.filter active).length ≤ 9999
  overlooked : ∀ s, target (w.subject memories) = some s → ∀ r ∈ openOf memories s, w.named ≠ some r.id →
    Overlooked memories r → claimHash contentSha256 r = contentSha256 w.content
  released : ∀ id, w.named = some id → ∀ p, Released memories id p → ∀ s, target p.subject = some s →
    (∀ r ∈ openOf memories s, r.id ≠ id → claimHash contentSha256 r = claimHash contentSha256 p) ∧
      (w.subject memories = some s → claimHash contentSha256 p = contentSha256 w.content)

end GovernedWrite

/-- The records after a run of calls. -/
def recordsAfter (writes : List GovernedWrite) (memories : List (MemoryRecord String)) : List (MemoryRecord String) :=
  writes.foldl (fun records w => (w.run contentSha256 records).2) memories

variable {contentSha256}

/-! ### What the scan and the gate see -/

lemma claims_one {A B : Type} [DecidableEq B] {f : A → B} {xs : List A} :
    (xs.map f).dedup.length ≤ 1 ↔ ∀ a ∈ xs, ∀ b ∈ xs, f a = f b := by
  rw [← List.card_toFinset, Finset.card_le_one]
  simp

/-- The records that are not archived are all that an open set depends on. -/
lemma mem_openOf_live {records memories : List (MemoryRecord String)} (h : ∀ m, m ∈ records ↔ m ∈ memories ∧ active m = true)
    {s : String} {r : MemoryRecord String} : r ∈ openOf records s ↔ r ∈ openOf memories s := by
  have hsuperseded : superseded records r = superseded memories r := by
    rw [Bool.eq_iff_iff, superseded_iff, superseded_iff]
    constructor
    · rintro ⟨t, ht, hrest⟩
      exact ⟨t, ((h t).mp ht).1, hrest⟩
    · rintro ⟨t, ht, hactive, hrest⟩
      exact ⟨t, (h t).mpr ⟨ht, hactive⟩, hactive, hrest⟩
  rw [mem_openOf, mem_openOf, h, hsuperseded]
  constructor
  · rintro ⟨⟨hr, -⟩, hrest⟩
    exact ⟨hr, hrest⟩
  · rintro ⟨hr, hs, hactive, hrest⟩
    exact ⟨⟨hr, hactive⟩, hs, hactive, hrest⟩

/-- Each subject's open records make one claim. -/
lemma quiet_iff {records memories : List (MemoryRecord String)} (hn : (ids records).Nodup)
    (h : ∀ m, m ∈ records ↔ m ∈ memories ∧ active m = true) (subject : Option String) :
    (∀ c ∈ detectConflicts contentSha256 records subject, c.unresolved = false) ↔
      ∀ s, Scanned subject s → ∀ a ∈ openOf memories s, ∀ b ∈ openOf memories s,
        claimHash contentSha256 a = claimHash contentSha256 b := by
  have hone : ∀ s, (∀ a ∈ openOf memories s, ∀ b ∈ openOf memories s, claimHash contentSha256 a = claimHash contentSha256 b) ↔
      ((openOf records s).map (claimHash contentSha256)).dedup.length ≤ 1 := by
    intro s
    rw [claims_one]
    simp only [mem_openOf_live h]
  constructor
  · intro hquiet s hs
    rw [hone]
    by_contra hmany
    have htwo : 2 ≤ (openOf records s).length := by
      have hle := (List.dedup_sublist ((openOf records s).map (claimHash contentSha256))).length_le
      rw [List.length_map] at hle
      omega
    have hfalse := hquiet _ ((mem_detectConflicts contentSha256 hn).mpr ⟨s, hs, htwo, rfl⟩)
    rw [conflictSet, decide_eq_false_iff_not] at hfalse
    omega
  · intro hclaims c hc
    obtain ⟨s, hs, -, rfl⟩ := (mem_detectConflicts contentSha256 hn).mp hc
    have hle := (hone s).mp (hclaims s hs)
    rw [conflictSet, decide_eq_false_iff_not]
    omega

lemma Quiet.claims {memories : List (MemoryRecord String)} (hn : (ids memories).Nodup) :
    Quiet contentSha256 memories ↔ ∀ s, s ≠ "" → ∀ a ∈ openOf memories s, ∀ b ∈ openOf memories s,
      claimHash contentSha256 a = claimHash contentSha256 b := by
  rw [Quiet, quiet_iff (hn.sublist (List.filter_sublist.map _)) fun m => List.mem_filter]
  simp [Scanned]

/-- A listing that is not cut. -/
lemma mem_listMemories_iff {memories : List (MemoryRecord String)} {call : Listed} {n : ℕ} (hlimit : call.limit = n)
    (hfew : (memories.filter call.passes).length ≤ n) {m : MemoryRecord String} :
    m ∈ listMemories memories call ↔ m ∈ memories ∧ call.passes m = true := by
  refine ⟨mem_listMemories, fun h => ?_⟩
  rw [listMemories, slice, if_pos (by rw [hlimit]; exact Int.natCast_nonneg n), hlimit, Int.toNat_natCast,
    List.take_of_length_le (by rw [List.length_mergeSort]; exact hfew), List.mem_mergeSort]
  exact List.mem_filter.mpr h

lemma passes_subject {s : String} (hs : s ≠ "") (m : MemoryRecord String) :
    ({ cohortCall with subject := some s } : Listed).passes m = (active m && m.subject = some s) := by
  have hlower : PyText.lower "live" = "live" := by decide
  simp [Listed.passes, cohortCall, given, inScope, active, hlower, hs]

/-- The gate lets by what says the same as each open record that it is shown. -/
lemma block_none_iff {g : Gateway} {memories : List (MemoryRecord String)} (hn : (ids memories).Nodup)
    (hquiet : Quiet contentSha256 memories) (hfew : (memories.filter active).length ≤ 9999) {subject : Option String} {s : String}
    (hs : target subject = some s) {newHash : String} {supersedingIds : List String} :
    subjectConflictBlock contentSha256 g memories subject newHash supersedingIds = none ↔ ∀ r ∈ openOf memories s,
      r.id ∉ supersedingIds → ¬ Overlooked memories r → claimHash contentSha256 r = newHash := by
  have hne : s ≠ "" := by simpa using (Option.filter_eq_some_iff.mp hs).2
  have hclaims := (Quiet.claims hn).mp hquiet s hne
  have hlive : ∀ m, m ∈ listMemories memories cohortCall ↔ m ∈ memories ∧ active m = true := by
    intro m
    have hpasses : cohortCall.passes = active := funext Backend.passes_cohortCall
    rw [mem_listMemories_iff (n := 9999) rfl (by rw [hpasses]; exact hfew), hpasses]
  have hpeer : ∀ m, m ∈ listMemories memories { cohortCall with subject := some s } ↔
      m ∈ memories ∧ active m = true ∧ m.subject = some s := by
    intro m
    rw [mem_listMemories_iff (n := 9999) rfl]
    · rw [passes_subject hne, Bool.and_eq_true, decide_eq_true_eq]
    · refine le_trans (List.Sublist.length_le ?_) hfew
      refine List.monotone_filter_right memories fun m hm => ?_
      rw [passes_subject hne, Bool.and_eq_true] at hm
      exact hm.1
  have hempty : (detectConflicts contentSha256 (listMemories memories cohortCall) (some s)).filter (·.unresolved) = [] := by
    refine List.filter_eq_nil_iff.mpr fun c hc => ?_
    rw [(quiet_iff ((fileStore memories hn).listed_once cohortCall) hlive (some s)).mpr
      (fun s' hs' => (Quiet.claims hn).mp hquiet s' hs'.1) c hc]
    exact Bool.false_ne_true
  have hsuperseding : ∀ id, (id ∈ (listMemories memories cohortCall).filterMap fun m =>
      if m.status ≠ .archived then target m.supersedes else none) ↔
        ∃ t ∈ memories, active t = true ∧ target t.supersedes = some id := by
    intro id
    rw [List.mem_filterMap]
    constructor
    · rintro ⟨t, ht, htarget⟩
      obtain ⟨ht, hactive⟩ := (hlive t).mp ht
      rw [if_pos (of_decide_eq_true hactive)] at htarget
      exact ⟨t, ht, hactive, htarget⟩
    · rintro ⟨t, ht, hactive, htarget⟩
      exact ⟨t, (hlive t).mpr ⟨ht, hactive⟩, by rw [if_pos (of_decide_eq_true hactive)]; exact htarget⟩
  rw [subjectConflictBlock, hs]
  simp only [hempty, List.isEmpty_nil, if_true]
  rw [peerBlock]
  set peers := ((listMemories memories { cohortCall with subject := some s }).filter fun m =>
    m.id ∉ supersedingIds && m.status ≠ .archived).filter fun m => m.id ∉ (listMemories memories cohortCall).filterMap fun m =>
      if m.status ≠ .archived then target m.supersedes else none with hpeers
  have hin : ∀ m, m ∈ peers ↔ m ∈ openOf memories s ∧ m.id ∉ supersedingIds ∧ ¬ Overlooked memories m := by
    intro m
    simp only [hpeers, List.mem_filter, hpeer, Bool.and_eq_true, decide_eq_true_eq, hsuperseding]
    constructor
    · rintro ⟨⟨⟨hm, hactive, hsubject⟩, hnot, -⟩, hfree⟩
      refine ⟨mem_openOf.mpr ⟨hm, hsubject, hactive, ?_⟩, hnot, ?_⟩
      · rw [Bool.eq_false_iff]
        intro hsup
        obtain ⟨t, ht, htactive, -, htarget⟩ := superseded_iff.mp hsup
        exact hfree ⟨t, ht, htactive, htarget⟩
      · rintro ⟨t, ht, htactive, -, htarget⟩
        exact hfree ⟨t, ht, htactive, htarget⟩
    · rintro ⟨hopen, hnot, hshown⟩
      obtain ⟨hm, hsubject, hactive, hunnamed⟩ := mem_openOf.mp hopen
      refine ⟨⟨⟨hm, hactive, hsubject⟩, hnot, of_decide_eq_true hactive⟩, ?_⟩
      rintro ⟨t, ht, htactive, htarget⟩
      by_cases hsame : t.subject = m.subject
      · rw [superseded_iff.mpr ⟨t, ht, htactive, hsame, htarget⟩] at hunnamed
        cases hunnamed
      · exact hshown ⟨t, ht, htactive, hsame, htarget⟩
  have htold : newHash ∈ (peers.map (claimHash contentSha256)).dedup ↔ ∃ a ∈ peers, claimHash contentSha256 a = newHash := by
    rw [List.mem_dedup, List.mem_map]
  split_ifs with hblock
  · obtain ⟨hsome, hnot, -⟩ := hblock
    obtain ⟨a, ha⟩ := List.exists_mem_of_ne_nil peers hsome
    obtain ⟨hopen, hfree, hshown⟩ := (hin a).mp ha
    refine ⟨fun hfalse => hfalse.elim, fun hall => absurd (htold.mpr ⟨a, ha, hall a hopen hfree hshown⟩) hnot⟩
  · refine ⟨fun _ r hr hfree hshown => ?_, fun _ => rfl⟩
    have hr' : r ∈ peers := (hin r).mpr ⟨hr, hfree, hshown⟩
    have hmem : newHash ∈ (peers.map (claimHash contentSha256)).dedup := by
      by_contra hnot
      exact hblock ⟨List.ne_nil_of_mem hr', hnot, dedup_pos (List.ne_nil_of_mem (List.mem_map_of_mem hr'))⟩
    obtain ⟨a, ha, rfl⟩ := htold.mp hmem
    exact hclaims r hr a ((hin a).mp ha).1

/-! ### What a write that is let in leaves open -/

/-- A write that is let in has passed the gate, and its record is what the gate has judged. -/
lemma admits_passed {w : GovernedWrite} {memories : List (MemoryRecord String)} {data : MemoryCreate}
    (h : w.Admits contentSha256 memories data) :
    subjectConflictBlock contentSha256 w.gateway memories (w.subject memories) (contentSha256 w.content) w.named.toList = none ∧
      data.subject = w.subject memories ∧ data.content = w.content := by
  obtain ⟨raw, hplan, hvalid, -⟩ := h
  have hdata : data = { raw with confidence := w.gateway.roundConfidence raw.confidence } := by
    rw [memoryCreate] at hvalid
    split_ifs at hvalid
    exact (Except.ok.inj hvalid).symm
  subst hdata
  rw [GovernedWrite.plan] at hplan
  rw [GovernedWrite.subject, GovernedWrite.content, GovernedWrite.named]
  cases hreq : w.request with
  | remember req =>
    rw [hreq] at hplan
    dsimp only at hplan ⊢
    rw [planRemember] at hplan
    split at hplan
    · cases hplan
    split at hplan
    · cases hplan
    · rename_i hblock
      split at hplan
      · cases hplan
      · obtain rfl := WritePlan.create.inj hplan
        exact ⟨hblock, rfl, rfl⟩
  | upsert req =>
    rw [hreq] at hplan
    dsimp only at hplan ⊢
    rw [planUpsert] at hplan
    split at hplan
    · cases hplan
    split at hplan
    · cases hplan
    · rename_i existing hget
      split_ifs at hplan
      dsimp only at hplan
      split at hplan
      · cases hplan
      · rename_i hblock
        split_ifs at hplan
        obtain rfl := WritePlan.create.inj hplan
        rw [hget]
        exact ⟨hblock, rfl, rfl⟩

lemma admits_supersedes {w : GovernedWrite} {memories : List (MemoryRecord String)} {data : MemoryCreate} {req : EmrUpsertRequest}
    (hreq : w.request = .upsert req) (h : w.Admits contentSha256 memories data) :
    ∃ existing ∈ memories, existing.id = req.id ∧ JarvisStore.get memories req.id = some existing := by
  obtain ⟨existing, hget, -⟩ := created_upsert hreq h
  exact ⟨existing, KeyedTable.row_mem hget, KeyedTable.row_key hget, hget⟩

/-- Either the records stay as they are, or the new one is added and, by an upsert, the named one is archived. -/
lemma run_cases {w : GovernedWrite} {memories : List (MemoryRecord String)} (hadmits : ∀ data, w.Admits contentSha256 memories data →
      w.creating.drawnId ∉ ids memories ∧ w.closing.saves = true) :
    (w.run contentSha256 memories).2 = memories ∨
    ∃ data, w.Admits contentSha256 memories data ∧
      ((w.named = none ∧ (w.run contentSha256 memories).2 = memories ++ [JarvisStore.created contentSha256 w.creating data]) ∨
        ∃ existing ∈ memories, ∃ now, w.named = some existing.id ∧ (w.run contentSha256 memories).2 =
          KeyedTable.replace MemoryRecord.id (archivedAt now existing) memories ++
            [JarvisStore.created contentSha256 w.creating data]) := by
  by_cases hnone : ∀ data, ¬ w.Admits contentSha256 memories data
  · exact .inl (unchanged_of_not_admitted hnone).1
  · obtain ⟨data, hdata⟩ := not_forall_not.mp hnone
    obtain ⟨hfresh, hcloses⟩ := hadmits data hdata
    have hnew : (JarvisStore.created contentSha256 w.creating data).id ∉ ids memories := hfresh
    cases hreq : w.request with
    | remember req =>
      rw [run_remember hreq hdata]
      split_ifs
      · exact .inr ⟨data, hdata, .inl ⟨by rw [GovernedWrite.named, hreq], upsert_fresh hnew⟩⟩
      · exact .inl (remove_fresh hnew)
    | upsert req =>
      obtain ⟨existing, hmem, hkey, hget⟩ := admits_supersedes hreq hdata
      have hne : w.creating.drawnId ≠ req.id := fun heq => hfresh (List.mem_map.mpr ⟨existing, hmem, hkey.trans heq.symm⟩)
      have htarget : JarvisStore.get (KeyedTable.upsert MemoryRecord.id (JarvisStore.created contentSha256 w.creating data) memories)
          req.id = some existing := by
        rw [JarvisStore.get, KeyedTable.row_upsert, ← hget]
        exact if_neg hne
      rw [run_upsert hreq hdata htarget, hcloses, if_pos rfl]
      split_ifs
      · refine .inr ⟨data, hdata, .inr ⟨existing, hmem, w.closing.now, by rw [GovernedWrite.named, hreq, hkey], ?_⟩⟩
        rw [upsert_fresh hnew]
        apply replace_append_fresh
        show w.creating.drawnId ≠ existing.id
        rwa [hkey]
      · exact .inl (remove_fresh hnew)

lemma superseded_grows {memories after : List (MemoryRecord String)} (h : ∀ m ∈ memories, m ∈ after) {r : MemoryRecord String}
    (hr : superseded after r = false) : superseded memories r = false := by
  rw [Bool.eq_false_iff] at hr ⊢
  intro hsup
  obtain ⟨t, ht, hrest⟩ := superseded_iff.mp hsup
  exact hr (superseded_iff.mpr ⟨t, h t ht, hrest⟩)

lemma open_added {memories : List (MemoryRecord String)} {new r : MemoryRecord String} {s : String}
    (h : r ∈ openOf (memories ++ [new]) s) : (r = new ∧ new.subject = some s) ∨ r ∈ openOf memories s := by
  obtain ⟨hr, hsubject, hactive, hopen⟩ := mem_openOf.mp h
  rcases List.mem_append.mp hr with hr | hr
  · exact .inr (mem_openOf.mpr ⟨hr, hsubject, hactive, superseded_grows (fun m hm => List.mem_append_left _ hm) hopen⟩)
  · obtain rfl := List.mem_singleton.mp hr
    exact .inl ⟨rfl, hsubject⟩

/-- Archiving opens again what the archived record alone supersedes. -/
lemma open_archived {memories : List (MemoryRecord String)} {existing r : MemoryRecord String} {now s : String}
    (h : r ∈ openOf (KeyedTable.replace MemoryRecord.id (archivedAt now existing) memories) s) :
    (r ∈ openOf memories s ∧ r.id ≠ existing.id) ∨ (Released memories existing.id r ∧ r.subject = some s) := by
  obtain ⟨hr, hsubject, hactive, hopen⟩ := mem_openOf.mp h
  have hkept : ∀ m ∈ memories, m.id ≠ existing.id → m ∈ KeyedTable.replace MemoryRecord.id (archivedAt now existing) memories := by
    intro m hm hne
    exact List.mem_map.mpr ⟨m, hm, if_neg hne⟩
  obtain ⟨m, hm, hmr⟩ := List.mem_map.mp hr
  split_ifs at hmr with hid
  · subst hmr
    cases hactive
  · subst hmr
    cases hsup : superseded memories m with
    | false => exact .inl ⟨mem_openOf.mpr ⟨hm, hsubject, hactive, hsup⟩, hid⟩
    | true =>
      refine .inr ⟨⟨hm, hactive, hid, hsup, fun t ht htactive htsubject htarget => ?_⟩, hsubject⟩
      by_contra hne
      rw [superseded_iff.mpr ⟨t, hkept t ht hne, htactive, htsubject, htarget⟩] at hopen
      cases hopen

/-- Where the records change, what is open is the new one, what was open and is not archived, and what is released. -/
lemma run_opens {w : GovernedWrite} {memories : List (MemoryRecord String)} (hadmits : ∀ data, w.Admits contentSha256 memories data →
      w.creating.drawnId ∉ ids memories ∧ w.closing.saves = true) :
    (w.run contentSha256 memories).2 = memories ∨
    ∃ data, w.Admits contentSha256 memories data ∧ ∀ s, ∀ r ∈ openOf (w.run contentSha256 memories).2 s,
      (r = JarvisStore.created contentSha256 w.creating data ∧ data.subject = some s) ∨
        (r ∈ openOf memories s ∧ w.named ≠ some r.id) ∨
          ∃ id, w.named = some id ∧ Released memories id r ∧ r.subject = some s := by
  rcases run_cases hadmits with hsame | ⟨data, hdata, ⟨hnamed, hrun⟩ | ⟨existing, -, now, hnamed, hrun⟩⟩
  · exact .inl hsame
  · refine .inr ⟨data, hdata, fun s r hr => ?_⟩
    rw [hrun] at hr
    rcases open_added hr with hnew | hold
    · exact .inl hnew
    · exact .inr (.inl ⟨hold, by rw [hnamed]; exact (Option.some_ne_none _).symm⟩)
  · refine .inr ⟨data, hdata, fun s r hr => ?_⟩
    rw [hrun] at hr
    rcases open_added hr with hnew | hold
    · exact .inl hnew
    · rcases open_archived hold with ⟨hold, hne⟩ | hreleased
      · refine .inr (.inl ⟨hold, fun heq => hne ?_⟩)
        rw [hnamed] at heq
        exact (Option.some.inj heq).symm
      · exact .inr (.inr ⟨existing.id, hnamed, hreleased⟩)

lemma distinct_concat {memories : List (MemoryRecord String)} {new : MemoryRecord String} (hn : (ids memories).Nodup)
    (h : new.id ∉ ids memories) : (ids (memories ++ [new])).Nodup :=
  KeyedTable.nodup_append_singleton _ hn (Option.not_isSome_iff_eq_none.mp fun hs => h (KeyedTable.row_isSome.mp hs))

lemma run_distinct {w : GovernedWrite} {memories : List (MemoryRecord String)} (hn : (ids memories).Nodup)
    (hadmits : ∀ data, w.Admits contentSha256 memories data → w.creating.drawnId ∉ ids memories ∧ w.closing.saves = true) :
    (ids (w.run contentSha256 memories).2).Nodup := by
  rcases run_cases hadmits with hsame | ⟨data, hdata, ⟨-, hrun⟩ | ⟨existing, -, now, -, hrun⟩⟩
  · rwa [hsame]
  · rw [hrun]
    exact distinct_concat hn (hadmits data hdata).1
  · have hkeys : ids (KeyedTable.replace MemoryRecord.id (archivedAt now existing) memories) = ids memories :=
      KeyedTable.keys_replace _ _ _
    rw [hrun]
    apply distinct_concat
    · rwa [hkeys]
    · rw [hkeys]
      exact (hadmits data hdata).1

/-! ### Steady runs -/

/-- One record supersedes one other. -/
lemma Released.unique {memories : List (MemoryRecord String)} (hn : (ids memories).Nodup) {id : String}
    {p q : MemoryRecord String} (hp : Released memories id p) (hq : Released memories id q) : p = q := by
  obtain ⟨t, ht, htactive, htsubject, htarget⟩ := superseded_iff.mp hp.superseded
  obtain ⟨u, hu, huactive, husubject, hutarget⟩ := superseded_iff.mp hq.superseded
  have hid : t.id = u.id :=
    (hp.only t ht htactive htsubject htarget).trans (hq.only u hu huactive husubject hutarget).symm
  obtain rfl : t = u := List.inj_on_of_nodup_map hn ht hu hid
  exact List.inj_on_of_nodup_map hn hp.mem hq.mem (Option.some.inj (htarget.symm.trans hutarget))

lemma quiet_step {w : GovernedWrite} {memories : List (MemoryRecord String)} (hn : (ids memories).Nodup)
    (hquiet : Quiet contentSha256 memories)
    (hsteady : ∀ data, w.Admits contentSha256 memories data → w.Steady contentSha256 memories) :
    Quiet contentSha256 (w.run contentSha256 memories).2 := by
  have hadmits := fun data hdata => And.intro (hsteady data hdata).fresh (hsteady data hdata).closes
  rcases run_opens hadmits with hsame | ⟨data, hdata, hopens⟩
  · rwa [hsame]
  have h := hsteady data hdata
  obtain ⟨hblock, hsubject, hcontent⟩ := admits_passed hdata
  rw [Quiet.claims (run_distinct hn hadmits)]
  intro s hs
  have hclaims := (Quiet.claims hn).mp hquiet s hs
  by_cases hmine : w.subject memories = some s
  · -- all that is open here says what the new record says
    have htarget : target (w.subject memories) = some s := by
      rw [hmine]
      exact Option.filter_eq_some_iff.mpr ⟨rfl, by simpa using hs⟩
    have htold : ∀ r ∈ openOf (w.run contentSha256 memories).2 s, claimHash contentSha256 r = contentSha256 w.content := by
      intro r hr
      rcases hopens s r hr with ⟨rfl, -⟩ | ⟨hold, hne⟩ | ⟨id, hnamed, hreleased, hr⟩
      · rw [claimHash_created, hcontent]
      · by_cases hover : Overlooked memories r
        · exact h.overlooked s htarget r hold hne hover
        · exact (block_none_iff hn hquiet h.listed htarget).mp hblock r hold (by simpa using hne) hover
      · refine (h.released id hnamed r hreleased s ?_).2 hmine
        rw [hr]
        exact hmine ▸ htarget
    intro a ha b hb
    rw [htold a ha, htold b hb]
  · have hopens : ∀ r ∈ openOf (w.run contentSha256 memories).2 s, (r ∈ openOf memories s ∧ w.named ≠ some r.id) ∨
        ∃ id, w.named = some id ∧ Released memories id r ∧ r.subject = some s := by
      intro r hr
      refine (hopens s r hr).resolve_left fun hnew => hmine ?_
      rw [← hsubject]
      exact hnew.2
    have hreleased : ∀ id, w.named = some id → ∀ p, Released memories id p → p.subject = some s → ∀ r ∈ openOf memories s,
        w.named ≠ some r.id → claimHash contentSha256 r = claimHash contentSha256 p := by
      intro id hnamed p hp hps r hr hne
      have htarget : target p.subject = some s := by
        rw [hps]
        exact Option.filter_eq_some_iff.mpr ⟨rfl, by simpa using hs⟩
      refine (h.released id hnamed p hp s htarget).1 r hr fun heq => hne ?_
      rw [hnamed, heq]
    intro a ha b hb
    rcases hopens a ha with ⟨ha, hane⟩ | ⟨id, hnamed, hpa, hpas⟩
    · rcases hopens b hb with ⟨hb, -⟩ | ⟨id, hnamed, hpb, hpbs⟩
      · exact hclaims a ha b hb
      · exact hreleased id hnamed b hpb hpbs a ha hane
    · rcases hopens b hb with ⟨hb, hbne⟩ | ⟨id', hnamed', hpb, -⟩
      · exact (hreleased id hnamed a hpa hpas b hb hbne).symm
      · obtain rfl := Option.some.inj (hnamed.symm.trans hnamed')
        rw [hpa.unique hn hpb]

variable (contentSha256) in
/-- Each call of the run that is let in is steady where it comes. -/
def SteadyRun (writes : List GovernedWrite) (memories : List (MemoryRecord String)) : Prop :=
  ∀ earlier w later, writes = earlier ++ w :: later → ∀ data, w.Admits contentSha256 (recordsAfter contentSha256 earlier memories) data →
    w.Steady contentSha256 (recordsAfter contentSha256 earlier memories)

theorem quiet_in_steady_runs {content : StoreContent} {writes : List GovernedWrite} (hquiet : Quiet contentSha256 content.memories)
    (hsteady : SteadyRun contentSha256 writes content.memories) {earlier later : List GovernedWrite}
    (h : writes = earlier ++ later) : Quiet contentSha256 (recordsAfter contentSha256 earlier content.memories) := by
  have hboth : (ids (recordsAfter contentSha256 earlier content.memories)).Nodup ∧
      Quiet contentSha256 (recordsAfter contentSha256 earlier content.memories) := by
    induction earlier using List.reverseRecOn generalizing later with
    | nil => exact ⟨content.distinct, hquiet⟩
    | append_singleton earlier w ih =>
      rw [List.append_assoc, List.singleton_append] at h
      obtain ⟨hn, hq⟩ := ih h
      have hw := hsteady earlier w later h
      rw [recordsAfter, List.foldl_concat]
      exact ⟨run_distinct hn fun data hdata => ⟨(hw data hdata).fresh, (hw data hdata).closes⟩, quiet_step hn hq hw⟩
  exact hboth.2

/-- Where no record names another, there is nothing to overlook or to release. -/
lemma steady_of_unnamed {w : GovernedWrite} {memories : List (MemoryRecord String)} (hfresh : w.creating.drawnId ∉ ids memories)
    (hcloses : w.closing.saves = true) (hlisted : (memories.filter active).length ≤ 9999)
    (hunnamed : ∀ t ∈ memories, target t.supersedes = none) : w.Steady contentSha256 memories := by
  have hnone : ∀ t ∈ memories, ∀ id, target t.supersedes ≠ some id := by
    intro t ht id htarget
    rw [hunnamed t ht] at htarget
    cases htarget
  refine ⟨hfresh, hcloses, hlisted, fun s _ r _ _ hover => ?_, fun id _ p hp => ?_⟩
  · obtain ⟨t, ht, -, -, htarget⟩ := hover
    exact absurd htarget (hnone t ht _)
  · obtain ⟨t, ht, -, -, htarget⟩ := superseded_iff.mp hp.superseded
    exact absurd htarget (hnone t ht _)

/-! ### A steady run, and what goes wrong elsewhere -/

/-- `content_sha256`. -/
def contentHash (text : String) : String := (Sha256.sha256Hex (normalizeContent text)).text

lemma fridays_ne_mondays : contentHash "deploys go out on fridays" ≠ contentHash "deploys go out on mondays" := by decide +kernel

def fridays : MemoryRecord String :=
  { friday with subject := some "deploys", contentSha256 := contentHash "deploys go out on fridays" }

/-- A record of another subject that names the one on deploys. -/
def nightly : MemoryRecord String :=
  { friday with
    id := "mem-3"
    content := "backups run every night"
    subject := some "backups"
    supersedes := some "mem-1"
    contentSha256 := contentHash "backups run every night" }

def onMondays : EmrRememberRequest where
  content := "deploys go out on mondays"
  sourceAgent := "agent"
  sessionId := "session"
  type := .decision
  subject := some "deploys"
  tags := []
  evidence := [ticket]
  confidence := ⟨8, 1⟩
  userRequested := true
  userStatement := none
  status := none

def sayMondays : GovernedWrite :=
  ⟨plain, surroundings "mem-2" true, surroundings "" true, fun _ => .ok none, true, .remember onMondays⟩

def mondays : MemoryRecord String :=
  { monday with supersedes := none, subject := some "deploys", contentSha256 := contentHash "deploys go out on mondays" }

/-- One record of each subject. -/
lemma quiet_of_subjects {memories : List (MemoryRecord String)} (hn : (ids memories).Nodup)
    (h : (memories.map (·.subject)).Nodup) : Quiet contentSha256 memories := by
  rw [Quiet.claims hn]
  intro s _ a ha b hb
  obtain ⟨ha, has, -⟩ := mem_openOf.mp ha
  obtain ⟨hb, hbs, -⟩ := mem_openOf.mp hb
  rw [List.inj_on_of_nodup_map h ha hb (has.trans hbs.symm)]

def toMondays : EmrUpsertRequest := { toMonday with id := "mem-1", subject := some "deploys" }

def moveToMondays : GovernedWrite :=
  ⟨plain, surroundings "mem-2" true, surroundings "" true, fun _ => .ok none, true, .upsert toMondays⟩

lemma one_distinct : (ids [fridays]).Nodup := by decide

theorem quiet_in_steady_runs_mondays : Quiet contentHash (recordsAfter contentHash [moveToMondays] [fridays]) := by
  refine @quiet_in_steady_runs contentHash ⟨[fridays], one_distinct⟩ _ (quiet_of_subjects one_distinct (by decide))
    (fun earlier w later hsplit _ _ => ?_) _ [] (List.append_nil _).symm
  rcases List.singleton_eq_append_iff.mp hsplit with ⟨rfl, hw⟩ | ⟨-, hnil⟩
  · obtain ⟨rfl, -⟩ := List.cons.inj hw
    refine steady_of_unnamed (by decide) rfl (by decide) fun t ht => ?_
    obtain rfl := List.mem_singleton.mp ht
    rfl
  · cases hnil

/-- The gate leaves the claim on deploys out, as a record on backups names it; the scan does not. -/
theorem overlooked_claim : Quiet contentHash [fridays, nightly] ∧
    sayMondays.run contentHash [fridays, nightly] = (.ok (acceptedResponse mondays none), [fridays, nightly, mondays]) ∧
      ¬ Quiet contentHash [fridays, nightly, mondays] := by
  have hn : (ids [fridays, nightly]).Nodup := by decide
  have hquiet : Quiet contentHash [fridays, nightly] := quiet_of_subjects hn (by decide)
  have honly : ∀ m ∈ [fridays, nightly], m.subject = some "deploys" → m = fridays := by
    intro m hm hsubject
    rcases List.mem_pair.mp hm with rfl | rfl
    · rfl
    · exact absurd hsubject (by decide)
  refine ⟨hquiet, ?_, ?_⟩
  · have hgate : gateCommon plain true "deploys go out on mondays" none true = none := by decide
    have hblock : subjectConflictBlock contentHash plain [fridays, nightly] (some "deploys")
        (contentHash "deploys go out on mondays") [] = none := by
      rw [block_none_iff hn hquiet (by decide) (s := "deploys") (by decide)]
      intro r hr _ hshown
      obtain ⟨hr, hsubject, -⟩ := mem_openOf.mp hr
      obtain rfl := honly r hr hsubject
      exact absurd ⟨nightly, List.mem_pair.mpr (.inr rfl), by decide, by decide, by decide⟩ hshown
    have hsame : sameClaim contentHash [fridays, nightly] (some "deploys") (contentHash "deploys go out on mondays") = none := by
      rw [Option.eq_none_iff_forall_ne_some]
      intro e he
      obtain ⟨hmem, -, hsubject, hclaim⟩ := sameClaim_spec he
      obtain rfl := honly e hmem hsubject
      exact fridays_ne_mondays hclaim
    show emrRemember contentHash plain (surroundings "mem-2" true) (fun _ => .ok none) [fridays, nightly] onMondays true = _
    rw [emrRemember, planRemember]
    simp only [onMondays, hgate, hblock, hsame]
    rfl
  · rw [Quiet.claims (by decide)]
    intro hclaims
    have hopen : fridays ∈ openOf [fridays, nightly, mondays] "deploys" ∧ mondays ∈ openOf [fridays, nightly, mondays] "deploys" :=
      ⟨mem_openOf.mpr ⟨by simp, rfl, rfl, by decide⟩, mem_openOf.mpr ⟨by simp, rfl, rfl, by decide⟩⟩
    exact fridays_ne_mondays (hclaims "deploys" (by decide) fridays hopen.1 mondays hopen.2)

def thursdays : MemoryRecord String :=
  { fridays with
    id := "mem-3"
    content := "deploys go out on thursdays"
    supersedes := some "mem-1"
    contentSha256 := contentHash "deploys go out on thursdays" }

def correctThursdays : GovernedWrite :=
  ⟨plain, surroundings "mem-2" true, surroundings "" true, fun _ => .ok none, true,
    .upsert { toMondays with id := "mem-3" }⟩

def mondaysInstead : MemoryRecord String := { mondays with supersedes := some "mem-3" }

def thursdaysArchived : MemoryRecord String := archivedAt "2026-10-02T00:00:00+00:00" thursdays

/-- The archived record no longer supersedes the one before it. -/
theorem released_claim : Quiet contentHash [fridays, thursdays] ∧
    correctThursdays.run contentHash [fridays, thursdays] =
      (.ok (acceptedResponse mondaysInstead (some "mem-3")), [fridays, thursdaysArchived, mondaysInstead]) ∧
      ¬ Quiet contentHash [fridays, thursdaysArchived, mondaysInstead] := by
  have hn : (ids [fridays, thursdays]).Nodup := by decide
  have honly : ∀ s, ∀ m ∈ openOf [fridays, thursdays] s, m = thursdays := by
    intro s m hm
    obtain ⟨hm, -, -, hopen⟩ := mem_openOf.mp hm
    rcases List.mem_pair.mp hm with rfl | rfl
    · exact absurd hopen (by decide)
    · rfl
  have hquiet : Quiet contentHash [fridays, thursdays] := by
    rw [Quiet.claims hn]
    intro s _ a ha b hb
    rw [honly s a ha, honly s b hb]
  refine ⟨hquiet, ?_, ?_⟩
  · have hgate : gateCommon plain true "deploys go out on mondays" none true = none := by decide
    have hblock : subjectConflictBlock contentHash plain [fridays, thursdays] (some "deploys")
        (contentHash "deploys go out on mondays") ["mem-3"] = none := by
      rw [block_none_iff hn hquiet (by decide) (s := "deploys") (by decide)]
      intro r hr hother _
      obtain rfl := honly _ r hr
      exact absurd (List.mem_singleton.mpr rfl) hother
    have hget : JarvisStore.get [fridays, thursdays] "mem-3" = some thursdays := rfl
    show emrUpsert contentHash plain (surroundings "mem-2" true) (surroundings _ true) (fun _ => .ok none)
      [fridays, thursdays] { toMondays with id := "mem-3" } true = _
    rw [emrUpsert, planUpsert]
    simp only [toMondays, toMonday, hgate, hget]
    rw [if_neg (by decide)]
    simp only [Option.any_none, Bool.false_eq_true, if_false, Option.some_or, hblock]
    rfl
  · rw [Quiet.claims (by decide)]
    intro hclaims
    have hopen : fridays ∈ openOf [fridays, thursdaysArchived, mondaysInstead] "deploys" ∧
        mondaysInstead ∈ openOf [fridays, thursdaysArchived, mondaysInstead] "deploys" :=
      ⟨mem_openOf.mpr ⟨by simp, rfl, rfl, by decide⟩, mem_openOf.mpr ⟨by simp, rfl, rfl, by decide⟩⟩
    exact fridays_ne_mondays (hclaims "deploys" (by decide) fridays hopen.1 mondaysInstead hopen.2)

end ContinuityLedger.Recall
