import ContinuityLedger.Ledger.Replay

/-! What an empty result of `jarvis_verify_history` says about the live table. The passes follow chain heads to
entries and live rows to heads, but no pass follows a head to its live row. -/

namespace ContinuityLedger.Ledger

open Foundations Foundations.Sha256 Foundations.EventFold

/-- The live table is the fold of the history, compared as the database compares `jsonb`. -/
def LiveLaw (t : Tables) : Prop :=
  (∀ id e, t.latestEntry id = some e → e.op ≠ .delete →
    ∃ m, t.memory id = some m ∧ Jsonb.isDistinctFrom e.after (some (jarvisMemoryJson m)) = false) ∧
  ∀ m ∈ t.memories, ∃ e, t.latestEntry m.id = some e ∧ e.op ≠ .delete

/-- Every chain head that is not marked deleted has its row in `memories`. -/
def HeadsPresent (t : Tables) : Prop := ∀ h ∈ t.heads, h.deleted = false → (t.memory h.id).isSome

/-- No live row equals its entry's after-image in all but the digits that a number is written with. -/
def ImagesVerbatim (t : Tables) : Prop :=
  ∀ m ∈ t.memories, ∀ e ∈ headEntry t m,
    Jsonb.isDistinctFrom e.after (some (jarvisMemoryJson m)) = false →
      e.after.map Jsonb.Value.text = some (jarvisMemoryJson m).text

lemma Tables.Admitted.latestEntry_iff {t : Tables} (ha : t.Admitted) (id : String) (e : HistoryEntry) :
    t.latestEntry id = some e ↔
      (e ∈ t.history ∧ e.memoryId = id) ∧ ∀ f ∈ t.history, f.memoryId = id → f.seq ≤ e.seq := by
  have hn : ((t.chain id).map HistoryEntry.seq).Nodup :=
    ha.historySeq.sublist (List.filter_sublist.map _)
  rw [Tables.latestEntry, argmax_eq_some_iff hn]
  simp only [Tables.chain, List.mem_filter, decide_eq_true_eq, and_imp]

lemma headCheck_eq_nil {t : Tables} {h : ChainHead} (hc : headCheck t h = []) :
    ∃ e, t.entryAt h.lastSeq = some e ∧ e.memoryId = h.id ∧ (decide (e.op = .delete) = h.deleted) ∧
      ∀ f ∈ t.history, f.memoryId = h.id → f.seq ≤ e.seq := by
  unfold headCheck at hc
  cases hx : t.entryAt h.lastSeq with
  | none => simp [hx] at hc
  | some e =>
    have hseq : e.seq = h.lastSeq := KeyedTable.row_key hx
    by_cases hid : e.memoryId = h.id
    · simp only [hx, hid, ne_eq, not_true_eq_false, if_false, List.append_eq_nil_iff, ite_eq_right_iff,
        List.cons_ne_nil, imp_false, not_not, List.any_eq_true, Bool.and_eq_true, decide_eq_true_eq,
        not_exists, not_and, not_lt] at hc
      exact ⟨e, rfl, hid, hc.1.2, fun f hf hfid => hseq ▸ hc.2 f hf hfid⟩
    · simp [hx, hid] at hc

/-- What the verifier's silence says of each chain head: it names its record's latest entry. -/
lemma silent_head {t : Tables} (ha : t.Admitted) (hv : jarvisVerifyHistory t none = []) {h : ChainHead}
    (hh : h ∈ t.heads) :
    ∃ e, t.entryAt h.lastSeq = some e ∧ t.latestEntry h.id = some e ∧
      (decide (e.op = .delete) = h.deleted) := by
  simp only [jarvisVerifyHistory, List.append_eq_nil_iff] at hv
  have hc : headCheck t h = [] := by
    have hp := hv.1.1.2
    simp only [headPass, List.flatMap_eq_nil_iff] at hp
    exact hp h (List.mem_filter.mpr ⟨hh, rfl⟩)
  obtain ⟨e, he, hid, hdel, hmax⟩ := headCheck_eq_nil hc
  exact ⟨e, he, (ha.latestEntry_iff _ e).mpr ⟨⟨KeyedTable.row_mem he, hid⟩, hmax⟩, hdel⟩

lemma silent_has_head {t : Tables} (hv : jarvisVerifyHistory t none = []) {e : HistoryEntry}
    (he : e ∈ t.history) : ∃ h ∈ t.heads, h.id = e.memoryId := by
  simp only [jarvisVerifyHistory, List.append_eq_nil_iff] at hv
  have hp := hv.1.2
  simp only [headlessPass, List.map_eq_nil_iff, List.filter_eq_nil_iff, List.mem_filter,
    List.mem_dedup] at hp
  have hs := hp e.memoryId ⟨List.mem_map_of_mem he, rfl⟩
  obtain ⟨h, hh⟩ := Option.ne_none_iff_exists'.mp (by simpa using hs)
  exact ⟨h, KeyedTable.row_mem hh, KeyedTable.row_key hh⟩

/-- What it says of each live row: the latest entry is no delete and holds this very image. -/
lemma silent_live {t : Tables} (ha : t.Admitted) (hv : jarvisVerifyHistory t none = []) {m : Memory}
    (hm : m ∈ t.memories) :
    ∃ e, headEntry t m = some e ∧ t.latestEntry m.id = some e ∧ e.op ≠ .delete ∧
      Jsonb.isDistinctFrom e.after (some (jarvisMemoryJson m)) = false := by
  have hv' := hv
  simp only [jarvisVerifyHistory, List.append_eq_nil_iff] at hv'
  have hp := hv'.2
  simp only [livePass, List.map_eq_nil_iff, List.filter_eq_nil_iff, Bool.and_eq_true, not_and,
    Bool.not_eq_true] at hp
  have hd : liveDiffers t m = false := hp m hm rfl
  cases hx : t.head m.id with
  | none => simp [liveDiffers, hx] at hd
  | some h =>
    have hid : h.id = m.id := KeyedTable.row_key hx
    obtain ⟨e, he, hl, hdel⟩ := silent_head ha hv (KeyedTable.row_mem hx)
    have hentry : headEntry t m = some e := by simp [headEntry, hx, he]
    simp only [liveDiffers, hx, hentry, Bool.or_eq_false_iff] at hd
    refine ⟨e, hentry, hid ▸ hl, ?_, hd.2⟩
    simpa [hd.1] using hdel

lemma silent_counter {t : Tables} (hv : jarvisVerifyHistory t none = []) {e : HistoryEntry}
    (he : e ∈ t.history) : e.seq ≤ t.counter.getD 0 := by
  simp only [jarvisVerifyHistory, List.append_eq_nil_iff] at hv
  have hp := hv.1.1.1.2
  simp only [Option.isNone_none, if_true, sequencePass, List.append_eq_nil_iff] at hp
  have hp := hp.1
  have hseq : e.seq ∈ t.history.map HistoryEntry.seq := List.mem_map_of_mem he
  cases hmax : (t.history.map HistoryEntry.seq).max? with
  | none => simp [List.max?_eq_none_iff.mp hmax] at hseq
  | some top =>
    have htop : e.seq ≤ top := (List.max?_eq_some_iff.mp hmax).2 _ hseq
    cases hc : t.counter with
    | none => simp [hmax, hc] at hp
    | some c =>
      simp only [hmax, hc, ite_eq_right_iff, reduceCtorEq, imp_false, not_lt] at hp
      exact htop.trans hp

lemma liveMatchEntry_eq_nil {live : List (String × String)} {e : Entry} :
    liveMatchEntry live e = [] ↔
      ∃ r, KeyedTable.row Prod.fst e.memoryId live = some r ∧ some r.2 = e.afterText := by
  unfold liveMatchEntry
  cases KeyedTable.row Prod.fst e.memoryId live <;> simp

lemma liveTexts_row (t : Tables) (id : String) :
    KeyedTable.row Prod.fst id (liveTexts t) =
      (t.memory id).map fun m => (m.id, (jarvisMemoryJson m).text) := by
  rw [liveTexts, KeyedTable.row, List.find?_map]
  rfl

lemma foldState_live_mem {t : Tables} (hn : (t.history.map HistoryEntry.seq).Nodup) {atSeq : ℤ}
    (hb : ∀ e ∈ t.history, e.seq ≤ atSeq) (x : Entry) :
    x ∈ (foldState (entriesUpTo t atSeq) atSeq).live ↔
      ∃ e, t.latestEntry x.memoryId = some e ∧ e.op ≠ .delete ∧ e.toEntry = x := by
  have hrow := newestEntries_latest hn hb x.memoryId
  simp only [foldState, List.mem_filter, decide_eq_true_eq]
  constructor
  · rintro ⟨hx, hop⟩
    rw [KeyedTable.row_eq_some (newestEntries_nodup _ _) hx] at hrow
    obtain ⟨e, he, rfl⟩ := Option.map_eq_some_iff.mp hrow.symm
    exact ⟨e, he, hop, rfl⟩
  · rintro ⟨e, he, hop, rfl⟩
    rw [he, Option.map_some] at hrow
    exact ⟨KeyedTable.row_mem hrow, hop⟩

lemma extraIds_eq_nil {live : List (String × String)} {folded : Folded} :
    extraIds live folded = [] ↔ ∀ r ∈ live, ∃ e ∈ folded.live, e.memoryId = r.1 := by
  rw [extraIds, ← List.length_eq_zero_iff, List.length_mergeSort, List.length_eq_zero_iff,
    List.filter_eq_nil_iff]
  simp

/-- The other implementation at the current end of the history: records are compared by their texts. -/
lemma checkLiveMatch_eq_nil {t : Tables} (hn : (t.history.map HistoryEntry.seq).Nodup)
    (hb : ∀ e ∈ t.history, e.seq ≤ t.counter.getD 0) :
    checkLiveMatch t (t.counter.getD 0) = [] ↔
      (∀ id e, t.latestEntry id = some e → e.op ≠ .delete →
        ∃ m, t.memory id = some m ∧ some (jarvisMemoryJson m).text = e.after.map Jsonb.Value.text) ∧
      ∀ m ∈ t.memories, ∃ e, t.latestEntry m.id = some e ∧ e.op ≠ .delete := by
  have hlatest : ∀ id e, t.latestEntry id = some e → e.memoryId = id := fun id e h =>
    of_decide_eq_true (List.mem_filter.mp (List.argmax_mem h)).2
  simp only [checkLiveMatch, ne_eq, not_true_eq_false, if_false, List.append_eq_nil_iff,
    List.flatMap_eq_nil_iff, List.map_eq_nil_iff, extraIds_eq_nil, liveMatchEntry_eq_nil, liveTexts_row,
    foldState_live_mem hn hb]
  refine and_congr ⟨fun h id e he hop => ?_, ?_⟩ ⟨fun h m hm => ?_, ?_⟩
  · obtain rfl := hlatest id e he
    obtain ⟨r, hr, htext⟩ := h e.toEntry ⟨e, he, hop, rfl⟩
    obtain ⟨m, hm, rfl⟩ := Option.map_eq_some_iff.mp hr
    exact ⟨m, hm, htext⟩
  · rintro h x ⟨e, he, hop, rfl⟩
    obtain ⟨m, hm, htext⟩ := h _ e he hop
    exact ⟨_, Option.map_eq_some_iff.mpr ⟨m, hm, rfl⟩, htext⟩
  · obtain ⟨x, ⟨e, he, hop, rfl⟩, hid⟩ := h (m.id, (jarvisMemoryJson m).text) (List.mem_map_of_mem hm)
    have hid' : e.memoryId = m.id := hid
    exact ⟨e, hid' ▸ he, hop⟩
  · intro h r hr
    obtain ⟨m, hm, rfl⟩ := List.mem_map.mp hr
    obtain ⟨e, he, hop⟩ := h m hm
    have hid : e.toEntry.memoryId = m.id := hlatest m.id e he
    exact ⟨e.toEntry, ⟨e, hid ▸ he, hop, rfl⟩, hid⟩

/-- The missing pass: the verifier's silence gives the law exactly when no live row has vanished. -/
lemma silent_liveLaw_iff {t : Tables} (ha : t.Admitted) (hv : jarvisVerifyHistory t none = []) :
    LiveLaw t ↔ HeadsPresent t := by
  constructor
  · rintro ⟨hlaw, -⟩ h hh hdel
    obtain ⟨e, -, hl, hop⟩ := silent_head ha hv hh
    obtain ⟨m, hm, -⟩ := hlaw h.id e hl (by simpa [hdel] using hop)
    simp [hm]
  · refine fun hp => ⟨fun id e hl hop => ?_, fun m hm => ?_⟩
    · obtain ⟨⟨he, rfl⟩, -⟩ := (ha.latestEntry_iff id e).mp hl
      obtain ⟨h, hh, hid⟩ := silent_has_head hv he
      obtain ⟨f, -, hf, hdel⟩ := silent_head ha hv hh
      obtain rfl : f = e := Option.some.inj (hf.symm.trans (hid ▸ hl))
      obtain ⟨m, hm⟩ := Option.isSome_iff_exists.mp (hp h hh (by simpa [hop] using hdel.symm))
      have hmid : m.id = f.memoryId := (KeyedTable.row_key hm).trans hid
      obtain ⟨g, -, hg, -, hsame⟩ := silent_live ha hv (KeyedTable.row_mem hm)
      obtain rfl : g = f := Option.some.inj (hg.symm.trans (hmid ▸ hl))
      exact ⟨m, hid ▸ hm, hsame⟩
    · obtain ⟨e, -, hl, hop, -⟩ := silent_live ha hv hm
      exact ⟨e, hl, hop⟩

theorem verifyHistory_complete_iff {t : Tables} (ha : t.Admitted) (hv : jarvisVerifyHistory t none = []) :
    (LiveLaw t ∧ (checkLiveMatch t (t.counter.getD 0) = [] ↔ LiveLaw t)) ↔
      HeadsPresent t ∧ ImagesVerbatim t := by
  have hmatch := checkLiveMatch_eq_nil ha.historySeq (fun e he => silent_counter hv he)
  rw [silent_liveLaw_iff ha hv]
  constructor
  · rintro ⟨hp, hagree⟩
    refine ⟨hp, fun m hm e he _ => ?_⟩
    obtain ⟨f, hf, hl, hop, -⟩ := silent_live ha hv hm
    obtain rfl : f = e := Option.some.inj (hf.symm.trans he)
    obtain ⟨n, hn, htext⟩ := (hmatch.mp (hagree.mpr hp)).1 m.id f hl hop
    obtain rfl : m = n := Option.some.inj ((KeyedTable.row_eq_some ha.memoryKey hm).symm.trans hn)
    exact htext.symm
  · rintro ⟨hp, hi⟩
    refine ⟨hp, fun _ => hp, fun _ => hmatch.mpr ?_⟩
    obtain ⟨hlaw, hextra⟩ := (silent_liveLaw_iff ha hv).mpr hp
    refine ⟨fun id e hl hop => ?_, hextra⟩
    obtain ⟨m, hm, hsame⟩ := hlaw id e hl hop
    obtain ⟨f, hf, hg, -, -⟩ := silent_live ha hv (KeyedTable.row_mem hm)
    obtain rfl : f = e := Option.some.inj (hg.symm.trans ((KeyedTable.row_key hm).symm ▸ hl))
    exact ⟨m, hm, (hi m (KeyedTable.row_mem hm) f hf hsame).symm⟩

def note : Memory where
  tenantKey := "operator"
  id := "m1"
  version := 1
  content := "note"
  contentSha256 := genesis
  createdAt := 0
  updatedAt := 0
  sourceAgent := "chat"
  sessionId := "s1"
  type := .fact
  status := .draft
  confidence := ⟨5, 1⟩
  subject := none
  supersedes := none
  tags := []
  evidence := .array []

def chatSettings : Settings := ⟨"operator", some "chat", none, 0, id⟩

def noteEntry : HistoryEntry := capturedEntry chatSettings Tables.empty (.insert note)

/-- The tables after one insert. -/
def noted : Tables := ⟨[note], [noteEntry], [noteEntry.toHead], some 1⟩

lemma insert_note : insertRow chatSettings Tables.empty note = .ok noted := by
  have hc : note.checks = true := by decide
  simp only [insertRow, checkSupersedes, require, hc]
  rfl

lemma noted_captured : Captured noted := insertRow_captured empty_captured insert_note

lemma noted_admitted (ms : List Memory) (hm : ms = [note] ∨ ms = []) :
    ({ noted with memories := ms } : Tables).Admitted := by
  have hc : note.checks = true := by decide
  have hl := noted_captured.toLogged
  refine ⟨?_, ?_, ?_, ?_, hl.checked, hl.headKey, ?_⟩
  · rcases hm with rfl | rfl <;> simp
  · rcases hm with rfl | rfl <;> simp [hc]
  · rcases hm with rfl | rfl <;> simp [note]
  · exact List.pairwise_map.mpr (hl.pairwise.imp fun h => ne_of_lt h)
  · simp [noted]

theorem verifyHistory_complete_iff_noted :
    (LiveLaw noted ∧ (checkLiveMatch noted (noted.counter.getD 0) = [] ↔ LiveLaw noted)) ↔
      HeadsPresent noted ∧ ImagesVerbatim noted :=
  verifyHistory_complete_iff (noted_admitted [note] (.inl rfl)) (verifyHistory_silent noted_captured none)

/-- The same tables with the live row gone. -/
def vanished : Tables := { noted with memories := [] }

theorem verifyHistory_misses_vanished :
    vanished.Admitted ∧ jarvisVerifyHistory vanished none = [] ∧ ¬ LiveLaw vanished ∧
      checkLiveMatch vanished 1 =
        [⟨"live_match", "m1", "the replayed state has a record that is not in the live table"⟩] := by
  have ha : vanished.Admitted := noted_admitted [] (.inr rfl)
  have hl : Logged vanished := noted_captured.toLogged.of_memories []
  have hv : jarvisVerifyHistory vanished none = [] := by
    have hlive : livePass vanished none = [] := rfl
    simp [jarvisVerifyHistory, chainPass_silent hl, sequencePass_silent hl, headPass_silent hl,
      headlessPass_silent hl, hlive]
  refine ⟨ha, hv, fun hlaw => ?_, ?_⟩
  · have hp := (silent_liveLaw_iff ha hv).mp hlaw noteEntry.toHead (by simp [vanished, noted]) rfl
    simp [vanished, Tables.memory] at hp
  · decide +kernel

end ContinuityLedger.Ledger
