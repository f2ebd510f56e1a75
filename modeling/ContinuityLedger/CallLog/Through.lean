import ContinuityLedger.CallLog.Retention

/-! An append goes through where its fields can be written and the last lines fit the window, and one that raises has written
nothing. -/

namespace ContinuityLedger.CallLog

open Foundations Foundations.Sha256 Foundations.Codec Foundations.Calendar Foundations.Json HashChain Rotation

variable {rt : Runtime} {cfg : Config} {disk : Disk} {now now' : Instant} {s : Held rt cfg}

/-! ### What is written -/

lemma canonical_through {j : Json} (hprint : printable j = true) (hdepth : depth j ≤ rt.python.dumpsNesting)
    (hplain : plain j = true) : ∃ bytes, rt.canonical j = .ok bytes := by
  obtain ⟨bytes, hbytes⟩ := Option.isSome_iff_exists.mp ((encoded_isSome rt.python j).mpr ⟨hprint, hdepth, hplain⟩)
  refine ⟨bytes, ?_⟩
  unfold encoded at hbytes
  unfold Runtime.canonical
  cases htext : dumps rt.python j with
  | error e =>
    rw [htext] at hbytes
    cases hbytes
  | ok text =>
    rw [htext] at hbytes
    dsimp only at hbytes ⊢
    rw [hbytes]
    rfl

/-- What can be written under its name. -/
def Writable (p : String × Json) : Prop := flat p.2 = true ∧ printable p.2 = true ∧ plain p.2 = true

lemma keyed_through (rt : Runtime) {pairs : List (String × Json)} (h : ∀ p ∈ pairs, Writable p) : ∃ bytes, rt.canonical (.obj (keyed pairs)) = .ok bytes := by
  apply canonical_through
  · rw [printable, printableMembers_eq, List.all_eq_true]
    exact List.forall_mem_map.mpr fun p hp => (h p hp).2.1
  · rw [depth_keyed fun p hp => (h p hp).1]
    exact rt.python.dumps_pos
  · rw [plain, plainMembers_eq, List.all_eq_true]
    refine List.forall_mem_map.mpr fun p hp => ?_
    rw [PyStr.scalars_ofString, (h p hp).2.2]
    rfl

lemma drop_unhashed (fields : EntryFields) (chain : Chain) :
    drop (keyed (unhashed cfg fields chain now)) "entry_hash" = keyed (unhashed cfg fields chain now) := by
  refine List.filter_eq_self.mpr fun m hm => ?_
  obtain ⟨p, hp, rfl⟩ := List.mem_map.mp hm
  have hname : p.1 ≠ "entry_hash" := by
    intro hname
    have hown : "entry_hash" ∉ ["seq", "ts", "prev_hash"] ++ fieldNames := by decide
    refine hown (hname ▸ ?_)
    simp only [unhashed, List.mem_cons] at hp
    rcases hp with rfl | rfl | rfl | hp
    · exact List.mem_append_left _ (by simp)
    · exact List.mem_append_left _ (by simp)
    · exact List.mem_append_left _ (by simp)
    · exact List.mem_append_right _ (fields.named (List.mem_map_of_mem hp))
  simpa [ofString_inj] using hname

lemma flat_unhashed (fields : EntryFields) (chain : Chain) : ∀ p ∈ unhashed cfg fields chain now, flat p.2 = true := by
  intro p hp
  simp only [unhashed, List.mem_cons] at hp
  rcases hp with rfl | rfl | rfl | hp
  · rfl
  · rfl
  · rfl
  · exact fields.flat p hp

lemma hash_through (rt : Runtime) {fields : EntryFields} {chain : Chain} (h : ∀ p ∈ unhashed cfg fields chain now, Writable p) :
    ∃ hash, rt.entryHashOf (keyed (unhashed cfg fields chain now)) = .ok hash := by
  obtain ⟨bytes, hbytes⟩ := keyed_through rt h
  exact ⟨hexdigest bytes, by rw [Runtime.entryHashOf, drop_unhashed, hbytes]; rfl⟩

lemma hashed_through (rt : Runtime) {pairs : List (String × Json)} (h : ∀ p ∈ pairs, Writable p) (hash : Hex64) :
    ∃ bytes, rt.canonical (.obj (hashed pairs hash)) = .ok bytes := by
  refine keyed_through rt (List.forall_mem_append.mpr ⟨h, ?_⟩)
  rintro p hp
  obtain rfl := List.mem_singleton.mp hp
  exact ⟨rfl, rfl, PyStr.scalars_ofString _⟩

lemma writable_unhashed {fields : EntryFields} {chain : Chain} {hash : Hex64}
    (h : rt.entryHashOf (keyed (unhashed cfg fields chain now)) = .ok hash) : ∀ p ∈ unhashed cfg fields chain now, Writable p := by
  rw [Runtime.entryHashOf, drop_unhashed] at h
  obtain ⟨bytes, hbytes, -⟩ := Checks.map_ok h
  obtain ⟨hprint, -, hencode⟩ := canonical_ok hbytes
  have hplain : plain (.obj (keyed (unhashed cfg fields chain now))) = true := by
    rw [← scalars_text, text_eq, ← PyStr.encode_isSome_eq, hencode]
    rfl
  rw [printable, printableMembers_eq, List.all_eq_true] at hprint
  rw [plain, plainMembers_eq, List.all_eq_true] at hplain
  intro p hp
  have hmem : (PyStr.ofString p.1, p.2) ∈ keyed (unhashed cfg fields chain now) :=
    List.mem_map_of_mem (f := fun p : String × Json => (PyStr.ofString p.1, p.2)) hp
  exact ⟨flat_unhashed fields chain p hp, hprint _ hmem, ((Bool.and_eq_true _ _).mp (hplain _ hmem)).2⟩

/-- What has a hash has a line: an append that raises does so before its first write. -/
lemma appendLocked_error {fields : EntryFields} {chain : Chain} {e : Raised}
    (h : rt.appendLocked cfg disk fields chain now = .error e) :
    rt.entryHashOf (keyed (unhashed cfg fields chain now)) = .error e ∨ rt.rotate cfg disk now = .error e := by
  unfold Runtime.appendLocked at h
  cases hhash : rt.entryHashOf (keyed (unhashed cfg fields chain now)) with
  | error e' =>
    simp only [hhash, bind, Except.bind] at h
    obtain rfl := Except.error.inj h
    exact Or.inl rfl
  | ok hash =>
    obtain ⟨line, hline⟩ := hashed_through rt (writable_unhashed hhash) hash
    cases hrotate : rt.rotate cfg disk now with
    | error e' =>
      simp only [hhash, hrotate, bind, Except.bind] at h
      obtain rfl := Except.error.inj h
      exact Or.inr rfl
    | ok rotated =>
      simp only [hhash, hrotate, hline, bind, Except.bind] at h
      cases h

/-! ### What goes through -/

lemma anchorOf_through (l : Line rt cfg) {t : Instant} (ht : Clocked cfg t) {file : String} (hfile : Data.Printable file.toList) :
    ∃ raw, rt.anchorOf cfg t file l.chars = .ok raw := by
  have hseq : printable (.int l.next.seq) = true := (writable_unhashed l.hash_eq ("seq", .int (l.chain.seq + 1)) List.mem_cons_self).2.1
  have hprint : printable (.obj (keyed (anchorPairs cfg t l.next file))) = true := by
    rw [printable, printableMembers_eq, List.all_eq_true]
    refine List.forall_mem_map.mpr fun p hp => ?_
    simp only [anchorPairs, List.mem_cons, List.not_mem_nil, or_false] at hp
    rcases hp with rfl | rfl | rfl | rfl
    · exact hseq
    · rfl
    · rfl
    · rfl
  have hdepth : ¬ rt.python.dumpsNesting < depth (.obj (keyed (anchorPairs cfg t l.next file))) := by
    rw [depth_keyed (flat_anchorPairs _ _)]
    exact not_lt_of_ge rt.python.dumps_pos
  have hplain := plain_anchor ht l hfile
  have hsome : (PyStr.encode (rendered [.scalar ' '] (.obj (keyed (anchorPairs cfg t l.next file))))).isSome = true := by
    refine PyStr.encode_isSome.mpr fun n hn => ?_
    obtain ⟨c, hc, -⟩ := hplain _ hn
    cases hc
  obtain ⟨raw, hraw⟩ := Option.isSome_iff_exists.mp hsome
  refine ⟨raw, ?_⟩
  have hdumps : rt.dumpsDefault (.obj (keyed (anchorPairs cfg t l.next file))) =
      .ok (rendered [.scalar ' '] (.obj (keyed (anchorPairs cfg t l.next file)))) := by
    rw [Runtime.dumpsDefault, hprint, if_neg (by decide), if_neg hdepth, asciiEscape_plain hplain]
  simp only [Runtime.anchorOf, l.loads_chars, l.subscript_seq, l.subscript_hash, bind, Except.bind]
  change (rt.dumpsDefault (.obj (keyed (anchorPairs cfg t l.next file))) >>= fun text => (PyStr.encode text).elim (.error .value) .ok) = _
  rw [hdumps]
  change (PyStr.encode _).elim _ _ = _
  rw [hraw]
  rfl

/-- The last line of every file fits the window. -/
def Fits (s : Held rt cfg) : Prop := ∀ m ∈ s.all, ∀ l ∈ m.2.getLast?, l.bytes.length < tailWindow

lemma Holds.stages_through (h : Holds disk now s) (hfits : Fits s) (hnow : Clocked cfg now') {cutoff : String}
    (hcutoff : cfg.cutoff now' = .ok cutoff) : ∃ stages, rt.rotateStages cfg disk now' = .ok stages := by
  unfold Runtime.rotateStages
  obtain ⟨old, young, hall, hfilter, -, -⟩ := h.cut cutoff
  simp only [hcutoff, hfilter, bind, Except.bind, filesOf_eq_nil]
  split_ifs with hnone
  · exact ⟨_, rfl⟩
  · obtain ⟨init, name, ls, l, rfl⟩ := Filled.cases (fun hnil => hnone (Or.inl hnil))
      fun m hm => h.sound.filled m (hall ▸ List.mem_append_left _ hm)
    have hmem : (name, ls ++ [l]) ∈ s.all := by rw [hall]; simp
    have hlast : rt.lastOf (filesOf (init ++ [(name, ls ++ [l])])).reverse = .ok (some l.chars) := by
      rw [filesOf_append, List.reverse_append]
      change rt.lastOf ((name, fileOf (ls ++ [l])) :: (filesOf init).reverse) = _
      rw [Runtime.lastOf, lastLine_fits ls (hfits _ hmem l (by simp))]
    obtain ⟨t, ht, -, hname⟩ := h.named _ hmem
    have hprint : Data.Printable name.toList := by
      rw [show name = fileName cfg t from hname]
      exact printable_fileName ht
    have hold : ((filesOf (init ++ [(name, ls ++ [l])])).getLast?.map Prod.fst).getD "" = name := by
      rw [filesOf_append]
      change ((filesOf init ++ [(name, fileOf (ls ++ [l]))]).getLast?.map Prod.fst).getD "" = name
      rw [List.getLast?_concat]
      rfl
    obtain ⟨raw, hraw⟩ := anchorOf_through l hnow hprint
    simp only [hlast, hold, hraw, Functor.map, Except.map]
    exact ⟨_, rfl⟩

lemma Holds.head_through (h : Holds disk now s) (hfits : Fits s) : ∃ head, rt.head disk = .ok head := by
  rw [Runtime.head, h.daily]
  by_cases hall : s.all = []
  · rw [hall, (h.nothing hall).1]
    exact ⟨_, rfl⟩
  · obtain ⟨init, name, ls, l, hinit⟩ := Filled.cases hall h.sound.filled
    obtain ⟨head, hhead, -⟩ := entryHead_line name l
    refine ⟨head, ?_⟩
    rw [hinit, filesOf_append, List.reverse_append]
    change rt.headIn disk.anchor ((name, fileOf (ls ++ [l])) :: (filesOf init).reverse) = _
    rw [Runtime.headIn, lastLine_fits ls (hfits (name, ls ++ [l]) (by rw [hinit]; simp) l (by simp))]
    exact hhead

lemma Sane.chain_through {log : Log} (h : Sane log now s) (hfits : Fits s) : rt.chainOf log = .ok (s.last Line.next) := by
  unfold Runtime.chainOf
  cases hheld : log.held with
  | some c =>
    rw [h.held c hheld]
  | none =>
    obtain ⟨head, hhead⟩ := h.holds.head_through hfits
    rw [hhead, ← h.holds.head hhead]
    rfl

/-- The next append goes through, also behind a crash, where the last lines fit the window and the entry can be written. -/
lemma Sane.append_through {log : Log} (h : Sane log now s) (hfits : Fits s) (hnow : Clocked cfg now') {cutoff : String}
    (hcutoff : cfg.cutoff now' = .ok cutoff) {fields : EntryFields}
    (hfields : ∀ p ∈ unhashed cfg fields (s.last Line.next) now', Writable p) :
    ∃ r, rt.append cfg log fields now' = .ok r := by
  have hchain := h.chain_through hfits
  obtain ⟨stages, hstages⟩ := h.holds.stages_through hfits hnow hcutoff
  have hlast := rt.rotateStages_last cfg log.disk now'
  rw [hstages] at hlast
  obtain ⟨rotated, hrotate, -⟩ := Checks.map_ok hlast.symm
  obtain ⟨hash, hhash⟩ := hash_through rt hfields
  obtain ⟨line, hline⟩ := hashed_through rt hfields hash
  simp only [Runtime.append, Runtime.appendLocked, hchain, hhash, hrotate, hline, bind, Except.bind]
  exact ⟨_, rfl⟩

end ContinuityLedger.CallLog
