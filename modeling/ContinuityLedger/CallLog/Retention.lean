import ContinuityLedger.CallLog.Retained

/-! What a run of appends and crashes leaves: `verify` reports ok behind an append, unless it finds a retention interrupted and
drops nothing itself; and no file inside the window is lost. -/

namespace ContinuityLedger.CallLog

open Foundations Foundations.Sha256 Foundations.Codec Foundations.Calendar HashChain Rotation

variable {rt : Runtime} {cfg : Config} {disk : Disk} {now now' : Instant} {s : Held rt cfg}

/-! ### `verify` -/

/-- `verify` reports ok, with this head. -/
def Verified (rt : Runtime) (disk : Disk) (chain : Chain) : Prop :=
  ∃ report, rt.verify disk = .ok report ∧ report.ok = true ∧ report.head = chain

/-- The file that the anchor names is still there. -/
def Interrupted (rt : Runtime) (disk : Disk) : Prop :=
  ∃ a, rt.loadsFile disk.anchor = some (.ok a) ∧ ∃ f ∈ disk.daily, subscript a "file" = .ok (.str (PyStr.ofString f.1))

lemma Holds.interrupted_iff (h : Holds disk now s) : Interrupted rt disk ↔ s.left ≠ [] := by
  have hanchored := h.anchored
  unfold Anchored at hanchored
  unfold Interrupted
  rw [h.daily]
  cases hraw : disk.anchor with
  | none =>
    rw [hraw] at hanchored
    refine iff_of_false ?_ (not_not.mpr hanchored.1)
    rintro ⟨a, ha, -⟩
    cases ha
  | some raw =>
    rw [hraw] at hanchored
    obtain ⟨file, ⟨d, hread, -, -, hfile⟩, -, hkept, hlast⟩ := hanchored
    constructor
    · rintro ⟨a, ha, f, hf, hname⟩ hleft
      obtain rfl : Json.obj d = a := Except.ok.inj (Option.some.inj (hread.symm.trans ha))
      have hfile := Json.str.inj (Except.ok.inj (hfile.symm.trans hname))
      obtain ⟨m, hm, rfl⟩ := List.mem_map.mp hf
      rw [Segments.all, hleft] at hm
      exact (hkept m hm).ne (ofString_inj.mp hfile)
    · intro hleft
      obtain ⟨m, hm⟩ := List.getLast?_isSome.mpr hleft |> Option.isSome_iff_exists.mp
      refine ⟨.obj d, hread, (m.1, fileOf m.2), ?_, ?_⟩
      · exact List.mem_map_of_mem (List.mem_append_left _ (List.mem_of_getLast? hm))
      · rw [hfile, hlast m hm]

lemma Holds.readAnchor (h : Holds disk now s) : ∃ a, rt.readAnchor disk.anchor = .ok (a, s.anchor Line.next) := by
  have hanchored := h.anchored
  unfold Anchored at hanchored
  unfold Runtime.readAnchor
  cases hraw : disk.anchor with
  | none =>
    rw [hraw] at hanchored
    refine ⟨none, ?_⟩
    rw [Segments.anchor, hanchored.1, ← hanchored.2]
    rfl
  | some raw =>
    rw [hraw] at hanchored
    obtain ⟨file, ⟨d, hread, hseq, hhash, -⟩, -⟩ := hanchored
    refine ⟨some (.obj d), ?_⟩
    simp only [hread, bind, Except.bind, hseq, hhash, Runtime.toInt, Runtime.strOf, pure, Except.pure]

/-- A chain's numbers count on. -/
lemma tip_seq {p : Chain} {ls : List (Line rt cfg)} (h : Linked Line.chain Line.next p ls) :
    (tip Line.next p ls).seq = p.seq + ls.length := by
  induction ls using List.reverseRecOn with
  | nil => simp
  | append_singleton ls l ih =>
    obtain ⟨hls, hl⟩ := (linked_append_singleton Line.chain Line.next p ls l).mp h
    have hseq : l.next.seq = l.chain.seq + 1 := rfl
    rw [tip_append_singleton, hseq, hl, ih hls, List.length_append, List.length_singleton]
    push_cast
    omega

lemma unverified_of_moved {a : Option Json} {start chain : Chain} {name : String} {l : Line rt cfg} {ls : List (Line rt cfg)}
    {segments : Filled rt cfg} (hanchor : rt.readAnchor disk.anchor = .ok (a, start))
    (hdaily : disk.daily = filesOf ((name, l :: ls) :: segments)) (hmoved : start.seq ≠ l.chain.seq) : ¬ Verified rt disk chain := by
  rintro ⟨report, hreport, hok, -⟩
  unfold Runtime.verify at hreport
  obtain ⟨read, hread, hreport⟩ := Checks.bind_ok hreport
  obtain rfl := Except.ok.inj (hanchor.symm.trans hread)
  obtain ⟨w, hw, hreport⟩ := Checks.bind_ok hreport
  obtain ⟨gaps, -, hreport⟩ := Checks.bind_ok hreport
  obtain rfl := Except.ok.inj hreport
  rw [hdaily] at hw
  exact walk_moved (w := ⟨[], 0, start⟩) hmoved hw (List.isEmpty_iff.mp hok)

/-- `verify` finds nothing exactly where nothing is left behind the anchor. -/
lemma Holds.verified_iff (h : Holds disk now s) : Verified rt disk (s.last Line.next) ↔ s.left = [] := by
  obtain ⟨a, hanchor⟩ := h.readAnchor
  obtain ⟨gaps, hgaps⟩ := gaps_ok h.daily
  constructor
  · intro hverified
    by_contra hleft
    obtain ⟨⟨name, es⟩, rest, hcons⟩ := List.exists_cons_of_ne_nil hleft
    obtain ⟨l, ls, rfl⟩ := List.exists_cons_of_ne_nil
      (h.sound.filled (name, es) (by rw [Segments.all, hcons]; exact List.mem_cons_self))
    have hlinked := h.sound.linked
    rw [Segments.all, entries_append, linked_append] at hlinked
    have hseq : (s.anchor Line.next).seq = s.base.seq + (entries s.left).length := tip_seq hlinked.1
    have hentries : entries s.left = l :: (ls ++ entries rest) := by rw [hcons]; rfl
    rw [hentries] at hlinked hseq
    have hchain : l.chain = s.base := hlinked.1.1
    have hmoved : (s.anchor Line.next).seq ≠ l.chain.seq := by
      rw [hseq, hchain, List.length_cons]
      push_cast
      omega
    have hall : s.all = (name, l :: ls) :: (rest ++ s.kept) := by rw [Segments.all, hcons]; rfl
    exact unverified_of_moved hanchor (h.daily.trans (congrArg filesOf hall)) hmoved hverified
  · intro hleft
    have hstart : s.anchor Line.next = s.base := by rw [Segments.anchor, hleft]; rfl
    rw [hstart] at hanchor
    have hwalk := walk_linked (w := ⟨[], 0, s.base⟩) h.sound.linked
    refine ⟨⟨true, (entries s.all).length, disk.daily.map Prod.fst, [], s.last Line.next, a, gaps⟩, ?_, rfl, rfl⟩
    unfold Runtime.verify
    simp only [hanchor, h.daily, hgaps, hwalk, bind, Except.bind, pure, Except.pure, Nat.zero_add, List.isEmpty_nil]
    rfl

/-! ### Appending -/

lemma chainIn_entry (l : Line rt cfg) : chainIn l.entry = some l.next := by
  have hseq : member l.entry "seq" = some (.int (l.chain.seq + 1)) := member_keyed (names_nodup l) List.mem_cons_self
  have hhash : member l.entry "entry_hash" = some (.str l.next.entryHash) :=
    member_keyed (names_nodup l) (p := ("entry_hash", _)) (List.mem_append_right _ (List.mem_singleton_self _))
  rw [chainIn, hseq, hhash]
  rfl

lemma fileOf_concat (ls : List (Line rt cfg)) (l : Line rt cfg) : fileOf (ls ++ [l]) = fileOf ls ++ l.bytes ++ [newline] := by
  rw [fileOf, List.map_append, ByteLines.ended_append, List.append_assoc, List.map_singleton, ByteLines.ended_cons]
  rfl

lemma tornPrefix_fileOf (ls : List (Line rt cfg)) : tornPrefix (fileOf ls) = [] := by
  have hended : (fileOf ls).getLast?.all (· = newline) = true := by
    rw [Option.all_eq_true]
    exact fun x hx => decide_eq_true (ByteLines.ended_getLast? newline _ x hx)
  rw [tornPrefix, if_pos hended]

/-- The line goes to the file of its name. -/
lemma files_added {segments : Filled rt cfg} {name : String} (l : Line rt cfg)
    (hkeys : ((added name l segments).map Prod.fst).Pairwise (· < ·)) {file : Bytes}
    (hfile : ((filesOf segments).get name).getD [] = file) :
    (filesOf segments).set name (file ++ tornPrefix file ++ l.bytes ++ [newline]) = filesOf (added name l segments) := by
  rcases added_cases name l segments with ⟨init, es, rfl, hadded⟩ | ⟨-, hadded⟩
  · rw [hadded, List.map_append, List.pairwise_append] at hkeys
    have hfresh : name ∉ (filesOf init).map Prod.fst := by
      rw [keys_filesOf]
      exact fun hmem => lt_irrefl name (hkeys.2.2 name hmem name (by simp))
    have hconcat : filesOf (init ++ [(name, es)]) = filesOf init ++ [(name, fileOf es)] := filesOf_append _ _
    have hget : (filesOf (init ++ [(name, es)])).get name = some (fileOf es) := by
      apply (Dict.mem_iff_get ?_).mp (by rw [hconcat]; simp)
      rw [Dict.Keyed, keys_filesOf, List.map_append]
      exact (List.pairwise_append.mpr hkeys).imp fun hlt => hlt.ne
    rw [hget] at hfile
    obtain rfl : fileOf es = file := hfile
    rw [tornPrefix_fileOf, List.append_nil, ← fileOf_concat, hconcat, Dict.set_concat hfresh, hadded, filesOf_append]
    rfl
  · rw [hadded, List.map_append, List.pairwise_append] at hkeys
    have hfresh : name ∉ (filesOf segments).map Prod.fst := by
      rw [keys_filesOf]
      exact fun hmem => lt_irrefl name (hkeys.2.2 name hmem name (by simp))
    have hget : (filesOf segments).get name = none := by
      cases hg : (filesOf segments).get name with
      | none => rfl
      | some v => exact absurd (List.mem_map_of_mem (f := Prod.fst) (Dict.get_mem hg)) hfresh
    rw [hget] at hfile
    obtain rfl : [] = file := hfile
    have hline : fileOf [l] = [] ++ tornPrefix [] ++ l.bytes ++ [newline] := fileOf_concat [] l
    rw [Dict.set_of_not_has hfresh, hadded, filesOf_append, ← hline]
    rfl

/-- An entry that follows the last one is added, under the name of its day. -/
lemma Holds.add (h : Holds disk now s) (hle : now ≤ now') (hnow : Clocked cfg now') {l : Line rt cfg}
    (hl : l.chain = s.last Line.next) {file : Bytes} (hfile : (disk.files.get (fileName cfg now')).getD [] = file) :
    Holds ⟨disk.files.set (fileName cfg now') (file ++ tornPrefix file ++ l.bytes ++ [newline]), disk.anchor⟩ now'
      (s.add (fileName cfg now') l) := by
  have hnames : ∀ m ∈ s.all, m.1 ≤ fileName cfg now' := by
    intro m hm
    obtain ⟨t, ht, htle, hname⟩ := h.named m hm
    rw [hname]
    exact fileName_le ht hnow (htle.trans hle)
  have hsound := h.sound.add hnames hl
  have hall := all_add h.sound.rest (fileName cfg now') l
  refine ⟨?_, hsound, ?_, ?_⟩
  · have hkeys := hsound.increasing
    rw [hall] at hkeys
    rw [h.files] at hfile ⊢
    rw [hall]
    exact files_added l hkeys hfile
  · rw [hall]
    intro m hm
    rcases added_cases (fileName cfg now') l s.all with ⟨init, es, hinit, hadded⟩ | ⟨-, hadded⟩
    · rw [hadded] at hm
      rcases List.mem_append.mp hm with hm | hm
      · exact (h.later hle).named m (hinit ▸ List.mem_append_left _ hm)
      · rw [List.mem_singleton.mp hm]
        exact ⟨now', hnow, le_rfl, rfl⟩
    · rw [hadded] at hm
      rcases List.mem_append.mp hm with hm | hm
      · exact (h.later hle).named m hm
      · rw [List.mem_singleton.mp hm]
        exact ⟨now', hnow, le_rfl, rfl⟩
  · have hanchored := h.anchored
    unfold Anchored at hanchored ⊢
    cases hraw : disk.anchor with
    | none =>
      rw [hraw] at hanchored
      exact hanchored
    | some raw =>
      rw [hraw] at hanchored
      obtain ⟨name, hreads, hkept, hbefore, hlast⟩ := hanchored
      refine ⟨name, hreads, added_ne_nil _ l s.kept, fun m hm => ?_, hlast⟩
      -- the new name is no earlier than one that comes behind the anchor's
      have hnew : name < fileName cfg now' := by
        obtain ⟨m, hm⟩ := List.exists_mem_of_ne_nil s.kept hkept
        exact (hbefore m hm).trans_le (hnames m (List.mem_append_right _ hm))
      rcases added_cases (fileName cfg now') l s.kept with ⟨init, es, hinit, hadded⟩ | ⟨-, hadded⟩
      · rw [show (s.add (fileName cfg now') l).kept = init ++ [(fileName cfg now', es ++ [l])] from hadded] at hm
        rcases List.mem_append.mp hm with hm | hm
        · exact hbefore m (hinit ▸ List.mem_append_left _ hm)
        · rwa [List.mem_singleton.mp hm]
      · rw [show (s.add (fileName cfg now') l).kept = s.kept ++ [(fileName cfg now', [l])] from hadded] at hm
        rcases List.mem_append.mp hm with hm | hm
        · exact hbefore m hm
        · rwa [List.mem_singleton.mp hm]

/-- What retention leaves where no crash comes between. -/
lemma Holds.rotated (h : Holds disk now s) (hle : now ≤ now') (hnow : Clocked cfg now') {disk' : Disk}
    (hrotate : rt.rotate cfg disk now' = .ok disk') : ∃ s' : Held rt cfg, Holds disk' now' s' ∧ s'.last Line.next = s.last Line.next ∧
      (¬ Retains cfg disk now' ∧ s' = s ∨ Retains cfg disk now' ∧ s'.left = []) := by
  have hlast := rt.rotateStages_last cfg disk now'
  rw [hrotate] at hlast
  obtain ⟨stages, hstages, hlast⟩ := Checks.map_ok hlast
  rcases h.stages hnow hle hstages with ⟨hnone, rfl⟩ | ⟨hsome, old, young, hall, -, -, left, rfl, hleft⟩
  · obtain rfl := Option.some.inj hlast
    exact ⟨s, h.later hle, rfl, Or.inl ⟨hnone, rfl⟩⟩
  · rw [stages_last] at hlast
    obtain rfl := Option.some.inj hlast
    exact ⟨_, hleft old.length le_rfl, last_drop hall _, Or.inr ⟨hsome, List.drop_length⟩⟩

/-- What one append does: its entry is added behind what retention leaves. -/
lemma Holds.appended (h : Holds disk now s) (hle : now ≤ now') (hnow : Clocked cfg now') {fields : EntryFields} {disk' : Disk}
    {entry : Members} (happend : rt.appendLocked cfg disk fields (s.last Line.next) now' = .ok (disk', entry)) :
    ∃ (l : Line rt cfg) (r : Held rt cfg), entry = l.entry ∧ (l.fields = fields ∧ l.chain = s.last Line.next ∧ l.now = now') ∧
      Holds disk' now' (r.add (fileName cfg now') l) ∧ (r.add (fileName cfg now') l).last Line.next = l.next ∧
        (¬ Retains cfg disk now' ∧ r = s ∨ Retains cfg disk now' ∧ r.left = []) := by
  obtain ⟨hash, rotated, bytes, hhash, hrotate, hbytes, rfl, rfl⟩ := Runtime.appendLocked_ok happend
  obtain ⟨r, hr, hlast, hleft⟩ := h.rotated hle hnow hrotate
  set l : Line rt cfg := ⟨fields, s.last Line.next, now', hash, bytes, hhash, hbytes⟩ with hl
  exact ⟨l, r, rfl, ⟨rfl, rfl, rfl⟩, hr.add (l := l) le_rfl hnow hlast.symm rfl, last_add hr.sound.rest _ l, hleft⟩

/-- What was left behind the anchor stays where retention drops nothing. -/
lemma left_iff {r : Held rt cfg} (h : ¬ Retains cfg disk now' ∧ r = s ∨ Retains cfg disk now' ∧ r.left = []) :
    r.left = [] ↔ (s.left ≠ [] → Retains cfg disk now') := by
  rcases h with ⟨hnone, rfl⟩ | ⟨hsome, hnil⟩
  · constructor
    · exact fun hnil hne => absurd hnil hne
    · intro himp
      by_contra hne
      exact hnone (himp hne)
  · exact iff_of_true hnil fun _ => hsome

lemma Holds.chain (h : Holds disk now s) {held : Option Chain} (hheld : ∀ c ∈ held, c = s.last Line.next) {chain : Chain}
    (hchain : rt.chainOf ⟨disk, held⟩ = .ok chain) : chain = s.last Line.next := by
  unfold Runtime.chainOf at hchain
  cases held with
  | some c =>
    obtain rfl := Except.ok.inj hchain
    exact hheld c rfl
  | none =>
    obtain ⟨head, hhead, rfl⟩ := Checks.map_ok hchain
    exact h.head hhead

/-! ### Runs -/

/-- The clock readings of a run: years are written with four digits, and no reading lies before an earlier one. -/
structure Timely (cfg : Config) (events : List Event) : Prop where
  clocked : ∀ now ∈ events.filterMap Event.now, Clocked cfg now
  ordered : (events.filterMap Event.now).Pairwise (· ≤ ·)

lemma Timely.before {earlier later : List Event} (h : Timely cfg (earlier ++ later)) : Timely cfg earlier := by
  obtain ⟨hclocked, hordered⟩ := h
  rw [List.filterMap_append] at hclocked hordered
  exact ⟨fun now hnow => hclocked now (List.mem_append_left _ hnow), (List.pairwise_append.mp hordered).1⟩

lemma Timely.next {earlier later : List Event} {event : Event} (h : Timely cfg (earlier ++ event :: later)) {now : Instant}
    (hnow : event.now = some now) : Clocked cfg now ∧ ∀ t ∈ earlier.filterMap Event.now, t ≤ now := by
  obtain ⟨hclocked, hordered⟩ := h
  rw [List.filterMap_append, List.filterMap_cons_some hnow] at hclocked hordered
  refine ⟨hclocked now (List.mem_append_right _ List.mem_cons_self), fun t ht => ?_⟩
  exact (List.pairwise_append.mp hordered).2.2 t ht now List.mem_cons_self

lemma run_concat (events : List Event) (event : Event) : rt.run cfg (events ++ [event]) = rt.step cfg (rt.run cfg events) event := by
  rw [Runtime.run, List.foldl_append]
  rfl

/-- What holds of a log whenever an event comes. -/
structure Sane (log : Log) (now : Instant) (s : Held rt cfg) : Prop where
  holds : Holds log.disk now s
  held : ∀ c ∈ log.held, c = s.last Line.next

lemma sane_fresh (rt : Runtime) (cfg : Config) (now : Instant) : Sane .fresh now (⟨.genesis, [], []⟩ : Held rt cfg) := by
  refine ⟨⟨rfl, ⟨trivial, .nil, ?_, ?_⟩, ?_, rfl, rfl⟩, ?_⟩
  · simp [Segments.all]
  · simp
  · simp [Segments.all]
  · simp [Log.fresh]

lemma Sane.step {log : Log} (h : Sane log now s) (event : Event) (hevent : ∀ t ∈ event.now, Clocked cfg t ∧ now ≤ t) :
    ∃ s' : Held rt cfg, Sane (rt.step cfg log event) (event.now.getD now) s' := by
  cases event with
  | release => exact ⟨s, h.holds, by simp [Runtime.step]⟩
  | append fields now' =>
    obtain ⟨hnow, hle⟩ := hevent now' rfl
    simp only [Runtime.step, Runtime.append]
    cases hchain : rt.chainOf log with
    | error e => exact ⟨s, h.holds.later hle, by simp [bind, Except.bind]⟩
    | ok chain =>
      obtain rfl := h.holds.chain h.held hchain
      cases happend : rt.appendLocked cfg log.disk fields (s.last Line.next) now' with
      | error e =>
        simp only [bind, Except.bind, happend]
        exact ⟨s, h.holds.later hle, by simp⟩
      | ok written =>
        obtain ⟨disk', entry⟩ := written
        obtain ⟨l, r, rfl, -, hr, hlast, -⟩ := h.holds.appended hle hnow happend
        simp only [bind, Except.bind, happend, pure, Except.pure]
        refine ⟨_, hr, fun c hc => ?_⟩
        rw [chainIn_entry, Option.mem_some_iff] at hc
        rw [← hc, hlast]
  | crash fields now' stage =>
    obtain ⟨hnow, hle⟩ := hevent now' rfl
    simp only [Runtime.step]
    cases hcrash : (rt.chainOf log >>= fun chain => rt.crashed cfg log.disk chain fields now' stage) with
    | error e => exact ⟨s, h.holds.later hle, by simp⟩
    | ok disk' =>
      obtain ⟨chain, -, hcrash⟩ := Checks.bind_ok hcrash
      obtain ⟨stages, hstages, rfl⟩ := Runtime.crashed_ok hcrash
      suffices ∃ s' : Held rt cfg, Holds (stages[stage]?.getD log.disk) now' s' by
        obtain ⟨s', hs'⟩ := this
        exact ⟨s', hs', by simp⟩
      cases hstage : stages[stage]? with
      | none => exact ⟨s, h.holds.later hle⟩
      | some disk' =>
        have hmem := List.mem_of_getElem? hstage
        rcases h.holds.stages hnow hle hstages with ⟨-, rfl⟩ | ⟨-, old, young, -, -, -, left, rfl, hleft⟩
        · rw [List.mem_singleton.mp hmem]
          exact ⟨s, h.holds.later hle⟩
        · rcases List.mem_cons.mp hmem with rfl | hmem
          · exact ⟨s, h.holds.later hle⟩
          · obtain ⟨done, hdone, rfl⟩ := List.mem_map.mp hmem
            exact ⟨_, hleft done (Nat.lt_succ_iff.mp (List.mem_range.mp hdone))⟩

/-- Whatever has happened, the directory is a chain in segments. -/
lemma sane_run (rt : Runtime) {events : List Event} (h : Timely cfg events) {now : Instant}
    (hnow : ∀ t ∈ events.filterMap Event.now, t ≤ now) : ∃ s : Held rt cfg, Sane (rt.run cfg events) now s := by
  induction events using List.reverseRecOn generalizing now with
  | nil => exact ⟨⟨.genesis, [], []⟩, sane_fresh rt cfg now⟩
  | append_singleton events event ih =>
    rw [run_concat]
    cases hevent : event.now with
    | none =>
      rw [List.filterMap_append, List.filterMap_cons_none hevent, List.filterMap_nil, List.append_nil] at hnow
      obtain ⟨s, hs⟩ := ih h.before hnow
      obtain ⟨s', hs'⟩ := hs.step event (by simp [hevent])
      rw [hevent] at hs'
      exact ⟨s', hs'⟩
    | some t =>
      obtain ⟨hclocked, hbefore⟩ := h.next hevent
      obtain ⟨s, hs⟩ := ih h.before hbefore
      obtain ⟨s', hs'⟩ := hs.step event (by simp [hevent, hclocked])
      rw [hevent] at hs'
      refine ⟨s', hs'.holds.later (hnow t ?_), hs'.held⟩
      rw [List.filterMap_append, List.filterMap_cons_some hevent]
      exact List.mem_append_right _ List.mem_cons_self

/-! ### Nothing inside the window is lost -/

/-- A file that is behind no crash's cutoff is still there. -/
lemma Holds.stage_keeps (h : Holds disk now s) (hle : now ≤ now') (hnow : Clocked cfg now') {stages : List Disk}
    (hstages : rt.rotateStages cfg disk now' = .ok stages) {name : String} {file : Bytes} (hinside : Inside cfg now' name)
    (hfile : disk.files.get name = some file) {disk' : Disk} (hdisk : disk' ∈ stages) : disk'.files.get name = some file := by
  rcases h.stages hnow hle hstages with ⟨-, rfl⟩ | ⟨-, old, young, hall, -, hold, left, rfl, hleft⟩
  · rwa [List.mem_singleton.mp hdisk]
  · rcases List.mem_cons.mp hdisk with rfl | hdisk
    · exact hfile
    · obtain ⟨done, hdone, rfl⟩ := List.mem_map.mp hdisk
      have hs' := hleft done (Nat.lt_succ_iff.mp (List.mem_range.mp hdone))
      have hmem := (Dict.mem_iff_get h.keyed).mpr hfile
      rw [h.files, hall, filesOf_append] at hmem
      refine (Dict.mem_iff_get hs'.keyed).mp ?_
      rw [hs'.files, Segments.all, Segments.drop, filesOf_append]
      rcases List.mem_append.mp hmem with hmem | hmem
      · obtain ⟨m, hm, hname⟩ := List.mem_map.mp hmem
        exact absurd ((Prod.mk.inj hname).1 ▸ hinside) (hold m hm)
      · exact List.mem_append_right _ hmem

lemma Sane.keeps {log : Log} (h : Sane log now s) {event : Event} (hevent : ∀ t ∈ event.now, Clocked cfg t ∧ now ≤ t) {name : String}
    {file : Bytes} (hinside : ∀ t ∈ event.now, Inside cfg t name) (hfile : log.disk.files.get name = some file) :
    ∃ file', (rt.step cfg log event).disk.files.get name = some file' ∧ file <+: file' := by
  cases event with
  | release => exact ⟨file, hfile, List.prefix_refl _⟩
  | append fields now' =>
    obtain ⟨hnow, hle⟩ := hevent now' rfl
    simp only [Runtime.step]
    cases happend : rt.append cfg log fields now' with
    | error e => exact ⟨file, hfile, List.prefix_refl _⟩
    | ok written =>
      obtain ⟨chain, disk', -, hlocked, hwritten⟩ := Runtime.append_ok happend
      obtain ⟨hash, rotated, line, -, hrotate, -, -, rfl⟩ := Runtime.appendLocked_ok hlocked
      have hlast := rt.rotateStages_last cfg log.disk now'
      rw [hrotate] at hlast
      obtain ⟨stages, hstages, hlast⟩ := Checks.map_ok hlast
      have hrotated := h.holds.stage_keeps hle hnow hstages (hinside now' rfl) hfile (List.mem_of_getLast? hlast)
      dsimp only
      rw [hwritten, Dict.get_set]
      split_ifs with hname
      · refine ⟨_, rfl, ?_⟩
        rw [hname, hrotated, Option.getD_some, List.append_assoc, List.append_assoc]
        exact List.prefix_append _ _
      · exact ⟨file, hrotated, List.prefix_refl _⟩
  | crash fields now' stage =>
    obtain ⟨hnow, hle⟩ := hevent now' rfl
    simp only [Runtime.step]
    cases hcrash : (rt.chainOf log >>= fun chain => rt.crashed cfg log.disk chain fields now' stage) with
    | error e => exact ⟨file, hfile, List.prefix_refl _⟩
    | ok disk' =>
      obtain ⟨chain, -, hcrash⟩ := Checks.bind_ok hcrash
      obtain ⟨stages, hstages, rfl⟩ := Runtime.crashed_ok hcrash
      refine ⟨file, ?_, List.prefix_refl _⟩
      cases hstage : stages[stage]? with
      | none => exact hfile
      | some disk' => exact h.holds.stage_keeps hle hnow hstages (hinside now' rfl) hfile (List.mem_of_getElem? hstage)

/-- A file stays as long as it is inside the window at every reading. -/
lemma run_keeps {earlier later : List Event} (h : Timely cfg (earlier ++ later)) {name : String} {file : Bytes}
    (hinside : ∀ t ∈ later.filterMap Event.now, Inside cfg t name)
    (hfile : (rt.run cfg earlier).disk.files.get name = some file) :
    ∃ file', (rt.run cfg (earlier ++ later)).disk.files.get name = some file' ∧ file <+: file' := by
  induction later using List.reverseRecOn with
  | nil => exact ⟨file, by rwa [List.append_nil], List.prefix_refl _⟩
  | append_singleton later event ih =>
    rw [← List.append_assoc] at h ⊢
    rw [List.filterMap_append] at hinside
    obtain ⟨file', hfile', hprefix⟩ := ih h.before fun t ht => hinside t (List.mem_append_left _ ht)
    -- the clock when the event comes: its own reading, or the last one before it
    obtain ⟨now, hnow, hevent⟩ : ∃ now, (∀ t ∈ (earlier ++ later).filterMap Event.now, t ≤ now) ∧
        ∀ t ∈ event.now, Clocked cfg t ∧ now ≤ t := by
      cases hreading : event.now with
      | none =>
        obtain ⟨bound, hbound⟩ := (List.finite_toSet ((earlier ++ later).filterMap Event.now)).bddAbove
        exact ⟨bound, fun t ht => hbound ht, by simp⟩
      | some t =>
        obtain ⟨hclocked, hbefore⟩ := h.next hreading
        exact ⟨t, hbefore, by simp [hclocked]⟩
    obtain ⟨s, hs⟩ := sane_run rt h.before hnow
    have hinside' : ∀ t ∈ event.now, Inside cfg t name := by
      intro t ht
      refine hinside t (List.mem_append_right _ ?_)
      rw [List.filterMap_cons_some ht]
      exact List.mem_cons_self
    obtain ⟨file'', hfile'', hprefix'⟩ := hs.keeps hevent hinside' hfile'
    rw [run_concat]
    exact ⟨file'', hfile'', hprefix.trans hprefix'⟩

/-- What the run says of an append that goes through. -/
lemma appended_verified {earlier later : List Event} {fields : EntryFields} {now : Instant}
    (h : Timely cfg (earlier ++ .append fields now :: later)) {log : Log} {entry : Members}
    (happend : rt.append cfg (rt.run cfg earlier) fields now = .ok (log, entry)) :
    (∃ chain, chainIn entry = some chain ∧ Verified rt log.disk chain) ↔
      (Interrupted rt (rt.run cfg earlier).disk → Retains cfg (rt.run cfg earlier).disk now) := by
  obtain ⟨hclocked, hbefore⟩ := h.next rfl
  obtain ⟨s, hs⟩ := sane_run rt h.before hbefore
  obtain ⟨chain, disk', hchain, hlocked, rfl⟩ := Runtime.append_ok happend
  obtain rfl := hs.holds.chain hs.held hchain
  obtain ⟨l, r, rfl, -, hr, hlast, hleft⟩ := hs.holds.appended le_rfl hclocked hlocked
  have hverified := hr.verified_iff
  rw [hlast] at hverified
  rw [hs.holds.interrupted_iff, ← left_iff hleft, chainIn_entry]
  refine Iff.trans ?_ hverified
  constructor
  · rintro ⟨chain, hchain, hverified⟩
    obtain rfl := Option.some.inj hchain
    exact hverified
  · exact fun hverified => ⟨l.next, rfl, hverified⟩

end ContinuityLedger.CallLog
