import ContinuityLedger.CallLog.Idle

/-! The head behind an append is its entry as long as its line fits the window that `_tail_lines` reads; behind a longer line no
head is found, and no append goes through. -/

namespace ContinuityLedger.CallLog

open Foundations Foundations.Sha256 Foundations.Codec Foundations.Calendar Foundations.Timestamps Foundations.Json HashChain Rotation

variable {rt : Runtime} {cfg : Config} {disk : Disk} {now now' : Instant} {s : Held rt cfg}

/-! ### The head -/

lemma Holds.head_iff (h : Holds disk now s) {init : Filled rt cfg} {name : String} {ls : List (Line rt cfg)} {l : Line rt cfg}
    (hall : s.all = init ++ [(name, ls ++ [l])]) :
    (∃ head, rt.head disk = .ok head ∧ head.chain = s.last Line.next) ↔ l.bytes.length < tailWindow := by
  have hread : rt.head disk = rt.headIn disk.anchor ((name, fileOf (ls ++ [l])) :: (filesOf init).reverse) := by
    rw [Runtime.head, h.daily, hall, filesOf_append, List.reverse_append]
    rfl
  constructor
  · rintro ⟨head, hhead, -⟩
    by_contra hlong
    obtain ⟨e, he⟩ := lastLine_cut ls (not_lt.mp hlong)
    rw [hread, Runtime.headIn, he] at hhead
    cases hhead
  · intro hfits
    obtain ⟨head, hhead, -⟩ := entryHead_line name l
    have hfound : rt.head disk = .ok head := by
      rw [hread, Runtime.headIn, lastLine_fits ls hfits]
      exact hhead
    exact ⟨head, hfound, h.head hfound⟩

/-- Without a head nothing is appended. -/
lemma Holds.refused (h : Holds disk now s) {init : Filled rt cfg} {name : String} {ls : List (Line rt cfg)} {l : Line rt cfg}
    (hall : s.all = init ++ [(name, ls ++ [l])]) (hlong : tailWindow ≤ l.bytes.length) (fields : EntryFields) (now' : Instant) :
    ∃ e, rt.append cfg ⟨disk, none⟩ fields now' = .error e := by
  cases happend : rt.append cfg ⟨disk, none⟩ fields now' with
  | error e => exact ⟨e, rfl⟩
  | ok r =>
    obtain ⟨chain, -, hchain, -⟩ := Runtime.append_ok happend
    obtain ⟨head, hhead, -⟩ := Checks.map_ok hchain
    have hfits := (h.head_iff hall).mp ⟨head, hhead, h.head hhead⟩
    exact absurd hfits (not_lt.mpr hlong)

/-- An append leaves its line as the last one. -/
lemma Sane.appended_line {log log' : Log} (h : Sane log now s) (hle : now ≤ now') (hnow : Clocked cfg now') {fields : EntryFields}
    {entry : Members} (happend : rt.append cfg log fields now' = .ok (log', entry)) :
    ∃ (s' : Held rt cfg) (init : Filled rt cfg) (ls : List (Line rt cfg)) (l : Line rt cfg), Holds log'.disk now' s' ∧
      s'.all = init ++ [(fileName cfg now', ls ++ [l])] ∧ s'.last Line.next = l.next ∧ entry = l.entry ∧ l.fields = fields := by
  obtain ⟨chain, disk', hchain, hlocked, rfl⟩ := Runtime.append_ok happend
  obtain rfl := h.holds.chain h.held hchain
  obtain ⟨l, r, rfl, ⟨hfields, -, -⟩, hr, hlast, hcases⟩ := h.holds.appended hle hnow hlocked
  have hrest : r.left ≠ [] → r.kept ≠ [] := by
    rcases hcases with ⟨-, rfl⟩ | ⟨-, hnil⟩
    · exact h.holds.sound.rest
    · exact fun hne => absurd hnil hne
  obtain ⟨init, ls, hall⟩ := added_last (fileName cfg now') l r.all
  exact ⟨_, init, ls, l, hr, (all_add hrest _ l).trans hall, hlast, rfl, hfields⟩

/-! ### A long line -/

lemma rendered_le {ms : List (PyStr × Json)} {m : PyStr × Json} (hm : m ∈ ms) :
    (rendered [] m.2).length ≤ (renderedMembers [] ms).length := by
  induction ms with
  | nil => cases hm
  | cons m' ms ih =>
    rw [renderedMembers_cons, List.length_append, List.length_cons, List.length_append]
    rcases List.mem_cons.mp hm with rfl | hm
    · omega
    · have hne : ms ≠ [] := List.ne_nil_of_mem hm
      have hrest := ih hm
      have hfollowing : (renderedMembers [] ms).length ≤ (following ms).length := by
        rw [following, if_neg (by simpa using hne)]
        simp
      omega

lemma length_le_utf8 (cs : List Char) : cs.length ≤ (PyStr.utf8Chars cs).length := by
  induction cs with
  | nil => exact le_rfl
  | cons c cs ih =>
    have hc : 0 < (String.utf8EncodeChar c).length := by
      rw [String.length_utf8EncodeChar]
      exact Char.utf8Size_pos c
    rw [PyStr.utf8Chars, List.flatMap_cons, List.length_append, ← PyStr.utf8Chars, List.length_cons]
    omega

lemma rendered_le_bytes (l : Line rt cfg) {m : PyStr × Json} (hm : m ∈ l.entry) : (rendered [] m.2).length ≤ l.bytes.length := by
  have hchars : l.chars.length = (renderedMembers [] l.members).length + 1 := by
    have hlen := congrArg List.length l.bytes_chars.2
    rwa [PyStr.ofChars, List.length_map, rendered, List.length_cons] at hlen
  have hmember := rendered_le (l.perm_members.mem_iff.mpr hm)
  have hutf8 := length_le_utf8 l.chars
  rw [← l.bytes_chars.1] at hutf8
  omega

/-- A path below that of the tools: each of its control characters takes six in the text. -/
def longRoute : PyStr := PyStr.ofString "/api/jarvis/tools/" ++ List.replicate 12000 (.scalar '\x01')

def longCall : Call := { idleCall with
  tool := List.replicate 64 (.scalar '\x01')
  route := some longRoute
  method := some (PyStr.ofString "POST")
  outcome := "error"
  errorCode := some (PyStr.ofString "HTTP_404")
  statusCode := some 404 }

lemma longRoute_width : 72000 ≤ (quote longRoute).length := by
  have hcontrol : ((List.replicate 12000 (PyChar.scalar '\x01')).flatMap escape).length = 72000 := by
    have hescape : (escape (.scalar '\x01')).length = 6 := by decide
    rw [List.length_flatMap, List.map_replicate, hescape, List.sum_replicate]
    rfl
  rw [quote, longRoute, List.flatMap_append, List.length_cons, List.length_append, List.length_append, hcontrol]
  omega

lemma longCall_writable : ∀ p ∈ (makeFields longCall).pairs, Writable p := by
  -- whatever the digest of the arguments and the route are
  have hpairs : ∀ d route, PyStr.scalars route = true → ∀ p ∈ Call.pairs { longCall with argsSha256 := d, route := some route },
      printable p.2 = true ∧ plain p.2 = true := by
    intro d route hroute p hp
    simp only [Call.pairs, List.mem_cons, List.not_mem_nil, or_false] at hp
    rcases hp with rfl | rfl | rfl | rfl | rfl | rfl | rfl | rfl | rfl | rfl | rfl | rfl | rfl | rfl | rfl
    all_goals first | decide | exact ⟨rfl, hroute⟩ | exact ⟨rfl, PyStr.scalars_ofString _⟩
  have hroute : PyStr.scalars longRoute = true := by
    rw [PyStr.scalars, longRoute, List.all_append, List.all_replicate]
    decide
  exact fun p hp => ⟨(makeFields longCall).flat p hp, hpairs longCall.argsSha256 longRoute hroute p hp⟩

/-! ### Behind an append -/

/-- Behind an append the head is its entry if and only if its line fits the window; behind a longer one nothing is appended any more. -/
theorem head_behind_append {earlier : List Event} {fields : EntryFields} {now : Instant} {log : Log} {entry : Members} {line : Bytes}
    (h : Timely cfg (earlier ++ [.append fields now])) (happend : rt.append cfg (rt.run cfg earlier) fields now = .ok (log, entry))
    (hline : rt.canonical (.obj entry) = .ok line) :
    ((∃ head, rt.head log.disk = .ok head ∧ chainIn entry = some head.chain) ↔ line.length < tailWindow) ∧
      (tailWindow ≤ line.length → ∀ fields' now', ∃ e, rt.append cfg ⟨log.disk, none⟩ fields' now' = .error e) := by
  obtain ⟨hclocked, hbefore⟩ := h.next rfl
  obtain ⟨s, hs⟩ := sane_run rt h.before hbefore
  obtain ⟨s', init, ls, l, hholds, hall, hlast, rfl, -⟩ := hs.appended_line le_rfl hclocked happend
  obtain rfl : l.bytes = line := Except.ok.inj (l.bytes_eq.symm.trans hline)
  refine ⟨?_, hholds.refused hall⟩
  rw [← hholds.head_iff hall, hlast, chainIn_entry]
  refine exists_congr fun head => and_congr_right fun _ => ?_
  rw [Option.some.injEq, eq_comm]

/-- The head behind a short first entry. -/
theorem head_behind_first : ∃ log entry head, idleRuntime.append idleConfig .fresh (makeFields idleCall) (dayAt 0) = .ok (log, entry) ∧
    idleRuntime.head log.disk = .ok head ∧ chainIn entry = some head.chain := by
  have hnow := reading_dayAt 0 (by decide)
  have htimely : Timely idleConfig ([] ++ [.append (makeFields idleCall) (dayAt 0)]) := by
    refine ⟨fun t ht => ?_, List.pairwise_singleton _ _⟩
    obtain rfl := List.mem_singleton.mp ht
    exact hnow.clocked
  obtain ⟨log, l, happend, hlog⟩ := steady_fresh.append (by decide) le_rfl hnow (by
    rw [steady_fresh.sane.holds.retains_iff hnow]
    simp [Segments.all])
  have hfits : l.bytes.length < tailWindow := hlog.fits _ List.mem_cons_self l rfl
  obtain ⟨head, hhead, hchain⟩ := (head_behind_append htimely happend l.bytes_eq).1.mpr hfits
  exact ⟨log, l.entry, head, happend, hhead, hchain⟩

/-- A call with a long path is logged, and then no head is found. -/
theorem long_line_unfound : ∃ log entry, idleRuntime.append idleConfig .fresh (makeFields longCall) (dayAt 0) = .ok (log, entry) ∧
    ¬ ∃ head, idleRuntime.head log.disk = .ok head ∧ chainIn entry = some head.chain := by
  have hnow := reading_dayAt 0 (by decide)
  have hwritable : ∀ p ∈ unhashed idleConfig (makeFields longCall) .genesis (dayAt 0), Writable p := by
    intro p hp
    simp only [unhashed, List.mem_cons] at hp
    rcases hp with rfl | rfl | rfl | hp
    · exact ⟨rfl, by decide, rfl⟩
    · exact ⟨rfl, rfl, PyStr.scalars_ofString _⟩
    · exact ⟨rfl, rfl, PyStr.scalars_ofString _⟩
    · exact longCall_writable p hp
  obtain ⟨⟨log, entry⟩, happend⟩ := steady_fresh.sane.append_through steady_fresh.fits hnow.clocked hnow.window hwritable
  obtain ⟨s, init, ls, l, hholds, hall, hlast, rfl, hfields⟩ := steady_fresh.sane.appended_line le_rfl hnow.clocked happend
  refine ⟨log, l.entry, happend, ?_⟩
  rintro ⟨head, hhead, hchain⟩
  have hmem : (PyStr.ofString "route", Json.str longRoute) ∈ l.entry := by
    refine List.mem_map_of_mem (f := fun p : String × Json => (PyStr.ofString p.1, p.2)) (a := ("route", .str longRoute)) ?_
    rw [Line.pairs, unhashed, hfields]
    exact List.mem_append_left _ (by simp [makeFields, Call.pairs, longCall, textOrNull])
  have hlong : (rendered [] (.str longRoute)).length ≤ l.bytes.length := rendered_le_bytes l hmem
  have hfits := (hholds.head_iff hall).mp ⟨head, hhead, hholds.head hhead⟩
  have hwidth : 72000 ≤ (rendered [] (.str longRoute)).length := longRoute_width
  rw [tailWindow] at hfits
  omega

end ContinuityLedger.CallLog
