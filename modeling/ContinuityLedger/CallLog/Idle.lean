import ContinuityLedger.CallLog.Through

/-! What `verify` says behind the appends of a run, and a log that is idle for longer than it keeps its files, behind a crash in
the middle of retention: `verify` reports a problem behind the next append. -/

namespace ContinuityLedger.CallLog

open Foundations Foundations.Sha256 Foundations.Codec Foundations.Calendar Foundations.Timestamps Foundations.Json HashChain Rotation

/-! ### How long a line is -/

/-- No character of a value takes more than six in its text. -/
def widest : Json → ℕ
  | .str s => 6 * s.length + 2
  | .int n => (toString n).length
  | _ => 5

lemma escape_length (p : PyChar) : (escape p).length ≤ 6 := by
  cases p with
  | surrogate n => exact Nat.one_le_ofNat
  | scalar c =>
    cases hl : Data.shortEscape c with
    | some l =>
      rw [escape_short hl]
      exact Nat.le_of_lt_succ (by simp)
    | none =>
      rw [escape_plain hl]
      split_ifs
      · exact Nat.le_refl 6
      · exact Nat.one_le_ofNat

lemma quote_length (s : PyStr) : (quote s).length ≤ 6 * s.length + 2 := by
  have hflat : (s.flatMap escape).length ≤ 6 * s.length := by
    induction s with
    | nil => exact le_rfl
    | cons p s ih =>
      have hp := escape_length p
      rw [List.flatMap_cons, List.length_append, List.length_cons]
      omega
  rw [quote, List.length_cons, List.length_append, List.length_singleton]
  omega

lemma rendered_length {j : Json} (h : flat j = true) : (rendered [] j).length ≤ widest j := by
  cases j with
  | arr _ => cases h
  | obj _ => cases h
  | float _ => cases h
  | null => decide
  | bool b => cases b <;> decide
  | int n => exact le_of_eq ((List.length_map _).trans String.length_toList)
  | str s => exact quote_length s

def memberWidth (m : PyStr × Json) : ℕ := 6 * m.1.length + widest m.2 + 4

lemma members_length {ms : List (PyStr × Json)} (h : ∀ m ∈ ms, flat m.2 = true) :
    (renderedMembers [] ms).length ≤ (ms.map memberWidth).sum + 1 := by
  induction ms with
  | nil => decide
  | cons m ms ih =>
    obtain ⟨hm, hms⟩ := List.forall_mem_cons.mp h
    have hkey := quote_length m.1
    have hvalue := rendered_length hm
    have hrest := ih hms
    have hfollowing : (following ms).length ≤ (renderedMembers [] ms).length + 1 := by
      rw [following]
      split_ifs with hnil
      · simp
      · exact le_rfl
    rw [renderedMembers_cons, List.length_append, List.length_cons, List.length_append, List.map_cons, List.sum_cons, memberWidth]
    omega

lemma utf8_length (cs : List Char) : (PyStr.utf8Chars cs).length ≤ 4 * cs.length := by
  induction cs with
  | nil => exact le_rfl
  | cons c cs ih =>
    have hc : (String.utf8EncodeChar c).length ≤ 4 := by
      rw [String.length_utf8EncodeChar]
      exact Char.utf8Size_le_four c
    rw [PyStr.utf8Chars, List.flatMap_cons, List.length_append, ← PyStr.utf8Chars, List.length_cons]
    omega

variable {rt : Runtime} {cfg : Config}

lemma bytes_length (l : Line rt cfg) : l.bytes.length ≤ 4 * ((l.entry.map memberWidth).sum + 2) := by
  have hchars : l.chars.length = (renderedMembers [] l.members).length + 1 := by
    have hlen := congrArg List.length l.bytes_chars.2
    rwa [PyStr.ofChars, List.length_map, rendered, List.length_cons] at hlen
  have hmembers := members_length l.flat_members
  have hperm : (l.members.map memberWidth).sum = (l.entry.map memberWidth).sum := (l.perm_members.map memberWidth).sum_eq
  have hutf8 := utf8_length l.chars
  rw [← l.bytes_chars.1] at hutf8
  omega

/-! ### A run -/

def idleRuntime : Runtime where
  python := ⟨id, 1000, 1000, Nat.succ_pos _, Nat.succ_pos _⟩
  truncate _ := 0
  atLeast _ _ := true
  repr _ := none
  lower := id

def idleConfig : Config := ⟨90, true⟩

def idleCall : Call where
  transport := "http-tool"
  clientName := none
  clientVersion := none
  tenant := PyStr.ofString "operator"
  tool := PyStr.ofString "emr_recall"
  route := none
  method := none
  target := none
  argsSha256 := hexdigest (PyStr.utf8Chars ['{', '}'])
  outcome := "ok"
  errorCode := none
  statusCode := some 200
  resultDigest := none
  durationMs := 3

/-- So many days behind the first of January 2026. -/
def dayAt (n : ℤ) : Instant := 1767225600000000 + n * microsPerDay

/-- Two days of calls, and a crash behind the new anchor. -/
def idleRun : List Event := [.append (makeFields idleCall) (dayAt 0), .release, .append (makeFields idleCall) (dayAt 50), .release,
  .crash (makeFields idleCall) (dayAt 100) 1]

def pairWidth (p : String × Json) : ℕ := 6 * p.1.length + widest p.2 + 4

lemma hexText_length (h : Hex64) : (PyStr.ofString h.text).length = 64 := by
  have hvalid := h.valid
  rw [isHex64, Bool.and_eq_true, beq_iff_eq] at hvalid
  rw [PyStr.ofString, PyStr.ofChars, List.length_map]
  exact hvalid.1

lemma fields_width : ((makeFields idleCall).pairs.map pairWidth).sum ≤ 3000 := by
  have hdigest := hexText_length idleCall.argsSha256
  change ((Call.pairs idleCall).map pairWidth).sum ≤ 3000
  simp only [Call.pairs, List.map_cons, List.map_nil, List.sum_cons, List.sum_nil, pairWidth, widest, hdigest]
  decide

lemma fields_writable : ∀ p ∈ (makeFields idleCall).pairs, Writable p := by
  -- whatever the digest of the arguments is
  have hpairs : ∀ d, ∀ p ∈ Call.pairs { idleCall with argsSha256 := d }, printable p.2 = true ∧ plain p.2 = true := by
    intro d p hp
    simp only [Call.pairs, List.mem_cons, List.not_mem_nil, or_false] at hp
    rcases hp with rfl | rfl | rfl | rfl | rfl | rfl | rfl | rfl | rfl | rfl | rfl | rfl | rfl | rfl | rfl
    all_goals first | decide | exact ⟨rfl, PyStr.scalars_ofString _⟩
  exact fun p hp => ⟨(makeFields idleCall).flat p hp, hpairs idleCall.argsSha256 p hp⟩

/-- A reading of the clock in the run. -/
structure Reading (t : Instant) : Prop where
  clocked : Clocked idleConfig t
  window : idleConfig.cutoff t = .ok (dayText idleConfig (t - 90 * microsPerDay))
  early : Clocked idleConfig (t - 90 * microsPerDay)
  ts : (normTs true t).length = 27

lemma reading_dayAt : ∀ n ∈ [0, 1, 50, 100, 200], Reading (dayAt n) := by
  have hrange : ∀ n ∈ [0, 1, 50, 100, 200], InRange (dayAt n) ∧ InRange (dayAt n - 90 * microsPerDay) ∧
      (normTs true (dayAt n)).length = 27 := by decide
  intro n hn
  obtain ⟨hclocked, hearly, hts⟩ := hrange n hn
  refine ⟨⟨hclocked, Or.inl rfl⟩, ?_, ⟨hearly, Or.inl rfl⟩, hts⟩
  rw [Config.cutoff]
  exact if_pos hearly

/-- What holds of the log behind so many entries of the run. -/
structure Steady (log : Log) (now : Instant) (s : Held idleRuntime idleConfig) (n : ℕ) : Prop where
  sane : Sane log now s
  fits : Fits s
  last : ∃ hash : Hex64, s.last Line.next = ⟨n, PyStr.ofString hash.text⟩

lemma steady_fresh : Steady .fresh (dayAt 0) ⟨.genesis, [], []⟩ 0 := by
  refine ⟨sane_fresh idleRuntime idleConfig (dayAt 0), ?_, Sha256.genesis, rfl⟩
  simp [Fits, Segments.all]

/-- Numbers of one digit. -/
lemma digit_width {n : ℕ} (hn : n < 9) : (toString ((n : ℤ) + 1)).length = 1 := by
  have hall : ∀ n : ℕ, n < 9 → (toString ((n : ℤ) + 1)).length = 1 := by decide
  exact hall n hn

lemma line_fits {l : Line idleRuntime idleConfig} {n : ℕ} (hn : n < 9) {hash : Hex64} (hfields : l.fields = makeFields idleCall)
    (hchain : l.chain = ⟨n, PyStr.ofString hash.text⟩) (hnow : Reading l.now) : l.bytes.length < tailWindow := by
  have hwidth : (l.entry.map memberWidth).sum = (l.pairs.map pairWidth).sum := by
    rw [Line.entry, keyed, List.map_map]
    refine congrArg List.sum (List.map_congr_left fun p _ => ?_)
    simp [memberWidth, pairWidth, PyStr.ofString, PyStr.ofChars, String.length_toList]
  have hbytes := bytes_length l
  have hfixed := fields_width
  have hprev := hexText_length hash
  have hown := hexText_length l.hash
  have hts : (PyStr.ofString (normTs idleConfig.pads l.now)).length = 27 := by
    rw [PyStr.ofString, PyStr.ofChars, List.length_map]
    exact hnow.ts
  have hpairs : (l.pairs.map pairWidth).sum = 6 * "seq".length + 1 + 4 + (6 * "ts".length + (6 * 27 + 2) + 4 +
      (6 * "prev_hash".length + (6 * 64 + 2) + 4 + (((makeFields idleCall).pairs.map pairWidth).sum +
        (6 * "entry_hash".length + (6 * 64 + 2) + 4)))) := by
    simp only [Line.pairs, unhashed, hfields, hchain, List.cons_append, List.map_cons, List.map_append, List.map_nil, List.sum_cons,
      List.sum_append, List.sum_nil, pairWidth, widest, digit_width hn, hts, hprev, hown, Nat.add_zero]
  have hnames : "seq".length = 3 ∧ "ts".length = 2 ∧ "prev_hash".length = 9 ∧ "entry_hash".length = 10 := by decide
  rw [hwidth, hpairs] at hbytes
  rw [tailWindow]
  omega

lemma Fits.add {s : Held rt cfg} (h : Fits s) (hrest : s.left ≠ [] → s.kept ≠ []) {name : String} {l : Line rt cfg}
    (hl : l.bytes.length < tailWindow) : Fits (s.add name l) := by
  unfold Fits
  rw [all_add hrest]
  intro m hm l' hl'
  rcases added_cases name l s.all with ⟨init, es, hinit, hadded⟩ | ⟨-, hadded⟩
  · rw [hadded] at hm
    rcases List.mem_append.mp hm with hm | hm
    · exact h m (hinit ▸ List.mem_append_left _ hm) l' hl'
    · obtain rfl := List.mem_singleton.mp hm
      rw [List.getLast?_concat, Option.mem_some_iff] at hl'
      exact hl' ▸ hl
  · rw [hadded] at hm
    rcases List.mem_append.mp hm with hm | hm
    · exact h m hm l' hl'
    · obtain rfl := List.mem_singleton.mp hm
      obtain rfl := Option.some.inj hl'
      exact hl

lemma Steady.writable {log : Log} {now : Instant} {s : Held idleRuntime idleConfig} {n : ℕ} (h : Steady log now s n) (hn : n < 9)
    (now' : Instant) : ∀ p ∈ unhashed idleConfig (makeFields idleCall) (s.last Line.next) now', Writable p := by
  obtain ⟨hash, hlast⟩ := h.last
  rw [hlast]
  intro p hp
  simp only [unhashed, List.mem_cons] at hp
  rcases hp with rfl | rfl | rfl | hp
  · have hdigit := digit_width hn
    refine ⟨rfl, decide_eq_true ?_, rfl⟩
    have habs : (toString ((n : ℤ) + 1).natAbs) = toString ((n : ℤ) + 1) := rfl
    rw [habs, hdigit]
    decide
  · exact ⟨rfl, rfl, PyStr.scalars_ofString _⟩
  · exact ⟨rfl, rfl, PyStr.scalars_ofString _⟩
  · exact fields_writable p hp

/-- Where nothing is dropped, the entry of a call is added to what is there. -/
lemma Steady.append {log : Log} {now now' : Instant} {s : Held idleRuntime idleConfig} {n : ℕ} (h : Steady log now s n) (hn : n < 9)
    (hle : now ≤ now') (hnow : Reading now') (hnone : ¬ Retains idleConfig log.disk now') :
    ∃ log' l, idleRuntime.append idleConfig log (makeFields idleCall) now' = .ok (log', Line.entry l) ∧
      Steady log' now' (s.add (fileName idleConfig now') l) (n + 1) := by
  obtain ⟨⟨log', entry⟩, happend⟩ := h.sane.append_through h.fits hnow.clocked hnow.window (h.writable hn now')
  obtain ⟨chain, disk', hchain, hlocked, rfl⟩ := Runtime.append_ok happend
  obtain rfl := h.sane.holds.chain h.sane.held hchain
  obtain ⟨l, r, rfl, ⟨hfields, hprev, hts⟩, hr, hlast', hcases⟩ := h.sane.holds.appended hle hnow.clocked hlocked
  obtain ⟨hash, hlast⟩ := h.last
  rcases hcases with ⟨-, rfl⟩ | ⟨hretains, -⟩
  · refine ⟨_, l, happend, ⟨hr, fun c hc => ?_⟩, ?_, l.hash, ?_⟩
    · rw [chainIn_entry, Option.mem_some_iff] at hc
      rw [← hc, hlast']
    · refine h.fits.add h.sane.holds.sound.rest (line_fits hn hfields (hprev.trans hlast) ?_)
      rw [hts]
      exact hnow
    · rw [hlast', Line.next, hprev, hlast]
      push_cast
      rfl
  · exact absurd hretains hnone

lemma Steady.release {log : Log} {now : Instant} {s : Held idleRuntime idleConfig} {n : ℕ} (h : Steady log now s n) :
    Steady (idleRuntime.step idleConfig log .release) now s n :=
  ⟨⟨h.sane.holds, by simp [Runtime.step]⟩, h.fits, h.last⟩

lemma step_append {log log' : Log} {fields : EntryFields} {entry : Members} (h : rt.append cfg log fields now = .ok (log', entry)) :
    rt.step cfg log (.append fields now) = log' := by
  rw [Runtime.step, h]

/-- A crash behind the anchor leaves all the old files behind it. -/
lemma Steady.crash {log : Log} {now now' : Instant} {s : Held idleRuntime idleConfig} {n : ℕ} (h : Steady log now s n) (hn : n < 9)
    (hle : now ≤ now') (hnow : Reading now') (hretains : Retains idleConfig log.disk now') :
    ∃ s' : Held idleRuntime idleConfig, s'.left ≠ [] ∧ s'.all = s.all ∧
      Steady (idleRuntime.step idleConfig log (.crash (makeFields idleCall) now' 1)) now' s' n := by
  have hchain := h.sane.chain_through h.fits
  obtain ⟨hash, hhash⟩ := hash_through idleRuntime (h.writable hn now')
  obtain ⟨stages, hstages⟩ := h.sane.holds.stages_through h.fits hnow.clocked hnow.window
  have hstep : idleRuntime.step idleConfig log (.crash (makeFields idleCall) now' 1) = ⟨stages[1]?.getD log.disk, none⟩ := by
    simp only [Runtime.step, Runtime.crashed, hchain, hhash, hstages, bind, Except.bind, pure, Except.pure]
  rcases h.sane.holds.stages hnow.clocked hle hstages with ⟨hnone, -⟩ | ⟨-, old, young, hall, hold, -, left, rfl, hleft⟩
  · exact absurd hretains hnone
  · have hfirst : (log.disk :: (List.range (old.length + 1)).map left)[1]?.getD log.disk = left 0 := by
      rw [List.range_succ_eq_map]
      rfl
    have hall' : (s.drop Line.next old young 0).all = s.all := hall.symm
    rw [hstep, hfirst]
    refine ⟨_, hold, hall', ⟨hleft 0 (Nat.zero_le _), by simp⟩, ?_, ?_⟩
    · unfold Fits
      rw [hall']
      exact h.fits
    · rw [last_drop hall]
      exact h.last

/-! ### What the window holds -/

lemma behind_iff {t u : Instant} (ht : Clocked cfg t) (hu : Clocked cfg u) :
    fileDay (fileName cfg t) < dayText cfg u ↔ dayChars t < dayChars u := by
  rw [fileDay_name ht, String.lt_iff_toList_lt, String.toList_ofList, dayText_chars hu]

lemma Holds.retains_iff {disk : Disk} {now now' : Instant} {s : Held idleRuntime idleConfig} (h : Holds disk now s) (hnow : Reading now') :
    Retains idleConfig disk now' ↔ (∃ m ∈ s.all, fileDay m.1 < dayText idleConfig (now' - 90 * microsPerDay)) ∧
      ∃ m ∈ s.all, ¬ fileDay m.1 < dayText idleConfig (now' - 90 * microsPerDay) := by
  have hfiles (P : String → Prop) : (∃ f ∈ disk.daily, P f.1) ↔ ∃ m ∈ s.all, P m.1 := by
    rw [h.daily, filesOf]
    simp
  have hwindow := hnow.window
  generalize dayText idleConfig (now' - 90 * microsPerDay) = day at hwindow
  rw [Retains]
  constructor
  · rintro ⟨cutoff, hcutoff, hold, hyoung⟩
    obtain rfl := Except.ok.inj (hwindow.symm.trans hcutoff)
    exact ⟨(hfiles (fileDay · < day)).mp hold, (hfiles (¬ fileDay · < day)).mp hyoung⟩
  · rintro ⟨hold, hyoung⟩
    exact ⟨day, hwindow, (hfiles (fileDay · < day)).mpr hold, (hfiles (¬ fileDay · < day)).mpr hyoung⟩

/-! ### Behind appends -/

/-- Behind every append that goes through `verify` reports ok with its entry as the head, unless an interrupted retention was
found and nothing is dropped; and a file is kept as long as it is inside the window. -/
theorem verified_behind_appends {events : List Event} (h : Timely cfg events) :
    (∀ earlier fields now later log entry, events = earlier ++ .append fields now :: later →
      rt.append cfg (rt.run cfg earlier) fields now = .ok (log, entry) →
        ((∃ chain, chainIn entry = some chain ∧ Verified rt log.disk chain) ↔
          (Interrupted rt (rt.run cfg earlier).disk → Retains cfg (rt.run cfg earlier).disk now))) ∧
      ∀ earlier later name file, events = earlier ++ later → (∀ t ∈ later.filterMap Event.now, Inside cfg t name) →
        (rt.run cfg earlier).disk.files.get name = some file →
          ∃ file', (rt.run cfg events).disk.files.get name = some file' ∧ file <+: file' := by
  constructor
  · rintro earlier fields now later log entry rfl happend
    exact appended_verified h happend
  · rintro earlier later name file rfl hinside hfile
    exact run_keeps h hinside hfile

/-- Behind the first call of all. -/
theorem verified_behind_first : ∃ log entry chain,
    idleRuntime.append idleConfig .fresh (makeFields idleCall) (dayAt 0) = .ok (log, entry) ∧ chainIn entry = some chain ∧
      Verified idleRuntime log.disk chain := by
  have hnow := reading_dayAt 0 (by decide)
  have htimely : Timely idleConfig [.append (makeFields idleCall) (dayAt 0)] := by
    refine ⟨fun t ht => ?_, List.pairwise_singleton _ _⟩
    obtain rfl := List.mem_singleton.mp ht
    exact hnow.clocked
  obtain ⟨log, l, happend, -⟩ := steady_fresh.append (by decide) le_rfl hnow (by
    rw [steady_fresh.sane.holds.retains_iff hnow]
    simp [Segments.all])
  have hfirst := (verified_behind_appends htimely).1 [] (makeFields idleCall) (dayAt 0) [] log l.entry rfl happend
  obtain ⟨chain, hchain, hok⟩ := hfirst.mpr (by
    rintro ⟨a, ha, -⟩
    cases ha)
  exact ⟨log, l.entry, chain, happend, hchain, hok⟩

/-- The crash at day 100 comes behind the anchor for the file of day 0. At day 200 all the files lie behind the window, none is
dropped, and the file of day 0 stays behind the anchor. -/
theorem idle_unverified : ∃ log entry,
    idleRuntime.append idleConfig (idleRuntime.run idleConfig idleRun) (makeFields idleCall) (dayAt 200) = .ok (log, entry) ∧
      ¬ ∃ chain, chainIn entry = some chain ∧ Verified idleRuntime log.disk chain := by
  have h0 := reading_dayAt 0 (by decide)
  have h50 := reading_dayAt 50 (by decide)
  have h100 := reading_dayAt 100 (by decide)
  have h200 := reading_dayAt 200 (by decide)
  have hdays : dayAt 0 ≤ dayAt 50 ∧ dayAt 50 ≤ dayAt 100 ∧ dayAt 100 ≤ dayAt 200 := by decide
  -- the first two calls
  obtain ⟨log₁, l₁, happend₁, hlog₁⟩ := steady_fresh.append (by decide) le_rfl h0 (by
    rw [steady_fresh.sane.holds.retains_iff h0]
    simp [Segments.all])
  have hall₁ : (Segments.add ⟨Chain.genesis, [], []⟩ (fileName idleConfig (dayAt 0)) l₁).all = [(fileName idleConfig (dayAt 0), [l₁])] := rfl
  have hreleased₁ := hlog₁.release
  obtain ⟨log₂, l₂, happend₂, hlog₂⟩ := hreleased₁.append (by decide) hdays.1 h50 (by
    rw [hreleased₁.sane.holds.retains_iff h50, hall₁]
    simp)
  have hnames : fileName idleConfig (dayAt 0) ≠ fileName idleConfig (dayAt 50) :=
    (fileName_lt h0.clocked h50.clocked (by decide)).ne
  have hreleased₂ := hlog₂.release
  have hall₂ := all_add hreleased₁.sane.holds.sound.rest (fileName idleConfig (dayAt 50)) l₂
  rw [hall₁, ← List.nil_append [(_, _)], added_other hnames] at hall₂
  -- the crash
  obtain ⟨s, hleft, hall, hcrash⟩ := hreleased₂.crash (by decide) hdays.2.1 h100 (by
    rw [hreleased₂.sane.holds.retains_iff h100, hall₂]
    refine ⟨⟨_, List.mem_cons_self, ?_⟩, _, List.mem_cons_of_mem _ List.mem_cons_self, ?_⟩
    · exact (behind_iff h0.clocked h100.early).mpr (by decide)
    · exact fun hlt => absurd ((behind_iff h50.clocked h100.early).mp hlt) (by decide))
  rw [hall₂] at hall
  -- the next call
  obtain ⟨log, l, happend, hlog⟩ := hcrash.append (by decide) hdays.2.2 h200 (by
    rw [hcrash.sane.holds.retains_iff h200, hall]
    rintro ⟨-, m, hm, hyoung⟩
    rcases List.mem_cons.mp hm with rfl | hm
    · exact hyoung ((behind_iff h0.clocked h200.early).mpr (by decide))
    · obtain rfl := List.mem_singleton.mp hm
      exact hyoung ((behind_iff h50.clocked h200.early).mpr (by decide)))
  have hrun : idleRuntime.run idleConfig idleRun =
      idleRuntime.step idleConfig (idleRuntime.step idleConfig log₂ .release) (.crash (makeFields idleCall) (dayAt 100) 1) := by
    rw [← step_append happend₂, ← step_append happend₁, Runtime.run, idleRun, List.foldl_cons, List.foldl_cons, List.foldl_cons,
      List.foldl_cons, List.foldl_cons, List.foldl_nil]
  rw [hrun]
  refine ⟨log, l.entry, happend, ?_⟩
  rintro ⟨chain, hchain, hverified⟩
  obtain rfl := Option.some.inj ((chainIn_entry l).symm.trans hchain)
  have hlast : (s.add (fileName idleConfig (dayAt 200)) l).last Line.next = l.next :=
    last_add hcrash.sane.holds.sound.rest (fileName idleConfig (dayAt 200)) l
  rw [← hlast] at hverified
  exact hleft (hlog.sane.holds.verified_iff.mp hverified)

end ContinuityLedger.CallLog
