import ContinuityLedger.Foundations.CalendarOrder
import ContinuityLedger.Foundations.Checks
import ContinuityLedger.Foundations.IntText
import ContinuityLedger.CallLog.Readback

/-! The names of the daily files are in the order of their days, and what the anchor that stands for deleted files is read as. -/

namespace ContinuityLedger.CallLog

open Foundations Foundations.Sha256 Foundations.Codec Foundations.Calendar Foundations.Timestamps Foundations.Json

/-! ### Dates -/

/-- A reading that `strftime` writes with four digits for its year. -/
structure Clocked (cfg : Config) (t : Instant) : Prop where
  range : InRange t
  year : cfg.pads = true ∨ 1000 ≤ (civil (day t)).year

variable {cfg : Config} {s t : Instant}

lemma dayText_chars (h : Clocked cfg t) : (dayText cfg t).toList = dayChars t := by
  rw [dayText, yearText_eq h.range h.year, String.toList_append, String.toList_append]
  rfl

lemma fileName_chars (h : Clocked cfg t) : (fileName cfg t).toList = filePrefix.toList ++ (dayChars t ++ fileSuffix.toList) := by
  rw [fileName, String.toList_append, String.toList_append, dayText_chars h, List.append_assoc]

lemma fileDay_name (h : Clocked cfg t) : fileDay (fileName cfg t) = String.ofList (dayChars t) := by
  obtain ⟨hlen, -, -⟩ := dayChars_spec h.range
  rw [fileDay, fileName_chars h, List.drop_left, List.take_append_of_le_length hlen.ge, List.take_of_length_le hlen.le]

/-- The days decide about the names. -/
lemma fileName_lt (hs : Clocked cfg s) (ht : Clocked cfg t) (h : dayChars s < dayChars t) : fileName cfg s < fileName cfg t := by
  obtain ⟨hslen, -, -⟩ := dayChars_spec hs.range
  obtain ⟨htlen, -, -⟩ := dayChars_spec ht.range
  rw [String.lt_iff_toList_lt, fileName_chars hs, fileName_chars ht]
  exact List.append_left_lt (append_lt h (hslen.trans htlen.symm) _ _)

lemma fileName_le (hs : Clocked cfg s) (ht : Clocked cfg t) (h : s ≤ t) : fileName cfg s ≤ fileName cfg t := by
  rcases lt_or_eq_of_le (dayChars_le h hs.range ht.range) with hlt | heq
  · exact (fileName_lt hs ht hlt).le
  · have hname : (fileName cfg s).toList = (fileName cfg t).toList := by rw [fileName_chars hs, fileName_chars ht, heq]
    exact (String.toList_injective hname).le

/-- Of two names the earlier has no later day. -/
lemma fileDay_le (hs : Clocked cfg s) (ht : Clocked cfg t) (h : fileName cfg s ≤ fileName cfg t) :
    fileDay (fileName cfg s) ≤ fileDay (fileName cfg t) := by
  rw [fileDay_name hs, fileDay_name ht, String.le_iff_toList_le, String.toList_ofList, String.toList_ofList]
  by_contra hlt
  exact absurd h (not_le_of_gt (fileName_lt ht hs (lt_of_not_ge hlt)))

lemma isDaily_name (h : Clocked cfg t) : isDaily (fileName cfg t) = true := by
  obtain ⟨hlen, hdigits, -⟩ := dayChars_spec h.range
  have hall : (dayChars t).all (fun c => (PyText.decimalValue c).isSome) = true := by
    refine List.all_eq_true.mpr fun c hc => ?_
    have hc := List.all_eq_true.mp hdigits c hc
    rw [PyText.decimalValue_digit]
    · rfl
    · simpa [PyText.isAsciiDigit, Char.isDigit, Char.le_def] using hc
  rw [isDaily, anchored, fileName_chars h, started, List.drop_left, List.isPrefixOf_iff_prefix.mpr (List.prefix_append _ _),
    List.take_append_of_le_length hlen.ge, List.take_of_length_le hlen.le, List.drop_append_of_le_length hlen.ge,
    List.drop_of_length_le hlen.le, hall, hlen]
  simp

/-! ### The texts of the anchor -/

lemma printable_padded (w n : ℕ) : Data.Printable (padded w n).toList := by
  intro c hc
  have hdigit := List.all_eq_true.mp (padded_digits w n) c hc
  have hzero : '0'.toNat = 0x30 := rfl
  have hbounds := digit_bounds hdigit
  omega

lemma printable_day (t : Instant) : Data.Printable (dayChars t) := by
  rw [dayChars]
  exact Data.printable_append.mpr ⟨Data.printable_append.mpr ⟨printable_padded _ _, printable_padded _ _⟩, printable_padded _ _⟩

lemma printable_fileName (h : Clocked cfg t) : Data.Printable (fileName cfg t).toList := by
  rw [fileName_chars h]
  exact Data.printable_append.mpr ⟨by decide, Data.printable_append.mpr ⟨printable_day t, by decide⟩⟩

lemma printable_text (t : Instant) : Data.Printable (Calendar.text t).toList := by
  have hmark : ∀ s ∈ ["-", "T", ":", "."], Data.Printable s.toList := by decide
  have hdash := hmark "-" (by decide)
  have htime := hmark "T" (by decide)
  have hcolon := hmark ":" (by decide)
  have hpoint := hmark "." (by decide)
  simp only [Calendar.text, minuteText, dateText, String.toList_append, Data.printable_append, printable_padded, hdash, htime,
    hcolon, hpoint, and_self]

lemma printable_ts (h : Clocked cfg t) : Data.Printable (normTs cfg.pads t).toList := by
  rw [normTs, yearText_eq h.range h.year, String.toList_append, String.toList_append, String.toList_ofList]
  refine Data.printable_append.mpr ⟨Data.printable_append.mpr ⟨printable_padded _ _, ?_⟩, by decide⟩
  exact fun c hc => printable_text t c (List.mem_of_mem_drop hc)

/-! ### The anchor -/

/-- The anchor that is read: what the first entry follows, and the last of the files that it stands for. -/
structure AnchorReads (rt : Runtime) (raw : Bytes) (chain : Chain) (file : String) : Prop where
  reads : ∃ d, rt.loadsFile (some raw) = some (.ok (.obj d)) ∧ subscript (.obj d) "seq" = .ok (.int chain.seq) ∧
    subscript (.obj d) "entry_hash" = .ok (.str chain.entryHash) ∧
    subscript (.obj d) "file" = .ok (.str (PyStr.ofString file))

/-- A character that `json.dumps` writes as it is. -/
def IsPlain (p : PyChar) : Prop := ∃ c : Char, p = .scalar c ∧ 0x20 ≤ c.toNat ∧ c.toNat < 0x7f

lemma plain_ofString {s : String} (h : Data.Printable s.toList) : ∀ p ∈ PyStr.ofString s, IsPlain p :=
  List.forall_mem_map.mpr fun c hc => ⟨c, rfl, h c hc⟩

lemma asciiEscape_plain {s : PyStr} (h : ∀ p ∈ s, IsPlain p) : s.flatMap asciiEscape = s := by
  induction s with
  | nil => rfl
  | cons p s ih =>
    obtain ⟨⟨c, rfl, -, hc⟩, hs⟩ := List.forall_mem_cons.mp h
    rw [List.flatMap_cons, ih hs, asciiEscape]
    simp [PyStr.code, hc]

variable {rt : Runtime}

def anchorPairs (cfg : Config) (t : Instant) (chain : Chain) (file : String) : List (String × Json) :=
  [("seq", .int chain.seq), ("entry_hash", .str chain.entryHash), ("file", .str (PyStr.ofString file)),
    ("deleted_at", .str (PyStr.ofString (normTs cfg.pads t)))]

lemma nodup_anchorPairs (chain : Chain) (file : String) : ((anchorPairs cfg t chain file).map Prod.fst).Nodup := by
  have hnames : (anchorPairs cfg t chain file).map Prod.fst = ["seq", "entry_hash", "file", "deleted_at"] := rfl
  rw [hnames]
  decide

lemma flat_anchorPairs (chain : Chain) (file : String) : ∀ p ∈ anchorPairs cfg t chain file, flat p.2 = true := by
  intro p hp
  simp only [anchorPairs, List.mem_cons, List.not_mem_nil, or_false] at hp
  rcases hp with rfl | rfl | rfl | rfl <;> rfl

/-- The anchor is written in plain characters. -/
lemma plain_anchor (ht : Clocked cfg t) (l : Line rt cfg) {file : String} (hfile : Data.Printable file.toList) :
    ∀ p ∈ rendered [.scalar ' '] (.obj (keyed (anchorPairs cfg t l.next file))), IsPlain p := by
  have hgap : ∀ p ∈ [PyChar.scalar ' '], IsPlain p := by
    intro p hp
    obtain rfl := List.mem_singleton.mp hp
    exact ⟨' ', rfl, by decide, by decide⟩
  refine every_rendered (fun c hl hu => ⟨c, rfl, hl, hu⟩) hgap (everyMember_iff.mpr fun m hm => ?_)
  obtain ⟨p, hp, rfl⟩ := List.mem_map.mp hm
  have hstr : ∀ {s : String}, Data.Printable s.toList → everyChar IsPlain (.str (PyStr.ofString s)) :=
    fun h q hq => Or.inr (plain_ofString h q hq)
  have hnames : ∀ name ∈ ["seq", "entry_hash", "file", "deleted_at"], Data.Printable name.toList := by decide
  refine ⟨fun q hq => Or.inr (plain_ofString (hnames p.1 (List.mem_map_of_mem (f := Prod.fst) hp)) q hq), ?_⟩
  simp only [anchorPairs, List.mem_cons, List.not_mem_nil, or_false] at hp
  rcases hp with rfl | rfl | rfl | rfl
  · trivial
  · exact hstr (printable_hexText l.hash)
  · exact hstr hfile
  · exact hstr (printable_ts ht)

/-- A JSON text without breaks is read from its file as it was written. -/
lemma loadsFile_chars {cs : List Char} (h : '\r' ∉ cs) : rt.loadsFile (some (PyStr.utf8Chars cs)) = some (rt.loads cs) := by
  have hcs : decoded (PyStr.utf8Chars cs) = cs := PyStr.decode_utf8Chars cs
  rw [Runtime.loadsFile, Option.map_some, hcs, if_pos rfl, PyText.newlines_of_free h]

lemma anchorOf_line (l : Line rt cfg) (ht : Clocked cfg t) {file : String} (hfile : Data.Printable file.toList) {raw : Bytes}
    (h : rt.anchorOf cfg t file l.chars = .ok raw) : AnchorReads rt raw l.next file := by
  have hvalue : rt.anchorOf cfg t file l.chars = (do
      let text ← rt.dumpsDefault (.obj (keyed (anchorPairs cfg t l.next file)))
      (PyStr.encode text).elim (.error .value) .ok) := by
    simp only [Runtime.anchorOf, l.loads_chars, l.subscript_seq, l.subscript_hash, bind, Except.bind]
    rfl
  rw [hvalue] at h
  obtain ⟨text, htext, h⟩ := Checks.bind_ok h
  unfold Runtime.dumpsDefault at htext
  split_ifs at htext with hprint hdepth
  obtain rfl := Except.ok.inj htext
  have hplain := plain_anchor ht l hfile
  rw [asciiEscape_plain hplain] at h
  cases hbytes : PyStr.encode (rendered [.scalar ' '] (.obj (keyed (anchorPairs cfg t l.next file)))) with
  | none =>
    rw [hbytes] at h
    cases h
  | some b =>
    rw [hbytes] at h
    obtain rfl := Except.ok.inj h
    obtain ⟨cs, hcs, rfl⟩ := PyStr.encode_eq_some hbytes
    have hfree : '\r' ∉ cs := by
      intro hmem
      obtain ⟨c, hc, hl, -⟩ := hplain (.scalar '\r') (hcs ▸ List.mem_map_of_mem hmem)
      obtain rfl := PyChar.scalar.inj hc
      exact absurd hl (by decide)
    have hproper : proper rt.python (.obj (keyed (anchorPairs cfg t l.next file))) := by
      refine ⟨keys_keyed (nodup_anchorPairs _ _), properMembers_iff.mpr fun m hm => ?_⟩
      obtain ⟨p, hp, rfl⟩ := List.mem_map.mp hm
      have hall : printable (.obj (keyed (anchorPairs cfg t l.next file))) = true := by simpa using hprint
      rw [printable, printableMembers_eq, List.all_eq_true] at hall
      exact proper_flat rt.python (flat_anchorPairs _ _ p hp) (hall _ hm)
    have hgap : Blank [.scalar ' '] := by simp [Blank, isSpace]
    have hread := loads_rendered rt.python hgap hproper
      ((depth_keyed (flat_anchorPairs _ _)).trans_le rt.python.loads_pos)
    rw [hcs] at hread
    refine ⟨keyed (anchorPairs cfg t l.next file), ?_, ?_, ?_, ?_⟩
    · rw [loadsFile_chars hfree, Runtime.loads, hread]
      rfl
    · exact congrArg (Option.elim · _ _) (member_keyed (p := ("seq", .int l.next.seq)) (nodup_anchorPairs _ _) (by simp [anchorPairs]))
    · exact congrArg (Option.elim · _ _)
        (member_keyed (p := ("entry_hash", .str l.next.entryHash)) (nodup_anchorPairs _ _) (by simp [anchorPairs]))
    · exact congrArg (Option.elim · _ _)
        (member_keyed (p := ("file", .str (PyStr.ofString file))) (nodup_anchorPairs _ _) (by simp [anchorPairs]))

end ContinuityLedger.CallLog
