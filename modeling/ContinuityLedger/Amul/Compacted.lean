import ContinuityLedger.Amul.Compact
import ContinuityLedger.Amul.Durable

/-! Runs of appends, crashes, restarts and compactions. The checkpoints stand for the lines they were made of, as long as no
line begins behind one that is not ended and no line is sealed that the field could not read. -/

namespace ContinuityLedger.Amul

open Foundations Foundations.Sha256

/-! ### Raw lines of a field -/

lemma utf8Chars_byte {cs : List Char} (h : Data.Printable cs) : ∀ b ∈ PyStr.utf8Chars cs, 0x20 ≤ b.toNat ∧ b.toNat < 0x7f := by
  intro b hb
  obtain ⟨c, hc, hb⟩ := List.mem_flatMap.mp hb
  have hrange := h c hc
  rw [utf8_ascii (by omega)] at hb
  obtain rfl := List.mem_singleton.mp hb
  rwa [PyStr.toNat_ofNat_lt (by omega)]

lemma splitKeep_cons {b : UInt8} (h : 0x20 ≤ b.toNat) (acc bs : Bytes) : splitKeep acc (b :: bs) = splitKeep (acc ++ [b]) bs := by
  have hne : ∀ k : UInt8, k.toNat < 0x20 → b ≠ k := by
    rintro k hk rfl
    omega
  rw [splitKeep, if_neg]
  · rintro (h10 | h13)
    · exact hne 10 (by decide) h10
    · exact hne 13 (by decide) h13
  · exact fun _ h13 => absurd h13 (hne 13 (by decide))

lemma splitKeep_break {bs : Bytes} (h : ∀ b ∈ bs, 0x20 ≤ b.toNat) (acc rest : Bytes) :
    splitKeep acc (bs ++ 10 :: rest) = (acc ++ bs ++ [10]) :: splitKeep [] rest := by
  induction bs generalizing acc with
  | nil =>
    rw [List.nil_append, splitKeep, if_pos (.inl rfl), List.append_nil]
    simp
  | cons b bs ih =>
    obtain ⟨hb, hbs⟩ := List.forall_mem_cons.mp h
    rw [List.cons_append, splitKeep_cons hb, ih hbs]
    simp

lemma splitKeep_last {bs : Bytes} (h : ∀ b ∈ bs, 0x20 ≤ b.toNat) (acc : Bytes) :
    splitKeep acc bs = if acc ++ bs = [] then [] else [acc ++ bs] := by
  induction bs generalizing acc with
  | nil => rw [splitKeep, List.append_nil]
  | cons b bs ih =>
    obtain ⟨hb, hbs⟩ := List.forall_mem_cons.mp h
    rw [splitKeep_cons hb, ih hbs]
    simp

/-- A line that begins with a brace is not blank. -/
lemma not_blank {bs : Bytes} {cs : List Char} (h : bs = PyStr.utf8Chars ('{' :: cs)) : (!bs.all isBlankByte) = true := by
  rw [h]
  rfl

lemma rawLines_append (as : List Artifact) (bs : Bytes) : rawLines (as.flatMap line ++ bs) = as.map line ++ rawLines bs := by
  induction as with
  | nil => rfl
  | cons a as ih =>
    have hbreak : PyStr.utf8Chars ['\n'] = [10] := by decide
    obtain ⟨cs, hcs⟩ := a.text_head
    have hline : line a = PyStr.utf8Chars ('{' :: (cs ++ ['\n'])) := by
      rw [line, hcs]
      rfl
    have hsplit : (a :: as).flatMap line ++ bs = PyStr.utf8Chars a.text ++ 10 :: (as.flatMap line ++ bs) := by
      rw [List.flatMap_cons, line, utf8Chars_append, hbreak]
      simp
    have hkept : [] ++ PyStr.utf8Chars a.text ++ [10] = line a := by
      rw [line, utf8Chars_append, hbreak]
      rfl
    rw [rawLines, hsplit, splitKeep_break (fun b hb => (utf8Chars_byte a.printable_text b hb).1), hkept,
      List.filter_cons, if_pos (not_blank hline), ← rawLines, ih, List.map_cons, List.cons_append]

lemma rawLines_torn {p cs : List Char} (hp : Data.Printable p) (h : p = '{' :: cs) :
    rawLines (PyStr.utf8Chars p) = [PyStr.utf8Chars p] := by
  have hne : [] ++ PyStr.utf8Chars p ≠ [] := by
    rw [h]
    exact List.cons_ne_nil _ _
  rw [rawLines, splitKeep_last (fun b hb => (utf8Chars_byte hp b hb).1), if_neg hne, List.nil_append,
    List.filter_cons, if_pos (not_blank (congrArg PyStr.utf8Chars h)), List.filter_nil]

/-- Every line of the file is an artifact. -/
def Readable (py : Python) (file : Bytes) : Prop :=
  ∃ ls, textLines file = some ls ∧ ∀ l ∈ ls, strip l = [] ∨ (Artifact.parse py (strip l)).isSome

/-- A field without a cut line has a line for each artifact. -/
lemma Holds.length_lines {py : Python} (hpy : 3 ≤ py.loadsNesting) {file : Bytes} {as : List Artifact} (h : Holds file as)
    (hread : Readable py file) : (rawLines file).length = as.length := by
  cases h with
  | ended =>
    have hraw := rawLines_append as []
    rw [List.append_nil] at hraw
    rw [hraw, List.length_append, List.length_map]
    rfl
  | torn as a p q hp hq h =>
    have hprint : Data.Printable p := fun c hc => a.printable_text c (h ▸ List.mem_append_left q hc)
    obtain ⟨ls, hls, hall⟩ := hread
    rw [textLines_artifacts as hprint, if_neg hp] at hls
    obtain ⟨hne, hparse⟩ := Artifact.parse_strip_torn py hpy a hp hq h
    rcases hall p (Option.some.inj hls ▸ by simp) with hnil | hsome
    · exact absurd hnil hne
    · simp [hparse] at hsome
  | unended as a =>
    obtain ⟨cs, hcs⟩ := a.text_head
    rw [rawLines_append, rawLines_torn a.printable_text hcs]
    simp

/-- What is written behind ended lines leaves the lines before it. -/
lemma Holds.lines_step (py : Python) {s : Store} {as : List Artifact} (h : Holds s.file as) {e : Event}
    (he : e.written ≠ [] → Ended s.file) : ∃ more, rawLines (e.step py s).file = rawLines s.file ++ more := by
  have hfile : (e.step py s).file = s.file ++ e.written := by cases e <;> simp [Event.step, Event.written, AmulField.append]
  by_cases hnil : e.written = []
  · exact ⟨[], by rw [hfile, hnil, List.append_nil, List.append_nil]⟩
  · have hraw := rawLines_append as []
    rw [List.append_nil] at hraw
    refine ⟨rawLines e.written, ?_⟩
    rw [hfile, h.ended_inv (he hnil), rawLines_append, hraw]
    simp [rawLines, splitKeep]

/-! ### Chains -/

/-- Checkpoints as `compact` makes them over these lines, one behind the other. -/
inductive Chain (lines : List Bytes) : List Checkpoint → Prop
  | nil : Chain lines []
  | snoc {cps : List Checkpoint} {cp : Checkpoint} (before : Chain lines cps) (start : cp.rangeStart = covered cps)
      (grows : cp.rangeStart < cp.rangeEnd) (within : cp.rangeEnd ≤ lines.length)
      (counts : cp.rangeStart + (cp.coldCount + cp.hotCount) = cp.rangeEnd)
      (prev : cp.prevCheckpointSha = cps.getLast?.bind (·.checkpointSha)) (addressed : cp.checkpointSha = some cp.address)
      (authentic : rangeAuthenticators lines cp.rangeStart cp.rangeEnd = (cp.rangeSha, cp.merkleRoot))
      (dead : ∀ c ∈ cps, ∀ id ∈ c.coldLedgerIds, id ∉ cp.hotLedgerIds) (printable : cp.printable = true) :
      Chain lines (cps ++ [cp])

lemma covered_concat (cps : List Checkpoint) (cp : Checkpoint) : covered (cps ++ [cp]) = cp.rangeEnd := by
  simp [covered]

lemma range_append {lines : List Bytes} {start stop : ℕ} (h : stop ≤ lines.length) (more : List Bytes) :
    range (lines ++ more) start stop = range lines start stop := by
  rw [range, List.take_append_of_le_length h, range]

namespace Chain

variable {lines : List Bytes} {cps : List Checkpoint}

lemma append (h : Chain lines cps) (more : List Bytes) : Chain (lines ++ more) cps := by
  induction h with
  | nil => exact .nil
  | snoc before start grows within counts prev addressed authentic dead printable ih =>
    refine .snoc ih start grows (within.trans ?_) counts prev addressed ?_ dead printable
    · rw [List.length_append]
      exact Nat.le_add_right _ _
    · rw [← authentic, rangeAuthenticators, range_append within, rangeAuthenticators]

lemma printable (h : Chain lines cps) : ∀ c ∈ cps, c.printable = true := by
  induction h with
  | nil => simp
  | snoc before start grows within counts prev addressed authentic dead printable ih =>
    intro c hc
    rcases List.mem_append.mp hc with hc | hc
    · exact ih c hc
    · exact List.mem_singleton.mp hc ▸ printable

lemma covered_le (h : Chain lines cps) : covered cps ≤ lines.length := by
  cases h with
  | nil => exact Nat.zero_le _
  | snoc before start grows within => rwa [covered_concat]

lemma foldl_max (h : Chain lines cps) : cps.foldl (fun n cp => max n cp.rangeEnd) 0 = covered cps := by
  induction h with
  | nil => rfl
  | snoc before start grows within counts prev addressed authentic dead printable ih =>
    rw [List.foldl_append, ih, ← start, covered_concat]
    exact max_eq_right grows.le

end Chain

lemma chainFailures_append (cps ds : List Checkpoint) (i expected : ℕ) (prev : Option String) :
    chainFailures i expected prev (cps ++ ds) = chainFailures i expected prev cps ++
      chainFailures (i + cps.length) ((cps.getLast?.map (·.rangeEnd)).getD expected)
        ((cps.getLast?.map (·.checkpointSha)).getD prev) ds := by
  induction cps generalizing i expected prev with
  | nil => rfl
  | cons c cps ih =>
    have hend : ((c :: cps).getLast?.map (·.rangeEnd)).getD expected = (cps.getLast?.map (·.rangeEnd)).getD c.rangeEnd := by
      cases cps with
      | nil => rfl
      | cons d cps => simp [List.getLast?_cons]
    have hsha : ((c :: cps).getLast?.map (·.checkpointSha)).getD prev =
        (cps.getLast?.map (·.checkpointSha)).getD c.checkpointSha := by
      cases cps with
      | nil => rfl
      | cons d cps => simp [List.getLast?_cons]
    rw [List.cons_append, chainFailures, ih, chainFailures, hend, hsha, List.length_cons]
    simp only [List.append_assoc, Nat.add_assoc, Nat.add_comm 1]

lemma resurfaced_append (seen : List String) (cps ds : List Checkpoint) :
    resurfaced seen (cps ++ ds) = resurfaced seen cps ++ resurfaced (seen ++ cps.flatMap (·.coldLedgerIds)) ds := by
  induction cps generalizing seen with
  | nil => simp [resurfaced]
  | cons c cps ih => simp [resurfaced, ih]

namespace Chain

variable {lines : List Bytes} {cps : List Checkpoint}

lemma chainFailures_eq (h : Chain lines cps) : chainFailures 0 0 none cps = [] := by
  induction h with
  | nil => rfl
  | @snoc cps cp before start grows within counts prev addressed authentic dead printable ih =>
    have hstart : cp.rangeStart = (cps.getLast?.map (·.rangeEnd)).getD 0 := start
    have hprev : cp.prevCheckpointSha = (cps.getLast?.map (·.checkpointSha)).getD none := by
      rw [prev]
      cases cps.getLast? <;> rfl
    have hcounts : (cp.coldCount : ℤ) + cp.hotCount = (cp.rangeEnd : ℤ) - cp.rangeStart := by omega
    rw [chainFailures_append, ih, ← hstart, ← hprev]
    simp [chainFailures, addressed, hcounts]

lemma resurfaced_eq (h : Chain lines cps) : resurfaced [] cps = [] := by
  induction h with
  | nil => rfl
  | @snoc cps cp before start grows within counts prev addressed authentic dead printable ih =>
    rw [resurfaced_append, ih, List.nil_append, List.nil_append, resurfaced, if_neg]
    · rfl
    · simp only [List.any_eq_true, List.mem_flatMap, decide_eq_true_eq]
      rintro ⟨id, ⟨c, hc, hid⟩, hhot⟩
      exact dead c hc id hid hhot

lemma unauthenticated_eq (h : Chain lines cps) : unauthenticated lines cps = [] := by
  induction h with
  | nil => rfl
  | snoc before start grows within counts prev addressed authentic dead printable ih =>
    rw [unauthenticated] at ih ⊢
    rw [List.flatMap_append, ih]
    simp [authentic]

end Chain

end ContinuityLedger.Amul
