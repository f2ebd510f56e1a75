import ContinuityLedger.Amul.GcRuns

/-! The rules of the checkpoints in every run, and the run that breaks them. -/

namespace ContinuityLedger.Amul

open Foundations Foundations.Sha256

/-- The ranges follow one another from line `n` on. -/
def Tiled (n : ℕ) : List Checkpoint → Prop
  | [] => True
  | cp :: cps => cp.rangeStart = n ∧ cp.rangeStart < cp.rangeEnd ∧ Tiled cp.rangeEnd cps

/-- What the rules promise of a field and its checkpoints. -/
structure Upheld (py : Python) (s : GcStore) : Prop where
  /-- A compaction raises or changes nothing, or appends one checkpoint. -/
  compacted : ∀ call, ((GcEvent.compact call).step py s).file = s.file ∧
    (((GcEvent.compact call).step py s).chain = s.chain ∨
      ∃ cp : Checkpoint, ((GcEvent.compact call).step py s).chain = s.chain ++ cp.line)
  verified : ∃ f report, verifyGc py s.file s.chain s.field = some (f, report) ∧ report.integrityOk = true ∧
    report.ruleG1Ok = true ∧ report.ruleG2DeadStaysDead = true ∧ report.ruleG3ChainContiguous = true
  checkpoints : ∃ cps, Checkpoint.load py s.chain = some cps ∧ Tiled 0 cps ∧ covered cps ≤ (rawLines s.file).length ∧
    (∀ cp ∈ cps, cp.rangeStart + (cp.coldCount + cp.hotCount) = cp.rangeEnd) ∧
    cps.Pairwise fun c d => ∀ id ∈ c.coldLedgerIds, id ∉ d.hotLedgerIds

lemma tiled_append (n : ℕ) (cps ds : List Checkpoint) :
    Tiled n (cps ++ ds) ↔ Tiled n cps ∧ Tiled ((cps.getLast?.map (·.rangeEnd)).getD n) ds := by
  induction cps generalizing n with
  | nil => simp [Tiled]
  | cons c cps ih =>
    have hend : ((c :: cps).getLast?.map (·.rangeEnd)).getD n = (cps.getLast?.map (·.rangeEnd)).getD c.rangeEnd := by
      cases cps with
      | nil => rfl
      | cons d cps => simp [List.getLast?_cons]
    rw [List.cons_append, Tiled, Tiled, ih, hend, and_assoc, and_assoc]

namespace Chain

variable {lines : List Bytes} {cps : List Checkpoint}

lemma tiled (h : Chain lines cps) : Tiled 0 cps := by
  induction h with
  | nil => trivial
  | snoc before start grows within counts prev addressed authentic dead printable ih =>
    exact (tiled_append 0 _ _).mpr ⟨ih, start, grows, trivial⟩

lemma counts (h : Chain lines cps) : ∀ cp ∈ cps, cp.rangeStart + (cp.coldCount + cp.hotCount) = cp.rangeEnd := by
  induction h with
  | nil => simp
  | snoc before start grows within counts prev addressed authentic dead printable ih =>
    intro c hc
    rcases List.mem_append.mp hc with hc | hc
    · exact ih c hc
    · exact List.mem_singleton.mp hc ▸ counts

lemma pairwise (h : Chain lines cps) : cps.Pairwise fun c d => ∀ id ∈ c.coldLedgerIds, id ∉ d.hotLedgerIds := by
  induction h with
  | nil => exact .nil
  | snoc before start grows within counts prev addressed authentic dead printable ih =>
    refine List.pairwise_append.mpr ⟨ih, List.pairwise_singleton _ _, fun c hc d hd => ?_⟩
    exact List.mem_singleton.mp hd ▸ dead c hc

end Chain

lemma altered_nil {as : List Artifact} (h : ∀ a ∈ as, Genuine a) : altered as = [] := by
  rw [altered, List.filter_eq_nil_iff.mpr, List.map_nil]
  intro a ha
  have hg : sha256Text a.payload = a.payloadSha256 := h a ha
  simp [hg]

lemma GcInv.verified (py : Python) {s : GcStore} {as : List Artifact} (hpy : 3 ≤ py.loadsNesting) (h : GcInv s as) :
    ∃ f report, verifyGc py s.file s.chain s.field = some (f, report) ∧ report.integrityOk = true ∧
      report.ruleG1Ok = true ∧ report.ruleG2DeadStaysDead = true ∧ report.ruleG3ChainContiguous = true := by
  obtain ⟨cps, -, hload, hchain⟩ := h.load hpy
  have hall : altered (AmulField.holding as).all = [] :=
    altered_nil fun a ha => h.genuine a (AmulField.mem_all ha)
  have htail : ∀ n, altered ((AmulField.holding as).all.drop n) = [] := fun n =>
    altered_nil fun a ha => h.genuine a (AmulField.mem_all (List.mem_of_mem_drop ha))
  rw [verifyGc, hload, Option.map_some, h.ensureLoaded hpy]
  by_cases hnil : cps = []
  · rw [if_pos hnil]
    refine ⟨_, _, rfl, ?_, rfl, rfl, rfl⟩
    simp [hall]
  · rw [if_neg hnil]
    refine ⟨_, _, rfl, ?_, ?_, ?_, ?_⟩ <;>
      simp [hchain.chainFailures_eq, hchain.resurfaced_eq, hchain.unauthenticated_eq, htail]

lemma compacted_step (py : Python) (s : GcStore) (call : CompactCall) :
    ((GcEvent.compact call).step py s).file = s.file ∧
      (((GcEvent.compact call).step py s).chain = s.chain ∨
        ∃ cp : Checkpoint, ((GcEvent.compact call).step py s).chain = s.chain ++ cp.line) := by
  refine ⟨rfl, ?_⟩
  change s.chain ++ (compact py s.file s.chain s.field call).2.written = s.chain ∨
    ∃ cp : Checkpoint, s.chain ++ (compact py s.file s.chain s.field call).2.written = s.chain ++ cp.line
  cases (compact py s.file s.chain s.field call).2 with
  | raised => exact .inl (List.append_nil _)
  | returned report appended =>
    cases appended with
    | none => exact .inl (List.append_nil _)
    | some cp => exact .inr ⟨cp, rfl⟩

/-- Where no line begins behind one that is not ended, and no compaction meets a line that is no artifact, the rules hold
after every step. -/
theorem rules_upheld (py : Python) (hpy : 3 ≤ py.loadsNesting) (events : List GcEvent)
    (hgenuine : ∀ e ∈ events, ∀ a ∈ e.artifact, Genuine a) (hsound : SoundFrom py .empty events) :
    Upheld py (GcStore.empty.run py events) := by
  have hstart : GcInv .empty [] :=
    ⟨.ended [], .inl rfl, List.forall_mem_nil _, [], rfl, .nil⟩
  obtain ⟨as, hinv⟩ := hstart.run hpy hgenuine hsound
  obtain ⟨cps, -, hload, hchain⟩ := hinv.load hpy
  exact ⟨compacted_step py _, hinv.verified py hpy, cps, hload, hchain.tiled, hchain.covered_le, hchain.counts, hchain.pairwise⟩

def genuine (id : String) : Artifact := { noted id with payloadSha256 := sha256Text "keep" }

def compaction : CompactCall := ⟨[], fun _ => none, (0, some 0), "2026-01-02T00:00:00+00:00", "amul-gc"⟩

/-- A field of whole lines can be compacted. -/
lemma readable_ended (py : Python) (hpy : 3 ≤ py.loadsNesting) (as : List Artifact) : Readable py (as.flatMap line) := by
  have hlines := textLines_artifacts as Data.printable_nil
  rw [PyStr.utf8Chars, List.flatMap_nil, List.append_nil, if_pos rfl, List.append_nil] at hlines
  refine ⟨_, hlines, fun l hl => .inr ?_⟩
  obtain ⟨a, -, rfl⟩ := List.mem_map.mp hl
  rw [a.strip_text, Artifact.parse_text py hpy]
  rfl

theorem rules_upheld_example : Upheld cpython (GcStore.empty.run cpython
    [.field (.append (genuine "art-1-d0")), .compact compaction, .field (.crash (genuine "art-2-d1") 20)]) := by
  refine rules_upheld cpython (by decide)
    [.field (.append (genuine "art-1-d0")), .compact compaction, .field (.crash (genuine "art-2-d1") 20)] ?_ ?_
  · simp [GcEvent.artifact, Genuine, genuine, noted]
  · have hended : Ended (line (genuine "art-1-d0")) := .inr (by simp [line, PyStr.utf8Chars, utf8_ascii])
    have hread := readable_ended cpython (by decide) [genuine "art-1-d0"]
    rw [List.flatMap_singleton] at hread
    exact ⟨fun _ => .inl rfl, hread, fun _ => hended, trivial⟩

lemma checkpointOf_first {lines : List Bytes} {as : List Artifact} {n : ℕ} (hlines : lines.length = n) (hn : 0 < n ∧ n ≤ 2)
    (has : as.length = 1) :
    (checkpointOf lines [] [] as compaction).printable = true ∧
      (checkpointOf lines [] [] as compaction).coldCount + (checkpointOf lines [] [] as compaction).hotCount = 1 ∧
      (checkpointOf lines [] [] as compaction).rangeStart = 0 ∧ (checkpointOf lines [] [] as compaction).rangeEnd = n := by
  have hstart : (checkpointOf lines [] [] as compaction).rangeStart = 0 := rfl
  have hend : (checkpointOf lines [] [] as compaction).rangeEnd = n := hlines
  have hcounts : (checkpointOf lines [] [] as compaction).coldCount + (checkpointOf lines [] [] as compaction).hotCount = 1 := by
    have h := count_buckets [] ((as.take lines.length).drop 0)
    rw [List.drop_zero, List.length_take, hlines, has] at h
    have hmin : min n 1 = 1 := min_eq_right hn.1
    simpa [checkpointOf, covered, hlines, hmin] using h
  have hsmall : ∀ n ≤ 2, (toString n).length ≤ Json.maxDigits := by decide
  generalize checkpointOf lines [] [] as compaction = cp at hstart hend hcounts ⊢
  refine ⟨?_, hcounts, hstart, hend⟩
  simp only [Checkpoint.printable, List.all_cons, List.all_nil, Bool.and_true, Bool.and_eq_true, decide_eq_true_eq]
  exact ⟨hsmall _ (by omega), hsmall _ (by omega), hsmall _ (by omega), hsmall _ (by omega)⟩

/-- The first compaction of a field. -/
lemma compact_first {py : Python} {file : Bytes} {f : AmulField} {n : ℕ} (hload : Checkpoint.load py [] = some [])
    (hlines : (rawLines file).length = n) (hn : 0 < n ∧ n ≤ 2) (hf : (f.ensureLoaded py file).all.length = 1) :
    ∃ (cp : Checkpoint) (report : CompactReport), (compact py file [] f compaction).2 = .returned report (some cp) ∧
      cp.printable = true ∧ cp.coldCount + cp.hotCount = 1 ∧ cp.rangeStart = 0 ∧ cp.rangeEnd = n := by
  obtain ⟨hprint, hcounts, hstart, hend⟩ := checkpointOf_first hlines hn hf
  have hplan : classifyRetention compaction = some ([], []) := rfl
  have hlt : ¬ (rawLines file).length ≤ covered [] := by
    rw [hlines]
    exact Nat.not_le.mpr hn.1
  rw [compact, hload]
  simp only [if_neg hlt, hplan]
  generalize checkpointOf (rawLines file) [] [] (f.ensureLoaded py file).all compaction = cp at hprint hcounts hstart hend ⊢
  rw [if_neg (by simp), Checkpoint.sealed, if_pos hprint]
  exact ⟨{ cp with checkpointSha := some cp.address }, _, rfl, hprint, hcounts, hstart, hend⟩

/-- A compaction behind a crash that left the first byte of a line: two lines are sealed, one artifact is counted. -/
lemma torn_sealed (py : Python) (hpy : 3 ≤ py.loadsNesting) (a b : Artifact) :
    ∃ cp : Checkpoint, (GcStore.empty.run py [.field (.append a), .field (.crash b 1), .compact compaction]).chain = cp.line ∧
      cp.printable = true ∧ cp.coldCount + cp.hotCount = 1 ∧ cp.rangeStart = 0 ∧ cp.rangeEnd = 2 := by
  obtain ⟨cs, hcs⟩ := b.text_head
  have hcut : (line b).take 1 = PyStr.utf8Chars ['{'] := by
    rw [take_line, hcs]
    rfl
  have hne : cs ≠ [] := by
    rintro rfl
    obtain ⟨ds, hds⟩ := b.text_ends
    simp [hcs] at hds
  have hholds : Holds ([a].flatMap line ++ PyStr.utf8Chars ['{']) [a] := .torn [a] b ['{'] cs (by simp) hne hcs.symm
  have hlines : (rawLines ([a].flatMap line ++ PyStr.utf8Chars ['{'])).length = 2 := by
    rw [rawLines_append, rawLines_torn (Data.printable_cons.mpr ⟨by decide, Data.printable_nil⟩) rfl]
    rfl
  have hload : Checkpoint.load py [] = some [] := Checkpoint.load_lines py hpy (List.forall_mem_nil _)
  have hall : (AmulField.fresh.ensureLoaded py ([a].flatMap line ++ PyStr.utf8Chars ['{'])).all.length = 1 := by
    rw [hholds.loads hpy, AmulField.length_all]
    rfl
  obtain ⟨cp, report, hsealed, hcp⟩ := compact_first hload hlines (by decide) hall
  refine ⟨cp, ?_, hcp⟩
  change [] ++ (compact py (([] ++ line a) ++ (line b).take 1) [] .fresh compaction).2.written = cp.line
  rw [List.nil_append, List.nil_append, hcut, ← List.flatMap_singleton line a, hsealed, CompactOutcome.written]

/-- The sealed checkpoint does not count what its range has. -/
theorem torn_line_sealed : ¬ ∀ (py : Python) (events : List GcEvent), 3 ≤ py.loadsNesting →
    (∀ e ∈ events, ∀ a ∈ e.artifact, Genuine a) → Upheld py (GcStore.empty.run py events) := by
  intro h
  obtain ⟨cp, hchain, hprint, hcounts, hstart, hend⟩ :=
    torn_sealed cpython (by decide) (genuine "art-1-d0") (genuine "art-2-d1")
  obtain ⟨-, -, cps, hload, -, -, hcovers, -⟩ := h cpython
    [.field (.append (genuine "art-1-d0")), .field (.crash (genuine "art-2-d1") 1), .compact compaction] (by decide)
    (by simp [GcEvent.artifact, Genuine, genuine, noted])
  have hone : Checkpoint.load cpython ([cp].flatMap Checkpoint.line) = some [cp] :=
    Checkpoint.load_lines cpython (by decide) (by simpa using hprint)
  rw [List.flatMap_singleton, ← hchain, hload] at hone
  obtain rfl := Option.some.inj hone
  have hcovered := hcovers cp (by simp)
  omega

end ContinuityLedger.Amul
