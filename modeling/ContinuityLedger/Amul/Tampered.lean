import ContinuityLedger.Amul.Compact
import ContinuityLedger.Amul.Upheld

/-! Verification of a file that anything may have been done to, at any time. The raw lines of a file are determined by its bytes,
so a range that is accepted has the lines that were sealed, whatever these were; the loader's artifacts behind the ranges are
hashed again. -/

namespace ContinuityLedger.Amul

open Foundations Foundations.Sha256

def Unbroken (l : Bytes) : Prop := ∀ b ∈ l, b ≠ 10 ∧ b ≠ 13

/-- Lines with their ends, which only the last may lack. -/
inductive Lines : List Bytes → Prop
  | nil : Lines []
  | last {body : Bytes} (hbody : Unbroken body) : Lines [body]
  | line {body ending : Bytes} {ls : List Bytes} (hbody : Unbroken body)
      (hending : ending = [10] ∨ ending = [13] ∨ ending = [13, 10]) (rest : Lines ls) : Lines ((body ++ ending) :: ls)

lemma splitKeep_lines {acc : Bytes} (hacc : Unbroken acc) (bs : Bytes) : Lines (splitKeep acc bs) := by
  have hnil : Unbroken [] := List.forall_mem_nil _
  induction acc, bs using splitKeep.induct with
  | case1 => exact .nil
  | case2 acc hne =>
    rw [splitKeep, if_neg hne]
    exact .last hacc
  | case3 acc bs ih => exact .line hacc (.inr (.inr rfl)) (ih hnil)
  | case4 acc b bs hcrlf hb ih =>
    rw [splitKeep, if_pos hb]
    · refine .line hacc ?_ (ih hnil)
      rcases hb with rfl | rfl
      · exact .inl rfl
      · exact .inr (.inl rfl)
    · exact hcrlf
  | case5 acc b bs hcrlf hb ih =>
    rw [splitKeep, if_neg hb]
    · refine ih fun c hc => ?_
      rcases List.mem_append.mp hc with hc | hc
      · exact hacc c hc
      · obtain rfl := List.mem_singleton.mp hc
        exact not_or.mp hb
    · exact hcrlf

lemma Lines.sublist {ls ls' : List Bytes} (h : Lines ls) (hsub : ls'.Sublist ls) : Lines ls' := by
  induction h generalizing ls' with
  | nil => exact List.sublist_nil.mp hsub ▸ .nil
  | last hbody =>
    rcases List.sublist_singleton.mp hsub with rfl | rfl
    · exact .nil
    · exact .last hbody
  | line hbody hending rest ih =>
    cases hsub with
    | cons _ hsub => exact ih hsub
    | cons_cons _ hsub => exact .line hbody hending (ih hsub)

/-- What stands before the first line break. -/
lemma unbroken_inj {a b : Bytes} {x y : UInt8} {as bs : Bytes} (ha : Unbroken a) (hb : Unbroken b) (hx : x = 10 ∨ x = 13)
    (hy : y = 10 ∨ y = 13) (h : a ++ x :: as = b ++ y :: bs) : a = b ∧ x :: as = y :: bs := by
  have hbreak : ∀ {z : UInt8}, z = 10 ∨ z = 13 → ¬ (z ≠ 10 ∧ z ≠ 13) := by
    rintro z (rfl | rfl) ⟨h10, h13⟩
    · exact h10 rfl
    · exact h13 rfl
  induction a generalizing b with
  | nil =>
    cases b with
    | nil => exact ⟨rfl, h⟩
    | cons c b =>
      rw [List.nil_append, List.cons_append] at h
      obtain ⟨rfl, -⟩ := List.cons.inj h
      exact absurd (hb _ (by simp)) (hbreak hx)
  | cons c a ih =>
    cases b with
    | nil =>
      rw [List.nil_append, List.cons_append] at h
      obtain ⟨rfl, -⟩ := List.cons.inj h
      exact absurd (ha _ (by simp)) (hbreak hy)
    | cons d b =>
      rw [List.cons_append, List.cons_append] at h
      obtain ⟨rfl, hcons⟩ := List.cons.inj h
      obtain ⟨rfl, hrest⟩ := ih (List.forall_mem_cons.mp ha).2 (List.forall_mem_cons.mp hb).2 hcons
      exact ⟨rfl, hrest⟩

def Kept (ls : List Bytes) : Prop := ∀ l ∈ ls, (!l.all isBlankByte) = true

lemma Kept.ne_nil {ls : List Bytes} (h : Kept ls) {l : Bytes} (hl : l ∈ ls) : l ≠ [] := by
  rintro rfl
  exact absurd (h [] hl) (by decide)

/-- No line that is kept begins with a line feed. -/
lemma no_feed {ls : List Bytes} (h : Lines ls) (hk : Kept ls) {bs : Bytes} : ls.flatten ≠ 10 :: bs := by
  intro heq
  cases h with
  | nil => simp at heq
  | last hbody =>
    rw [List.flatten_singleton] at heq
    exact absurd rfl (hbody 10 (heq ▸ List.mem_cons_self)).1
  | @line body ending ls hbody hending rest =>
    rw [List.flatten_cons, List.append_assoc] at heq
    cases body with
    | cons b body =>
      rw [List.cons_append] at heq
      obtain ⟨rfl, -⟩ := List.cons.inj heq
      exact absurd rfl (hbody 10 (by simp)).1
    | nil =>
      rcases hending with rfl | rfl | rfl
      · exact absurd (hk [10] (by simp)) (by decide)
      · simp at heq
      · simp at heq

/-- Lines that are kept are told by their bytes. -/
theorem lines_unique {ls ls' : List Bytes} (h : Lines ls) (h' : Lines ls') (hk : Kept ls) (hk' : Kept ls')
    (heq : ls.flatten = ls'.flatten) : ls = ls' := by
  have hempty : ∀ {ls : List Bytes}, Kept ls → ls.flatten = [] → ls = [] := by
    intro ls hk hnil
    cases ls with
    | nil => rfl
    | cons l ls => exact absurd (List.flatten_eq_nil_iff.mp hnil l (by simp)) (hk.ne_nil (by simp))
  have hbroken : ∀ {ending : Bytes}, ending = [10] ∨ ending = [13] ∨ ending = [13, 10] →
      ∃ x rest, ending = x :: rest ∧ (x = 10 ∨ x = 13) := by
    rintro ending (rfl | rfl | rfl)
    · exact ⟨10, [], rfl, .inl rfl⟩
    · exact ⟨13, [], rfl, .inr rfl⟩
    · exact ⟨13, [10], rfl, .inr rfl⟩
  induction h generalizing ls' with
  | nil => exact (hempty hk' (by simpa using heq.symm)).symm
  | @last body hbody =>
    rw [List.flatten_singleton] at heq
    cases h' with
    | nil => exact hempty hk (by simpa using heq)
    | last hbody' => rw [heq, List.flatten_singleton]
    | @line body' ending ls' hbody' hending rest =>
      obtain ⟨x, more, rfl, hx⟩ := hbroken hending
      obtain ⟨h10, h13⟩ := hbody x (by simp [heq])
      rcases hx with rfl | rfl
      · exact absurd rfl h10
      · exact absurd rfl h13
  | @line body ending ls hbody hending rest ih =>
    obtain ⟨hkl, hkls⟩ := List.forall_mem_cons.mp hk
    obtain ⟨x, more, hx⟩ := hbroken hending
    cases h' with
    | nil => exact hempty hk (by simpa using heq)
    | @last body' hbody' =>
      rw [List.flatten_singleton] at heq
      obtain ⟨h10, h13⟩ := hbody' x (by simp [← heq, hx.1])
      rcases hx.2 with rfl | rfl
      · exact absurd rfl h10
      · exact absurd rfl h13
    | @line body' ending' ls' hbody' hending' rest' =>
      obtain ⟨hkl', hkls'⟩ := List.forall_mem_cons.mp hk'
      obtain ⟨y, more', hy⟩ := hbroken hending'
      rw [List.flatten_cons, List.flatten_cons, List.append_assoc, List.append_assoc, hx.1, hy.1, List.cons_append,
        List.cons_append] at heq
      obtain ⟨rfl, htail⟩ := unbroken_inj hbody hbody' hx.2 hy.2 heq
      rw [← List.cons_append, ← List.cons_append, ← hx.1, ← hy.1] at htail
      have hsame : ending = ending' ∧ ls.flatten = ls'.flatten := by
        rcases hending with rfl | rfl | rfl <;> rcases hending' with rfl | rfl | rfl
        · exact ⟨rfl, List.append_cancel_left htail⟩
        · simp at htail
        · simp at htail
        · simp at htail
        · exact ⟨rfl, List.append_cancel_left htail⟩
        · have hfeed : ls.flatten = 10 :: ls'.flatten := by simpa using htail
          exact absurd hfeed (no_feed rest hkls)
        · simp at htail
        · have hfeed : ls'.flatten = 10 :: ls.flatten := by simpa using htail.symm
          exact absurd hfeed (no_feed rest' hkls')
        · exact ⟨rfl, List.append_cancel_left htail⟩
      obtain ⟨rfl, hflat⟩ := hsame
      rw [ih rest' hkls hkls' hflat]

lemma range_sublist (lines : List Bytes) (start stop : ℕ) : (range lines start stop).Sublist lines :=
  (List.drop_sublist _ _).trans (List.take_sublist _ _)

lemma kept_range (file : Bytes) (start stop : ℕ) : Kept (range (rawLines file) start stop) := fun _ hl =>
  (List.mem_filter.mp ((range_sublist _ _ _).mem hl)).2

lemma lines_range (file : Bytes) (start stop : ℕ) : Lines (range (rawLines file) start stop) :=
  (splitKeep_lines (List.forall_mem_nil _) file).sublist ((range_sublist _ _ _).trans List.filter_sublist)

/-- A checkpoint, and the lines that the file had when it was made. -/
structure Sealed where
  checkpoint : Checkpoint
  lines : List Bytes

namespace Sealed

def before (s : Sealed) : List Bytes := range s.lines s.checkpoint.rangeStart s.checkpoint.rangeEnd

def now (s : Sealed) (file : Bytes) : List Bytes := range (rawLines file) s.checkpoint.rangeStart s.checkpoint.rangeEnd

/-- The range then and now: two different texts with one digest. -/
def Collides (s : Sealed) (file : Bytes) : Prop :=
  (s.now file).flatten ≠ s.before.flatten ∧ hexdigest (s.now file).flatten = hexdigest s.before.flatten

end Sealed

/-- What `compact` makes, one call after another, of any file and any field at each. -/
inductive Built (py : Python) : Bytes → List Sealed → Prop
  | nil : Built py [] []
  | sealed {chain : Bytes} {seals : List Sealed} (prior : Built py chain seals) {file : Bytes} {f : AmulField}
      {call : CompactCall} {report : CompactReport} {cp : Checkpoint}
      (h : (compact py file chain f call).2 = .returned report (some cp)) :
      Built py (chain ++ cp.line) (seals ++ [⟨cp, rawLines file⟩])

/-- A line that is an artifact whose payload hashes to what it says. -/
def GoodLine (py : Python) (l : Bytes) : Prop :=
  ∃ cs a, PyStr.utf8Chars cs = l ∧ Artifact.parse py (strip cs) = some a ∧ Genuine a

structure BuiltInv (chain : Bytes) (seals : List Sealed) : Prop where
  bytes : chain = (seals.map (·.checkpoint)).flatMap Checkpoint.line
  printable : ∀ c ∈ seals.map (·.checkpoint), c.printable = true
  tiled : Tiled 0 (seals.map (·.checkpoint))
  ends : (seals.map (·.checkpoint)).foldl (fun n cp => max n cp.rangeEnd) 0 = covered (seals.map (·.checkpoint))
  made : ∀ s ∈ seals, ∃ file, s.lines = rawLines file ∧ s.checkpoint.rangeSha = (hexdigest s.before.flatten).text

variable {py : Python} {chain : Bytes} {seals : List Sealed}

lemma BuiltInv.load (hpy : 3 ≤ py.loadsNesting) (h : BuiltInv chain seals) :
    Checkpoint.load py chain = some (seals.map (·.checkpoint)) :=
  h.bytes ▸ Checkpoint.load_lines py hpy h.printable

lemma Built.inv (hpy : 3 ≤ py.loadsNesting) (h : Built py chain seals) : BuiltInv chain seals := by
  induction h with
  | nil => exact ⟨rfl, List.forall_mem_nil _, trivial, rfl, List.forall_mem_nil _⟩
  | @sealed chain seals prior file f call report cp hc ih =>
    obtain ⟨existing, plan, hload, hlt, -, hcp⟩ := compact_sealed hc
    obtain rfl : seals.map (·.checkpoint) = existing := Option.some.inj ((ih.load hpy).symm.trans hload)
    unfold Checkpoint.sealed at hcp
    split_ifs at hcp with hprint
    obtain rfl := Option.some.inj hcp
    refine ⟨?_, ?_, ?_, ?_, ?_⟩
    · rw [ih.bytes, List.map_append, List.flatMap_append, List.map_singleton, List.flatMap_singleton]
    · intro c hc
      rw [List.map_append] at hc
      rcases List.mem_append.mp hc with hc | hc
      · exact ih.printable c hc
      · exact List.mem_singleton.mp hc ▸ hprint
    · rw [List.map_append]
      exact (tiled_append 0 _ _).mpr ⟨ih.tiled, rfl, hlt, trivial⟩
    · rw [List.map_append, List.foldl_append, ih.ends, List.map_singleton, covered_concat]
      exact max_eq_right hlt.le
    · intro s hs
      rcases List.mem_append.mp hs with hs | hs
      · exact ih.made s hs
      · obtain rfl := List.mem_singleton.mp hs
        exact ⟨file, rfl, rfl⟩

lemma genuine_of_altered {as : List Artifact} (h : altered as = []) : ∀ a ∈ as, Genuine a := by
  intro a ha
  by_contra hne
  have hmem : a.artifactId ∈ altered as :=
    List.mem_map.mpr ⟨a, List.mem_filter.mpr ⟨ha, by simpa [Genuine] using hne⟩, rfl⟩
  rw [h] at hmem
  exact List.not_mem_nil hmem

lemma authentic_of_nil {lines : List Bytes} {cps : List Checkpoint} (h : unauthenticated lines cps = []) {c : Checkpoint}
    (hc : c ∈ cps) : (hexdigest (range lines c.rangeStart c.rangeEnd).flatten).text = c.rangeSha := by
  have hone := List.flatMap_eq_nil_iff.mp h c hc
  split_ifs at hone with hne
  exact congrArg Prod.fst (not_not.mp hne)

/-- Ranges that have one digest have one list of lines, or collide. -/
lemma Sealed.same_or_collides {s : Sealed} {file old : Bytes} (hold : s.lines = rawLines old)
    (h : (hexdigest (s.now file).flatten).text = (hexdigest s.before.flatten).text) :
    s.now file = s.before ∨ s.Collides file := by
  by_cases hflat : (s.now file).flatten = s.before.flatten
  · refine .inl (lines_unique (lines_range file _ _) ?_ (kept_range file _ _) ?_ hflat)
    · rw [Sealed.before, hold]
      exact lines_range old _ _
    · rw [Sealed.before, hold]
      exact kept_range old _ _
  · exact .inr ⟨hflat, Hex64.ext h⟩

lemma genuine_genuine (id : String) : Genuine (genuine id) := rfl

/-- A field of one line that was compacted. -/
lemma sealed_once : ∃ (cp : Checkpoint) (f : AmulField) (report : GCVerifyReport),
    Built cpython cp.line [⟨cp, rawLines (line (genuine "art-1-d0"))⟩] ∧
      verifyGc cpython (line (genuine "art-1-d0")) cp.line .fresh = some (f, report) ∧ report.integrityOk = true := by
  have hfile : [genuine "art-1-d0"].flatMap line = line (genuine "art-1-d0") := List.flatMap_singleton _ _
  have hholds : Holds (line (genuine "art-1-d0")) [genuine "art-1-d0"] := hfile ▸ .ended _
  have hread : Readable cpython (line (genuine "art-1-d0")) :=
    hfile ▸ readable_ended cpython (by decide) [genuine "art-1-d0"]
  have hlines : (rawLines (line (genuine "art-1-d0"))).length = 1 := hholds.length_lines (by decide) hread
  have hall : (AmulField.fresh.ensureLoaded cpython (line (genuine "art-1-d0"))).all.length = 1 := by
    rw [hholds.loads (by decide), AmulField.length_all]
    rfl
  have hload : Checkpoint.load cpython [] = some [] := Checkpoint.load_lines cpython (by decide) (List.forall_mem_nil _)
  obtain ⟨cp, done, hcp, -⟩ := compact_first hload hlines (by decide) hall
  have hstart : GcInv ⟨⟨line (genuine "art-1-d0"), .fresh⟩, []⟩ [genuine "art-1-d0"] :=
    ⟨hholds, .inl rfl, by simpa using genuine_genuine _, [], rfl, .nil⟩
  have hcompacted : GcInv ((GcEvent.compact compaction).step cpython ⟨⟨line (genuine "art-1-d0"), .fresh⟩, []⟩)
      [genuine "art-1-d0"] := hstart.step_compact (by decide) hread
  have hreopened : GcInv ((GcEvent.field .restart).step cpython
      ((GcEvent.compact compaction).step cpython ⟨⟨line (genuine "art-1-d0"), .fresh⟩, []⟩)) ([genuine "art-1-d0"] ++ []) :=
    hcompacted.step_field (by decide) (fun hne => absurd rfl hne) (by simp [GcEvent.artifact])
  obtain ⟨f, report, hverify, hok, -⟩ := hreopened.verified cpython (by decide)
  refine ⟨cp, f, report, Built.nil.sealed hcp, ?_, hok⟩
  change verifyGc cpython (line (genuine "art-1-d0"))
    ([] ++ (compact cpython (line (genuine "art-1-d0")) [] .fresh compaction).2.written) .fresh = some (f, report) at hverify
  rwa [hcp] at hverify

end ContinuityLedger.Amul
