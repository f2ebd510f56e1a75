import ContinuityLedger.Amul.Lines

/-! Runs of appends, of crashes within one, and of restarts. An append goes behind whatever is there: it is kept where the
file ends in a line break, and is lost behind a line that a crash has cut short. -/

namespace ContinuityLedger.Amul

open Foundations Foundations.Sha256

structure Store where
  file : Bytes
  field : AmulField

inductive Event
  | append (a : Artifact)
  /-- The process ends when `k` bytes of the line are written. -/
  | crash (a : Artifact) (k : ℕ)
  | restart
  | read

namespace Event

def written : Event → Bytes
  | append a => line a
  | crash a k => (line a).take k
  | restart | read => []

def step (py : Python) (s : Store) : Event → Store
  | append a => ⟨(s.field.append py s.file a).1, (s.field.append py s.file a).2⟩
  | crash a k => ⟨s.file ++ (line a).take k, .fresh⟩
  | restart => ⟨s.file, .fresh⟩
  | read => ⟨s.file, s.field.ensureLoaded py s.file⟩

/-- The append returned. -/
def completed : Event → Option Artifact
  | append a => some a
  | _ => none

/-- The text came into the file as a whole. -/
def reached : Event → Option Artifact
  | append a => some a
  | crash a k => if a.text.length ≤ k then some a else none
  | _ => none

end Event

namespace Store

def empty : Store := ⟨[], .fresh⟩

def run (py : Python) (s : Store) (events : List Event) : Store := events.foldl (Event.step py) s

end Store

/-- What a field that is opened on the file holds. -/
def opened (py : Python) (file : Bytes) : List Artifact := (AmulField.fresh.ensureLoaded py file).all

/-- Nothing, or whole lines. -/
def Ended (file : Bytes) : Prop := file = [] ∨ file.getLast? = some 10

instance (file : Bytes) : Decidable (Ended file) := inferInstanceAs (Decidable (_ ∨ _))

/-- No line begins behind one that is not ended. -/
def EndedFrom (py : Python) : Store → List Event → Prop
  | _, [] => True
  | s, e :: es => (e.written ≠ [] → Ended s.file) ∧ EndedFrom py (e.step py s) es

/-- An id stands for one artifact. -/
def Unique (as : List Artifact) : Prop := ∀ a ∈ as, ∀ b ∈ as, a.artifactId = b.artifactId → a = b

instance (as : List Artifact) : Decidable (Unique as) :=
  inferInstanceAs (Decidable (∀ a ∈ as, ∀ b ∈ as, a.artifactId = b.artifactId → a = b))

/-- The lines of the artifacts, and what a crash left of another. -/
inductive Holds : Bytes → List Artifact → Prop
  | ended (as : List Artifact) : Holds (as.flatMap line) as
  | torn (as : List Artifact) (a : Artifact) (p q : List Char) (hp : p ≠ []) (hq : q ≠ []) (h : p ++ q = a.text) :
      Holds (as.flatMap line ++ PyStr.utf8Chars p) as
  | unended (as : List Artifact) (a : Artifact) : Holds (as.flatMap line ++ PyStr.utf8Chars a.text) (as ++ [a])

lemma flatMap_line (as : List Artifact) :
    as.flatMap line = PyStr.utf8Chars ((as.map Artifact.text).flatMap (· ++ ['\n'])) := by
  induction as with
  | nil => rfl
  | cons a as ih => rw [List.flatMap_cons, ih, List.map_cons, List.flatMap_cons, utf8Chars_append]; rfl

lemma printable_texts (as : List Artifact) : ∀ l ∈ as.map Artifact.text, Data.Printable l := by
  intro l hl
  obtain ⟨a, -, rfl⟩ := List.mem_map.mp hl
  exact a.printable_text

lemma textLines_artifacts (as : List Artifact) {torn : List Char} (ht : Data.Printable torn) :
    textLines (as.flatMap line ++ PyStr.utf8Chars torn) =
      some (as.map Artifact.text ++ if torn = [] then [] else [torn]) := by
  rw [flatMap_line, ← utf8Chars_append]
  exact textLines_whole (printable_texts as) ht

lemma Holds.loads {py : Python} (hpy : 3 ≤ py.loadsNesting) {file : Bytes} {as : List Artifact} (h : Holds file as) :
    AmulField.fresh.ensureLoaded py file = AmulField.holding as := by
  rw [AmulField.ensureLoaded, if_neg (by decide)]
  cases h with
  | ended =>
    have hlines := textLines_artifacts as Data.printable_nil
    simp only [PyStr.utf8Chars, List.flatMap_nil, List.append_nil, if_true] at hlines
    have hload := AmulField.load_texts py hpy as [] { AmulField.fresh with loaded := true }
    rw [List.append_nil] at hload
    simp only [hlines]
    exact hload
  | torn as a p q hp hq h =>
    have hprint : Data.Printable p := fun c hc => a.printable_text c (h ▸ List.mem_append_left q hc)
    simp only [textLines_artifacts as hprint, if_neg hp]
    rw [AmulField.load_texts py hpy, AmulField.load_torn py hpy hp hq h]
    rfl
  | unended as a =>
    simp only [textLines_artifacts as a.printable_text, if_neg a.text_ne_nil]
    have hload := AmulField.load_texts py hpy (as ++ [a]) [] { AmulField.fresh with loaded := true }
    rw [List.append_nil, List.map_append, List.map_singleton] at hload
    exact hload

/-- A file that ends in a part of a line is not ended. -/
lemma not_ended {as : List Artifact} {p : List Char} (hp : p ≠ []) (hprint : Data.Printable p) :
    ¬ Ended (as.flatMap line ++ PyStr.utf8Chars p) := by
  obtain ⟨cs, c, rfl⟩ : ∃ cs c, p = cs ++ [c] := ⟨p.dropLast, p.getLast hp, (List.dropLast_append_getLast hp).symm⟩
  have hc := hprint c (by simp)
  have hbytes : as.flatMap line ++ PyStr.utf8Chars (cs ++ [c]) =
      as.flatMap line ++ PyStr.utf8Chars cs ++ [UInt8.ofNat c.toNat] := by
    rw [utf8Chars_append, ← List.append_assoc]
    simp only [PyStr.utf8Chars, List.flatMap_cons, List.flatMap_nil, List.append_nil,
      utf8_ascii (by omega : c.toNat < 0x80)]
  rw [hbytes]
  rintro (hnil | hlast)
  · simp at hnil
  · rw [List.getLast?_concat] at hlast
    have hcode := congrArg UInt8.toNat (Option.some.inj hlast)
    rw [PyStr.toNat_ofNat_lt (by omega)] at hcode
    have h10 : UInt8.toNat 10 = 10 := rfl
    omega

lemma Holds.ended_inv {file : Bytes} {as : List Artifact} (h : Holds file as) (he : Ended file) : file = as.flatMap line := by
  cases h with
  | ended => rfl
  | torn as a p q hp hq h =>
    exact absurd he (not_ended hp fun c hc => a.printable_text c (h ▸ List.mem_append_left q hc))
  | unended as a => exact absurd he (not_ended a.text_ne_nil a.printable_text)

lemma take_line (a : Artifact) (k : ℕ) : (line a).take k = PyStr.utf8Chars ((a.text ++ ['\n']).take k) :=
  take_ascii (ascii_line a) k

/-- What a crash leaves behind whole lines. -/
lemma Holds.cut (as : List Artifact) (a : Artifact) (k : ℕ) :
    Holds (as.flatMap line ++ (line a).take k) (as ++ (Event.crash a k).reached.toList) := by
  rw [take_line, Event.reached]
  rcases lt_trichotomy k a.text.length with hlt | rfl | hgt
  · rw [if_neg (by omega), List.take_append_of_le_length hlt.le, Option.toList_none, List.append_nil]
    rcases Nat.eq_zero_or_pos k with rfl | hpos
    · rw [List.take_zero, PyStr.utf8Chars, List.flatMap_nil, List.append_nil]
      exact .ended as
    · refine .torn as a _ (a.text.drop k) ?_ ?_ (List.take_append_drop k a.text)
      · rw [ne_eq, List.take_eq_nil_iff]
        rintro (rfl | hnil)
        · exact absurd hpos (lt_irrefl 0)
        · exact a.text_ne_nil hnil
      · rw [ne_eq, List.drop_eq_nil_iff]
        omega
  · rw [if_pos le_rfl, List.take_append_of_le_length le_rfl, List.take_length]
    exact .unended as a
  · have hall : (a.text ++ ['\n']).take k = a.text ++ ['\n'] := by
      rw [List.take_of_length_le]
      simp only [List.length_append, List.length_singleton]
      omega
    have hlines : as.flatMap line ++ line a = (as ++ [a]).flatMap line := by simp
    rw [if_pos hgt.le, hall]
    change Holds (as.flatMap line ++ line a) (as ++ [a])
    rw [hlines]
    exact .ended (as ++ [a])

lemma Holds.step (py : Python) {s : Store} {as : List Artifact} (h : Holds s.file as) {e : Event}
    (he : e.written ≠ [] → Ended s.file) : Holds (e.step py s).file (as ++ e.reached.toList) := by
  cases e with
  | append a =>
    have hne : (Event.append a).written ≠ [] := by
      simp [Event.written, line, PyStr.utf8Chars, utf8_ascii (by decide : '\n'.toNat < 0x80)]
    have hlines : as.flatMap line ++ line a = (as ++ [a]).flatMap line := by simp
    change Holds (s.file ++ line a) (as ++ [a])
    rw [h.ended_inv (he hne), hlines]
    exact .ended (as ++ [a])
  | crash a k =>
    change Holds (s.file ++ (line a).take k) _
    by_cases hnil : (line a).take k = []
    · have hk : k = 0 := by
        rcases List.take_eq_nil_iff.mp hnil with hk | hline
        · exact hk
        · simp [line, PyStr.utf8Chars, utf8_ascii (by decide : '\n'.toNat < 0x80)] at hline
      have hlen := List.length_pos_iff.mpr a.text_ne_nil
      rw [hnil, List.append_nil, Event.reached, if_neg (by omega), Option.toList_none, List.append_nil]
      exact h
    · rw [h.ended_inv (he hnil)]
      exact Holds.cut as a k
  | restart => simpa [Event.reached, Event.step] using h
  | read => simpa [Event.reached, Event.step] using h

lemma Holds.run {py : Python} {s : Store} {as : List Artifact} (h : Holds s.file as) {events : List Event}
    (he : EndedFrom py s events) : Holds (s.run py events).file (as ++ events.filterMap Event.reached) := by
  induction events generalizing s as with
  | nil => simpa [Store.run] using h
  | cons e es ih =>
    have hnext := ih (h.step py he.1) he.2
    cases hr : e.reached with
    | none => simpa [Store.run, hr] using hnext
    | some a => simpa [Store.run, hr] using hnext

lemma completed_reached (events : List Event) : (events.filterMap Event.completed).Sublist (events.filterMap Event.reached) := by
  induction events with
  | nil => exact .slnil
  | cons e es ih =>
    cases e with
    | append a => exact ih.cons_cons a
    | crash a k =>
      simp only [List.filterMap_cons, Event.completed, Event.reached]
      split_ifs
      · exact ih.cons a
      · exact ih
    | restart => exact ih
    | read => exact ih

/-- Where no line begins behind one that is not ended, and ids are not used again for something else, no append is lost. -/
theorem appended_durable (py : Python) (hpy : 3 ≤ py.loadsNesting) (events : List Event)
    (hended : EndedFrom py .empty events) (hunique : Unique (events.filterMap Event.reached)) :
    (events.filterMap Event.completed).Sublist (opened py (Store.empty.run py events).file) := by
  have hholds : Holds (Store.empty.run py events).file (events.filterMap Event.reached) :=
    Holds.run (s := .empty) (.ended []) hended
  rw [opened, hholds.loads hpy, AmulField.all_of_unique hunique]
  exact completed_reached events

def cpython : Python := ⟨id, 900, 900, by decide, by decide⟩

def noted (id : String) : Artifact :=
  { artifactId := id, ledgerId := "m-1", resolution := .detail, payload := "keep", payloadSha256 := "", authorityClass := "proposed"
    lineageParentIds := [], derivedFrom := [], provenanceChain := [], createdAt := "2026-01-01T00:00:00+00:00"
    schemaVersion := schema }

theorem appended_durable_example :
    [noted "art-1-d0"].Sublist (opened cpython (Store.empty.run cpython
      [.append (noted "art-1-d0"), .crash (noted "art-2-d1") 20, .restart]).file) :=
  appended_durable cpython (by decide) [.append (noted "art-1-d0"), .crash (noted "art-2-d1") 20, .restart]
    ⟨fun _ => .inl rfl, fun _ => .inr (by decide), fun h => absurd rfl h, trivial⟩
    (by decide +kernel)

lemma parse_glued (py : Python) (a : Artifact) : Artifact.parse py ('{' :: a.text) = none := by
  obtain ⟨cs, hcs⟩ := a.text_head
  have hmembers : ∀ steps room, ∃ e, Json.scanMembers py steps room (PyStr.ofChars a.text) = .error e := by
    intro steps room
    cases steps with
    | zero => exact ⟨.steps, by rw [Json.scanMembers]⟩
    | succ steps => exact ⟨.value, by rw [Json.scanMembers, hcs]; rfl⟩
  have hvalue : ∀ steps room, ∃ e, Json.scanValue py steps room (PyStr.ofChars ('{' :: a.text)) = .error e := by
    intro steps room
    cases steps with
    | zero => exact ⟨.steps, by rw [Json.scanValue.eq_def]⟩
    | succ steps =>
      cases room with
      | zero => exact ⟨.recursion, by rw [Json.scanValue.eq_def]; rfl⟩
      | succ room =>
        obtain ⟨e, he⟩ := hmembers steps room
        have hskip : Json.skip (PyStr.ofChars a.text) = PyStr.ofChars a.text := by
          rw [hcs]
          exact Data.skip_scalar (by decide) _
        have hhead : (PyStr.ofChars a.text).head? ≠ some (.scalar '}') := by simp [hcs, PyStr.ofChars]
        exact ⟨e, by rw [Data.ofChars_cons, Data.scanValue_brace, hskip, if_neg hhead, he]; rfl⟩
  obtain ⟨e, he⟩ := hvalue (2 * (PyStr.ofChars ('{' :: a.text)).length + 2) py.loadsNesting
  have hskip : Json.skip (PyStr.ofChars ('{' :: a.text)) = PyStr.ofChars ('{' :: a.text) :=
    Data.skip_scalar (by decide) _
  have hloads : Json.loads py (PyStr.ofChars ('{' :: a.text)) = .error e := by
    rw [Json.loads, hskip, he, if_neg (by simp [PyStr.ofChars])]
    rfl
  rw [Artifact.parse, hloads]

/-- A line behind one of which a crash left the first byte is not read. -/
lemma opened_glued (py : Python) (hpy : 3 ≤ py.loadsNesting) (as : List Artifact) (a : Artifact) :
    opened py (as.flatMap line ++ PyStr.utf8Chars ['{'] ++ line a) = (AmulField.holding as).all := by
  have hprint : Data.Printable ('{' :: a.text) := Data.printable_cons.mpr ⟨by decide, a.printable_text⟩
  have hlines : ∀ l ∈ as.map Artifact.text ++ ['{' :: a.text], Data.Printable l := by
    intro l hl
    rcases List.mem_append.mp hl with hl | hl
    · exact printable_texts as l hl
    · exact List.mem_singleton.mp hl ▸ hprint
  have hfile : as.flatMap line ++ PyStr.utf8Chars ['{'] ++ line a =
      PyStr.utf8Chars ((as.map Artifact.text ++ ['{' :: a.text]).flatMap (· ++ ['\n'])) := by
    rw [flatMap_line, line, ← utf8Chars_append, ← utf8Chars_append]
    simp
  obtain ⟨cs, hcs⟩ := a.text_ends
  have hstrip : strip ('{' :: a.text) = '{' :: a.text := by
    rw [hcs]
    exact strip_ends (by decide) (by decide) ('{' :: cs)
  rw [opened, AmulField.ensureLoaded, if_neg (by decide), hfile]
  have hread := textLines_whole hlines Data.printable_nil
  rw [if_pos rfl, List.append_nil, List.append_nil] at hread
  simp only [hread]
  rw [AmulField.load_texts py hpy, AmulField.load, hstrip, if_neg (by simp), parse_glued]
  rfl

/-- The append behind the line that the crash has cut short returned, and its artifact is gone. -/
theorem append_lost : ¬ ∀ (py : Python) (events : List Event), 3 ≤ py.loadsNesting →
    (events.filterMap Event.completed).Sublist (opened py (Store.empty.run py events).file) := by
  intro h
  have hall := h cpython [.append (noted "art-1-d0"), .crash (noted "art-2-d1") 1, .append (noted "art-3-d2")] (by decide)
  have hfile : (Store.empty.run cpython
      [.append (noted "art-1-d0"), .crash (noted "art-2-d1") 1, .append (noted "art-3-d2")]).file =
      [noted "art-1-d0"].flatMap line ++ PyStr.utf8Chars ['{'] ++ line (noted "art-3-d2") := by
    have hcut : (line (noted "art-2-d1")).take 1 = PyStr.utf8Chars ['{'] := by
      rw [take_line]
      rfl
    simp [Store.run, Store.empty, Event.step, AmulField.append, hcut]
  rw [hfile, opened_glued cpython (by decide)] at hall
  have hlen := hall.length_le
  rw [AmulField.length_all] at hlen
  exact absurd hlen (by decide)

end ContinuityLedger.Amul
