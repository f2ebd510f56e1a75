import ContinuityLedger.Amul.Artifact

/-! The AMUL field: a file of one artifact a line, to which lines are only appended, and what is held of it in memory. A file of
whole lines and of one that may be cut short is taken apart into just these, and its artifacts are read. -/

namespace ContinuityLedger.Amul

open Foundations Foundations.Sha256

/-- `read_text(encoding="utf-8").splitlines()`, where the bytes are UTF-8. -/
def textLines (file : Bytes) : Option (List (List Char)) :=
  let cs := PyStr.decodeReplace file
  if PyStr.utf8Chars cs = file then some (PyText.lines [] (PyText.newlines cs)) else none

def strip (line : List Char) : List Char := (PyText.strip (String.ofList line)).toList

/-- The bytes that an artifact is appended as. -/
def line (a : Artifact) : Bytes := PyStr.utf8Chars (a.text ++ ['\n'])

structure AmulField where
  artifacts : Dict String Artifact
  order : List String
  loaded : Bool

namespace AmulField

def fresh : AmulField := ⟨[], [], false⟩

def add (f : AmulField) (a : Artifact) : AmulField :=
  { f with artifacts := Dict.set f.artifacts a.artifactId a, order := f.order ++ [a.artifactId] }

/-- Line by line, up to one that is no artifact. -/
def load (py : Python) : List (List Char) → AmulField → AmulField
  | [], f => f
  | l :: ls, f =>
    if strip l = [] then load py ls f
    else
      match Artifact.parse py (strip l) with
      | some a => load py ls (f.add a)
      | none => f

def ensureLoaded (py : Python) (file : Bytes) (f : AmulField) : AmulField :=
  if f.loaded then f
  else
    match textLines file with
    | some ls => load py ls { f with loaded := true }
    | none => { f with loaded := true }

/-- The file and the field behind an append. -/
def append (py : Python) (file : Bytes) (f : AmulField) (a : Artifact) : Bytes × AmulField :=
  (file ++ line a, (f.ensureLoaded py file).add a)

def get (f : AmulField) (artifactId : String) : Option Artifact := Dict.get f.artifacts artifactId

def count (f : AmulField) : ℕ := f.order.length

def all (f : AmulField) : List Artifact := f.order.filterMap f.get

def byLedger (f : AmulField) (memoryId : String) : List Artifact := f.all.filter (·.ledgerId = memoryId)

def latest (f : AmulField) (memoryId : String) (resolution : ArtifactResolution) : Option Artifact :=
  ((f.byLedger memoryId).filter (·.resolution = resolution)).getLast?

/-! ### What is held -/

/-- A field into which these artifacts came, in this order. -/
def holding (as : List Artifact) : AmulField := as.foldl add ⟨[], [], true⟩

lemma holding_append (as : List Artifact) (a : Artifact) : holding (as ++ [a]) = (holding as).add a := by
  rw [holding, List.foldl_append]
  rfl

lemma holding_order (as : List Artifact) : (holding as).order = as.map (·.artifactId) := by
  induction as using List.reverseRecOn with
  | nil => rfl
  | append_singleton as a ih => rw [holding_append, add, ih, List.map_append, List.map_singleton]

@[simp] lemma holding_loaded (as : List Artifact) : (holding as).loaded = true := by
  induction as using List.reverseRecOn with
  | nil => rfl
  | append_singleton as a ih => rw [holding_append, add, ih]

/-- An id stands for the last artifact that came with it. -/
lemma get_holding (as : List Artifact) (i : String) : (holding as).get i = (as.filter (·.artifactId = i)).getLast? := by
  have hdict : (holding as).artifacts = Dict.ofPairs (as.map fun a => (a.artifactId, a)) := by
    induction as using List.reverseRecOn with
    | nil => rfl
    | append_singleton as a ih =>
      rw [holding_append, add, ih, Dict.ofPairs, Dict.ofPairs, List.map_append, List.foldl_append]
      rfl
  rw [get, hdict, Dict.get_ofPairs, List.filter_map, List.getLast?_map, Option.map_map]
  simp [Function.comp_def]

lemma get_holding_mem {as : List Artifact} {a : Artifact} (h : a ∈ as) :
    ∃ b ∈ as, b.artifactId = a.artifactId ∧ (holding as).get a.artifactId = some b := by
  have hin : a ∈ as.filter (·.artifactId = a.artifactId) := List.mem_filter.mpr ⟨h, by simp⟩
  have hne := List.ne_nil_of_mem hin
  obtain ⟨hb, hid⟩ := List.mem_filter.mp (List.getLast_mem hne)
  exact ⟨_, hb, by simpa using hid, by rw [get_holding, List.getLast?_eq_getLast_of_ne_nil hne]⟩

lemma all_holding (as : List Artifact) : (holding as).all = as.filterMap fun a => (holding as).get a.artifactId := by
  rw [all, holding_order, List.filterMap_map]
  rfl

lemma length_all (as : List Artifact) : (holding as).all.length = as.length := by
  rw [all_holding]
  have h : ∀ bs : List Artifact, bs ⊆ as →
      (bs.filterMap fun a => (holding as).get a.artifactId).length = bs.length := by
    intro bs hbs
    induction bs with
    | nil => rfl
    | cons b bs ih =>
      obtain ⟨hb, hrest⟩ := List.cons_subset.mp hbs
      obtain ⟨c, -, -, hc⟩ := get_holding_mem hb
      simp only [List.filterMap_cons, hc, List.length_cons, ih hrest]
  exact h as (List.Subset.refl as)

lemma mem_all {as : List Artifact} {a : Artifact} (h : a ∈ (holding as).all) : a ∈ as := by
  rw [all_holding] at h
  obtain ⟨b, -, hb⟩ := List.mem_filterMap.mp h
  rw [get_holding] at hb
  exact (List.mem_filter.mp (List.mem_of_getLast? hb)).1

/-- Where an id stands for one artifact only, nothing is lost. -/
lemma all_of_unique {as : List Artifact} (h : ∀ a ∈ as, ∀ b ∈ as, a.artifactId = b.artifactId → a = b) :
    (holding as).all = as := by
  rw [all_holding]
  have hget : ∀ a ∈ as, (holding as).get a.artifactId = some a := by
    intro a ha
    obtain ⟨b, hb, hid, hget⟩ := get_holding_mem ha
    rw [hget, h b hb a ha hid]
  rw [List.filterMap_congr hget, List.filterMap_some]

end AmulField

open Data (Printable)

lemma plain_break {c : Char} (h : 0x20 ≤ c.toNat ∧ c.toNat < 0x7f) : PyText.isLineBreak c = false := by
  have hne : c.toNat ∉ [0xa, 0xb, 0xc, 0xd, 0x1c, 0x1d, 0x1e, 0x85, 0x2028, 0x2029] := by
    simp only [List.mem_cons, List.not_mem_nil, or_false]
    omega
  simpa [PyText.isLineBreak] using hne

lemma lines_break {cs : List Char} (h : Printable cs) (acc rest : List Char) :
    PyText.lines acc (cs ++ '\n' :: rest) = (acc ++ cs) :: PyText.lines [] rest := by
  induction cs generalizing acc with
  | nil =>
    rw [List.nil_append, PyText.lines, List.append_nil]
    · rfl
    · simp
  | cons c cs ih =>
    obtain ⟨hc, hcs⟩ := Data.printable_cons.mp h
    have hplain := plain_break hc
    rw [List.cons_append, PyText.lines, if_neg (by simp [hplain]), ih hcs, List.append_assoc, List.singleton_append]
    · rintro - rfl
      exact absurd hplain (by decide)

lemma lines_last {cs : List Char} (h : Printable cs) (acc : List Char) :
    PyText.lines acc cs = if acc ++ cs = [] then [] else [acc ++ cs] := by
  induction cs generalizing acc with
  | nil => rw [PyText.lines, List.append_nil]
  | cons c cs ih =>
    obtain ⟨hc, hcs⟩ := Data.printable_cons.mp h
    have hplain := plain_break hc
    rw [PyText.lines, if_neg (by simp [hplain]), ih hcs, List.append_assoc, List.singleton_append]
    · rintro - rfl
      exact absurd hplain (by decide)

lemma lines_whole {ls : List (List Char)} (hls : ∀ l ∈ ls, Printable l) {torn : List Char} (ht : Printable torn) :
    PyText.lines [] (ls.flatMap (· ++ ['\n']) ++ torn) = ls ++ if torn = [] then [] else [torn] := by
  induction ls with
  | nil => exact lines_last ht []
  | cons l ls ih =>
    obtain ⟨hl, hrest⟩ := List.forall_mem_cons.mp hls
    rw [List.flatMap_cons, List.append_assoc, List.append_assoc, List.singleton_append, lines_break hl, ih hrest]
    rfl

lemma newlines_whole {ls : List (List Char)} (hls : ∀ l ∈ ls, Printable l) {torn : List Char} (ht : Printable torn) :
    PyText.newlines (ls.flatMap (· ++ ['\n']) ++ torn) = ls.flatMap (· ++ ['\n']) ++ torn := by
  have hfree : ∀ {cs : List Char}, Printable cs → '\r' ∉ cs := fun h hmem => absurd (h _ hmem) (by decide)
  refine PyText.newlines_of_free fun hmem => ?_
  rcases List.mem_append.mp hmem with hmem | hmem
  · obtain ⟨l, hl, hmem⟩ := List.mem_flatMap.mp hmem
    rcases List.mem_append.mp hmem with hmem | hmem
    · exact hfree (hls l hl) hmem
    · exact absurd (List.mem_singleton.mp hmem) (by decide)
  · exact hfree ht hmem

lemma textLines_whole {ls : List (List Char)} (hls : ∀ l ∈ ls, Printable l) {torn : List Char} (ht : Printable torn) :
    textLines (PyStr.utf8Chars (ls.flatMap (· ++ ['\n']) ++ torn)) = some (ls ++ if torn = [] then [] else [torn]) := by
  simp only [textLines, PyStr.decode_utf8Chars, if_true, newlines_whole hls ht, lines_whole hls ht]

/-! ### Spaces around a line -/

lemma lstrip_cons {c : Char} (hc : PyText.isspace c = false) (cs : List Char) :
    PyText.lstripChars (c :: cs) = c :: cs := List.dropWhile_cons_of_neg (by simp [hc])

/-- What `strip` leaves of a line that no space begins is its front. -/
lemma strip_front {c : Char} (hc : PyText.isspace c = false) (cs : List Char) : ∃ r, c :: cs = strip (c :: cs) ++ r := by
  have hstrip : strip (c :: cs) = (PyText.lstripChars (c :: cs).reverse).reverse := by
    rw [strip, PyText.strip, String.toList_ofList, String.toList_ofList, lstrip_cons hc]
  obtain ⟨r, hr⟩ := List.dropWhile_suffix PyText.isspace (l := (c :: cs).reverse)
  refine ⟨r.reverse, ?_⟩
  rw [hstrip, ← List.reverse_append]
  exact (List.reverse_eq_iff.mpr hr).symm

lemma strip_ends {c e : Char} (hc : PyText.isspace c = false) (he : PyText.isspace e = false) (cs : List Char) :
    strip (c :: (cs ++ [e])) = c :: (cs ++ [e]) := by
  have hlast : PyText.lstripChars (c :: (cs ++ [e])).reverse = (c :: (cs ++ [e])).reverse := by
    rw [List.reverse_cons, List.reverse_append, List.reverse_singleton, List.singleton_append, List.cons_append, lstrip_cons he]
  rw [strip, PyText.strip, String.toList_ofList, String.toList_ofList, lstrip_cons hc, hlast, List.reverse_reverse]

lemma members_last (ms : List (String × Data)) : ∃ cs, Data.membersText ms = cs ++ ['}'] := by
  induction ms with
  | nil => exact ⟨[], rfl⟩
  | cons p ms ih =>
    obtain ⟨k, d⟩ := p
    rw [Data.membersText]
    split_ifs
    · exact ⟨Data.quoted k ++ ':' :: d.ascii, by simp⟩
    · obtain ⟨cs, hcs⟩ := ih
      exact ⟨Data.quoted k ++ ':' :: (d.ascii ++ ',' :: cs), by simp [hcs]⟩

namespace Artifact

lemma text_ends (a : Artifact) : ∃ cs, a.text = '{' :: (cs ++ ['}']) := by
  obtain ⟨cs, hcs⟩ := members_last [("artifact_id", .str a.artifactId), ("ledger_id", .str a.ledgerId),
    ("resolution", .str a.resolution.text), ("payload", .str a.payload), ("payload_sha256", .str a.payloadSha256),
    ("authority_class", .str a.authorityClass), ("lineage_parent_ids", strings a.lineageParentIds),
    ("derived_from", strings a.derivedFrom), ("provenance_chain", .arr (a.provenanceChain.map ProvenanceEvent.data)),
    ("created_at", .str a.createdAt), ("schema_version", .str a.schemaVersion)]
  exact ⟨cs, by rw [text, data, Data.ascii, hcs]⟩

lemma text_ne_nil (a : Artifact) : a.text ≠ [] := by
  obtain ⟨cs, hcs⟩ := a.text_head
  simp [hcs]

lemma strip_text (a : Artifact) : strip a.text = a.text := by
  obtain ⟨cs, hcs⟩ := a.text_ends
  rw [hcs, strip_ends (by decide) (by decide)]

/-- A line that is cut short is not read, whatever spaces it ends in. -/
lemma parse_strip_torn (py : Python) (hpy : 3 ≤ py.loadsNesting) (a : Artifact) {p q : List Char} (hp : p ≠ []) (hq : q ≠ [])
    (h : p ++ q = a.text) : strip p ≠ [] ∧ parse py (strip p) = none := by
  obtain ⟨cs, hcs⟩ := a.text_head
  obtain ⟨p', rfl⟩ : ∃ p', p = '{' :: p' := by
    rcases Data.cut_cons (h.trans hcs) with rfl | ⟨p', rfl, -⟩
    · exact absurd rfl hp
    · exact ⟨p', rfl⟩
  have hspace : PyText.isspace '{' = false := by decide
  obtain ⟨r, hr⟩ := strip_front hspace p'
  constructor
  · intro hnil
    have hlstrip := lstrip_cons hspace p'
    rw [strip, PyText.strip, String.toList_ofList, String.toList_ofList, hlstrip, List.reverse_eq_nil_iff,
      PyText.lstripChars, List.dropWhile_eq_nil_iff] at hnil
    exact absurd (hnil '{' (by simp)) (by simp [hspace])
  · refine parse_torn py hpy a (q := r ++ q) (by simp [hq]) ?_
    rw [← List.append_assoc, ← hr, h]

end Artifact

/-! ### Bytes -/

lemma utf8_ascii {c : Char} (h : c.toNat < 0x80) : String.utf8EncodeChar c = [UInt8.ofNat c.toNat] := by
  have hval : c.val.toNat = c.toNat := rfl
  simp only [String.utf8EncodeChar, hval, if_pos (by omega : c.toNat ≤ 0x7f)]

/-- The bytes of ASCII are cut where its characters are. -/
lemma take_ascii {cs : List Char} (h : ∀ c ∈ cs, c.toNat < 0x80) (k : ℕ) :
    (PyStr.utf8Chars cs).take k = PyStr.utf8Chars (cs.take k) := by
  induction cs generalizing k with
  | nil => simp [PyStr.utf8Chars]
  | cons c cs ih =>
    obtain ⟨hc, hcs⟩ := List.forall_mem_cons.mp h
    cases k with
    | zero => rfl
    | succ k =>
      have hrest := ih hcs k
      simp only [PyStr.utf8Chars, List.flatMap_cons, utf8_ascii hc, List.singleton_append, List.take_succ_cons] at hrest ⊢
      rw [hrest]

lemma utf8Chars_append (a b : List Char) : PyStr.utf8Chars (a ++ b) = PyStr.utf8Chars a ++ PyStr.utf8Chars b := List.flatMap_append

lemma ascii_line (a : Artifact) : ∀ c ∈ a.text ++ ['\n'], c.toNat < 0x80 := by
  intro c hc
  rcases List.mem_append.mp hc with hc | hc
  · have := a.printable_text c hc
    omega
  · obtain rfl := List.mem_singleton.mp hc
    decide

/-! ### Loading -/

namespace AmulField

lemma load_texts (py : Python) (hpy : 3 ≤ py.loadsNesting) (as : List Artifact) (ls : List (List Char)) (f : AmulField) :
    load py (as.map Artifact.text ++ ls) f = load py ls (as.foldl add f) := by
  induction as generalizing f with
  | nil => rfl
  | cons a as ih =>
    rw [List.map_cons, List.cons_append, load, a.strip_text, if_neg a.text_ne_nil, Artifact.parse_text py hpy]
    exact ih (f.add a)

lemma load_torn (py : Python) (hpy : 3 ≤ py.loadsNesting) {a : Artifact} {p q : List Char} (hp : p ≠ []) (hq : q ≠ [])
    (h : p ++ q = a.text) (f : AmulField) : load py [p] f = f := by
  obtain ⟨hne, hparse⟩ := Artifact.parse_strip_torn py hpy a hp hq h
  rw [load, if_neg hne, hparse]

end AmulField

end ContinuityLedger.Amul
