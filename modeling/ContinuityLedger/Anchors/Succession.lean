import ContinuityLedger.Anchors.Check
import ContinuityLedger.Foundations.Prefixed

/-! Where no name holds a bar, an anchors file is read back as the database it was made of, and the check says whether one
database may follow the other. -/

namespace ContinuityLedger.Anchors

open Foundations Foundations.Sha256 Foundations.Delimited

/-! ### Lines -/

/-- What a line says: its kind, the names that it is found by, and the values under them. -/
structure Anchor where
  kind : Kind
  names : List String
  values : List String

def Anchor.strings (a : Anchor) : List String := a.kind.text :: (a.names ++ a.values)

def Anchor.fields (a : Anchor) : List Line := a.strings.map (CopyText.value '\t')

def Anchor.line (a : Anchor) : Line := bars a.fields

def Anchor.Free (a : Anchor) : Prop := ∀ s ∈ a.names ++ a.values, Delimited.Free '|' s

def Head.anchor (h : Head) : Anchor :=
  ⟨.head, [h.tenant, h.id], [toString h.lastSeq, h.lastHash.text, if h.deleted then "t" else "f"]⟩

def Counter.anchor (c : Counter) : Anchor := ⟨.counter, [c.tenant], [toString (c.lastSeq : ℤ)]⟩

def Block.anchor (b : Block) : Anchor :=
  ⟨.block, [b.tenant, toString (b.height : ℤ)], [toString b.lastSeq, b.blockHash.text]⟩

def Logged.anchor {n : ℕ} (kind : Kind) (l : Logged n) : Anchor := ⟨kind, [l.tenant, toString (l.seq : ℤ)], [l.hash.text]⟩

def Database.anchors (db : Database) : Kind → List Anchor
  | .head => db.heads.map Head.anchor
  | .counter => db.counters.map Counter.anchor
  | .block => db.blocks.map Block.anchor
  | .att => db.attestations.map (Logged.anchor .att)
  | .trust => db.trustStatements.map (Logged.anchor .trust)

/-- No tenant and no record's name holds a bar. -/
structure Database.Plain (db : Database) : Prop where
  heads : ∀ h ∈ db.heads, Delimited.Free '|' h.tenant ∧ Delimited.Free '|' h.id
  counters : ∀ c ∈ db.counters, Delimited.Free '|' c.tenant
  blocks : ∀ b ∈ db.blocks, Delimited.Free '|' b.tenant
  attestations : ∀ a ∈ db.attestations, Delimited.Free '|' a.tenant
  trustStatements : ∀ s ∈ db.trustStatements, Delimited.Free '|' s.tenant

/-- Nor does a row of the dump begin as a `COPY` does. -/
def Source.Plain : Source → Prop
  | .dump d => d.db.Plain ∧ ∀ s ∈ d.sections, ∀ r ∈ s.rows, opened (CopyText.row '\t' r) = none
  | .collected db => db.Plain

lemma Source.Plain.db {s : Source} (h : s.Plain) : s.db.Plain := by
  cases s with
  | dump d => exact h.1
  | collected db => exact h

lemma kind_free (k : Kind) : Delimited.Free '|' k.text := by
  unfold Delimited.Free
  cases k <;> decide

lemma kind_value (k : Kind) : CopyText.value '\t' k.text = k.text.toList := by cases k <;> decide

lemma kind_ne {j k : Kind} (h : j ≠ k) : j.text.toList ≠ k.text.toList := by
  revert h
  cases j <;> cases k <;> decide

lemma free_flag (b : Bool) : Delimited.Free '|' (if b then "t" else "f") := by
  unfold Delimited.Free
  cases b <;> decide

lemma Head.anchor_free {h : Head} (ht : Delimited.Free '|' h.tenant) (hid : Delimited.Free '|' h.id) : h.anchor.Free := by
  intro s hs
  simp only [Head.anchor, List.cons_append, List.nil_append, List.mem_cons, List.not_mem_nil, or_false] at hs
  rcases hs with rfl | rfl | rfl | rfl | rfl
  · exact ht
  · exact hid
  · exact free_number _
  · exact free_text _
  · exact free_flag _

lemma Counter.anchor_free {c : Counter} (ht : Delimited.Free '|' c.tenant) : c.anchor.Free := by
  intro s hs
  simp only [Counter.anchor, List.cons_append, List.nil_append, List.mem_cons, List.not_mem_nil, or_false] at hs
  rcases hs with rfl | rfl
  · exact ht
  · exact free_number _

lemma Block.anchor_free {b : Block} (ht : Delimited.Free '|' b.tenant) : b.anchor.Free := by
  intro s hs
  simp only [Block.anchor, List.cons_append, List.nil_append, List.mem_cons, List.not_mem_nil, or_false] at hs
  rcases hs with rfl | rfl | rfl | rfl
  · exact ht
  · exact free_number _
  · exact free_number _
  · exact free_text _

lemma Logged.anchor_free {n : ℕ} (kind : Kind) {l : Logged n} (ht : Delimited.Free '|' l.tenant) : (l.anchor kind).Free := by
  intro s hs
  simp only [Logged.anchor, List.cons_append, List.nil_append, List.mem_cons, List.not_mem_nil, or_false] at hs
  rcases hs with rfl | rfl | rfl
  · exact ht
  · exact free_number _
  · exact free_text _

lemma anchors_free {db : Database} (h : db.Plain) {k : Kind} {a : Anchor} (ha : a ∈ db.anchors k) : a.Free ∧ a.kind = k := by
  cases k with
  | head =>
    obtain ⟨r, hr, rfl⟩ := List.mem_map.mp ha
    exact ⟨Head.anchor_free (h.heads r hr).1 (h.heads r hr).2, rfl⟩
  | counter =>
    obtain ⟨r, hr, rfl⟩ := List.mem_map.mp ha
    exact ⟨Counter.anchor_free (h.counters r hr), rfl⟩
  | block =>
    obtain ⟨r, hr, rfl⟩ := List.mem_map.mp ha
    exact ⟨Block.anchor_free (h.blocks r hr), rfl⟩
  | att =>
    obtain ⟨r, hr, rfl⟩ := List.mem_map.mp ha
    exact ⟨Logged.anchor_free .att (h.attestations r hr), rfl⟩
  | trust =>
    obtain ⟨r, hr, rfl⟩ := List.mem_map.mp ha
    exact ⟨Logged.anchor_free .trust (h.trustStatements r hr), rfl⟩

lemma Anchor.strings_free {a : Anchor} (h : a.Free) : ∀ s ∈ a.strings, Delimited.Free '|' s := by
  intro s hs
  rcases List.mem_cons.mp hs with rfl | hs
  · exact kind_free _
  · exact h s hs

lemma Anchor.line_eq (a : Anchor) :
    a.line = bars (a.kind.text.toList :: (a.names ++ a.values).map (CopyText.value '\t')) := by
  rw [Anchor.line, Anchor.fields, Anchor.strings, List.map_cons, kind_value]

/-- A line is split into its fields. -/
lemma Anchor.splitOn_line {a : Anchor} (h : a.Free) : a.line.splitOn '|' = a.fields := by
  refine List.splitOn_intercalate '|' (fun l hl => ?_) (by simp [Anchor.fields, Anchor.strings])
  obtain ⟨s, hs, rfl⟩ := List.mem_map.mp hl
  exact CopyText.free_value (Anchor.strings_free h s hs)

lemma picked_line {a : Anchor} (h : a.Free) (k : Kind) (key : List Line → Line) (i : ℕ) :
    picked k key i a.line = if a.kind = k then some (key a.fields, field a.fields i) else none := by
  unfold picked
  simp only [Anchor.splitOn_line h]
  have hfirst : field a.fields 1 = a.kind.text.toList := kind_value _
  by_cases hk : a.kind = k
  · rw [if_pos hk, if_pos (by rw [hfirst, hk])]
  · rw [if_neg hk, if_neg (by rw [hfirst]; exact kind_ne hk)]

/-! ### Files -/

/-- A row without bars is written with the other delimiter as a line. -/
lemma row_bar {strings : List String} (h : ∀ s ∈ strings, Delimited.Free '|' s) :
    CopyText.row '|' (strings.map some) = bars (strings.map (CopyText.value '\t')) := by
  unfold CopyText.row bars
  congr 1
  rw [List.map_map]
  exact List.map_congr_left fun s hs => CopyText.value_bar (h s hs)

lemma selected_line {a : Anchor} (h : a.Free) : CopyText.row '|' (a.strings.map some) = a.line := row_bar (Anchor.strings_free h)

lemma field_logged {n : ℕ} (a b : Line) {cs : List Line} (h : cs.length = n) (c : Line) (rest : List Line) :
    field (a :: b :: (cs ++ c :: rest)) (n + 3) = c := by
  subst h
  simp [field]

lemma Head.printed_row (h : Head) : printed (some .head) (CopyText.row '\t' h.row) = some h.anchor.line := by
  unfold printed
  rw [CopyText.splitOn_row (by simp [Head.row]), Anchor.line_eq]
  rfl

lemma Counter.printed_row (c : Counter) : printed (some .counter) (CopyText.row '\t' c.row) = some c.anchor.line := by
  unfold printed
  rw [CopyText.splitOn_row (by simp [Counter.row]), Anchor.line_eq]
  rfl

lemma Block.printed_row (b : Block) : printed (some .block) (CopyText.row '\t' b.row) = some b.anchor.line := by
  unfold printed
  rw [CopyText.splitOn_row (by simp [Block.row]), Anchor.line_eq]
  simp only [Block.row, wanted, List.cons_append, List.nil_append, List.map_cons, List.length_cons]
  rw [if_pos (by omega)]
  rfl

lemma Logged.printed_row {n : ℕ} {k : Kind} (hw : wanted k = (n + 3, [1, 2, n + 3])) (l : Logged n) :
    printed (some k) (CopyText.row '\t' l.row) = some (l.anchor k).line := by
  have hlen : (l.columns.1.map (CopyText.column '\t')).length = n := by rw [List.length_map, l.columns.2]
  unfold printed
  rw [CopyText.splitOn_row (by simp [Logged.row]), Anchor.line_eq]
  simp only [Logged.row, hw, List.map_cons, List.map_append, List.length_cons, List.length_append, hlen, List.map_nil]
  rw [if_pos (by omega), field_logged _ _ hlen]
  rfl

lemma printed_rows (db : Database) (k : Kind) :
    (db.rows k).filterMap (fun r => printed (some k) (CopyText.row '\t' r)) = (db.anchors k).map Anchor.line := by
  cases k with
  | head => simp [Database.rows, Database.anchors, List.filterMap_map, Function.comp_def, Head.printed_row]
  | counter => simp [Database.rows, Database.anchors, List.filterMap_map, Function.comp_def, Counter.printed_row]
  | block => simp [Database.rows, Database.anchors, List.filterMap_map, Function.comp_def, Block.printed_row]
  | att =>
    simp [Database.rows, Database.anchors, List.filterMap_map, Function.comp_def,
      Logged.printed_row (n := 7) (k := .att) rfl]
  | trust =>
    simp [Database.rows, Database.anchors, List.filterMap_map, Function.comp_def,
      Logged.printed_row (n := 8) (k := .trust) rfl]

/-- A row of more columns than one is not the line that ends its table. -/
lemma row_ne_end {r : Columns} (h : 2 ≤ r.length) : CopyText.row '\t' r ≠ ['\\', '.'] := by
  intro heq
  obtain ⟨c, d, rest, rfl⟩ : ∃ c d rest, r = c :: d :: rest := by
    match r, h with
    | c :: d :: rest, _ => exact ⟨c, d, rest, rfl⟩
  have htab : '\t' ∈ CopyText.row '\t' (c :: d :: rest) := by
    simp [CopyText.row, List.intercalate_cons_cons]
  rw [heq] at htab
  exact absurd htab (by decide)

lemma rows_length (db : Database) {k : Kind} {r : Columns} (h : r ∈ db.rows k) : 2 ≤ r.length := by
  cases k <;> (obtain ⟨x, -, rfl⟩ := List.mem_map.mp h) <;>
    simp [Head.row, Counter.row, Block.row, Logged.row]

lemma scan_quiet {preamble rest : List Line} (h : ∀ line ∈ preamble, opened line = none) :
    scan none (preamble ++ rest) = scan none rest := by
  induction preamble with
  | nil => rfl
  | cons line preamble ih =>
    obtain ⟨hline, hrest⟩ := List.forall_mem_cons.mp h
    rw [List.cons_append, scan, hline]
    simp only [printed, Option.toList_none, List.nil_append, ih hrest, ite_self]

lemma scan_rows {mode : Option Kind} {rows : List Columns} {rest : List Line}
    (hopen : ∀ r ∈ rows, opened (CopyText.row '\t' r) = none)
    (hend : mode ≠ none → ∀ r ∈ rows, CopyText.row '\t' r ≠ ['\\', '.']) :
    scan mode (rows.map (CopyText.row '\t') ++ ['\\', '.'] :: rest) =
      rows.filterMap (fun r => printed mode (CopyText.row '\t' r)) ++ scan none rest := by
  induction rows with
  | nil =>
    rw [List.map_nil, List.nil_append, scan]
    rfl
  | cons r rows ih =>
    obtain ⟨hr, hrest⟩ := List.forall_mem_cons.mp hopen
    have ih := ih hrest fun hm r hr => hend hm r (List.mem_cons_of_mem _ hr)
    rw [List.map_cons, List.cons_append, scan, hr]
    cases mode with
    | none =>
      simp only [printed, Option.toList_none, List.nil_append, ite_self] at ih ⊢
      rw [ih, List.filterMap_cons]
    | some k =>
      simp only [if_neg (hend (by simp) r List.mem_cons_self), ih]
      cases hp : printed (some k) (CopyText.row '\t' r) <;> simp [hp]

lemma scan_section {d : Dump} {s : Section} (hs : s ∈ d.sections)
    (hopen : ∀ r ∈ s.rows, opened (CopyText.row '\t' r) = none) (rest : List Line) :
    scan none (s.text ++ rest) = s.rows.filterMap (fun r => printed s.kind (CopyText.row '\t' r)) ++ scan none rest := by
  have hend : s.kind ≠ none → ∀ r ∈ s.rows, CopyText.row '\t' r ≠ ['\\', '.'] := by
    intro hk r hr
    obtain ⟨k, hk⟩ := Option.ne_none_iff_exists'.mp hk
    refine row_ne_end (rows_length d.db (k := k) ?_)
    rw [← d.holds k]
    exact List.mem_flatMap.mpr ⟨s, List.mem_filter.mpr ⟨hs, by simp [hk]⟩, hr⟩
  rw [Section.text, List.append_assoc, scan_quiet s.quiet, List.cons_append, scan, s.opens, List.append_assoc]
  exact scan_rows hopen hend

/-- The dump is read table by table. -/
lemma scan_dump {d : Dump} {sections : List Section} (hsub : sections ⊆ d.sections)
    (hopen : ∀ s ∈ sections, ∀ r ∈ s.rows, opened (CopyText.row '\t' r) = none) :
    scan none (sections.flatMap Section.text) =
      sections.flatMap fun s => s.rows.filterMap fun r => printed s.kind (CopyText.row '\t' r) := by
  induction sections with
  | nil => rfl
  | cons s sections ih =>
    obtain ⟨hs, hrest⟩ := List.forall_mem_cons.mp hopen
    rw [List.flatMap_cons, scan_section (hsub List.mem_cons_self) hs,
      ih (fun x hx => hsub (List.mem_cons_of_mem _ hx)) hrest, List.flatMap_cons]

/-- Of one table's lines those of its kind are picked, all of them, and no others. -/
lemma picked_anchors {db : Database} (h : db.Plain) (j k : Kind) (key : List Line → Line) (i : ℕ) :
    ((db.anchors j).map Anchor.line).filterMap (picked k key i) =
      if j = k then (db.anchors k).map (fun a => (key a.fields, field a.fields i)) else [] := by
  rw [List.filterMap_map]
  by_cases hj : j = k
  · subst hj
    rw [if_pos rfl, ← List.filterMap_eq_map]
    refine List.filterMap_congr fun a ha => ?_
    obtain ⟨hf, hk⟩ := anchors_free h ha
    simp [picked_line hf, hk]
  · rw [if_neg hj, List.filterMap_eq_nil_iff]
    intro a ha
    obtain ⟨hf, hk⟩ := anchors_free h ha
    simp [picked_line hf, hk, hj]

lemma picked_sections {d : Dump} (h : d.db.Plain) (k : Kind) (key : List Line → Line) (i : ℕ) {sections : List Section}
    (hsub : sections ⊆ d.sections) :
    (sections.flatMap fun s => s.rows.filterMap fun r => printed s.kind (CopyText.row '\t' r)).filterMap (picked k key i) =
      (((sections.filter fun s => s.kind = some k).flatMap Section.rows).filterMap
        fun r => printed (some k) (CopyText.row '\t' r)).filterMap (picked k key i) := by
  induction sections with
  | nil => rfl
  | cons s sections ih =>
    have ih := ih fun x hx => hsub (List.mem_cons_of_mem _ hx)
    rw [List.flatMap_cons, List.filterMap_append, ih]
    by_cases hk : s.kind = some k
    · rw [List.filter_cons_of_pos (by simp [hk]), List.flatMap_cons, List.filterMap_append, List.filterMap_append, hk]
    · rw [List.filter_cons_of_neg (by simp [hk])]
      refine (congrArg (· ++ _) ?_).trans (List.nil_append _)
      rw [List.filterMap_eq_nil_iff]
      intro line hline
      obtain ⟨r, hr, hprint⟩ := List.mem_filterMap.mp hline
      cases hs : s.kind with
      | none => simp [hs, printed] at hprint
      | some j =>
        have hmem : line ∈ (d.db.rows j).filterMap fun r => printed (some j) (CopyText.row '\t' r) := by
          refine List.mem_filterMap.mpr ⟨r, ?_, hs ▸ hprint⟩
          rw [← d.holds j]
          exact List.mem_flatMap.mpr ⟨s, List.mem_filter.mpr ⟨hsub List.mem_cons_self, by simp [hs]⟩, hr⟩
        rw [printed_rows] at hmem
        have hnone := picked_anchors h j k key i
        rw [if_neg (by rintro rfl; exact hk hs), List.filterMap_eq_nil_iff] at hnone
        exact hnone line hmem

lemma selected_anchors {db : Database} (h : db.Plain) : db.selected.map (CopyText.row '|') =
    (db.anchors .head ++ db.anchors .counter ++ db.anchors .block ++ db.anchors .att ++ db.anchors .trust).map
      Anchor.line := by
  have hone {R : Type} {rows : List R} (k : Kind) (selected : R → Columns) (anchor : R → Anchor)
      (hanchors : db.anchors k = rows.map anchor) (hsel : ∀ r, selected r = (anchor r).strings.map some) :
      (rows.map selected).map (CopyText.row '|') = (rows.map anchor).map Anchor.line := by
    rw [List.map_map, List.map_map]
    refine List.map_congr_left fun r hr => ?_
    rw [Function.comp_apply, hsel]
    exact selected_line (anchors_free h (k := k) (hanchors ▸ List.mem_map_of_mem hr)).1
  simp only [Database.selected, List.map_append]
  rw [hone .head Head.selected Head.anchor rfl fun _ => rfl, hone .counter Counter.selected Counter.anchor rfl fun _ => rfl,
    hone .block Block.selected Block.anchor rfl fun _ => rfl,
    hone .att (Logged.selected "att") (Logged.anchor .att) rfl fun _ => rfl,
    hone .trust (Logged.selected "trust") (Logged.anchor .trust) rfl fun _ => rfl]
  rfl

/-- Either way the lines of a kind are those of its table. -/
lemma picked_file {s : Source} (h : s.Plain) (k : Kind) (key : List Line → Line) (i : ℕ) :
    (s.file.filterMap (picked k key i)).Perm ((s.db.anchors k).map fun a => (key a.fields, field a.fields i)) := by
  cases s with
  | dump d =>
    refine ((List.perm_insertionSort _ _).filterMap _).trans ?_
    rw [scan_dump (List.Subset.refl _) h.2, picked_sections h.1 k key i (List.Subset.refl _), d.holds, printed_rows,
      picked_anchors h.1, if_pos rfl]
    exact List.Perm.refl _
  | collected db =>
    refine ((List.perm_insertionSort _ _).filterMap _).trans ?_
    rw [selected_anchors h]
    simp only [List.map_append, List.filterMap_append, picked_anchors h]
    cases k <;> simp [Source.db]

end ContinuityLedger.Anchors
