import ContinuityLedger.Backup.SigExport
import ContinuityLedger.Foundations.Delimited

/-! A dump's lines as the reader of the signatures export sees them: it takes a table's `COPY` line for what it is and no other
line for one, and it reads back what a column says. -/

namespace ContinuityLedger.Backup.SigExport

open Foundations

/-! ### Columns -/

lemma read_of_free {cs : List Char} (h : '\\' ∉ cs) : CopyText.read cs = cs := by
  induction cs with
  | nil => rfl
  | cons c cs ih =>
    rw [List.mem_cons, not_or] at h
    cases cs with
    | nil => rfl
    | cons d cs => rw [CopyText.read, if_neg fun hc => h.1 hc.symm, ih h.2]

lemma unescape_column (c : Option String) : unescape (CopyText.column '\t' c) = c := by
  cases c with
  | none => rfl
  | some s =>
    have hread := CopyText.read_value s
    have hnull : CopyText.value '\t' s ≠ ['\\', 'N'] := by
      intro hn
      rw [hn] at hread
      obtain rfl : s = "N" := String.toList_injective hread.symm
      exact absurd hn (by decide)
    rw [CopyText.column, unescape, if_neg hnull]
    by_cases hfree : '\\' ∉ CopyText.value '\t' s
    · rw [read_of_free hfree] at hread
      rw [if_pos hfree, hread, String.ofList_toList]
    · rw [if_neg hfree, hread, String.ofList_toList]

lemma unescape_row {columns : List (Option String)} (h : columns ≠ []) :
    ((CopyText.row '\t' columns).splitOn '\t').map unescape = columns := by
  rw [CopyText.splitOn_row h, List.map_map]
  exact List.map_id'' unescape_column columns

/-! ### Lines -/

/-- A line that the file is not broken in. -/
def Whole (line : List Char) : Prop := '\n' ∉ line ∧ '\r' ∉ line

lemma whole_append {a b : List Char} : Whole (a ++ b) ↔ Whole a ∧ Whole b := by
  simp only [Whole, List.mem_append, not_or]
  tauto

lemma rstrip_line {line : List Char} (h : Whole line) : rstrip (line ++ ['\n']) = line := by
  have hkeep : line.reverse.dropWhile (· = '\n') = line.reverse := by
    cases hr : line.reverse with
    | nil => rfl
    | cons c cs =>
      refine List.dropWhile_cons_of_neg ?_
      have hc : c ∈ line := List.mem_reverse.mp (hr ▸ List.mem_cons_self)
      simpa using fun hn : c = '\n' => h.1 (hn ▸ hc)
  rw [rstrip, List.reverse_append, List.reverse_singleton, List.singleton_append, List.dropWhile_cons_of_pos (by simp), hkeep,
    List.reverse_reverse]

lemma rawLines_line {line : List Char} (h : '\n' ∉ line) (acc rest : List Char) :
    rawLines acc (line ++ '\n' :: rest) = (acc ++ line ++ ['\n']) :: rawLines [] rest := by
  induction line generalizing acc with
  | nil => simp [rawLines]
  | cons c cs ih =>
    rw [List.mem_cons, not_or] at h
    rw [List.cons_append, rawLines, if_neg fun hc => h.1 hc.symm, ih h.2]
    simp

lemma stdin_lines {lines : List (List Char)} (h : ∀ line ∈ lines, Whole line) :
    stdin (lines.flatMap (· ++ ['\n'])) = lines.map (· ++ ['\n']) := by
  have hcr : '\r' ∉ lines.flatMap (· ++ ['\n']) := by
    intro hmem
    obtain ⟨line, hl, hin⟩ := List.mem_flatMap.mp hmem
    rcases List.mem_append.mp hin with hin | hin
    · exact (h line hl).2 hin
    · exact absurd (List.mem_singleton.mp hin) (by decide)
  rw [stdin, PyText.newlines_of_free hcr]
  clear hcr
  induction lines with
  | nil => rfl
  | cons line lines ih =>
    obtain ⟨hline, hrest⟩ := List.forall_mem_cons.mp h
    rw [List.flatMap_cons, List.append_assoc, List.singleton_append, rawLines_line hline.1, List.nil_append, ih hrest,
      List.map_cons]

/-! ### The header -/

lemma header_remark (m : Remark) : header m.val = none := by
  simp only [header, expect, m.property.1]
  rfl

lemma expect_suffix {start cs rest : List Char} (h : expect start cs = some rest) : rest <:+ cs := by
  unfold expect at h
  split_ifs at h
  exact Option.some.inj h ▸ List.drop_suffix _ _

lemma skipQuote_suffix (cs : List Char) : skipQuote cs <:+ cs := by
  unfold skipQuote
  split
  · exact List.suffix_cons _ _
  · exact List.suffix_refl _

lemma skipSchema_suffix (cs : List Char) : skipSchema cs <:+ cs := by
  unfold skipSchema
  split
  · rename_i rest hd
    split_ifs
    · exact List.suffix_refl _
    · exact (List.suffix_cons '.' rest).trans (hd ▸ List.dropWhile_suffix _)
  · exact List.suffix_refl _

/-- A line that starts a table ends in a semicolon. -/
lemma header_last {line : List Char} {found : String × List Char} (h : header line = some found) :
    line.getLast? = some ';' := by
  simp only [header, Option.bind_eq_bind, Option.bind_eq_some_iff] at h
  obtain ⟨cs, hcopy, ds, hopen, h⟩ := h
  split_ifs at h with hend
  simp only [Bool.and_eq_true, beq_iff_eq] at hend
  have htail : ") FROM stdin;".toList <:+ line := by
    rw [← hend.2]
    refine (List.dropWhile_suffix _).trans ((expect_suffix hopen).trans ?_)
    refine (skipQuote_suffix _).trans ((List.dropWhile_suffix _).trans ?_)
    exact (skipQuote_suffix _).trans ((skipSchema_suffix _).trans (expect_suffix hcopy))
  obtain ⟨front, rfl⟩ := htail
  rw [List.getLast?_append_of_ne_nil _ (by decide)]
  decide

/-! ### A table's line -/

section

variable {db : Database} (l : Layout db)

/-- Every name in the schema is a word. -/
lemma word_of_schema : ∀ t ∈ schema, (t.name ≠ "" ∧ t.name.toList.all wordChar = true) ∧ t.columns ≠ [] ∧
    ∀ c ∈ t.columns, c.name ≠ "" ∧ c.name.toList.all wordChar = true := by
  decide

lemma takeWhile_cut {p : Char → Bool} {cs : List Char} {c : Char} (hcs : ∀ d ∈ cs, p d = true) (hc : p c = false)
    (rest : List Char) :
    (cs ++ c :: rest).takeWhile p = cs ∧ (cs ++ c :: rest).dropWhile p = c :: rest := by
  rw [List.takeWhile_append_of_pos hcs, List.dropWhile_append_of_pos hcs, List.takeWhile_cons_of_neg (by simp [hc]),
    List.dropWhile_cons_of_neg (by simp [hc]), List.append_nil]
  exact ⟨rfl, rfl⟩

lemma identifier_ne_nil {name : String} (h : name ≠ "") : l.identifier name ≠ [] := by
  unfold Layout.identifier
  split_ifs
  · exact List.cons_ne_nil _ _
  · simpa using h

lemma identifierChar_identifier {name : String} (h : name.toList.all wordChar = true) :
    ∀ c ∈ l.identifier name, identifierChar c = true := by
  intro c hc
  unfold Layout.identifier at hc
  have hword : ∀ d ∈ name.toList, identifierChar d = true := by
    intro d hd
    simp [identifierChar, List.all_eq_true.mp h d hd]
  split_ifs at hc
  · rcases List.mem_cons.mp hc with rfl | hc
    · decide
    · rcases List.mem_append.mp hc with hc | hc
      · exact hword c hc
      · exact List.mem_singleton.mp hc ▸ by decide
  · exact hword c hc

lemma skipSchema_word {name : String} (hne : name ≠ "") (h : name.toList.all wordChar = true) (rest : List Char) :
    skipSchema (l.identifier name ++ '.' :: rest) = rest := by
  obtain ⟨htake, hdrop⟩ := takeWhile_cut (identifierChar_identifier l h) (by decide : identifierChar '.' = false) rest
  unfold skipSchema
  rw [hdrop, htake]
  exact if_neg (identifier_ne_nil l hne)

/-- What stands behind a name that may be quoted. -/
lemma name_cut {name : String} (hne : name ≠ "") (h : name.toList.all wordChar = true) {c : Char}
    (hc : wordChar c = false) (hquote : c ≠ '"') (rest : List Char) :
    (skipQuote (l.identifier name ++ c :: rest)).takeWhile wordChar = name.toList ∧
      skipQuote ((skipQuote (l.identifier name ++ c :: rest)).dropWhile wordChar) = c :: rest := by
  have hword := List.all_eq_true.mp h
  have hskip : ∀ cs : List Char, (∀ d ∈ cs.head?, d ≠ '"') → skipQuote cs = cs := by
    intro cs hcs
    unfold skipQuote
    split
    · exact absurd rfl (hcs _ rfl)
    · rfl
  unfold Layout.identifier
  split_ifs
  · have hquoted : '"' :: name.toList ++ ['"'] ++ c :: rest = '"' :: (name.toList ++ '"' :: c :: rest) := by simp
    rw [hquoted]
    obtain ⟨htake, hdrop⟩ := takeWhile_cut hword (by decide : wordChar '"' = false) (c :: rest)
    exact ⟨htake, by rw [skipQuote, hdrop, skipQuote]⟩
  · have hhead : skipQuote (name.toList ++ c :: rest) = name.toList ++ c :: rest := by
      refine hskip _ fun d hd => ?_
      rintro rfl
      obtain ⟨e, es, hes⟩ := List.exists_cons_of_ne_nil (l := name.toList) (by simpa using hne)
      rw [hes, List.cons_append, List.head?_cons, Option.mem_some_iff] at hd
      exact absurd (hword e (hes ▸ List.mem_cons_self)) (by rw [hd]; decide)
    obtain ⟨htake, hdrop⟩ := takeWhile_cut hword hc rest
    rw [hhead]
    exact ⟨htake, by rw [hdrop, hskip _ (by simpa using hquote)]⟩

lemma expect_append (start rest : List Char) : expect start (start ++ rest) = some rest := by
  rw [expect, if_pos (List.isPrefixOf_iff_prefix.mpr (List.prefix_append _ _)), List.drop_left]

/-- The names of the columns with commas between them. -/
def Layout.joined (t : Table) : List Char := [',', ' '].intercalate (t.columns.map fun c => l.identifier c.name)

variable {l}

lemma mem_joined {t : Table} (ht : t ∈ schema) {c : Char} (h : c ∈ Layout.joined l t) :
    identifierChar c = true ∨ c = ',' ∨ c = ' ' := by
  rcases Joined.mem_intercalate h with hc | ⟨_, hname, hc⟩
  · exact .inr (by simpa using hc)
  · obtain ⟨column, hcolumn, rfl⟩ := List.mem_map.mp hname
    exact .inl (identifierChar_identifier l ((word_of_schema t ht).2.2 column hcolumn).2 c hc)

omit db in
lemma header_eq {line cs ds : List Char} (hcopy : expect "COPY ".toList line = some cs)
    (hopen : expect " (".toList (skipQuote ((skipQuote (skipSchema cs)).dropWhile wordChar)) = some ds)
    (hname : (skipQuote (skipSchema cs)).takeWhile wordChar ≠ [])
    (hend : ds.dropWhile (· ≠ ')') = ") FROM stdin;".toList) :
    header line = some (String.ofList ((skipQuote (skipSchema cs)).takeWhile wordChar), ds.takeWhile (· ≠ ')')) := by
  simp only [header, hcopy, hopen, hend, Option.bind_eq_bind, Option.bind_some]
  exact if_pos (by simpa using hname)

lemma header_copyLine {t : Table} (ht : t ∈ schema) : header (l.copyLine t) = some (t.name, Layout.joined l t) := by
  obtain ⟨⟨hne, hword⟩, -, -⟩ := word_of_schema t ht
  have htail : ") FROM stdin;".toList = ')' :: " FROM stdin;".toList := by decide
  have hopens : " (".toList = [' ', '('] := by decide
  have hline : l.copyLine t = "COPY ".toList ++ (l.identifier l.schemaName.val ++ '.' ::
      (l.identifier t.name ++ ' ' :: ('(' :: (Layout.joined l t ++ ") FROM stdin;".toList)))) := by
    unfold Layout.copyLine Layout.joined
    rw [hopens]
    generalize "COPY ".toList = a
    generalize ") FROM stdin;".toList = b
    simp only [List.append_assoc, List.cons_append, List.nil_append]
  have hclose : ∀ c ∈ Layout.joined l t, decide (c ≠ ')') = true := by
    intro c hc
    refine decide_eq_true ?_
    rintro rfl
    exact absurd (mem_joined ht hc) (by decide)
  obtain ⟨htake, hdrop⟩ := takeWhile_cut hclose (by decide : decide (')' ≠ ')') = false) " FROM stdin;".toList
  rw [← htail] at htake hdrop
  obtain ⟨hname, hrest⟩ := name_cut l hne hword (by decide : wordChar ' ' = false) (by decide)
    ('(' :: (Layout.joined l t ++ ") FROM stdin;".toList))
  have hskip := skipSchema_word l l.schemaName.property.1 l.schemaName.property.2
    (l.identifier t.name ++ ' ' :: ('(' :: (Layout.joined l t ++ ") FROM stdin;".toList)))
  have hcopy := expect_append "COPY ".toList (l.identifier l.schemaName.val ++ '.' ::
    (l.identifier t.name ++ ' ' :: ('(' :: (Layout.joined l t ++ ") FROM stdin;".toList))))
  have hopen := expect_append " (".toList (Layout.joined l t ++ ") FROM stdin;".toList)
  rw [← hline] at hcopy
  rw [← hskip] at hname hrest
  have hspaced : " (".toList ++ (Layout.joined l t ++ ") FROM stdin;".toList) =
      ' ' :: '(' :: (Layout.joined l t ++ ") FROM stdin;".toList) := by
    rw [hopens]
    rfl
  rw [hspaced, ← hrest] at hopen
  have hfound := header_eq hcopy hopen (by rw [hname]; simpa using hne) hdrop
  rw [hname, htake, String.ofList_toList] at hfound
  exact hfound

/-! ### The columns' names -/

omit db in
lemma isspace_identifier {c : Char} (h : identifierChar c = true) : PyText.isspace c = false := by
  have hcodes : (97 ≤ c.toNat ∧ c.toNat ≤ 122) ∨ (65 ≤ c.toNat ∧ c.toNat ≤ 90) ∨ (48 ≤ c.toNat ∧ c.toNat ≤ 57) ∨
      c = '_' ∨ c = '"' := by
    simp only [identifierChar, wordChar, Char.isAlphanum, Char.isAlpha, Char.isUpper, Char.isLower, Char.isDigit,
      Bool.or_eq_true, Bool.and_eq_true, decide_eq_true_eq, beq_iff_eq, UInt32.le_iff_toNat_le, ge_iff_le] at h
    unfold Char.toNat
    simp at h
    tauto
  rcases hcodes with hc | hc | hc | rfl | rfl
  · unfold PyText.isspace
    obtain ⟨hlow, hhigh⟩ := hc
    generalize c.toNat = n at hlow hhigh
    interval_cases n <;> decide
  · unfold PyText.isspace
    obtain ⟨hlow, hhigh⟩ := hc
    generalize c.toNat = n at hlow hhigh
    interval_cases n <;> decide
  · exact PyText.isspace_digit (by simpa [Char.isDigit, UInt32.le_iff_toNat_le] using hc)
  · decide
  · decide

omit db in
lemma strip_space (cs : List Char) : PyText.strip (String.ofList (' ' :: cs)) = PyText.strip (String.ofList cs) := by
  have hspace : PyText.lstripChars (' ' :: cs) = PyText.lstripChars cs := List.dropWhile_cons_of_pos (by decide)
  simp only [PyText.strip, String.toList_ofList, hspace]

lemma strip_identifier {name : String} (h : name.toList.all wordChar = true) :
    PyText.strip (String.ofList (l.identifier name)) = String.ofList (l.identifier name) := by
  refine PyText.strip_of_ends (fun c hc => ?_) fun c hc => ?_
  · exact isspace_identifier (identifierChar_identifier l h c (List.mem_of_mem_head? hc))
  · exact isspace_identifier (identifierChar_identifier l h c (List.mem_of_getLast? hc))

lemma stripQuotes_identifier {name : String} (h : name.toList.all wordChar = true) :
    stripQuotes (l.identifier name) = name.toList := by
  have hkeep : ∀ cs : List Char, (∀ c ∈ cs, wordChar c = true) → cs.dropWhile (· = '"') = cs := by
    intro cs hcs
    cases cs with
    | nil => rfl
    | cons c cs =>
      refine List.dropWhile_cons_of_neg ?_
      simp only [decide_eq_true_eq]
      rintro rfl
      exact absurd (hcs '"' List.mem_cons_self) (by decide)
  have hword := List.all_eq_true.mp h
  have hback : ∀ c ∈ name.toList.reverse, wordChar c = true := fun c hc => hword c (List.mem_reverse.mp hc)
  unfold Layout.identifier stripQuotes
  split_ifs
  · rw [List.cons_append, List.dropWhile_cons_of_pos (by simp)]
    cases hn : name.toList with
    | nil => rfl
    | cons c cs =>
      rw [← hn]
      have hfront : (name.toList ++ ['"']).dropWhile (· = '"') = name.toList ++ ['"'] := by
        rw [hn, List.cons_append]
        refine List.dropWhile_cons_of_neg ?_
        simp only [decide_eq_true_eq]
        rintro rfl
        exact absurd (hword '"' (hn ▸ List.mem_cons_self)) (by decide)
      rw [hfront, List.reverse_append, List.reverse_singleton, List.singleton_append, List.dropWhile_cons_of_pos (by simp),
        hkeep _ hback, List.reverse_reverse]
  · rw [hkeep _ hword, hkeep _ hback, List.reverse_reverse]

lemma columnNames_joined {t : Table} (ht : t ∈ schema) : columnNames (Layout.joined l t) = t.columns.map Column.name := by
  obtain ⟨-, hne, hwords⟩ := word_of_schema t ht
  have hfree : ∀ c ∈ t.columns, ',' ∉ l.identifier c.name := fun c hc hmem =>
    absurd (identifierChar_identifier l (hwords c hc).2 ',' hmem) (by decide)
  obtain ⟨first, rest, hcols⟩ := List.exists_cons_of_ne_nil hne
  rw [hcols] at hwords hfree
  have hname : ∀ c ∈ first :: rest,
      String.ofList (stripQuotes (PyText.strip (String.ofList (l.identifier c.name))).toList) = c.name := by
    intro c hc
    have hw := (hwords c hc).2
    rw [strip_identifier hw, String.toList_ofList, stripQuotes_identifier hw, String.ofList_toList]
  rw [columnNames, Layout.joined, hcols, List.map_cons, Joined.intercalate_cons, List.splitOn_intercalate]
  · simp only [List.map_cons, List.map_map]
    refine congrArg₂ List.cons (hname first List.mem_cons_self) (List.map_congr_left fun c hc => ?_)
    simp only [Function.comp_apply, List.singleton_append, strip_space]
    exact hname c (List.mem_cons_of_mem _ hc)
  · intro cs hcs
    rcases List.mem_cons.mp hcs with rfl | hcs
    · exact hfree first List.mem_cons_self
    · rw [List.map_map] at hcs
      obtain ⟨c, hc, rfl⟩ := List.mem_map.mp hcs
      simpa using hfree c (List.mem_cons_of_mem _ hc)
  · exact List.cons_ne_nil _ _

end

end ContinuityLedger.Backup.SigExport
