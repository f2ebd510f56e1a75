import ContinuityLedger.Backup.SigExportText
import ContinuityLedger.Foundations.JsonbText

/-! The rows of a dump: no row of an unwanted table ends as a `COPY` line does, and of every wanted table the signatures export reads
back exactly its rows, whatever the texts of the database are. -/

namespace ContinuityLedger.Backup.SigExport

open Foundations

/-! ### How a row ends -/

/-- A text that ends, but not in a semicolon. -/
def Closed (cs : List Char) : Prop := ∃ c, cs.getLast? = some c ∧ c ≠ ';'

lemma closed_of_free {cs : List Char} (hne : cs ≠ []) (h : ';' ∉ cs) : Closed cs := by
  refine ⟨cs.getLast hne, List.getLast?_eq_some_getLast hne, fun hc => ?_⟩
  exact h (hc ▸ List.getLast_mem hne)

lemma closed_append {a b : List Char} (h : Closed b) : Closed (a ++ b) := by
  obtain ⟨c, hc, hne⟩ := h
  have hb : b ≠ [] := by
    rintro rfl
    exact absurd hc (by simp)
  exact ⟨c, by rw [List.getLast?_append_of_ne_nil _ hb, hc], hne⟩

lemma closed_append_singleton {a : List Char} {c : Char} (h : c ≠ ';') : Closed (a ++ [c]) := ⟨c, by simp, h⟩

lemma closed_jsonb (j : Jsonb.Value) : Closed j.text.toList := by
  cases j with
  | null => exact ⟨'l', by decide, by decide⟩
  | boolean b => cases b <;> exact ⟨'e', by decide, by decide⟩
  | number d =>
    obtain ⟨c, cs, hlead, -⟩ := Jsonb.Value.text_lead (.number d)
    refine closed_of_free (hlead ▸ List.cons_ne_nil c cs) fun hmem => ?_
    exact absurd (List.all_eq_true.mp d.text_isNumber ';' hmem) (by decide)
  | string s =>
    rw [Jsonb.Value.text, Jsonb.quote_toList, ← List.cons_append]
    exact closed_append_singleton (by decide)
  | array items =>
    rw [Jsonb.Value.text, String.toList_append]
    exact closed_append_singleton (by decide)
  | object fields =>
    rw [Jsonb.Value.text, String.toList_append]
    exact closed_append_singleton (by decide)

lemma intText_int64 (n : Int64) : PyText.intText (toString n.toInt) = some n.toInt := by
  have hlow := n.le_toInt
  have hhigh := n.toInt_lt
  have hlen := Nat.toDigits_length 10 n.toInt.natAbs 20 (by decide) (by omega)
  exact PyText.intText_toString (hlen.trans (by decide))

lemma closed_render {k : Kind} (htext : k ≠ .text) (harray : k ≠ .textArray) (v : k.Value) : Closed (k.render v).toList := by
  have hplain : ∀ s : Plain, Closed s.val.toList := by
    intro s
    refine closed_of_free (by simpa using s.property.1) fun hmem => ?_
    exact absurd (List.all_eq_true.mp s.property.2 ';' hmem) (by decide)
  cases k with
  | text => exact absurd rfl htext
  | textArray => exact absurd rfl harray
  | bigint =>
    refine closed_of_free (fun hnil => ?_) (Delimited.free_int (by decide) (by decide) v.toInt)
    have hread := intText_int64 v
    have hempty : toString (Int64.toInt v) = "" := String.toList_injective hnil
    rw [hempty] at hread
    exact absurd hread (by simp [PyText.intText, PyText.ungrouped, PyText.strip, PyText.lstripChars])
  | boolean => cases v <;> exact ⟨_, rfl, by decide⟩
  | jsonb => exact closed_jsonb v
  | timestamptz => exact hplain v
  | float => exact hplain v

lemma closed_column (c : Option String) (h : ∀ s ∈ c, Closed s.toList) : Closed (CopyText.column '\t' c) := by
  cases c with
  | none => exact ⟨'N', rfl, by decide⟩
  | some s =>
    obtain ⟨c, hc, hne⟩ := h s rfl
    obtain ⟨front, hs⟩ := List.getLast?_eq_some_iff.mp hc
    rw [CopyText.column, CopyText.value, hs, List.flatMap_append, List.flatMap_singleton]
    refine closed_append ?_
    unfold CopyText.escape
    cases hl : CopyText.letter c with
    | some l =>
      refine ⟨l, rfl, ?_⟩
      rintro rfl
      exact hne (CopyText.letter_some hl).1.symm
    | none =>
      simp only
      split_ifs
      · exact ⟨c, rfl, hne⟩
      · exact ⟨c, rfl, hne⟩

lemma texts_last {cs : List Column} (r : Cells cs) {c : Column} (h : cs.getLast? = some c) :
    ∃ front, ∃ v : Option c.kind.Value, r.texts = front ++ [v.map c.kind.render] := by
  induction r with
  | nil => exact absurd h (by simp)
  | @cons d ds value rest ih =>
    cases ds with
    | nil =>
      obtain rfl : d = c := by simpa using h
      cases rest
      exact ⟨[], value, rfl⟩
    | cons e ds =>
      obtain ⟨front, v, hv⟩ := ih (by simpa using h)
      exact ⟨value.map d.kind.render :: front, v, by rw [Cells.texts, hv, List.cons_append]⟩

lemma last_of_unwanted : ∀ t ∈ schema, Dict.has wanted t.name = false →
    (t.columns.getLast?.any fun c => c.kind != .text && c.kind != .textArray) = true := by
  decide

/-- A row of a table that is not wanted starts no table. -/
lemma header_row {t : Table} (ht : t ∈ schema) (hw : Dict.has wanted t.name = false) (r : Cells t.columns) :
    header (rowLine r) = none := by
  have hlast := last_of_unwanted t ht hw
  cases hc : t.columns.getLast? with
  | none =>
    rw [hc] at hlast
    exact absurd hlast (by simp)
  | some c =>
    rw [hc, Option.any_some, Bool.and_eq_true, bne_iff_ne, bne_iff_ne] at hlast
    obtain ⟨front, v, htexts⟩ := texts_last r hc
    obtain ⟨pre, hpre⟩ := Joined.intercalate_last ['\t'] (front.map (CopyText.column '\t'))
      (CopyText.column '\t' (v.map c.kind.render))
    have hclosed : Closed (rowLine r) := by
      rw [rowLine, CopyText.row, htexts, List.map_append, List.map_singleton, hpre]
      refine closed_append (closed_column _ fun s hs => ?_)
      obtain ⟨x, -, rfl⟩ := Option.map_eq_some_iff.mp hs
      exact closed_render hlast.1 hlast.2 x
    cases hh : header (rowLine r) with
    | none => rfl
    | some found =>
      obtain ⟨d, hd, hne⟩ := hclosed
      rw [header_last hh] at hd
      exact absurd (Option.some.inj hd).symm hne

/-! ### Whole lines -/

lemma whole_join {sep : List Char} {ls : List (List Char)} (hsep : Whole sep) (hls : ∀ l ∈ ls, Whole l) :
    Whole (sep.intercalate ls) := by
  have hmem : ∀ c : Char, c ∉ sep → (∀ l ∈ ls, c ∉ l) → c ∉ sep.intercalate ls := by
    intro c hc hcs hin
    rcases Joined.mem_intercalate hin with h | ⟨l, hl, h⟩
    · exact hc h
    · exact hcs l hl h
  exact ⟨hmem _ hsep.1 fun l hl => (hls l hl).1, hmem _ hsep.2 fun l hl => (hls l hl).2⟩

lemma whole_column (c : Option String) : Whole (CopyText.column '\t' c) := by
  cases c with
  | none => exact ⟨by decide, by decide⟩
  | some s =>
    have hescaped : ∀ x : Char, x ≠ '\\' → CopyText.control x = x → CopyText.letter x ≠ some x → CopyText.letter x ≠ none →
        x ∉ CopyText.value '\t' s := by
      intro x hback hcontrol hself hletter hmem
      rcases CopyText.mem_value hmem with h | ⟨c, hc⟩ | ⟨-, h⟩
      · exact hback h
      · obtain rfl := hcontrol.symm.trans (CopyText.letter_some hc).1
        exact hself hc
      · exact hletter h
    exact ⟨hescaped '\n' (by decide) (by decide) (by decide) (by decide),
      hescaped '\r' (by decide) (by decide) (by decide) (by decide)⟩

lemma whole_row {cs : List Column} (r : Cells cs) : Whole (rowLine r) := by
  refine whole_join ⟨by decide, by decide⟩ fun l hl => ?_
  obtain ⟨c, -, rfl⟩ := List.mem_map.mp hl
  exact whole_column c

lemma whole_identifier {db : Database} (l : Layout db) {name : String} (h : name.toList.all wordChar = true) :
    Whole (l.identifier name) :=
  ⟨fun hmem => absurd (identifierChar_identifier l h _ hmem) (by decide),
    fun hmem => absurd (identifierChar_identifier l h _ hmem) (by decide)⟩

lemma whole_copyLine {db : Database} (l : Layout db) {t : Table} (ht : t ∈ schema) : Whole (l.copyLine t) := by
  obtain ⟨⟨-, hname⟩, -, hcols⟩ := word_of_schema t ht
  have hschema := whole_identifier l l.schemaName.property.2
  have hcomma : Whole [',', ' '] := ⟨by decide, by decide⟩
  have hjoined : Whole ([',', ' '].intercalate (t.columns.map fun c => l.identifier c.name)) := by
    refine whole_join hcomma fun cs hcs => ?_
    obtain ⟨c, hc, rfl⟩ := List.mem_map.mp hcs
    exact whole_identifier l (hcols c hc).2
  have hcopy : Whole "COPY ".toList := ⟨by decide, by decide⟩
  have hopen : Whole " (".toList := ⟨by decide, by decide⟩
  have hclose : Whole ") FROM stdin;".toList := ⟨by decide, by decide⟩
  have hdot : Whole ['.'] := ⟨by decide, by decide⟩
  unfold Layout.copyLine
  generalize "COPY ".toList = copy at hcopy ⊢
  generalize " (".toList = opening at hopen ⊢
  generalize ") FROM stdin;".toList = closing at hclose ⊢
  rw [← List.singleton_append]
  simp only [whole_append]
  exact ⟨⟨⟨⟨⟨hcopy, hschema⟩, hdot, whole_identifier l hname⟩, hopen⟩, hjoined⟩, hclose⟩

/-! ### Rows -/

def number : (k : Kind) → k.Value → Value
  | .bigint, n => .int n.toInt
  | k, v => .text (k.render v)

def cellValue (keys : List String) (c : Column) : Option c.kind.Value → Value
  | none => .none
  | some v => if keys.contains c.name then number c.kind v else .text (c.kind.render v)

/-- A row under the names of its columns, with the columns among `keys` as numbers. -/
def record (keys : List String) : {cs : List Column} → Cells cs → Record
  | _, .nil => []
  | c :: _, .cons v rest => (c.name, cellValue keys c v) :: record keys rest

lemma length_texts {cs : List Column} (r : Cells cs) : r.texts.length = cs.length := by
  induction r with
  | nil => rfl
  | cons v rest ih => rw [Cells.texts, List.length_cons, ih, List.length_cons]

lemma record_names (keys : List String) {cs : List Column} (r : Cells cs) :
    (record keys r).map Prod.fst = cs.map Column.name := by
  induction r with
  | nil => rfl
  | cons v rest ih => rw [record, List.map_cons, List.map_cons, ih]

lemma zip_texts {cs : List Column} (r : Cells cs) :
    (cs.map Column.name).zip (r.texts.map fun t => t.elim Value.none Value.text) = record [] r := by
  induction r with
  | nil => rfl
  | cons v rest ih =>
    rw [Cells.texts, record, List.map_cons, List.map_cons, List.zip_cons_cons, ih]
    cases v <;> rfl

/-- A key that no column has changes nothing. -/
lemma record_absent {done : List String} {k : String} {cs : List Column} (r : Cells cs) (h : k ∉ cs.map Column.name) :
    record (done ++ [k]) r = record done r := by
  induction r with
  | nil => rfl
  | @cons c cs v rest ih =>
    rw [List.map_cons, List.mem_cons, not_or] at h
    have hne : c.name ≠ k := fun hc => h.1 hc.symm
    have hkeys : (done ++ [k]).contains c.name = done.contains c.name := by simp [hne]
    rw [record, record, ih h.2]
    cases v with
    | none => rfl
    | some v => rw [cellValue, cellValue, hkeys]

lemma convert_cons {p : String × Value} {row : Record} {k : String} (h : p.1 ≠ k) :
    convert (p :: row) k = (convert row k).map (p :: ·) := by
  unfold convert
  rw [Dict.get_cons_ne h]
  cases Dict.get row k with
  | none => rfl
  | some v =>
    cases v with
    | none => rfl
    | int n => rfl
    | text t =>
      simp only [Option.map_map]
      refine Option.map_congr fun n _ => ?_
      exact Dict.set_cons h _

/-- One key's column becomes a number. -/
lemma convert_record {done : List String} {k : String} {cs : List Column} (r : Cells cs) (hn : (cs.map Column.name).Nodup)
    (hkind : ∀ c ∈ cs, c.name = k → c.kind = .bigint) (hk : k ∉ done) :
    convert (record done r) k = some (record (done ++ [k]) r) := by
  induction r with
  | nil => rfl
  | @cons c cs v rest ih =>
    obtain ⟨hc, hrest⟩ := List.nodup_cons.mp (List.map_cons ▸ hn)
    by_cases hname : c.name = k
    · have hbigint := hkind c List.mem_cons_self hname
      obtain ⟨name, kind⟩ := c
      obtain rfl : name = k := hname
      obtain rfl : kind = .bigint := hbigint
      rw [record, record, record_absent rest hc, convert, Dict.get_cons_self]
      cases v with
      | none => rfl
      | some n =>
        have hfresh : name ∉ (record done rest).map Prod.fst := by rwa [record_names]
        have hold : done.contains name = false := by simpa using hk
        have hnew : (done ++ [name]).contains name = true := by simp
        simp only [cellValue, hold, hnew, Bool.false_eq_true, if_false, if_true, Kind.render, intText_int64, Option.map_some,
          Dict.set_cons_self hfresh, number]
    · have hkeys : (done ++ [k]).contains c.name = done.contains c.name := by simp [hname]
      have hcell : cellValue (done ++ [k]) c v = cellValue done c v := by
        cases v with
        | none => rfl
        | some v => rw [cellValue, cellValue, hkeys]
      rw [record, record, convert_cons hname, ih hrest fun d hd => hkind d (List.mem_cons_of_mem _ hd), hcell]
      rfl

lemma convert_keys {keys done : List String} {cs : List Column} (r : Cells cs) (hn : (cs.map Column.name).Nodup)
    (hkind : ∀ c ∈ cs, c.name ∈ keys → c.kind = .bigint) (hkeys : (done ++ keys).Nodup) :
    keys.foldlM convert (record done r) = some (record (done ++ keys) r) := by
  induction keys generalizing done with
  | nil => rw [List.append_nil]; rfl
  | cons k keys ih =>
    have hk : k ∉ done := fun hmem => (List.nodup_append.mp hkeys).2.2 k hmem k List.mem_cons_self rfl
    rw [List.foldlM_cons, convert_record r hn (fun c hc he => hkind c hc (he ▸ List.mem_cons_self)) hk]
    have hnext : done ++ k :: keys = (done ++ [k]) ++ keys := by simp
    rw [hnext] at hkeys ⊢
    exact ih (fun c hc hmem => hkind c hc (List.mem_cons_of_mem _ hmem)) hkeys

lemma sound_schema : ∀ t ∈ schema, (t.columns.map Column.name).Nodup ∧ 2 ≤ t.columns.length ∧
    ∀ keys ∈ Dict.get wanted t.name, keys.Nodup ∧ ∀ c ∈ t.columns, c.name ∈ keys → c.kind = .bigint := by
  decide

/-- A row has two columns or more, so it is not the line that ends a table. -/
lemma row_ne_end {t : Table} (ht : t ∈ schema) (r : Cells t.columns) : rowLine r ≠ ['\\', '.'] := by
  intro h
  have hlen : r.texts.length = t.columns.length := length_texts r
  have htwo := (sound_schema t ht).2.1
  have hsplit := congrArg (fun line => (line.splitOn '\t').length) h
  simp only [rowLine] at hsplit
  rw [CopyText.splitOn_row (List.ne_nil_of_length_pos (by omega)), List.length_map] at hsplit
  have hone : (['\\', '.'].splitOn '\t').length = 1 := by decide
  omega

lemma readRow_row {t : Table} (ht : t ∈ schema) {keys : List String} (hkeys : Dict.get wanted t.name = some keys)
    (r : Cells t.columns) : readRow keys (t.columns.map Column.name) (rowLine r) = some (record keys r) := by
  obtain ⟨hnames, hlen, hkind⟩ := sound_schema t ht
  obtain ⟨hnodup, hbigint⟩ := hkind keys hkeys
  have hlength : r.texts.length = t.columns.length := length_texts r
  have hne : r.texts ≠ [] := List.ne_nil_of_length_pos (by omega)
  have hvalues : ((rowLine r).splitOn '\t').map (fun f => (unescape f).elim Value.none Value.text) =
      r.texts.map fun t => t.elim Value.none Value.text := by
    conv_rhs => rw [← unescape_row hne, List.map_map]
    rfl
  have hkeyed : Dict.Keyed (record [] r) := by
    rw [Dict.Keyed, record_names]
    exact hnames
  rw [readRow, hvalues]
  simp only [zip_texts, Dict.ofPairs_of_nodup hkeyed]
  exact convert_keys r hnames hbigint hnodup

/-! ### The run -/

/-- A line between the tables that starts no wanted table. -/
def Passed (line : List Char) : Prop := Whole line ∧ ∀ found ∈ header line, Dict.has wanted found.1 = false

lemma readLine_passed {s : State} (hs : s.current = none) {line : List Char} (h : Passed line) :
    readLine s (line ++ ['\n']) = some s := by
  rw [readLine, rstrip_line h.1, hs]
  cases hh : header line with
  | none => rfl
  | some found => exact if_neg (by simp [h.2 found hh])

lemma foldlM_passed {s : State} (hs : s.current = none) {lines : List (List Char)} (h : ∀ line ∈ lines, Passed line) :
    (lines.map (· ++ ['\n'])).foldlM readLine s = some s := by
  induction lines with
  | nil => rfl
  | cons line lines ih =>
    obtain ⟨hline, hrest⟩ := List.forall_mem_cons.mp h
    rw [List.map_cons, List.foldlM_cons, readLine_passed hs hline]
    exact ih hrest

/-- The tables read so far. -/
def tablesOf (f : String → List Record) : Tables := wanted.map fun w => (w.1, f w.1)

def extend (f : String → List Record) (name : String) (rows : List Record) : String → List Record :=
  fun n => f n ++ if n = name then rows else []

lemma extend_nil (f : String → List Record) (name : String) : extend f name [] = f := by
  funext n
  simp [extend]

lemma extend_append (f : String → List Record) (name : String) (rows more : List Record) :
    extend (extend f name rows) name more = extend f name (rows ++ more) := by
  funext n
  simp only [extend]
  split_ifs <;> simp

lemma add_tablesOf {f : String → List Record} {name : String} (h : Dict.has wanted name = true) (row : Record) :
    Dict.set (tablesOf f) name ((Dict.get (tablesOf f) name).getD [] ++ [row]) = tablesOf (extend f name [row]) := by
  have hgeneral : ∀ ws : Dict String (List String), Dict.Keyed ws → name ∈ ws.map Prod.fst →
      Dict.set (ws.map fun w => (w.1, f w.1)) name ((Dict.get (ws.map fun w => (w.1, f w.1)) name).getD [] ++ [row]) =
        ws.map fun w => (w.1, extend f name [row] w.1) := by
    intro ws hws hmem
    induction ws with
    | nil => exact absurd hmem (List.not_mem_nil)
    | cons w ws ih =>
      have hkeys : (w.1 :: ws.map Prod.fst).Nodup := hws
      obtain ⟨hw, hrest⟩ := List.nodup_cons.mp hkeys
      by_cases hname : w.1 = name
      · subst hname
        have hfresh : w.1 ∉ (ws.map fun w => (w.1, f w.1)).map Prod.fst := by
          rwa [List.map_map]
        have hothers : (ws.map fun v => (v.1, f v.1)) = ws.map fun v => (v.1, extend f w.1 [row] v.1) := by
          refine List.map_congr_left fun v hv => ?_
          have hne : v.1 ≠ w.1 := fun he => hw (he ▸ List.mem_map_of_mem hv)
          simp [extend, hne]
        rw [List.map_cons, List.map_cons, Dict.get_cons_self, Dict.set_cons_self hfresh, hothers]
        simp [extend]
      · have hne : (w.1, f w.1).1 ≠ name := hname
        have hlater := ih hrest ((List.mem_cons.mp hmem).resolve_left fun he => hname he.symm)
        rw [List.map_cons, List.map_cons, Dict.get_cons_ne hne, Dict.set_cons hne, hlater]
        simp [extend, hname]
  exact hgeneral wanted (by decide) (Dict.has_iff.mp h)

lemma foldlM_rows {t : Table} (ht : t ∈ schema) {keys : List String} (hkeys : Dict.get wanted t.name = some keys)
    (f : String → List Record) (rows : List (Cells t.columns)) :
    ((rows.map rowLine).map (· ++ ['\n'])).foldlM readLine ⟨tablesOf f, some t.name, t.columns.map Column.name⟩ =
      some ⟨tablesOf (extend f t.name (rows.map (record keys))), some t.name, t.columns.map Column.name⟩ := by
  have hwanted : Dict.has wanted t.name = true := by rw [Dict.has, hkeys]; rfl
  induction rows generalizing f with
  | nil =>
    simp only [List.map_nil, extend_nil]
    rfl
  | cons r rows ih =>
    have hstep : readLine ⟨tablesOf f, some t.name, t.columns.map Column.name⟩ (rowLine r ++ ['\n']) =
        some ⟨tablesOf (extend f t.name [record keys r]), some t.name, t.columns.map Column.name⟩ := by
      rw [readLine, rstrip_line (whole_row r)]
      simp only [if_neg (row_ne_end ht r), hkeys, Option.getD_some, readRow_row ht hkeys r, Option.map_some, State.add,
        add_tablesOf hwanted]
    rw [List.map_cons, List.map_cons, List.foldlM_cons, hstep, Option.bind_eq_bind, Option.bind_some, ih, extend_append,
      List.map_cons, List.singleton_append]

/-! ### A dump -/

/-- The rows of a wanted table. -/
def records (db : Database) (t : Table) : List Record :=
  match Dict.get wanted t.name with
  | some keys => (db.rows t).map (record keys)
  | none => []

section

variable {db : Database} (l : Layout db)

lemma passed_remark (m : Remark) : Passed m.val := ⟨m.property.2, by simp [header_remark m]⟩

lemma foldlM_section {t : Table} (ht : t ∈ schema) (f : String → List Record) (columns : List String) :
    ∃ columns', ((l.section t).map (· ++ ['\n'])).foldlM readLine ⟨tablesOf f, none, columns⟩ =
      some ⟨tablesOf (extend f t.name (records db t)), none, columns'⟩ := by
  have hremarks : ∀ line ∈ (l.before t).map Subtype.val, Passed line := by
    intro line hline
    obtain ⟨m, -, rfl⟩ := List.mem_map.mp hline
    exact passed_remark m
  have hend : Whole ['\\', '.'] := ⟨by decide, by decide⟩
  unfold Layout.section records
  cases hkeys : Dict.get wanted t.name with
  | none =>
    have hw : Dict.has wanted t.name = false := by rw [Dict.has, hkeys]; rfl
    have hpassed : ∀ line ∈ (l.before t).map Subtype.val ++ l.copyLine t :: (db.rows t).map rowLine ++ [['\\', '.']],
        Passed line := by
      intro line hline
      rcases List.mem_append.mp hline with hline | hline
      · rcases List.mem_append.mp hline with hline | hline
        · exact hremarks line hline
        · rcases List.mem_cons.mp hline with rfl | hline
          · refine ⟨whole_copyLine l ht, fun found hfound => ?_⟩
            rw [header_copyLine ht] at hfound
            exact Option.some.inj hfound ▸ hw
          · obtain ⟨r, -, rfl⟩ := List.mem_map.mp hline
            exact ⟨whole_row r, by simp [header_row ht hw r]⟩
      · rw [List.mem_singleton.mp hline]
        exact ⟨hend, by decide⟩
    exact ⟨columns, by rw [foldlM_passed rfl hpassed, extend_nil]⟩
  | some keys =>
    have hw : Dict.has wanted t.name = true := by rw [Dict.has, hkeys]; rfl
    have hopen : readLine ⟨tablesOf f, none, columns⟩ (l.copyLine t ++ ['\n']) =
        some ⟨tablesOf f, some t.name, t.columns.map Column.name⟩ := by
      rw [readLine, rstrip_line (whole_copyLine l ht)]
      simp only [header_copyLine ht, columnNames_joined ht, hw, if_true]
    have hclose : ∀ s : State, s.current = some t.name → readLine s (['\\', '.'] ++ ['\n']) = some { s with current := none } := by
      intro s hs
      rw [readLine, rstrip_line hend, hs]
      exact if_pos rfl
    refine ⟨t.columns.map Column.name, ?_⟩
    simp only [List.map_append, List.map_cons, List.map_nil, List.foldlM_append]
    rw [foldlM_passed rfl hremarks]
    simp only [Option.bind_eq_bind, Option.bind_some, List.foldlM_cons, List.foldlM_nil]
    rw [hopen]
    simp only [Option.bind_some, foldlM_rows ht hkeys]
    rw [hclose _ rfl]
    rfl

lemma foldlM_sections {order : List Table} (hknown : ∀ t ∈ order, t ∈ schema) (f : String → List Record)
    (columns : List String) :
    ∃ columns', ((order.flatMap l.section).map (· ++ ['\n'])).foldlM readLine ⟨tablesOf f, none, columns⟩ =
      some ⟨tablesOf fun n => f n ++ order.flatMap fun t => if n = t.name then records db t else [], none, columns'⟩ := by
  induction order generalizing f columns with
  | nil => exact ⟨columns, by simp⟩
  | cons t order ih =>
    obtain ⟨ht, hrest⟩ := List.forall_mem_cons.mp hknown
    obtain ⟨columns₁, hsection⟩ := foldlM_section l ht f columns
    obtain ⟨columns₂, hlater⟩ := ih hrest (extend f t.name (records db t)) columns₁
    refine ⟨columns₂, ?_⟩
    rw [List.flatMap_cons, List.map_append, List.foldlM_append, hsection]
    refine hlater.trans ?_
    simp only [extend, List.flatMap_cons, List.append_assoc]

lemma known_order : ∀ t ∈ l.order, t ∈ schema := fun t ht => db.known t (l.order_perm.mem_iff.mp ht)

/-- A table stands in the dump once, where it is in the database at all. -/
lemma gathered {t : Table} (ht : t ∈ schema) :
    (l.order.flatMap fun u => if t.name = u.name then records db u else []) = records db t := by
  have hothers : ∀ order : List Table, (∀ u ∈ order, t.name ≠ u.name) →
      (order.flatMap fun u => if t.name = u.name then records db u else []) = [] := by
    intro order h
    exact List.flatMap_eq_nil_iff.mpr fun u hu => if_neg (h u hu)
  by_cases hmem : t ∈ l.order
  · obtain ⟨front, back, horder⟩ := List.append_of_mem hmem
    have hnodup : (l.order.map Table.name).Nodup := (l.order_perm.map Table.name).nodup_iff.mpr db.nodup
    rw [horder, List.map_append, List.map_cons, List.nodup_append, List.nodup_cons] at hnodup
    obtain ⟨-, ⟨hback, -⟩, hfront⟩ := hnodup
    rw [horder, List.flatMap_append, List.flatMap_cons, if_pos rfl, hothers front, hothers back, List.nil_append,
      List.append_nil]
    · exact fun u hu hname => hback (hname ▸ List.mem_map_of_mem hu)
    · exact fun u hu hname => hfront u.name (List.mem_map_of_mem hu) t.name List.mem_cons_self hname.symm
  · have hnames : (schema.map Table.name).Nodup := by decide
    have hrows : db.rows t = [] := db.absent t fun hin => hmem (l.order_perm.mem_iff.mpr hin)
    have hnone : records db t = [] := by
      unfold records
      rw [hrows]
      cases Dict.get wanted t.name <;> rfl
    rw [hnone]
    refine hothers l.order fun u hu hname => hmem ?_
    exact List.inj_on_of_nodup_map hnames (known_order l u hu) ht hname.symm ▸ hu

lemma whole_lines : ∀ line ∈ l.lines, Whole line := by
  intro line hline
  rcases List.mem_append.mp hline with hline | hline
  · obtain ⟨t, ht, hline⟩ := List.mem_flatMap.mp hline
    rcases List.mem_append.mp hline with hline | hline
    · rcases List.mem_append.mp hline with hline | hline
      · obtain ⟨m, -, rfl⟩ := List.mem_map.mp hline
        exact m.property.2
      · rcases List.mem_cons.mp hline with rfl | hline
        · exact whole_copyLine l (known_order l t ht)
        · obtain ⟨r, -, rfl⟩ := List.mem_map.mp hline
          exact whole_row r
    · rw [List.mem_singleton.mp hline]
      exact ⟨by decide, by decide⟩
  · obtain ⟨m, -, rfl⟩ := List.mem_map.mp hline
    exact m.property.2

end

/-- The rows of the wanted tables. -/
def exported (db : Database) : Tables :=
  [attestations, trustStatements, blocks, evidenceObjects].map fun t => (t.name, records db t)

/-- From a dump, whatever its layout, the reader takes the rows of the wanted tables and nothing else. -/
theorem parse_dump (db : Database) (l : Layout db) : parse (stdin l.text) = some (exported db) := by
  obtain ⟨columns, hrun⟩ := foldlM_sections l (known_order l) (fun _ => []) []
  have hafter : ∀ line ∈ l.after.map Subtype.val, Passed line := by
    intro line hline
    obtain ⟨m, -, rfl⟩ := List.mem_map.mp hline
    exact passed_remark m
  have htables : (tablesOf fun n => [] ++ l.order.flatMap fun t => if n = t.name then records db t else []) = exported db := by
    have hschema : ∀ t ∈ [attestations, trustStatements, blocks, evidenceObjects], t ∈ schema := by simp [schema]
    exact List.map_congr_left fun t ht => congrArg (Prod.mk t.name) (gathered l (hschema t ht))
  rw [htables] at hrun
  have hread : (l.lines.map (· ++ ['\n'])).foldlM readLine start = some ⟨exported db, none, columns⟩ := by
    rw [Layout.lines, List.map_append, List.foldlM_append]
    refine (congrArg (· >>= _) hrun).trans ?_
    exact foldlM_passed rfl hafter
  rw [Layout.text, stdin_lines (whole_lines l), parse, hread]
  rfl

end ContinuityLedger.Backup.SigExport
