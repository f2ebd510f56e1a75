import ContinuityLedger.Foundations.Delimited

/-! PostgreSQL's `COPY ... (FORMAT text)`: a value's text escapes control characters, backslashes and the delimiter, so a row
is told apart into its columns again. -/

namespace ContinuityLedger.Foundations.CopyText

/-- The letter behind the backslash that a control character is written as. -/
def letter (c : Char) : Option Char :=
  if c = '\x08' then some 'b'
  else if c = '\x0c' then some 'f'
  else if c = '\n' then some 'n'
  else if c = '\r' then some 'r'
  else if c = '\t' then some 't'
  else if c = '\x0b' then some 'v'
  else none

def escape (delimiter c : Char) : List Char :=
  match letter c with
  | some l => ['\\', l]
  | none => if c = '\\' || c = delimiter then ['\\', c] else [c]

def value (delimiter : Char) (s : String) : List Char := s.toList.flatMap (escape delimiter)

/-- A column, which may be null. -/
def column (delimiter : Char) : Option String → List Char
  | none => ['\\', 'N']
  | some s => value delimiter s

def row (delimiter : Char) (columns : List (Option String)) : List Char :=
  [delimiter].intercalate (columns.map (column delimiter))

/-- The control character of a letter, anything else as it is. -/
def control (l : Char) : Char :=
  if l = 'b' then '\x08'
  else if l = 'f' then '\x0c'
  else if l = 'n' then '\n'
  else if l = 'r' then '\r'
  else if l = 't' then '\t'
  else if l = 'v' then '\x0b'
  else l

def read : List Char → List Char
  | [] => []
  | [c] => [c]
  | c :: l :: cs => if c = '\\' then control l :: read cs else c :: read (l :: cs)

lemma letter_some {c l : Char} (h : letter c = some l) : control l = c ∧ l ≠ '|' ∧ l ≠ '\t' := by
  unfold letter at h
  split_ifs at h with h₁ h₂ h₃ h₄ h₅ h₆ <;>
    (obtain rfl := Option.some.inj h; subst c; decide)

lemma read_escape {c : Char} (cs : List Char) : read (escape '\t' c ++ cs) = c :: read cs := by
  unfold escape
  cases hl : letter c with
  | some l => simp [read, (letter_some hl).1]
  | none =>
    have htab : c ≠ '\t' := by
      rintro rfl
      exact absurd hl (by decide)
    by_cases hc : c = '\\'
    · subst hc
      simp [read, control]
    · cases cs <;> simp [hc, htab, read]

lemma read_value (s : String) : read (value '\t' s) = s.toList := by
  have h : ∀ cs : List Char, read (cs.flatMap (escape '\t')) = cs := by
    intro cs
    induction cs with
    | nil => rfl
    | cons c cs ih => rw [List.flatMap_cons, read_escape, ih]
  exact h s.toList

/-- Values are told apart by their texts. -/
lemma value_injective : Function.Injective (value '\t') := by
  intro s t h
  have hread := congrArg read h
  rw [read_value, read_value] at hread
  exact String.toList_injective hread

/-- What stands in a value's text: a backslash, a letter behind one, or what needs none. -/
lemma mem_value {x : Char} {s : String} (h : x ∈ value '\t' s) :
    x = '\\' ∨ (∃ c, letter c = some x) ∨ (x ∈ s.toList ∧ letter x = none) := by
  obtain ⟨c, hc, hin⟩ := List.mem_flatMap.mp h
  unfold escape at hin
  cases hl : letter c with
  | some l =>
    rw [hl] at hin
    rcases List.mem_cons.mp hin with hin | hin
    · exact .inl hin
    · exact .inr (.inl ⟨c, hl.trans (congrArg some (List.mem_singleton.mp hin).symm)⟩)
  | none =>
    rw [hl] at hin
    simp only at hin
    split_ifs at hin
    · rcases List.mem_cons.mp hin with hin | hin
      · exact .inl hin
      · obtain rfl := List.mem_singleton.mp hin
        exact .inr (.inr ⟨hc, hl⟩)
    · obtain rfl := List.mem_singleton.mp hin
      exact .inr (.inr ⟨hc, hl⟩)

lemma free_value {s : String} (h : Delimited.Free '|' s) : '|' ∉ value '\t' s := by
  intro hmem
  rcases mem_value hmem with hb | ⟨c, hc⟩ | ⟨hs, -⟩
  · exact absurd hb (by decide)
  · exact (letter_some hc).2.1 rfl
  · exact h hs

/-- Where no bar is in a value it is written alike with either delimiter. -/
lemma value_bar {s : String} (h : Delimited.Free '|' s) : value '|' s = value '\t' s := by
  unfold value
  refine List.flatMap_congr fun c hc => ?_
  have hbar : c ≠ '|' := by
    rintro rfl
    exact h hc
  unfold escape
  cases hl : letter c with
  | some l => rfl
  | none =>
    have htab : c ≠ '\t' := by
      rintro rfl
      exact absurd hl (by decide)
    simp [hbar, htab]

lemma tab_column (c : Option String) : '\t' ∉ column '\t' c := by
  cases c with
  | none => decide
  | some s =>
    intro hmem
    rcases mem_value hmem with hb | ⟨c, hc⟩ | ⟨-, ht⟩
    · exact absurd hb (by decide)
    · exact (letter_some hc).2.2 rfl
    · exact absurd ht (by decide)

/-- A row is told apart into its columns. -/
lemma splitOn_row {columns : List (Option String)} (h : columns ≠ []) :
    (row '\t' columns).splitOn '\t' = columns.map (column '\t') := by
  refine List.splitOn_intercalate '\t' (fun l hl => ?_) (by simpa using h)
  obtain ⟨c, -, rfl⟩ := List.mem_map.mp hl
  exact tab_column c

/-- What stands for itself is written as it is. -/
lemma value_plain (d : Char) {s : String} (h : ∀ c ∈ s.toList, letter c = none ∧ c ≠ '\\' ∧ c ≠ d) : value d s = s.toList := by
  have hall : ∀ cs : List Char, (∀ c ∈ cs, letter c = none ∧ c ≠ '\\' ∧ c ≠ d) → cs.flatMap (escape d) = cs := by
    intro cs hcs
    induction cs with
    | nil => rfl
    | cons c cs ih =>
      obtain ⟨⟨hl, hb, hd⟩, hrest⟩ := List.forall_mem_cons.mp hcs
      rw [List.flatMap_cons, ih hrest]
      simp [escape, hl, hb, hd]
  exact hall s.toList h

end ContinuityLedger.Foundations.CopyText
