import ContinuityLedger.Foundations.Json

/-! Typed values in JSON: how they are read from it and written to it. What is written is read again as it was. -/

namespace ContinuityLedger.Foundations

structure Codec (A : Type) where
  read : Json → Option A
  write : A → Json
  read_write : ∀ a, read (write a) = some a

namespace Codec

variable {A : Type}

lemma write_injective (c : Codec A) : Function.Injective c.write := by
  intro a b h
  have hread := congrArg c.read h
  rwa [c.read_write, c.read_write, Option.some.injEq] at hread

def scalar? : PyChar → Option Char
  | .scalar c => some c
  | .surrogate _ => none

lemma mapM_scalar? {s : PyStr} {cs : List Char} : s.mapM scalar? = some cs ↔ s = PyStr.ofChars cs := by
  induction s generalizing cs with
  | nil => simp [PyStr.ofChars, eq_comm]
  | cons p s ih =>
    cases p with
    | scalar c =>
      have hrest : (PyChar.scalar c :: s).mapM scalar? = some cs ↔ ∃ rest, s.mapM scalar? = some rest ∧ c :: rest = cs := by
        simp [scalar?, Option.bind_eq_some_iff]
      rw [hrest]
      constructor
      · rintro ⟨rest, h, rfl⟩
        rw [ih.mp h]
        rfl
      · intro h
        obtain ⟨d, rest, rfl, hd, hs⟩ := List.map_eq_cons_iff.mp h.symm
        obtain rfl := PyChar.scalar.inj hd
        exact ⟨rest, ih.mpr hs.symm, rfl⟩
    | surrogate n => cases cs <;> simp [scalar?, PyStr.ofChars]

def readString : Json → Option String
  | .str s => (s.mapM scalar?).map String.ofList
  | _ => none

/-- A string is read where no surrogate stands alone in it, and as it is. -/
lemma readString_eq_some {j : Json} {s : String} : readString j = some s ↔ j = .str (PyStr.ofString s) := by
  cases j with
  | str t =>
    simp only [readString, Option.map_eq_some_iff, mapM_scalar?, Json.str.injEq, PyStr.ofString]
    constructor
    · rintro ⟨cs, rfl, rfl⟩
      rw [String.toList_ofList]
    · rintro rfl
      exact ⟨s.toList, rfl, String.ofList_toList⟩
  | _ => simp [readString]

def string : Codec String where
  read := readString
  write s := .str (PyStr.ofString s)
  read_write _ := readString_eq_some.mpr rfl

def readList (c : Codec A) : Json → Option (List A)
  | .arr items => items.mapM c.read
  | _ => none

lemma mapM_write (c : Codec A) (as : List A) : (as.map c.write).mapM c.read = some as := by
  induction as with
  | nil => rfl
  | cons a as ih => simp [c.read_write, ih]

def list (c : Codec A) : Codec (List A) where
  read := readList c
  write as := .arr (as.map c.write)
  read_write := mapM_write c

/-- A list of what is read only as it is written is read only as it is written. -/
lemma readList_eq {c : Codec A} (h : ∀ j a, c.read j = some a → j = c.write a) {j : Json} {as : List A}
    (hj : readList c j = some as) : j = (list c).write as := by
  cases j with
  | arr items =>
    refine congrArg Json.arr ?_
    change items.mapM c.read = some as at hj
    induction items generalizing as with
    | nil =>
      obtain rfl : as = [] := by simpa [eq_comm] using hj
      rfl
    | cons j items ih =>
      rw [List.mapM_cons] at hj
      obtain ⟨a, ha, hj⟩ := Option.bind_eq_some_iff.mp hj
      obtain ⟨rest, hrest, hj⟩ := Option.bind_eq_some_iff.mp hj
      rw [← Option.some.inj hj, List.map_cons, ← h j a ha, ← ih hrest]
  | _ => exact absurd hj (by simp [readList])

def readNullable (c : Codec A) : Json → Option (Option A)
  | .null => some none
  | j => (c.read j).map some

def writeNullable (c : Codec A) : Option A → Json
  | none => .null
  | some a => c.write a

lemma readNullable_write (c : Codec A) (h : c.read .null = none) (a : Option A) :
    readNullable c (writeNullable c a) = some a := by
  cases a with
  | none => rfl
  | some a =>
    have hread := c.read_write a
    have hne : c.write a ≠ .null := by
      intro hnull
      rw [hnull, h] at hread
      exact absurd hread (by simp)
    rw [writeNullable, readNullable.eq_2 c _ hne, hread, Option.map_some]

def nullable (c : Codec A) (h : c.read .null = none) : Codec (Option A) where
  read := readNullable c
  write := writeNullable c
  read_write := readNullable_write c h

/-- One of the values of an enumeration, by its text. -/
def literal (all : List A) (text : A → String) (h : ∀ a, all.find? (fun b => text b = text a) = some a) : Codec A where
  read j := (readString j).bind fun s => all.find? fun b => text b = s
  write a := .str (PyStr.ofString (text a))
  read_write a := by rw [readString_eq_some.mpr rfl, Option.bind_some, h]

/-! ### Members of objects -/

abbrev Members := Dict PyStr Json

def member (d : Members) (key : String) : Option Json := Dict.get d (PyStr.ofString key)

def put (d : Members) (key : String) (j : Json) : Members := Dict.set d (PyStr.ofString key) j

def drop (d : Members) (key : String) : Members := KeyedTable.remove Prod.fst (PyStr.ofString key) d

lemma ofString_inj {s t : String} : PyStr.ofString s = PyStr.ofString t ↔ s = t := by
  constructor
  · intro h
    exact String.toList_inj.mp (PyStr.ofChars_injective h)
  · rintro rfl
    rfl

@[simp] lemma member_nil (key : String) : member [] key = none := rfl

@[simp] lemma member_cons (k : String) (j : Json) (d : Members) (key : String) :
    member ((PyStr.ofString k, j) :: d) key = if k = key then some j else member d key := by
  by_cases h : k = key <;> simp [member, Dict.get, KeyedTable.row, ofString_inj, h]

@[simp] lemma member_put (d : Members) (k : String) (j : Json) (key : String) :
    member (put d k j) key = if k = key then some j else member d key := by
  simp only [member, put, Dict.get_set, ofString_inj]

@[simp] lemma member_drop (d : Members) (k key : String) :
    member (drop d k) key = if key = k then none else member d key := by
  simp only [member, drop, Dict.get, KeyedTable.row_remove, ofString_inj]
  split_ifs <;> rfl

def required (c : Codec A) (d : Members) (key : String) : Option A := (member d key).bind c.read

def defaulted (c : Codec A) (default : A) (d : Members) (key : String) : Option A :=
  match member d key with
  | none => some default
  | some j => c.read j

lemma required_write {c : Codec A} {d : Members} {key : String} {a : A} (h : member d key = some (c.write a)) :
    required c d key = some a := by
  rw [required, h, Option.bind_some, c.read_write]

lemma defaulted_write {c : Codec A} {default : A} {d : Members} {key : String} {a : A}
    (h : member d key = some (c.write a)) : defaulted c default d key = some a := by
  rw [defaulted, h]
  exact c.read_write a

/-- An object of a model's fields. -/
def model (read : Members → Option A) (write : A → Members) (h : ∀ a, read (write a) = some a) : Codec A where
  read j := match j with
    | .obj d => read d
    | _ => none
  write a := .obj (write a)
  read_write := h

end Codec

end ContinuityLedger.Foundations
