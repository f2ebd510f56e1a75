import ContinuityLedger.Foundations.Codec

/-! The bytes of a JSON value's text: there are some where no surrogate stands alone in its strings. -/

namespace ContinuityLedger.Foundations

open Sha256

namespace PyStr

def isScalar : PyChar → Bool
  | .scalar _ => true
  | .surrogate _ => false

/-- No surrogate stands alone. -/
def scalars (s : PyStr) : Bool := s.all isScalar

lemma encode_isSome_eq (s : PyStr) : (encode s).isSome = scalars s := by
  induction s with
  | nil => rfl
  | cons p s ih =>
    cases p with
    | scalar c => simpa [encode, scalars, isScalar] using ih
    | surrogate n => rfl

@[simp] lemma scalars_nil : scalars [] = true := rfl

@[simp] lemma scalars_cons (p : PyChar) (s : PyStr) : scalars (p :: s) = (isScalar p && scalars s) := List.all_cons

@[simp] lemma scalars_append (s t : PyStr) : scalars (s ++ t) = (scalars s && scalars t) := List.all_append

@[simp] lemma isScalar_scalar (c : Char) : isScalar (.scalar c) = true := rfl

@[simp] lemma scalars_ofChars (cs : List Char) : scalars (ofChars cs) = true := by
  simp [scalars, ofChars, isScalar]

@[simp] lemma scalars_ofString (s : String) : scalars (ofString s) = true := scalars_ofChars _

lemma scalars_of_subset {s t : PyStr} (h : t ⊆ s) (hs : scalars s = true) : scalars t = true := by
  rw [scalars, List.all_eq_true] at hs ⊢
  exact fun p hp => hs p (h hp)

end PyStr

namespace Json

open PyStr

mutual

/-- No string in it has a surrogate that stands alone. -/
def plain : Json → Bool
  | str s => scalars s
  | arr items => plainItems items
  | obj members => plainMembers members
  | _ => true

def plainItems : List Json → Bool
  | [] => true
  | j :: js => plain j && plainItems js

def plainMembers : List (PyStr × Json) → Bool
  | [] => true
  | (k, j) :: ms => scalars k && plain j && plainMembers ms

end

def nonFinite (t : List Char) : Bool := t ∈ ["NaN".toList, "Infinity".toList, "-Infinity".toList]

mutual

/-- What `allow_nan=False` takes. -/
def finite : Json → Bool
  | .float t => !nonFinite t
  | .arr items => finiteItems items
  | .obj members => finiteMembers members
  | _ => true

def finiteItems : List Json → Bool
  | [] => true
  | j :: js => finite j && finiteItems js

def finiteMembers : List (PyStr × Json) → Bool
  | [] => true
  | (_, j) :: ms => finite j && finiteMembers ms

end

def encoded (py : Python) (j : Json) : Option Bytes :=
  match dumps py j with
  | .ok t => PyStr.encode t
  | .error _ => none

lemma scalars_escape (p : PyChar) : scalars (escape p) = isScalar p := by
  cases p with
  | surrogate n => rfl
  | scalar c =>
    simp only [escape]
    split_ifs <;> simp

@[simp] lemma scalars_quote (s : PyStr) : scalars (quote s) = scalars s := by
  have hflat : scalars (s.flatMap escape) = scalars s := by
    induction s with
    | nil => rfl
    | cons p s ih => rw [List.flatMap_cons, scalars_append, scalars_escape, ih, scalars_cons]
  simp [quote, hflat]

lemma scalars_joined (texts : List PyStr) : scalars (comma.intercalate texts) = texts.all scalars := by
  induction texts with
  | nil => rfl
  | cons t texts ih =>
    cases texts with
    | nil => simp
    | cons u texts => rw [List.intercalate_cons_cons, scalars_append, scalars_append, ih]; simp [comma]

mutual

lemma scalars_text : (j : Json) → scalars (text j) = plain j
  | null => by rw [text, plain, scalars_ofString] <;> simp
  | bool b => by rw [text, plain, scalars_ofString] <;> simp
  | int n => by rw [text, plain, scalars_ofString] <;> simp
  | float t => by rw [text, plain, scalars_ofChars] <;> simp
  | str s => by rw [text, plain, scalars_quote]
  | arr items => by
      rw [text, plain, scalars_cons, scalars_append, scalars_joined, all_textItems items]
      simp
  | obj members => by
      have hsorted : (((textMembers members).insertionSort keyLE).map member).all scalars = plainMembers members := by
        rw [List.all_map, (List.perm_insertionSort keyLE _).all_eq, ← all_textMembers members]
        congr 1
        funext p
        simp [member]
      rw [text, plain, scalars_cons, scalars_append, scalars_joined, hsorted]
      simp

lemma all_textItems : (items : List Json) → (textItems items).all scalars = plainItems items
  | [] => rfl
  | j :: js => by rw [textItems, plainItems, List.all_cons, scalars_text j, all_textItems js]

lemma all_textMembers : (members : List (PyStr × Json)) →
    (textMembers members).all (fun p => scalars p.1 && scalars p.2) = plainMembers members
  | [] => rfl
  | (k, j) :: ms => by rw [textMembers, plainMembers, List.all_cons, scalars_text j, all_textMembers ms]

end

/-- What raises: a number too long, containers too deep, a surrogate that stands alone. -/
lemma encoded_isSome (py : Python) (j : Json) :
    (encoded py j).isSome ↔ printable j = true ∧ depth j ≤ py.dumpsNesting ∧ plain j = true := by
  unfold encoded dumps
  by_cases hp : printable j
  · by_cases hd : py.dumpsNesting < depth j
    · simp [hp, hd]
    · simp [hp, hd, encode_isSome_eq, scalars_text, Nat.le_of_not_lt hd]
  · simp [hp]

end Json

end ContinuityLedger.Foundations
