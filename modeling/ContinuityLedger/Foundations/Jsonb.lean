import ContinuityLedger.Foundations.Calendar

/-! PostgreSQL's `jsonb` values, the text they are rendered as, and the equality `=` decides on them.
The text keeps the scale a number was written with; the equality does not see it. -/

namespace ContinuityLedger.Foundations.Jsonb

/-- A `numeric`: `coefficient / 10 ^ scale`, printed with `scale` digits after the point. -/
structure Decimal where
  coefficient : ℤ
  scale : ℕ
deriving DecidableEq

def Decimal.same (a b : Decimal) : Bool :=
  a.coefficient * 10 ^ b.scale == b.coefficient * 10 ^ a.scale

def Decimal.text (d : Decimal) : String :=
  let digits := (Calendar.padded (d.scale + 1) d.coefficient.natAbs).toList
  let whole := digits.take (digits.length - d.scale)
  (if d.coefficient < 0 then "-" else "") ++ String.ofList whole ++
    (if d.scale = 0 then "" else "." ++ String.ofList (digits.drop (digits.length - d.scale)))

/-- The fields of an `object` stand in `jsonb` key order: shorter keys first, then bytewise. -/
inductive Value
  | null
  | boolean (b : Bool)
  | number (d : Decimal)
  | string (s : String)
  | array (items : List Value)
  | object (fields : List (String × Value))

def integer (n : ℤ) : Value := .number ⟨n, 0⟩

def escapeChar (c : Char) : String :=
  if c = '"' then "\\\""
  else if c = '\\' then "\\\\"
  else if c.toNat = 8 then "\\b"
  else if c.toNat = 12 then "\\f"
  else if c = '\n' then "\\n"
  else if c = '\r' then "\\r"
  else if c = '\t' then "\\t"
  else if c.toNat < 32 then "\\u00" ++ String.ofList [Nat.digitChar (c.toNat / 16), Nat.digitChar (c.toNat % 16)]
  else String.singleton c

def quote (s : String) : String := "\"" ++ String.join (s.toList.map escapeChar) ++ "\""

mutual

/-- `jsonb::text`. -/
def Value.text : Value → String
  | .null => "null"
  | .boolean b => if b then "true" else "false"
  | .number d => d.text
  | .string s => quote s
  | .array items => "[" ++ textItems items ++ "]"
  | .object fields => "\x7b" ++ textFields fields ++ "\x7d"

def textItems : List Value → String
  | [] => ""
  | [j] => j.text
  | j :: js => j.text ++ ", " ++ textItems js

def textFields : List (String × Value) → String
  | [] => ""
  | [(k, j)] => quote k ++ ": " ++ j.text
  | (k, j) :: fs => quote k ++ ": " ++ j.text ++ ", " ++ textFields fs

end

mutual

/-- `jsonb = jsonb`. -/
def Value.same : Value → Value → Bool
  | .null, .null => true
  | .boolean a, .boolean b => a == b
  | .number a, .number b => a.same b
  | .string a, .string b => a == b
  | .array xs, .array ys => sameItems xs ys
  | .object fs, .object gs => sameFields fs gs
  | _, _ => false

def sameItems : List Value → List Value → Bool
  | [], [] => true
  | x :: xs, y :: ys => x.same y && sameItems xs ys
  | _, _ => false

def sameFields : List (String × Value) → List (String × Value) → Bool
  | [], [] => true
  | (k, x) :: fs, (l, y) :: gs => k == l && x.same y && sameFields fs gs
  | _, _ => false

end

mutual

@[simp] lemma Value.same_refl : (j : Value) → j.same j = true
  | .null => by simp [Value.same]
  | .boolean _ => by simp [Value.same]
  | .number _ => by simp [Value.same, Decimal.same]
  | .string _ => by simp [Value.same]
  | .array items => by simp [Value.same, sameItems_refl items]
  | .object fields => by simp [Value.same, sameFields_refl fields]

lemma sameItems_refl : (js : List Value) → sameItems js js = true
  | [] => by simp [sameItems]
  | j :: js => by simp [sameItems, j.same_refl, sameItems_refl js]

lemma sameFields_refl : (fs : List (String × Value)) → sameFields fs fs = true
  | [] => by simp [sameFields]
  | (_, j) :: fs => by simp [sameFields, j.same_refl, sameFields_refl fs]

end

/-- `a IS DISTINCT FROM b` on nullable `jsonb`. -/
def isDistinctFrom : Option Value → Option Value → Bool
  | none, none => false
  | some a, some b => !a.same b
  | _, _ => true

@[simp] lemma isDistinctFrom_self (a : Option Value) : isDistinctFrom a a = false := by
  cases a <;> simp [isDistinctFrom]

example : (Value.object [("id", .string "a\n"), ("tags", .array [.null, .number ⟨-150, 2⟩])]).text =
    "\x7b\"id\": \"a\\n\", \"tags\": [null, -1.50]\x7d" := by decide

end ContinuityLedger.Foundations.Jsonb
