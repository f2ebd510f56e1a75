import Mathlib.Data.List.Sort
import Mathlib.Order.Lattice
import ContinuityLedger.Foundations.Dict
import ContinuityLedger.Foundations.PyText
import ContinuityLedger.Foundations.PyStr

/-! JSON values as Python's `json` reads and writes them: `loads` over a string, `dumps` with sorted keys, the separators
"," and ":" and `ensure_ascii=False`. -/

namespace ContinuityLedger.Foundations

inductive Json
  | null
  | bool (b : Bool)
  | int (n : ℤ)
  | float (text : List Char)
  | str (s : PyStr)
  | arr (items : List Json)
  | obj (members : List (PyStr × Json))

/-- What `json` raises: a `JSONDecodeError` or another `ValueError` of its own, that of a number too long to be read, a
`RecursionError`. -/
inductive JsonError
  | value
  | digits
  | recursion
  | steps
deriving DecidableEq

/-- What the interpreter decides: the text of the float that a literal reads as, and how deep containers may nest. -/
structure Python where
  floatText : List Char → List Char
  loadsNesting : ℕ
  dumpsNesting : ℕ
  loads_pos : 0 < loadsNesting
  dumps_pos : 0 < dumpsNesting

namespace Json

/-! ### Writing -/

/-- `int` and `str` refuse numbers of more than 4300 digits. -/
def maxDigits : ℕ := 4300

def escape (p : PyChar) : PyStr :=
  match p with
  | .surrogate _ => [p]
  | .scalar c =>
    if c = '"' then PyStr.ofString "\\\""
    else if c = '\\' then PyStr.ofString "\\\\"
    else if c = '\n' then PyStr.ofString "\\n"
    else if c = '\r' then PyStr.ofString "\\r"
    else if c = '\t' then PyStr.ofString "\\t"
    else if c = '\x08' then PyStr.ofString "\\b"
    else if c = '\x0c' then PyStr.ofString "\\f"
    else if c.toNat < 0x20 then
      PyStr.ofString "\\u00" ++ PyStr.ofChars [Sha256.hexDigit (c.toNat / 16), Sha256.hexDigit (c.toNat % 16)]
    else [p]

def quote (s : PyStr) : PyStr := .scalar '"' :: (s.flatMap escape ++ [.scalar '"'])

def comma : PyStr := [.scalar ',']

/-- Python compares strings by code points. -/
def keyLE (p q : PyStr × PyStr) : Prop := p.1.map PyStr.code ≤ q.1.map PyStr.code

instance : DecidableRel keyLE := fun p q => inferInstanceAs (Decidable (p.1.map PyStr.code ≤ q.1.map PyStr.code))

def member (p : PyStr × PyStr) : PyStr := quote p.1 ++ .scalar ':' :: p.2

mutual

def text : Json → PyStr
  | null => PyStr.ofString "null"
  | bool b => PyStr.ofString (if b then "true" else "false")
  | int n => PyStr.ofString (toString n)
  | float t => PyStr.ofChars t
  | str s => quote s
  | arr items => .scalar '[' :: (comma.intercalate (textItems items) ++ [.scalar ']'])
  | obj members => .scalar '{' :: (comma.intercalate (((textMembers members).insertionSort keyLE).map member) ++ [.scalar '}'])

def textItems : List Json → List PyStr
  | [] => []
  | j :: js => text j :: textItems js

def textMembers : List (PyStr × Json) → List (PyStr × PyStr)
  | [] => []
  | (k, j) :: ms => (k, text j) :: textMembers ms

end

mutual

def depth : Json → ℕ
  | arr items => depthItems items + 1
  | obj members => depthMembers members + 1
  | _ => 0

def depthItems : List Json → ℕ
  | [] => 0
  | j :: js => max (depth j) (depthItems js)

def depthMembers : List (PyStr × Json) → ℕ
  | [] => 0
  | (_, j) :: ms => max (depth j) (depthMembers ms)

end

mutual

def printable : Json → Bool
  | int n => (toString n.natAbs).length ≤ maxDigits
  | arr items => printableItems items
  | obj members => printableMembers members
  | _ => true

def printableItems : List Json → Bool
  | [] => true
  | j :: js => printable j && printableItems js

def printableMembers : List (PyStr × Json) → Bool
  | [] => true
  | (_, j) :: ms => printable j && printableMembers ms

end

def dumps (py : Python) (j : Json) : Except JsonError PyStr :=
  if !printable j then .error .value
  else if py.dumpsNesting < depth j then .error .recursion
  else .ok (text j)

/-! ### Reading -/

def isSpace (p : PyChar) : Bool := p = .scalar ' ' || p = .scalar '\t' || p = .scalar '\n' || p = .scalar '\r'

def skip (s : PyStr) : PyStr := s.dropWhile isSpace

def hexDigit? : PyChar → Option ℕ
  | .scalar c =>
    if '0' ≤ c && c ≤ '9' then some (c.toNat - '0'.toNat)
    else if 'a' ≤ c && c ≤ 'f' then some (c.toNat - 'a'.toNat + 10)
    else if 'A' ≤ c && c ≤ 'F' then some (c.toNat - 'A'.toNat + 10)
    else none
  | .surrogate _ => none

/-- What a string's text is made of: a character as it stands, or a `\uXXXX`. -/
inductive Token
  | raw (p : PyChar)
  | unit (u : ℕ)

def Token.char : Token → PyChar
  | raw p => p
  | unit u => if h : 0xd800 ≤ u ∧ u < 0xe000 then .surrogate ⟨u - 0xd800, by omega⟩ else .scalar (Char.ofNat u)

/-- An escaped high surrogate takes the escaped low surrogate that follows it. -/
def joined : List Token → PyStr
  | .unit u :: .unit v :: ts =>
    if 0xd800 ≤ u ∧ u < 0xdc00 ∧ 0xdc00 ≤ v ∧ v < 0xe000 then
      .scalar (Char.ofNat (0x10000 + (u - 0xd800) * 0x400 + (v - 0xdc00))) :: joined ts
    else (Token.unit u).char :: joined (.unit v :: ts)
  | t :: ts => t.char :: joined ts
  | [] => []

/-- The character that a letter after a backslash stands for. -/
def simpleEscape (p : PyChar) : Option Char :=
  match p with
  | .scalar '"' => some '"'
  | .scalar '\\' => some '\\'
  | .scalar '/' => some '/'
  | .scalar 'b' => some '\x08'
  | .scalar 'f' => some '\x0c'
  | .scalar 'n' => some '\n'
  | .scalar 'r' => some '\r'
  | .scalar 't' => some '\t'
  | _ => none

def hex4 (a b c d : PyChar) : Option ℕ := do
  let w ← hexDigit? a
  let x ← hexDigit? b
  let y ← hexDigit? c
  let z ← hexDigit? d
  return ((w * 16 + x) * 16 + y) * 16 + z

def push (t : Token) (r : List Token × PyStr) : List Token × PyStr := (t :: r.1, r.2)

/-- A string behind its opening quote: its tokens, and what follows the closing quote. -/
def scanTokens : PyStr → Option (List Token × PyStr)
  | [] => none
  | p :: s =>
    if p = .scalar '"' then some ([], s)
    else if p = .scalar '\\' then
      match s with
      | [] => none
      | e :: s =>
        if e = .scalar 'u' then
          match s with
          | a :: b :: c :: d :: s => (hex4 a b c d).bind fun u => (scanTokens s).map (push (.unit u))
          | _ => none
        else (simpleEscape e).bind fun c => (scanTokens s).map (push (.raw (.scalar c)))
    else if PyStr.code p < 0x20 then none
    else (scanTokens s).map (push (.raw p))

def scanString (s : PyStr) : Except JsonError (PyStr × PyStr) :=
  match scanTokens s with
  | some (ts, rest) => .ok (joined ts, rest)
  | none => .error .value

def isDigit (p : PyChar) : Bool := 0x30 ≤ PyStr.code p && PyStr.code p ≤ 0x39

def chars (s : PyStr) : List Char := s.map fun p => Char.ofNat (PyStr.code p)

/-- `(\.\d+)?` at the front. -/
def fraction (s : PyStr) : PyStr :=
  match s with
  | p :: s => if p = .scalar '.' && (s.takeWhile isDigit) ≠ [] then p :: s.takeWhile isDigit else []
  | [] => []

/-- `([eE][-+]?\d+)?` at the front. -/
def exponent (s : PyStr) : PyStr :=
  match s with
  | p :: s =>
    let sign := (s.take 1).filter fun q => q = .scalar '-' || q = .scalar '+'
    let digits := (s.drop sign.length).takeWhile isDigit
    if (p = .scalar 'e' || p = .scalar 'E') && digits ≠ [] then p :: sign ++ digits else []
  | [] => []

/-- `0|[1-9]\d*` at the front. -/
def whole (s : PyStr) : PyStr :=
  match s with
  | p :: _ => if p = .scalar '0' then [p] else s.takeWhile isDigit
  | [] => []

def scanNumber (py : Python) (s : PyStr) : Except JsonError (Json × PyStr) :=
  let minus := (s.take 1).filter fun p => p = .scalar '-'
  let digits := whole (s.drop minus.length)
  if digits = [] then .error .value
  else
    let rest := s.drop (minus.length + digits.length)
    let frac := fraction rest
    let exp := exponent (rest.drop frac.length)
    if frac = [] && exp = [] then
      if maxDigits < digits.length then .error .digits
      else
        let n := Nat.ofDigitChars 10 (chars digits) 0
        .ok (.int (if minus = [] then n else -n), rest)
    else .ok (.float (py.floatText (chars (minus ++ digits ++ frac ++ exp))), rest.drop (frac.length + exp.length))

def words : List (String × Json) := [("null", .null), ("true", .bool true), ("false", .bool false),
  ("NaN", .float "NaN".toList), ("Infinity", .float "Infinity".toList), ("-Infinity", .float "-Infinity".toList)]

def scanWord (s : PyStr) : Option (Json × PyStr) :=
  words.findSome? fun w => if (PyStr.ofString w.1).isPrefixOf s then some (w.2, s.drop w.1.length) else none

mutual

/-- The value at the front and what follows it, in so many steps; `room` containers may still open. -/
def scanValue (py : Python) : ℕ → ℕ → PyStr → Except JsonError (Json × PyStr)
  | 0, _, _ => .error .steps
  | _, _, [] => .error .value
  | steps + 1, room, p :: s =>
    if p = .scalar '"' then (scanString s).map fun r => (.str r.1, r.2)
    else if p = .scalar '{' then
      match room with
      | 0 => .error .recursion
      | room + 1 =>
        if (skip s).head? = some (.scalar '}') then .ok (.obj [], (skip s).tail)
        else (scanMembers py steps room (skip s)).map fun r => (.obj (Dict.ofPairs r.1), r.2)
    else if p = .scalar '[' then
      match room with
      | 0 => .error .recursion
      | room + 1 =>
        if (skip s).head? = some (.scalar ']') then .ok (.arr [], (skip s).tail)
        else (scanItems py steps room (skip s)).map fun r => (.arr r.1, r.2)
    else
      match scanWord (p :: s) with
      | some r => .ok r
      | none => scanNumber py (p :: s)

def scanMembers (py : Python) : ℕ → ℕ → PyStr → Except JsonError (List (PyStr × Json) × PyStr)
  | 0, _, _ => .error .steps
  | steps + 1, room, s => do
    if s.head? ≠ some (.scalar '"') then throw .value
    let (k, s) ← scanString s.tail
    if (skip s).head? ≠ some (.scalar ':') then throw .value
    let (j, s) ← scanValue py steps room (skip (skip s).tail)
    if (skip s).head? = some (.scalar '}') then return ([(k, j)], (skip s).tail)
    if (skip s).head? ≠ some (.scalar ',') then throw .value
    let (ms, s) ← scanMembers py steps room (skip (skip s).tail)
    return ((k, j) :: ms, s)

def scanItems (py : Python) : ℕ → ℕ → PyStr → Except JsonError (List Json × PyStr)
  | 0, _, _ => .error .steps
  | steps + 1, room, s => do
    let (j, s) ← scanValue py steps room s
    if (skip s).head? = some (.scalar ']') then return ([j], (skip s).tail)
    if (skip s).head? ≠ some (.scalar ',') then throw .value
    let (js, s) ← scanItems py steps room (skip (skip s).tail)
    return (j :: js, s)

end

def loads (py : Python) (s : PyStr) : Except JsonError Json := do
  if s.head? = some (.scalar '\ufeff') then throw .value
  let (j, rest) ← scanValue py (2 * s.length + 2) py.loadsNesting (skip s)
  if skip rest ≠ [] then throw .value
  return j

end Json

end ContinuityLedger.Foundations
