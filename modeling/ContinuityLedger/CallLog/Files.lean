import ContinuityLedger.CallLog.Routes
import ContinuityLedger.Foundations.JsonBytes
import ContinuityLedger.Foundations.ByteLines
import ContinuityLedger.Mcp.Dispatch

/-! The directory of a call log: what is asked of the JSON values that are read from it, its daily files in the order of
their names, the head in their tail, and their entries from the newest on. -/

namespace ContinuityLedger.CallLog

open Foundations Foundations.Sha256 Foundations.Codec

/-! ### Values -/

/-- The exceptions that the log tells apart; that of an encoding is a `ValueError`. -/
inductive Raised
  | callLog
  | value
  | key
  | type
  | attribute
  | overflow
  | recursion
deriving DecidableEq

/-- The interpreter: `int` of a finite float, the order of a float and an integer, `str` of a float, a list or a dict
where its depth does not raise, and `str.lower`. -/
structure Runtime where
  python : Python
  truncate : List Char → ℤ
  atLeast : List Char → ℤ → Bool
  repr : Json → Option PyStr
  lower : PyStr → PyStr

def raised : JsonError → Raised
  | .recursion => .recursion
  | _ => .value

/-- `json.loads`. -/
def Runtime.loads (rt : Runtime) (line : List Char) : Except Raised Json :=
  (Json.loads rt.python (PyStr.ofChars line)).mapError raised

/-- `j[key]`. -/
def subscript (j : Json) (key : String) : Except Raised Json :=
  match j with
  | .obj d => (member d key).elim (.error .key) .ok
  | _ => .error .type

/-- `j.get(key, default)`. -/
def getOr (j : Json) (key : String) (default : Json) : Except Raised Json :=
  match j with
  | .obj d => .ok ((member d key).getD default)
  | _ => .error .attribute

def infinities : List (List Char) := ["Infinity".toList, "-Infinity".toList]

/-- `int(j)`. -/
def Runtime.toInt (rt : Runtime) : Json → Except Raised ℤ
  | .int n => .ok n
  | .bool b => .ok (if b then 1 else 0)
  | .float t =>
    if t = "NaN".toList then .error .value
    else if infinities.contains t then .error .overflow
    else .ok (rt.truncate t)
  | .str s =>
    if PyStr.scalars s then (PyText.intText (String.ofList (Json.chars s))).elim (.error .value) .ok else .error .value
  | _ => .error .type

/-- `str(j)`. -/
def Runtime.strOf (rt : Runtime) : Json → Except Raised PyStr
  | .null => .ok (PyStr.ofString "None")
  | .bool b => .ok (PyStr.ofString (if b then "True" else "False"))
  | .int n => if Json.printable (.int n) then .ok (PyStr.ofString (toString n)) else .error .value
  | .str s => .ok s
  | j => (rt.repr j).elim (.error .recursion) .ok

/-- `json.dumps(obj, sort_keys=True, separators=(",", ":"), ensure_ascii=False)`, and its bytes. -/
def Runtime.canonical (rt : Runtime) (j : Json) : Except Raised Bytes :=
  match Json.dumps rt.python j with
  | .error e => .error (raised e)
  | .ok t => (PyStr.encode t).elim (.error .value) .ok

/-- `entry_hash_of`. -/
def Runtime.entryHashOf (rt : Runtime) (entry : Members) : Except Raised Hex64 :=
  (rt.canonical (.obj (drop entry "entry_hash"))).map hexdigest

/-! ### The directory -/

def newline : UInt8 := 0x0a

/-- The files of the directory, and the anchor that retention leaves. -/
structure Disk where
  files : Dict String Bytes
  anchor : Option Bytes

def filePrefix : String := "calls-"
def fileSuffix : String := ".jsonl"

/-- `^calls-(\d{8})\.jsonl$`. -/
def isDaily (name : String) : Bool :=
  anchored (started filePrefix fun cs => (cs.take 8).length == 8 && (cs.take 8).all (fun c => (PyText.decimalValue c).isSome) &&
    cs.drop 8 == fileSuffix.toList) name

/-- `_files`. -/
def Disk.daily (disk : Disk) : Dict String Bytes :=
  (disk.files.filter fun f => isDaily f.1).mergeSort fun a b => a.1 ≤ b.1

/-! ### The head -/

def tailWindow : ℕ := 65536

def isByteSpace (b : UInt8) : Bool := b ∈ [0x20, 0x09, 0x0a, 0x0b, 0x0c, 0x0d]

def nonblank (line : Bytes) : Bool := !line.all isByteSpace

def decoded (line : Bytes) : List Char := PyStr.decodeReplace line

/-- `_tail_lines`. -/
def tailLines (file : Bytes) : List (List Char) :=
  (((file.drop (file.length - min file.length tailWindow)).splitOn newline).filter nonblank).map decoded

/-- What `_last_line` and `verify` catch of a line. -/
def Raised.skipped : Raised → Bool
  | .value | .key | .type => true
  | _ => false

/-- The first of the lines that has an `entry_hash`. -/
def Runtime.firstEntry (rt : Runtime) : List (List Char) → Except Raised (Option (List Char))
  | [] => .ok none
  | line :: lines =>
    match rt.loads line >>= (subscript · "entry_hash") with
    | .ok _ => .ok (some line)
    | .error e => if e.skipped then rt.firstEntry lines else .error e

/-- `_last_line`. -/
def Runtime.lastLine (rt : Runtime) (file : Bytes) : Except Raised (Option (List Char)) :=
  match rt.firstEntry (tailLines file).reverse with
  | .ok none => if tailLines file = [] then .ok none else .error .callLog
  | r => r

structure Head where
  seq : ℤ
  entryHash : PyStr
  file : Option String
  ts : Json

def Head.genesis : Head := ⟨0, PyStr.ofString Sha256.genesis.text, none, .null⟩

/-- `read_text(encoding="utf-8")` and `json.loads`. -/
def Runtime.loadsFile (rt : Runtime) (file : Option Bytes) : Option (Except Raised Json) :=
  file.map fun raw =>
    if PyStr.utf8Chars (decoded raw) = raw then rt.loads (PyText.newlines (decoded raw)) else .error .value

def Runtime.entryHead (rt : Runtime) (name : String) (line : List Char) : Except Raised Head := do
  let entry ← rt.loads line
  let seq ← subscript entry "seq" >>= rt.toInt
  let entryHash ← subscript entry "entry_hash" >>= rt.strOf
  let ts ← getOr entry "ts" .null
  return ⟨seq, entryHash, some name, ts⟩

def Runtime.anchorHead (rt : Runtime) (anchor : Json) : Except Raised Head := do
  let seq ← subscript anchor "seq" >>= rt.toInt
  let entryHash ← subscript anchor "entry_hash" >>= rt.strOf
  let ts ← getOr anchor "deleted_at" .null
  return ⟨seq, entryHash, none, ts⟩

/-- The head that the anchor names; a missing file, a `ValueError` and a `KeyError` count as none. -/
def Runtime.headOfAnchor (rt : Runtime) (anchor : Option Bytes) : Except Raised Head :=
  match rt.loadsFile anchor with
  | none => .ok .genesis
  | some j =>
    match j >>= rt.anchorHead with
    | .error .value | .error .key => .ok .genesis
    | r => r

/-- The head of the first of the files that has a line. -/
def Runtime.headIn (rt : Runtime) (anchor : Option Bytes) : Dict String Bytes → Except Raised Head
  | [] => rt.headOfAnchor anchor
  | f :: files =>
    match rt.lastLine f.2 with
    | .error e => .error e
    | .ok none => rt.headIn anchor files
    | .ok (some line) => rt.entryHead f.1 line

/-- `_head`. -/
def Runtime.head (rt : Runtime) (disk : Disk) : Except Raised Head := rt.headIn disk.anchor disk.daily.reverse

/-! ### Entries from the newest on -/

def reverseChunk : ℕ := 64 * 1024

/-- `reverse_lines` over the first `size` bytes. -/
def reverseLines (file : Bytes) (size chunk : ℕ) : List Bytes :=
  ReverseLines.readBack newline (if chunk = 0 then reverseChunk else chunk) file size size []

/-- The pieces that are not empty, the last first, and reading has come to its end after so many blocks as there are bytes. -/
theorem reverseLines_pieces (file : Bytes) (size chunk : ℕ) :
    reverseLines file size chunk = (((file.take size).splitOn newline).filter (!·.isEmpty)).reverse ∧
      ∀ rounds, size ≤ rounds → ReverseLines.readBack newline (if chunk = 0 then reverseChunk else chunk) file rounds size [] =
        reverseLines file size chunk := by
  have hchunk : 0 < if chunk = 0 then reverseChunk else chunk := by
    split_ifs with h
    · decide
    · exact Nat.pos_of_ne_zero h
  have hread (rounds : ℕ) (hrounds : size ≤ rounds) :
      ReverseLines.readBack newline (if chunk = 0 then reverseChunk else chunk) file rounds size [] =
        (((file.take size).splitOn newline).filter (!·.isEmpty)).reverse := by
    rw [ReverseLines.readBack_eq newline hchunk file hrounds List.not_mem_nil, List.append_nil, ← List.filter_reverse]
    rfl
  refine ⟨hread size le_rfl, fun rounds hrounds => ?_⟩
  rw [hread rounds hrounds]
  exact (hread size le_rfl).symm

/-- What `entries_desc` reads of a line: nothing where it is blank or no JSON. -/
def Runtime.readEntry (rt : Runtime) (line : Bytes) : Option (Except Raised Json) :=
  if (decoded line).all PyText.isspace then none
  else
    match rt.loads (decoded line) with
    | .error .value => none
    | r => some r

/-- The entries of the first `size` bytes of a file, as far as they are asked for. -/
def Runtime.entriesOf (rt : Runtime) (file : Bytes) (size : ℕ) : List (Except Raised Json) :=
  (reverseLines file size reverseChunk).filterMap rt.readEntry

/-- `entries_desc` without a snapshot. -/
def Runtime.entriesDesc (rt : Runtime) (disk : Disk) : List (Except Raised Json) :=
  disk.daily.reverse.flatMap fun f => rt.entriesOf f.2 f.2.length

end ContinuityLedger.CallLog
