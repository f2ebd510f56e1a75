import ContinuityLedger.CallLog.Files
import ContinuityLedger.Foundations.JsonSuffix
import ContinuityLedger.Foundations.Timestamps

/-! Appending to the call log: an entry is chained to the head, files behind the retention window go, and the line is written to the
file of its day; and `verify`, one walk over the lines of every daily file behind the anchor. -/

namespace ContinuityLedger.CallLog

open Foundations Foundations.Sha256 Foundations.Codec Foundations.Calendar Foundations.Timestamps

structure Config where
  retainDays : ℕ
  pads : Bool

/-! ### Fields -/

/-- The names under which `make_fields` and the summaries write. -/
def fieldNames : List String := ["transport", "client_name", "client_version", "client_self_reported", "tenant", "tool",
  "route", "method", "target", "args_sha256", "outcome", "error_code", "status_code", "result_digest", "duration_ms",
  "window_start", "window_end", "count", "refused"]

/-- What is logged of a call or in a summary: under each name a text, a number, a truth value or nothing. -/
structure EntryFields where
  pairs : List (String × Json)
  distinct : (pairs.map Prod.fst).Nodup
  named : pairs.map Prod.fst ⊆ fieldNames
  flat : ∀ p ∈ pairs, Json.flat p.2 = true

def textOrNull : Option PyStr → Json
  | none => .null
  | some s => .str s

def numberOrNull : Option ℕ → Json
  | none => .null
  | some n => .int n

/-- What `make_fields` is given, with the client's name and version cleaned and the arguments hashed. -/
structure Call where
  transport : String
  clientName : Option PyStr
  clientVersion : Option PyStr
  tenant : PyStr
  tool : PyStr
  route : Option PyStr
  method : Option PyStr
  target : Option PyStr
  argsSha256 : Hex64
  outcome : String
  errorCode : Option PyStr
  statusCode : Option ℕ
  resultDigest : Option Hex64
  durationMs : ℕ

def Call.pairs (c : Call) : List (String × Json) := [
  ("transport", .str (PyStr.ofString c.transport)), ("client_name", textOrNull c.clientName),
  ("client_version", textOrNull c.clientVersion), ("client_self_reported", .bool true), ("tenant", .str c.tenant),
  ("tool", .str c.tool), ("route", textOrNull c.route), ("method", textOrNull c.method), ("target", textOrNull c.target),
  ("args_sha256", .str (PyStr.ofString c.argsSha256.text)), ("outcome", .str (PyStr.ofString c.outcome)),
  ("error_code", textOrNull c.errorCode), ("status_code", numberOrNull c.statusCode),
  ("result_digest", textOrNull (c.resultDigest.map fun d => PyStr.ofString d.text)), ("duration_ms", .int c.durationMs)]

lemma flat_textOrNull (s : Option PyStr) : Json.flat (textOrNull s) = true := by cases s <;> rfl

lemma flat_numberOrNull (n : Option ℕ) : Json.flat (numberOrNull n) = true := by cases n <;> rfl

lemma names_pairs (c : Call) : c.pairs.map Prod.fst = fieldNames.take 15 := rfl

/-- `make_fields`. -/
def makeFields (c : Call) : EntryFields where
  pairs := c.pairs
  distinct := by
    rw [names_pairs]
    decide
  named := names_pairs c ▸ List.take_subset _ _
  flat p hp := by
    simp only [Call.pairs, List.mem_cons, List.not_mem_nil, or_false] at hp
    rcases hp with rfl | rfl | rfl | rfl | rfl | rfl | rfl | rfl | rfl | rfl | rfl | rfl | rfl | rfl | rfl
    all_goals first | rfl | exact flat_textOrNull _ | exact flat_numberOrNull _

/-! ### Entries -/

/-- Where an entry is chained: `head["seq"]` and `head["entry_hash"]`. -/
structure Chain where
  seq : ℤ
  entryHash : PyStr

def Head.chain (h : Head) : Chain := ⟨h.seq, h.entryHash⟩

def keyed (pairs : List (String × Json)) : Members := pairs.map fun p => (PyStr.ofString p.1, p.2)

/-- An entry before its hash. -/
def unhashed (cfg : Config) (fields : EntryFields) (chain : Chain) (now : Instant) : List (String × Json) :=
  ("seq", .int (chain.seq + 1)) :: ("ts", .str (PyStr.ofString (normTs cfg.pads now))) ::
    ("prev_hash", .str chain.entryHash) :: fields.pairs

def hashed (pairs : List (String × Json)) (hash : Hex64) : Members :=
  keyed (pairs ++ [("entry_hash", .str (PyStr.ofString hash.text))])

/-! ### Files -/

/-- `%Y%m%d`. -/
def dayText (cfg : Config) (t : Instant) : String :=
  yearText cfg.pads t ++ padded 2 (civil (day t)).month ++ padded 2 (civil (day t)).dayOfMonth

def fileName (cfg : Config) (t : Instant) : String := filePrefix ++ dayText cfg t ++ fileSuffix

/-- The digits that `_file_re` captures. -/
def fileDay (name : String) : String := String.ofList ((name.toList.drop filePrefix.toList.length).take 8)

/-- `json.dumps` with nothing but ASCII. -/
def asciiEscape (p : PyChar) : PyStr :=
  let unit (n : ℕ) : PyStr := PyStr.ofChars ['\\', 'u', hexDigit (n / 0x1000), hexDigit (n / 0x100 % 0x10),
    hexDigit (n / 0x10 % 0x10), hexDigit (n % 0x10)]
  let n := PyStr.code p
  if n < 0x7f then [p] else if n < 0x10000 then unit n
  else unit (0xd800 + (n - 0x10000) / 0x400) ++ unit (0xdc00 + (n - 0x10000) % 0x400)

/-- `json.dumps(j)`. -/
def Runtime.dumpsDefault (rt : Runtime) (j : Json) : Except Raised PyStr :=
  if !Json.printable j then .error .value
  else if rt.python.dumpsNesting < Json.depth j then .error .recursion
  else .ok ((Json.rendered [.scalar ' '] j).flatMap asciiEscape)

def Config.cutoff (cfg : Config) (now : Instant) : Except Raised String :=
  let t := now - cfg.retainDays * microsPerDay
  if InRange t then .ok (dayText cfg t) else .error .overflow

/-- The last line of the newest of the files that has one. -/
def Runtime.lastOf (rt : Runtime) : Dict String Bytes → Except Raised (Option (List Char))
  | [] => .ok none
  | f :: files =>
    match rt.lastLine f.2 with
    | .ok none => rt.lastOf files
    | r => r

/-- The text of the anchor that stands for the files up to one. -/
def Runtime.anchorOf (rt : Runtime) (cfg : Config) (now : Instant) (file : String) (line : List Char) : Except Raised Bytes := do
  let last ← rt.loads line
  let seq ← subscript last "seq"
  let entryHash ← subscript last "entry_hash"
  let text ← rt.dumpsDefault (.obj (keyed [("seq", seq), ("entry_hash", entryHash), ("file", .str (PyStr.ofString file)),
    ("deleted_at", .str (PyStr.ofString (normTs cfg.pads now)))]))
  (PyStr.encode text).elim (.error .value) .ok

/-- `_rotate_and_retain`. -/
def Runtime.rotate (rt : Runtime) (cfg : Config) (disk : Disk) (now : Instant) : Except Raised Disk := do
  let cutoff ← cfg.cutoff now
  let old := disk.daily.filter fun f => fileDay f.1 < cutoff
  if old = [] ∨ disk.daily.length ≤ old.length then return disk
  let anchor ← match ← rt.lastOf old.reverse with
    | none => pure disk.anchor
    | some line => some <$> rt.anchorOf cfg now ((old.getLast?.map Prod.fst).getD "") line
  return ⟨disk.files.filter fun f => f.1 ∉ old.map Prod.fst, anchor⟩

/-- What ends a line that a crash has torn. -/
def tornPrefix (file : Bytes) : Bytes := if file.getLast?.all (· = newline) then [] else [newline]

/-- `_append_locked`, with the entry that was written. -/
def Runtime.appendLocked (rt : Runtime) (cfg : Config) (disk : Disk) (fields : EntryFields) (chain : Chain) (now : Instant) :
    Except Raised (Disk × Members) := do
  let pairs := unhashed cfg fields chain now
  let hash ← rt.entryHashOf (keyed pairs)
  let disk ← rt.rotate cfg disk now
  let line ← rt.canonical (.obj (hashed pairs hash))
  let file := (disk.files.get (fileName cfg now)).getD []
  return (⟨disk.files.set (fileName cfg now) (file ++ tornPrefix file ++ line ++ [newline]), disk.anchor⟩, hashed pairs hash)

open Foundations Foundations.Sha256 Foundations.Codec

def Chain.genesis : Chain := Head.genesis.chain

structure Problem where
  file : String
  line : ℕ
  problem : PyStr

/-- What the walk has found so far, and what the next entry has to follow. -/
structure Walk where
  problems : List Problem
  total : ℕ
  prev : Chain

structure Report where
  ok : Bool
  entries : ℕ
  files : List String
  problems : List Problem
  head : Chain
  anchor : Option Json
  gapsRecorded : ℕ

/-! ### A line -/

structure Entry where
  members : Members
  seq : ℤ
  entryHash : PyStr
  prevHash : PyStr

/-- What `verify` reads of a line; what has members is a dict. -/
def Runtime.readLine (rt : Runtime) (line : List Char) : Except Raised Entry := do
  let e ← rt.loads line
  let seq ← subscript e "seq" >>= rt.toInt
  let entryHash ← subscript e "entry_hash" >>= rt.strOf
  let prevHash ← subscript e "prev_hash" >>= rt.strOf
  match e with
  | .obj d => return ⟨d, seq, entryHash, prevHash⟩
  | _ => throw .type

def problemIf (c : Bool) (file : String) (n : ℕ) (text : Except Raised PyStr) : Except Raised (List Problem) :=
  if c then text.map fun t => [⟨file, n, t⟩] else .ok []

/-- `f"entry {seq}: …"`. -/
def Runtime.about (rt : Runtime) (seq : ℤ) (rest : PyStr) : Except Raised PyStr := do
  let shown ← rt.strOf (.int seq)
  return PyStr.ofString "entry " ++ shown ++ PyStr.ofString ": " ++ rest

def Runtime.checkEntry (rt : Runtime) (file : String) (n : ℕ) (prev : Chain) (e : Entry) : Except Raised (List Problem) := do
  let own ← rt.entryHashOf e.members
  let edited ← problemIf (PyStr.ofString own.text ≠ e.entryHash) file n <|
    rt.about e.seq (PyStr.ofString "entry_hash does not match the content (edited)")
  let moved ← problemIf (e.seq ≠ prev.seq + 1) file n do
    let expected ← rt.strOf (.int (prev.seq + 1))
    rt.about e.seq (PyStr.ofString "expected seq " ++ expected ++
      PyStr.ofString " (a line was deleted, inserted or reordered)")
  let unlinked ← problemIf (e.prevHash ≠ prev.entryHash) file n <|
    rt.about e.seq (PyStr.ofString "prev_hash does not link to the previous entry (deleted, inserted or reordered)")
  return edited ++ moved ++ unlinked

def unreadable (torn : Bool) : PyStr :=
  PyStr.ofString (if torn then "torn final line (a crash mid-write)" else "not a valid entry")

/-- One line of `count`; the last of a torn file is the torn one. -/
def Runtime.walkLine (rt : Runtime) (file : String) (torn : Bool) (count : ℕ) (w : Walk) (line : List Char × ℕ) :
    Except Raised Walk :=
  if line.1.all PyText.isspace then .ok w
  else
    match rt.readLine line.1 with
    | .error e =>
      if e.skipped then .ok { w with problems := w.problems ++ [⟨file, line.2, unreadable (torn && line.2 == count)⟩] }
      else .error e
    | .ok e => (rt.checkEntry file line.2 w.prev e).map fun found =>
        ⟨w.problems ++ found, w.total + 1, ⟨e.seq, e.entryHash⟩⟩

/-! ### The files -/

def isTorn (raw : Bytes) : Bool := !raw.getLast?.all (· = newline)

def Runtime.walkFile (rt : Runtime) (w : Walk) (f : String × Bytes) : Except Raised Walk :=
  let lines := (decoded f.2).splitOn '\n'
  (lines.zipIdx 1).foldlM (rt.walkLine f.1 (isTorn f.2) lines.length) w

/-- The anchor, and what the first entry has to follow. -/
def Runtime.readAnchor (rt : Runtime) (anchor : Option Bytes) : Except Raised (Option Json × Chain) :=
  match rt.loadsFile anchor with
  | none => .ok (none, .genesis)
  | some j =>
    let read := do
      let a ← j
      let entryHash ← subscript a "entry_hash" >>= rt.strOf
      let seq ← subscript a "seq" >>= rt.toInt
      return (some a, (⟨seq, entryHash⟩ : Chain))
    match read with
    | .error .value | .error .key => .ok (none, .genesis)
    | r => r

def isGap : Json → Bool
  | .str s => s == PyStr.ofString "gap"
  | _ => false

def Runtime.gaps (rt : Runtime) (disk : Disk) : Except Raised ℕ := do
  let outcomes ← (rt.entriesDesc disk).mapM fun e => e >>= (getOr · "outcome" .null)
  return outcomes.countP isGap

/-- `verify`, where no summary is open: those that are, it appends first. -/
def Runtime.verify (rt : Runtime) (disk : Disk) : Except Raised Report := do
  let (anchor, start) ← rt.readAnchor disk.anchor
  let w ← disk.daily.foldlM rt.walkFile ⟨[], 0, start⟩
  let gaps ← rt.gaps disk
  return ⟨w.problems.isEmpty, w.total, disk.daily.map Prod.fst, w.problems, w.prev, anchor, gaps⟩

end ContinuityLedger.CallLog
