import ContinuityLedger.Foundations.CopyText
import ContinuityLedger.Foundations.Dict
import ContinuityLedger.Foundations.IntText
import ContinuityLedger.Foundations.Jsonb
import ContinuityLedger.Foundations.TextLines

/-! The data of a ledger's database as `pg_dump` writes it, for each table a `COPY` line, a line for each row, and the line that
ends the table; and the reader of the signatures export, which finds the wanted tables in it and reads their rows. -/

namespace ContinuityLedger.Backup

open Foundations

/-! ### Tables -/

inductive Kind
  | text | textArray | bigint | boolean | jsonb | timestamptz | float
deriving DecidableEq

/-- What is in the text of a time or of a number. -/
def plainChar (c : Char) : Bool := c.isAlphanum || " -+:.".toList.contains c

abbrev Plain := {s : String // s ≠ "" ∧ s.toList.all plainChar = true}

/-- An array's text is any text, a time's and a fraction's is plain. -/
abbrev Kind.Value : Kind → Type
  | .text | .textArray => String
  | .bigint => Int64
  | .boolean => Bool
  | .jsonb => Jsonb.Value
  | .timestamptz | .float => Plain

def Kind.render : (k : Kind) → k.Value → String
  | .text, s | .textArray, s => s
  | .bigint, n => toString n.toInt
  | .boolean, b => if b then "t" else "f"
  | .jsonb, j => j.text
  | .timestamptz, s | .float, s => s.val

structure Column where
  name : String
  kind : Kind

structure Table where
  name : String
  columns : List Column

def Table.of (name : String) (columns : List (String × Kind)) : Table := ⟨name, columns.map fun c => ⟨c.1, c.2⟩⟩

def boards : Table := .of "boards" [("tenant_key", .text), ("board", .jsonb), ("version", .bigint)]

def memories : Table := .of "memories" [("tenant_key", .text), ("id", .text), ("version", .bigint), ("content", .text),
  ("content_sha256", .text), ("created_at", .timestamptz), ("updated_at", .timestamptz), ("source_agent", .text),
  ("session_id", .text), ("type", .text), ("status", .text), ("confidence", .float), ("subject", .text),
  ("supersedes", .text), ("tags", .textArray), ("evidence", .jsonb)]

def recordHistory : Table := .of "record_history" [("history_id", .bigint), ("tenant_key", .text), ("memory_id", .text),
  ("version", .bigint), ("op", .text), ("actor", .text), ("changed_at", .timestamptz), ("before", .jsonb), ("after", .jsonb),
  ("prev_hash", .text), ("row_hash", .text), ("seq", .bigint)]

def historyCounters : Table := .of "history_counters" [("tenant_key", .text), ("last_seq", .bigint)]

def chainHeads : Table := .of "chain_heads" [("tenant_key", .text), ("id", .text), ("last_seq", .bigint), ("last_hash", .text),
  ("deleted", .boolean)]

def evidenceObjects : Table := .of "evidence_objects" [("tenant_key", .text), ("id", .text), ("schema_id", .text),
  ("payload", .jsonb), ("pointer", .jsonb), ("size_bytes", .bigint), ("created_at", .timestamptz), ("created_by", .text)]

def blocks : Table := .of "blocks" [("tenant_key", .text), ("height", .bigint), ("first_seq", .bigint), ("last_seq", .bigint),
  ("entry_count", .bigint), ("prev_block_hash", .text), ("entries_root", .text), ("block_hash", .text), ("format", .bigint),
  ("sealed_at", .timestamptz), ("sealed_by", .text)]

def attestations : Table := .of "attestations" [("tenant_key", .text), ("signer_seq", .bigint), ("kind", .text),
  ("subject", .text), ("subject_hash", .text), ("prev_hash", .text), ("key_id", .text), ("signed_at", .text),
  ("signature", .text), ("attestation_hash", .text), ("stored_at", .timestamptz)]

def trustStatements : Table := .of "trust_statements" [("tenant_key", .text), ("stmt_seq", .bigint), ("kind", .text),
  ("key_id", .text), ("pubkey", .text), ("arg", .bigint), ("subject_hash", .text), ("prev_hash", .text),
  ("signed_by", .text), ("signature", .text), ("statement_hash", .text), ("stored_at", .timestamptz)]

def schemaVersion : Table := .of "schema_version" [("version", .bigint), ("applied_at", .timestamptz)]

def tenantLedgers : Table := .of "jarvis_tenant_ledgers" [("tenant_key", .text), ("payload", .jsonb),
  ("updated_at", .timestamptz)]

/-- The tables of the ledger's schema. -/
def schema : List Table := [boards, memories, recordHistory, historyCounters, chainHeads, evidenceObjects, blocks, attestations,
  trustStatements, schemaVersion, tenantLedgers]

/-! ### Rows -/

/-- A row: a value of its kind or a null for each column. -/
inductive Cells : List Column → Type
  | nil : Cells []
  | cons {c : Column} {cs : List Column} (value : Option c.kind.Value) (rest : Cells cs) : Cells (c :: cs)

def Cells.texts : {cs : List Column} → Cells cs → List (Option String)
  | _, .nil => []
  | c :: _, .cons value rest => value.map c.kind.render :: rest.texts

structure Database where
  tables : List Table
  rows : (t : Table) → List (Cells t.columns)
  known : ∀ t ∈ tables, t ∈ schema
  nodup : (tables.map Table.name).Nodup
  absent : ∀ t, t ∉ tables → rows t = []

/-! ### The dump -/

/-- A line that is no table's: empty, a remark, or a statement other than `COPY`. -/
abbrev Remark := {l : List Char // "COPY ".toList.isPrefixOf l = false ∧ '\n' ∉ l ∧ '\r' ∉ l}

def wordChar (c : Char) : Bool := c.isAlphanum || c == '_'

abbrev Word := {s : String // s ≠ "" ∧ s.toList.all wordChar = true}

/-- What a dump is free in: the schema's name, the order of the tables, which names it quotes and what it says between. -/
structure Layout (db : Database) where
  schemaName : Word
  quotes : String → Bool
  order : List Table
  order_perm : order.Perm db.tables
  before : Table → List Remark
  after : List Remark

variable {db : Database}

def Layout.identifier (l : Layout db) (name : String) : List Char :=
  if l.quotes name then '"' :: name.toList ++ ['"'] else name.toList

def Layout.copyLine (l : Layout db) (t : Table) : List Char :=
  "COPY ".toList ++ l.identifier l.schemaName.val ++ '.' :: l.identifier t.name ++ " (".toList ++
    [',', ' '].intercalate (t.columns.map fun c => l.identifier c.name) ++ ") FROM stdin;".toList

def rowLine {cs : List Column} (r : Cells cs) : List Char := CopyText.row '\t' r.texts

def Layout.section (l : Layout db) (t : Table) : List (List Char) :=
  (l.before t).map Subtype.val ++ l.copyLine t :: (db.rows t).map rowLine ++ [['\\', '.']]

def Layout.lines (l : Layout db) : List (List Char) := l.order.flatMap l.section ++ l.after.map Subtype.val

def Layout.text (l : Layout db) : List Char := l.lines.flatMap (· ++ ['\n'])

end ContinuityLedger.Backup

namespace ContinuityLedger.Backup.SigExport

open Foundations

/-- The wanted tables and their columns that are numbers. -/
def wanted : Dict String (List String) :=
  [("attestations", ["signer_seq"]), ("trust_statements", ["stmt_seq", "arg"]), ("blocks", ["height"]),
    ("evidence_objects", [])]

inductive Value
  | none
  | text (s : String)
  | int (n : ℤ)
deriving DecidableEq

abbrev Record := Dict String Value

abbrev Tables := Dict String (List Record)

/-- `\N` is null; a backslash stands before the letter of a control character, or before what is meant itself. -/
def unescape (field : List Char) : Option String :=
  if field = ['\\', 'N'] then none
  else if '\\' ∉ field then some (String.ofList field)
  else some (String.ofList (CopyText.read field))

example : ["\\\\N", "\\N", "\\\\.", "a\\tb\\\\"].map (fun f => unescape f.toList) =
    [some "\\N", none, some "\\.", some "a\tb\\"] := by decide

/-! ### The header -/

def identifierChar (c : Char) : Bool := wordChar c || c == '"'

def expect (start cs : List Char) : Option (List Char) := if start.isPrefixOf cs then some (cs.drop start.length) else none

def skipQuote : List Char → List Char
  | '"' :: cs => cs
  | cs => cs

/-- A schema's name and the dot behind it. -/
def skipSchema (cs : List Char) : List Char :=
  match cs.dropWhile identifierChar with
  | '.' :: rest => if cs.takeWhile identifierChar = [] then cs else rest
  | _ => cs

/-- The table's name and the text of its columns, in a line that starts a table. -/
def header (line : List Char) : Option (String × List Char) := do
  let cs := skipQuote (skipSchema (← expect "COPY ".toList line))
  let name := cs.takeWhile wordChar
  let cs ← expect " (".toList (skipQuote (cs.dropWhile wordChar))
  if name ≠ [] && cs.dropWhile (· ≠ ')') == ") FROM stdin;".toList then
    some (String.ofList name, cs.takeWhile (· ≠ ')'))
  else none

def stripQuotes (cs : List Char) : List Char := (((cs.dropWhile (· = '"')).reverse).dropWhile (· = '"')).reverse

def columnNames (group : List Char) : List String :=
  (group.splitOn ',').map fun c => String.ofList (stripQuotes (PyText.strip (String.ofList c)).toList)

/-! ### The rows -/

/-- Raises where the text is no number. -/
def convert (row : Record) (key : String) : Option Record :=
  match Dict.get row key with
  | some (.text t) => (PyText.intText t).map fun n => Dict.set row key (.int n)
  | _ => some row

def readRow (keys columns : List String) (line : List Char) : Option Record :=
  let values := (line.splitOn '\t').map fun f => (unescape f).elim Value.none Value.text
  keys.foldlM convert (Dict.ofPairs (columns.zip values))

structure State where
  tables : Tables
  current : Option String
  columns : List String

def State.add (s : State) (table : String) (row : Record) : State :=
  { s with tables := Dict.set s.tables table ((Dict.get s.tables table).getD [] ++ [row]) }

def rstrip (raw : List Char) : List Char := (raw.reverse.dropWhile (· = '\n')).reverse

def readLine (s : State) (raw : List Char) : Option State :=
  let line := rstrip raw
  match s.current with
  | none =>
    match header line with
    | some (name, group) =>
      if Dict.has wanted name then some { s with current := some name, columns := columnNames group } else some s
    | none => some s
  | some table =>
    if line = ['\\', '.'] then some { s with current := none }
    else (readRow ((Dict.get wanted table).getD []) s.columns line).map (s.add table)

def start : State := ⟨wanted.map fun w => (w.1, []), none, []⟩

def parse (lines : List (List Char)) : Option Tables := (lines.foldlM readLine start).map State.tables

/-- The lines of a text file, each with its line break. -/
def rawLines (line : List Char) : List Char → List (List Char)
  | [] => if line = [] then [] else [line]
  | c :: cs => if c = '\n' then (line ++ [c]) :: rawLines [] cs else rawLines (line ++ [c]) cs

def stdin (text : List Char) : List (List Char) := rawLines [] (PyText.newlines text)

end ContinuityLedger.Backup.SigExport
