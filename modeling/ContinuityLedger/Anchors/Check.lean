import Mathlib.Data.List.Sort
import ContinuityLedger.Foundations.CopyText
import ContinuityLedger.Foundations.Dict
import ContinuityLedger.Foundations.Sha256

/-! The anchors of a ledger's database, and `anchors_check`: what a line is read out of, whether one anchors file may follow another,
and what that is meant to say of their databases. -/

namespace ContinuityLedger.Anchors

open Foundations Foundations.Sha256

abbrev Line := List Char

abbrev Columns := List (Option String)

structure Head where
  tenant : String
  id : String
  lastSeq : ℤ
  lastHash : Hex64
  deleted : Bool

structure Counter where
  tenant : String
  lastSeq : ℕ

structure Block where
  tenant : String
  height : ℕ
  firstSeq : ℤ
  lastSeq : ℤ
  entryCount : ℤ
  prevBlockHash : Hex64
  entriesRoot : Hex64
  blockHash : Hex64
  rest : Columns

/-- A row of a signing log, with `n` columns between its number and its hash. -/
structure Logged (n : ℕ) where
  tenant : String
  seq : ℕ
  columns : {cs : Columns // cs.length = n}
  hash : Hex64
  rest : Columns

abbrev Attestation := Logged 7
abbrev TrustStatement := Logged 8

/-- The anchored tables and their primary keys; a table that an older schema lacks is empty. -/
structure Database where
  heads : List Head
  counters : List Counter
  blocks : List Block
  attestations : List Attestation
  trustStatements : List TrustStatement
  heads_key : (heads.map fun h => (h.tenant, h.id)).Nodup
  counters_key : (counters.map Counter.tenant).Nodup
  blocks_key : (blocks.map fun b => (b.tenant, b.height)).Nodup
  attestations_key : (attestations.map fun a => (a.tenant, a.seq)).Nodup
  trustStatements_key : (trustStatements.map fun s => (s.tenant, s.seq)).Nodup

inductive Kind
  | head | counter | block | att | trust
deriving DecidableEq

def Kind.text : Kind → String
  | .head => "head"
  | .counter => "counter"
  | .block => "block"
  | .att => "att"
  | .trust => "trust"

/-! ### Rows -/

def Head.row (h : Head) : Columns :=
  [some h.tenant, some h.id, some (toString h.lastSeq), some h.lastHash.text, some (if h.deleted then "t" else "f")]

def Counter.row (c : Counter) : Columns := [some c.tenant, some (toString (c.lastSeq : ℤ))]

def Block.row (b : Block) : Columns :=
  [some b.tenant, some (toString (b.height : ℤ)), some (toString b.firstSeq), some (toString b.lastSeq),
    some (toString b.entryCount), some b.prevBlockHash.text, some b.entriesRoot.text, some b.blockHash.text] ++ b.rest

def Logged.row {n : ℕ} (l : Logged n) : Columns :=
  some l.tenant :: some (toString (l.seq : ℤ)) :: (l.columns.1 ++ some l.hash.text :: l.rest)

def Database.rows (db : Database) : Kind → List Columns
  | .head => db.heads.map Head.row
  | .counter => db.counters.map Counter.row
  | .block => db.blocks.map Block.row
  | .att => db.attestations.map Logged.row
  | .trust => db.trustStatements.map Logged.row

/-! ### `anchors_from_dump` -/

def starts (s : String) (line : Line) : Bool := s.toList.isPrefixOf line

/-- The mode that a `COPY` line sets. -/
def opened (line : Line) : Option (Option Kind) :=
  if starts "COPY jarvis.chain_heads " line then some (some .head)
  else if starts "COPY jarvis.history_counters " line then some (some .counter)
  else if starts "COPY jarvis.blocks " line then some (some .block)
  else if starts "COPY jarvis.attestations " line then some (some .att)
  else if starts "COPY jarvis.trust_statements " line then some (some .trust)
  else if starts "COPY " line then some none
  else none

/-- `$i` -/
def field (fields : List Line) (i : ℕ) : Line := fields.getD (i - 1) []

def bars (fields : List Line) : Line := ['|'].intercalate fields

/-- How many fields a row needs, and which of them are printed. -/
def wanted : Kind → ℕ × List ℕ
  | .head => (5, [1, 2, 3, 4, 5])
  | .counter => (2, [1, 2])
  | .block => (8, [1, 2, 4, 8])
  | .att => (10, [1, 2, 10])
  | .trust => (11, [1, 2, 11])

def printed (mode : Option Kind) (line : Line) : Option Line :=
  let fields := line.splitOn '\t'
  match mode with
  | none => none
  | some k =>
    if (wanted k).1 ≤ fields.length then some (bars (k.text.toList :: (wanted k).2.map (field fields))) else none

def scan : Option Kind → List Line → List Line
  | _, [] => []
  | mode, line :: lines =>
    match opened line with
    | some next => scan next lines
    | none =>
      if line = ['\\', '.'] then scan none lines
      else (printed mode line).toList ++ scan mode lines

/-- `LC_ALL=C sort` -/
def sorted (lines : List Line) : List Line := lines.insertionSort fun a b => a.map Char.toNat ≤ b.map Char.toNat

/-- The data of one table in the dump's text, behind comments and settings. -/
structure Section where
  preamble : List Line
  quiet : ∀ line ∈ preamble, opened line = none
  header : Line
  kind : Option Kind
  opens : opened header = some kind
  rows : List Columns

def Section.text (s : Section) : List Line :=
  s.preamble ++ s.header :: (s.rows.map (CopyText.row '\t') ++ [['\\', '.']])

/-- A dump holds the rows of each anchored table, and other tables. -/
structure Dump where
  db : Database
  sections : List Section
  holds : ∀ k, (sections.filter fun s => s.kind = some k).flatMap Section.rows = db.rows k

def fromDump (d : Dump) : List Line := sorted (scan none (d.sections.flatMap Section.text))

/-! ### `anchors_collect` -/

def Head.selected (h : Head) : Columns := some "head" :: h.row

def Counter.selected (c : Counter) : Columns := some "counter" :: c.row

def Block.selected (b : Block) : Columns :=
  [some "block", some b.tenant, some (toString (b.height : ℤ)), some (toString b.lastSeq), some b.blockHash.text]

def Logged.selected {n : ℕ} (kind : String) (l : Logged n) : Columns :=
  [some kind, some l.tenant, some (toString (l.seq : ℤ)), some l.hash.text]

def Database.selected (db : Database) : List Columns :=
  db.heads.map Head.selected ++ db.counters.map Counter.selected ++ db.blocks.map Block.selected ++
    db.attestations.map (Logged.selected "att") ++ db.trustStatements.map (Logged.selected "trust")

def collect (db : Database) : List Line := sorted (db.selected.map (CopyText.row '|'))

/-- An anchors file is made either way. -/
inductive Source
  | dump (d : Dump)
  | collected (db : Database)

def Source.db : Source → Database
  | .dump d => d.db
  | .collected db => db

def Source.file : Source → List Line
  | .dump d => fromDump d
  | .collected db => collect db

/-- awk's numbers: the one that a text starts with, and whether a field as a whole looks like one. -/
structure Awk (D : Type) where
  number : Line → D
  numeric : Line → Bool

section Awk

variable {D : Type} [LinearOrder D]

/-- `a + 0 < b + 0` -/
def Awk.less (awk : Awk D) (a b : Line) : Bool := awk.number a < awk.number b

/-- `a == b` for fields. -/
def Awk.same (awk : Awk D) (a b : Line) : Bool :=
  if awk.numeric a && awk.numeric b then awk.number a = awk.number b else a = b

/-- `$2 "|" $3` -/
def pairKey (fields : List Line) : Line := bars [field fields 2, field fields 3]

def tenantKey (fields : List Line) : Line := field fields 2

def picked (kind : Kind) (key : List Line → Line) (i : ℕ) (line : Line) : Option (Line × Line) :=
  let fields := line.splitOn '|'
  if field fields 1 = kind.text.toList then some (key fields, field fields i) else none

/-- One of the arrays: field `i` of the lines of a kind, by their key. -/
def array (kind : Kind) (key : List Line → Line) (i : ℕ) (file : List Line) : Dict Line Line :=
  Dict.ofPairs (file.filterMap (picked kind key i))

inductive Problem
  | headVanished (k : Line)
  | headBackwards (k was now : Line)
  | headChanged (k : Line)
  | counterVanished (t : Line)
  | counterBackwards (t was now : Line)
  | entryVanished (kind : Kind) (k : Line)
  | entryChanged (kind : Kind) (k : Line)

/-- What a vanished or a changed entry is called, and what each means. -/
def entryTexts : Kind → String × String × String
  | .block => ("block", "a block was removed", "the blocks were re-sealed")
  | .att => ("attestation", "the signing log lost an entry", "the signing log was rewritten")
  | _ => ("trust statement", "the trust log lost an entry", "the trust log was rewritten")

def Problem.text (p : Problem) : String :=
  "anchor problem: " ++ match p with
    | .headVanished k => "record " ++ String.ofList k ++ " vanished from the chain heads"
    | .headBackwards k was now =>
      "record " ++ String.ofList k ++ " moved BACKWARDS (seq " ++ String.ofList was ++ " -> " ++ String.ofList now ++ ")"
    | .headChanged k => "record " ++ String.ofList k ++ " changed its hash without advancing"
    | .counterVanished t => "tenant " ++ String.ofList t ++ " counter vanished"
    | .counterBackwards t was now =>
      "tenant " ++ String.ofList t ++ " counter went BACKWARDS (" ++ String.ofList was ++ " -> " ++ String.ofList now ++ ")"
    | .entryVanished kind k =>
      (entryTexts kind).1 ++ " " ++ String.ofList k ++ " vanished (" ++ (entryTexts kind).2.1 ++ ")"
    | .entryChanged kind k =>
      (entryTexts kind).1 ++ " " ++ String.ofList k ++ " changed its hash (" ++ (entryTexts kind).2.2 ++ ")"

def headProblem (awk : Awk D) (nowSeqs nowHashes wasHashes : Dict Line Line) (k was : Line) : Option Problem :=
  match Dict.get nowSeqs k with
  | none => some (.headVanished k)
  | some now =>
    if awk.less now was then some (.headBackwards k was now)
    else if awk.same now was && !awk.same ((Dict.get nowHashes k).getD []) ((Dict.get wasHashes k).getD []) then
      some (.headChanged k)
    else none

def headProblems (awk : Awk D) (previous new : List Line) : List Problem :=
  (array .head pairKey 4 previous).filterMap fun p =>
    headProblem awk (array .head pairKey 4 new) (array .head pairKey 5 new) (array .head pairKey 5 previous) p.1 p.2

def counterProblem (awk : Awk D) (nowSeqs : Dict Line Line) (t was : Line) : Option Problem :=
  match Dict.get nowSeqs t with
  | none => some (.counterVanished t)
  | some now => if awk.less now was then some (.counterBackwards t was now) else none

def counterProblems (awk : Awk D) (previous new : List Line) : List Problem :=
  (array .counter tenantKey 3 previous).filterMap fun p => counterProblem awk (array .counter tenantKey 3 new) p.1 p.2

def entryProblem (awk : Awk D) (kind : Kind) (nowHashes : Dict Line Line) (k was : Line) : Option Problem :=
  match Dict.get nowHashes k with
  | none => some (.entryVanished kind k)
  | some now => if awk.same now was then none else some (.entryChanged kind k)

/-- Blocks carry their hash in field 5, attestations and trust statements in field 4. -/
def entryProblems (awk : Awk D) (kind : Kind) (i : ℕ) (previous new : List Line) : List Problem :=
  (array kind pairKey i previous).filterMap fun p => entryProblem awk kind (array kind pairKey i new) p.1 p.2

/-- Exit status 0 where there is no problem. -/
def anchorsCheck (awk : Awk D) (previous new : List Line) : List Problem :=
  headProblems awk previous new ++ counterProblems awk previous new ++ entryProblems awk .block 5 previous new ++
    entryProblems awk .att 4 previous new ++ entryProblems awk .trust 4 previous new

end Awk

/-! ### What it is for -/

/-- No row of a signing log is lost or rewritten. -/
def LogKept {n : ℕ} (was now : List (Logged n)) : Prop :=
  ∀ l ∈ was, ∃ l' ∈ now, l'.tenant = l.tenant ∧ l'.seq = l.seq ∧ l'.hash = l.hash

structure Succession (p n : Database) : Prop where
  heads : ∀ h ∈ p.heads, ∃ h' ∈ n.heads, h'.tenant = h.tenant ∧ h'.id = h.id ∧ h.lastSeq ≤ h'.lastSeq ∧
    (h'.lastSeq = h.lastSeq → h'.lastHash = h.lastHash)
  counters : ∀ c ∈ p.counters, ∃ c' ∈ n.counters, c'.tenant = c.tenant ∧ c.lastSeq ≤ c'.lastSeq
  blocks : ∀ b ∈ p.blocks, ∃ b' ∈ n.blocks, b'.tenant = b.tenant ∧ b'.height = b.height ∧ b'.blockHash = b.blockHash
  attestations : LogKept p.attestations n.attestations
  trustStatements : LogKept p.trustStatements n.trustStatements

end ContinuityLedger.Anchors
