import ContinuityLedger.Amul.Lines

/-! Checkpoints: what each seals, its content address, and the file in which they stand one a line. -/

namespace ContinuityLedger.Amul

open Foundations Foundations.Sha256 Foundations.Codec

/-- `sha256_text`. -/
def sha256Text (text : String) : String := (sha256Hex text).text

def checkpointSchema : String := "amul-gc-checkpoint-v1"

structure Checkpoint where
  kind : String
  schemaVersion : String
  rangeStart : ℕ
  rangeEnd : ℕ
  rangeSha : String
  merkleRoot : String
  coldCount : ℕ
  hotCount : ℕ
  coldLedgerIds : List String
  hotLedgerIds : List String
  prevCheckpointSha : Option String
  checkpointSha : Option String
  createdAt : String
  actor : String

namespace Checkpoint

def nullable (s : Option String) : Data := s.elim .null .str

/-- `model_dump()`. -/
def data (c : Checkpoint) : Data :=
  .obj [("type", .str c.kind), ("schema_version", .str c.schemaVersion), ("range_start", .num c.rangeStart),
    ("range_end", .num c.rangeEnd), ("range_sha", .str c.rangeSha), ("merkle_root", .str c.merkleRoot),
    ("cold_count", .num c.coldCount), ("hot_count", .num c.hotCount),
    ("cold_ledger_ids", Artifact.strings c.coldLedgerIds), ("hot_ledger_ids", Artifact.strings c.hotLedgerIds),
    ("prev_checkpoint_sha", nullable c.prevCheckpointSha), ("checkpoint_sha", nullable c.checkpointSha),
    ("created_at", .str c.createdAt), ("actor", .str c.actor)]

/-- `model_dump(exclude={"checkpoint_sha"})` with sorted keys. -/
def canonicalData (c : Checkpoint) : Data :=
  .obj [("actor", .str c.actor), ("cold_count", .num c.coldCount),
    ("cold_ledger_ids", Artifact.strings c.coldLedgerIds), ("created_at", .str c.createdAt),
    ("hot_count", .num c.hotCount), ("hot_ledger_ids", Artifact.strings c.hotLedgerIds),
    ("merkle_root", .str c.merkleRoot), ("prev_checkpoint_sha", nullable c.prevCheckpointSha),
    ("range_end", .num c.rangeEnd), ("range_sha", .str c.rangeSha), ("range_start", .num c.rangeStart),
    ("schema_version", .str c.schemaVersion), ("type", .str c.kind)]

/-- `dumps` refuses numbers of more than 4300 digits. -/
def printable (c : Checkpoint) : Bool :=
  [c.rangeStart, c.rangeEnd, c.coldCount, c.hotCount].all fun n => (toString n).length ≤ Json.maxDigits

def modelCanonical (c : Checkpoint) : String := String.ofList c.canonicalData.ascii

def address (c : Checkpoint) : String := sha256Text c.modelCanonical

/-- `seal()`, which raises where a number is too long. -/
def sealed (c : Checkpoint) : Option Checkpoint := if c.printable then some { c with checkpointSha := some c.address } else none

def text (c : Checkpoint) : List Char := c.data.ascii

/-- The bytes that a checkpoint is appended as. -/
def line (c : Checkpoint) : Bytes := PyStr.utf8Chars (c.text ++ ['\n'])

def readNat : Json → Option ℕ
  | .int (.ofNat n) => some n
  | _ => none

/-- `Checkpoint(**value)`, where the numbers are as `compact` writes them. -/
def read : Json → Option Checkpoint
  | .obj d => do
    let kind ← defaulted Codec.string "checkpoint" d "type"
    let schemaVersion ← defaulted Codec.string checkpointSchema d "schema_version"
    let rangeStart ← (member d "range_start").bind readNat
    let rangeEnd ← (member d "range_end").bind readNat
    let rangeSha ← required Codec.string d "range_sha"
    let merkleRoot ← required Codec.string d "merkle_root"
    let coldCount ← (member d "cold_count").bind readNat
    let hotCount ← (member d "hot_count").bind readNat
    let coldLedgerIds ← Artifact.readList Codec.readString d "cold_ledger_ids"
    let hotLedgerIds ← Artifact.readList Codec.readString d "hot_ledger_ids"
    let prevCheckpointSha ← defaulted ProvenanceEvent.nullableString none d "prev_checkpoint_sha"
    let checkpointSha ← defaulted ProvenanceEvent.nullableString none d "checkpoint_sha"
    let createdAt ← defaulted Codec.string "" d "created_at"
    let actor ← defaulted Codec.string "amul-gc" d "actor"
    return ⟨kind, schemaVersion, rangeStart, rangeEnd, rangeSha, merkleRoot, coldCount, hotCount, coldLedgerIds,
      hotLedgerIds, prevCheckpointSha, checkpointSha, createdAt, actor⟩
  | _ => none

def parse (py : Python) (l : List Char) : Option Checkpoint :=
  match Json.loads py (PyStr.ofChars l) with
  | .ok j => read j
  | .error _ => none

/-- `_load_checkpoints`, which raises at a line that is no checkpoint. -/
def load (py : Python) (chain : Bytes) : Option (List Checkpoint) :=
  (textLines chain).bind fun ls => ((ls.map strip).filter (· ≠ [])).mapM (parse py)

/-! ### What is written is read -/

lemma read_nullable (s : Option String) : ProvenanceEvent.nullableString.read (nullable s).json = some s := by
  cases s with
  | none => rfl
  | some s => exact congrArg (Option.map some) (Artifact.readString_str s)

lemma read_data (c : Checkpoint) : read c.data.json = some c := by
  have hstrings (ss : List String) : (Data.jsonItems (ss.map .str)).mapM readString = some ss :=
    Artifact.mapM_read Artifact.readString_str ss
  have hnat (n : ℕ) : readNat (.int n) = some n := rfl
  simp [data, Artifact.strings, Data.json, Data.jsonMembers, read, required, defaulted, Artifact.readList, Codec.string,
    Artifact.readString_str, hstrings, hnat, read_nullable]

lemma proper_data {c : Checkpoint} (h : c.printable = true) : c.data.proper := by
  have hstrings (ss : List String) : (Artifact.strings ss).proper :=
    Artifact.proper_items (f := Data.str) (fun _ => trivial) ss
  have hnullable (s : Option String) : (nullable s).proper := by cases s <;> exact trivial
  obtain ⟨h₁, h₂, h₃, h₄⟩ : (toString c.rangeStart).length ≤ Json.maxDigits ∧ (toString c.rangeEnd).length ≤ Json.maxDigits ∧
      (toString c.coldCount).length ≤ Json.maxDigits ∧ (toString c.hotCount).length ≤ Json.maxDigits := by
    simpa [printable] using h
  have hkeys : ["type", "schema_version", "range_start", "range_end", "range_sha", "merkle_root", "cold_count", "hot_count",
      "cold_ledger_ids", "hot_ledger_ids", "prev_checkpoint_sha", "checkpoint_sha", "created_at", "actor"].Nodup := by decide
  simp only [data, Data.proper, Data.properMembers, hstrings, hnullable, h₁, h₂, h₃, h₄, and_self, and_true]
  exact hkeys

lemma depth_data (c : Checkpoint) : Json.depth c.data.json ≤ 3 := by
  have hstrings (ss : List String) : Json.depth (Artifact.strings ss).json ≤ 2 := by
    have h := Artifact.depth_items (f := Data.str) (n := 0) (fun s => Nat.le_refl 0) ss
    simp only [Artifact.strings, Data.json, Json.depth]
    omega
  have hnullable (s : Option String) : Json.depth (nullable s).json = 0 := by cases s <;> rfl
  have h₁ := hstrings c.coldLedgerIds
  have h₂ := hstrings c.hotLedgerIds
  simp only [data, Data.json, Data.jsonMembers, Json.depth, Json.depthMembers, hnullable]
  omega

lemma parse_text (py : Python) (hpy : 3 ≤ py.loadsNesting) {c : Checkpoint} (h : c.printable = true) :
    parse py c.text = some c := by
  rw [parse, text, Data.loads_ascii py (proper_data h) ((depth_data c).trans hpy)]
  exact read_data c

lemma strip_text (c : Checkpoint) : strip c.text = c.text := by
  obtain ⟨cs, hcs⟩ : ∃ cs, c.text = '{' :: (cs ++ ['}']) := by
    obtain ⟨cs, hcs⟩ := members_last (match c.data with | .obj ms => ms | _ => [])
    exact ⟨cs, congrArg ('{' :: ·) hcs⟩
  rw [hcs, strip_ends (by decide) (by decide)]

/-- A file of checkpoints is read as these. -/
lemma load_lines (py : Python) (hpy : 3 ≤ py.loadsNesting) {cs : List Checkpoint} (h : ∀ c ∈ cs, c.printable = true) :
    load py (cs.flatMap line) = some cs := by
  have hprint : ∀ l ∈ cs.map text, Data.Printable l := by
    intro l hl
    obtain ⟨c, -, rfl⟩ := List.mem_map.mp hl
    exact Data.printable_ascii _
  have hfile : cs.flatMap line = PyStr.utf8Chars ((cs.map text).flatMap (· ++ ['\n'])) := by
    clear h hprint
    induction cs with
    | nil => rfl
    | cons c cs ih =>
      rw [List.flatMap_cons, ih, List.map_cons, List.flatMap_cons, utf8Chars_append]
      rfl
  have hlines := textLines_whole hprint Data.printable_nil
  rw [if_pos rfl, List.append_nil, List.append_nil, ← hfile] at hlines
  have hne : ∀ c : Checkpoint, c.text ≠ [] := fun c => List.cons_ne_nil _ _
  have hkept : ((cs.map text).map strip).filter (· ≠ []) = cs.map text := by
    rw [List.map_map, List.filter_eq_self.mpr]
    · exact List.map_congr_left fun c _ => c.strip_text
    · intro l hl
      obtain ⟨c, -, rfl⟩ := List.mem_map.mp hl
      simp [strip_text, hne]
  rw [load, hlines, Option.bind_some, hkept]
  clear hprint hfile hlines hkept
  induction cs with
  | nil => rfl
  | cons c cs ih =>
    obtain ⟨hc, hcs⟩ := List.forall_mem_cons.mp h
    simp [parse_text py hpy hc, ih hcs]

end Checkpoint

end ContinuityLedger.Amul
