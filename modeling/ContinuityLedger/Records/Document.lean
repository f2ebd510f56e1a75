import ContinuityLedger.Foundations.Codec
import ContinuityLedger.Records.Record

/-! The JSON document that a ledger is kept in: the board and the records, as they are written, as they are validated
when they are read, and the migration of records from before the ledger. -/

namespace ContinuityLedger.Records

open Foundations Foundations.Sha256 Ledger Evidence Codec

/-! ### The board -/

inductive SlotClass
  | foundation | identity | preference | operational
deriving DecidableEq

def SlotClass.text : SlotClass → String
  | .foundation => "foundation"
  | .identity => "identity"
  | .preference => "preference"
  | .operational => "operational"

structure ModuleSlot where
  displayName : String
  summary : String
  linkedSubsystem : String

structure BoardSlot where
  slotId : Option String
  slotName : String
  acceptedClass : SlotClass
  module : Option ModuleSlot

structure GovernanceItem where
  action : String
  detail : String

structure MemoryBoard where
  boardId : String
  summary : String
  linkedSubsystems : List String
  slots : List BoardSlot
  governance : List GovernanceItem

def MemoryBoard.default : MemoryBoard := ⟨"default_board", "", ["jarvis"], [], []⟩

def jsonText (s : String) : Json := string.write s

def key (s : String) : PyStr := PyStr.ofString s

lemma string_null : string.read .null = none := rfl

def optionalString : Codec (Option String) := nullable string string_null

def slotClasses : List SlotClass := [.foundation, .identity, .preference, .operational]

lemma slotClasses_find (c : SlotClass) : slotClasses.find? (fun b => b.text = c.text) = some c := by
  cases c <;> decide

def slotClass : Codec SlotClass := literal slotClasses SlotClass.text slotClasses_find

def readModuleSlot (d : Members) : Option ModuleSlot := do
  return ⟨← required string d "display_name", ← required string d "summary",
    ← defaulted string "jarvis" d "linked_subsystem"⟩

def writeModuleSlot (m : ModuleSlot) : Members :=
  [(key "display_name", jsonText m.displayName), (key "summary", jsonText m.summary),
    (key "linked_subsystem", jsonText m.linkedSubsystem)]

lemma readModuleSlot_write (m : ModuleSlot) : readModuleSlot (writeModuleSlot m) = some m := by
  simp [readModuleSlot, writeModuleSlot, key, jsonText, required, defaulted, string.read_write]

def moduleSlot : Codec ModuleSlot := model readModuleSlot writeModuleSlot readModuleSlot_write

lemma moduleSlot_null : moduleSlot.read .null = none := rfl

def optionalModule : Codec (Option ModuleSlot) := nullable moduleSlot moduleSlot_null

def readBoardSlot (d : Members) : Option BoardSlot := do
  return ⟨← defaulted optionalString none d "slot_id", ← required string d "slot_name",
    ← required slotClass d "accepted_class", ← defaulted optionalModule none d "module"⟩

def writeBoardSlot (s : BoardSlot) : Members :=
  [(key "slot_id", optionalString.write s.slotId), (key "slot_name", jsonText s.slotName),
    (key "accepted_class", slotClass.write s.acceptedClass), (key "module", optionalModule.write s.module)]

lemma readBoardSlot_write (s : BoardSlot) : readBoardSlot (writeBoardSlot s) = some s := by
  simp [readBoardSlot, writeBoardSlot, key, jsonText, required, defaulted, string.read_write, slotClass.read_write,
    optionalString.read_write, optionalModule.read_write]

def boardSlot : Codec BoardSlot := model readBoardSlot writeBoardSlot readBoardSlot_write

def readGovernanceItem (d : Members) : Option GovernanceItem := do
  return ⟨← required string d "action", ← defaulted string "" d "detail"⟩

def writeGovernanceItem (g : GovernanceItem) : Members :=
  [(key "action", jsonText g.action), (key "detail", jsonText g.detail)]

lemma readGovernanceItem_write (g : GovernanceItem) : readGovernanceItem (writeGovernanceItem g) = some g := by
  simp [readGovernanceItem, writeGovernanceItem, key, jsonText, required, defaulted, string.read_write]

def governanceItem : Codec GovernanceItem := model readGovernanceItem writeGovernanceItem readGovernanceItem_write

def readBoard (d : Members) : Option MemoryBoard := do
  return ⟨← defaulted string "default_board" d "board_id", ← defaulted string "" d "summary",
    ← defaulted (list string) ["jarvis"] d "linked_subsystems", ← defaulted (list boardSlot) [] d "slots",
    ← defaulted (list governanceItem) [] d "governance"⟩

def writeBoard (b : MemoryBoard) : Members :=
  [(key "board_id", jsonText b.boardId), (key "summary", jsonText b.summary),
    (key "linked_subsystems", (list string).write b.linkedSubsystems), (key "slots", (list boardSlot).write b.slots),
    (key "governance", (list governanceItem).write b.governance)]

lemma readBoard_write (b : MemoryBoard) : readBoard (writeBoard b) = some b := by
  simp [readBoard, writeBoard, key, jsonText, defaulted, string.read_write, (list string).read_write,
    (list boardSlot).read_write, (list governanceItem).read_write]

/-! ### A record -/

/-- What the models make of a number, and how a float is written. A float is read again as it was. -/
structure Numbers where
  float : Json → Option Jsonb.Decimal
  int : Json → Option ℤ
  writeFloat : Jsonb.Decimal → Json
  float_write : ∀ j d, float j = some d → float (writeFloat d) = some d
  float_null : float .null = none
  int_int : ∀ n, int (.int n) = some n

def unitInterval (d : Jsonb.Decimal) : Bool := 0 ≤ d.coefficient && d.coefficient ≤ 10 ^ d.scale

def memoryTypes : List MemoryType := [.decision, .fact, .task, .preference, .architecture, .research, .externalContext]

lemma memoryTypes_find (t : MemoryType) : memoryTypes.find? (fun u => u.text = t.text) = some t := by
  cases t <;> decide

def memoryType : Codec MemoryType := literal memoryTypes MemoryType.text memoryTypes_find

def statuses : List Status := [.draft, .verified, .archived]

lemma statuses_find (s : Status) : statuses.find? (fun u => u.text = s.text) = some s := by
  cases s <;> decide

def memoryStatus : Codec Status := literal statuses Status.text statuses_find

def readEvidenceLink (d : Members) : Option EvidenceLink := do
  let kind ← defaulted string "ref" d "kind"
  let ref ← required string d "ref"
  let note ← defaulted string "" d "note"
  if h : (1 ≤ ref.length ∧ ref.length ≤ 1000) ∧ note.length ≤ 500 then some ⟨kind, ref, note, h.1, h.2⟩ else none

def writeEvidenceLink (l : EvidenceLink) : Members :=
  [(key "kind", jsonText l.kind), (key "ref", jsonText l.ref), (key "note", jsonText l.note)]

lemma readEvidenceLink_write (l : EvidenceLink) : readEvidenceLink (writeEvidenceLink l) = some l := by
  simp [readEvidenceLink, writeEvidenceLink, key, jsonText, required, defaulted, string.read_write, l.refLength, l.noteLength]

def evidenceLink : Codec EvidenceLink := model readEvidenceLink writeEvidenceLink readEvidenceLink_write

def readConfidence (num : Numbers) (d : Members) : Option Jsonb.Decimal :=
  ((member d "confidence").bind num.float).filter unitInterval

def readVersion (num : Numbers) (d : Members) : Option ℤ :=
  match member d "version" with
  | none => some 1
  | some j => (num.int j).filter fun n => 1 ≤ n

/-- `MemoryRecord(**fields)`. -/
def readRecord (num : Numbers) (d : Members) : Option (MemoryRecord String) := do
  return {
    id := ← required string d "id"
    content := ← required string d "content"
    createdAt := ← required string d "created_at"
    updatedAt := ← required string d "updated_at"
    sourceAgent := ← required string d "source_agent"
    sessionId := ← required string d "session_id"
    type := ← required memoryType d "type"
    confidence := ← readConfidence num d
    evidence := ← defaulted (list evidenceLink) [] d "evidence"
    supersedes := ← defaulted optionalString none d "supersedes"
    status := ← required memoryStatus d "status"
    subject := ← defaulted optionalString none d "subject"
    tags := ← defaulted (list string) [] d "tags"
    version := ← readVersion num d
    contentSha256 := ← defaulted string "" d "content_sha256" }

/-- `model_dump`. -/
def writeRecord (num : Numbers) (m : MemoryRecord String) : Members :=
  [(key "id", jsonText m.id), (key "content", jsonText m.content), (key "created_at", jsonText m.createdAt),
    (key "updated_at", jsonText m.updatedAt), (key "source_agent", jsonText m.sourceAgent),
    (key "session_id", jsonText m.sessionId), (key "type", memoryType.write m.type),
    (key "confidence", num.writeFloat m.confidence), (key "evidence", (list evidenceLink).write m.evidence),
    (key "supersedes", optionalString.write m.supersedes), (key "status", memoryStatus.write m.status),
    (key "subject", optionalString.write m.subject), (key "tags", (list string).write m.tags),
    (key "version", .int m.version), (key "content_sha256", jsonText m.contentSha256)]

/-! ### Records from before the ledger -/

/-- `bool(j)`. -/
def truthy : Json → Bool
  | .null => false
  | .bool b => b
  | .int n => n ≠ 0
  | .float t => t ≠ "0.0".toList && t ≠ "-0.0".toList
  | .str s => !s.isEmpty
  | .arr items => !items.isEmpty
  | .obj d => !d.isEmpty

/-- `d.get(key)`, where it counts as true. -/
def given (d : Members) (name : String) : Option Json := (member d name).filter truthy

/-- A missing member and a null. -/
def isNone (d : Members) (name : String) : Bool :=
  match member d name with
  | none | some .null => true
  | some _ => false

/-- What a `for` loop goes through; over other values it raises. -/
def iterate : Json → Option (List Json)
  | .arr items => some items
  | .str s => some (s.map fun p => .str [p])
  | .obj d => some (d.map fun p => .str p.1)
  | _ => none

/-- `str(j).lower()`; no text of another value than a string is a word that the migration looks for. -/
def lowered (j : Json) : String := (readString j).elim "" PyText.lower

def fillSourceAgent (out : Members) : Members :=
  if (given out "source_agent").isSome then out else put out "source_agent" (jsonText "legacy-migration")

def sessionTag : Json → Option PyStr
  | .str s => if (key "sess").isPrefixOf s then some s else none
  | _ => none

def sessionGuess (tags : List Json) : PyStr := (tags.findSome? sessionTag).getD (key "legacy-unknown-session")

def fillSessionId (out : Members) : Option Members :=
  if (given out "session_id").isSome then some out else
    ((given out "tags").elim (some []) iterate).map fun tags => put out "session_id" (.str (sessionGuess tags))

def typeMap : Dict String MemoryType :=
  [("signal", .fact), ("ledger", .fact), ("decision", .decision), ("architecture", .architecture),
    ("preference", .preference), ("research", .research), ("task", .task)]

def fillType (out : Members) : Members :=
  if (given out "type").isSome then out else
    let category := (given out "category").elim "signal" lowered
    put out "type" (memoryType.write ((Dict.get typeMap category).getD .fact))

def canonical (out : Members) : Bool := (given out "truth_status").elim "" lowered ∈ ["canonical", "stable_user"]

def fillConfidence (out : Members) : Members :=
  if isNone out "confidence" then put out "confidence" (.float (if canonical out then "0.8" else "0.4").toList) else out

/-- A string becomes a link; what is neither a string nor an object is left out. -/
def normalized : Json → Option Json
  | .str s => some (.obj [(key "kind", jsonText "ref"), (key "ref", .str s)])
  | .obj d => some (.obj d)
  | _ => none

def fillEvidence (out : Members) : Option Members :=
  match member out "evidence" with
  | none | some .null => some (put out "evidence" (.arr []))
  | some j => (iterate j).map fun items => put out "evidence" (.arr (items.filterMap normalized))

def fillStatus (out : Members) : Members :=
  if (given out "status").isSome then out else
    let status : Status :=
      if (given out "state_class").elim "" lowered = "archived" then .archived
      else if canonical out then .verified else .draft
    put out "status" (memoryStatus.write status)

def fillNull (out : Members) (name : String) : Members := if (member out name).isSome then out else put out name .null

def fillTags (out : Members) : Members := if isNone out "tags" then put out "tags" (.arr []) else out

def obsolete : List String := ["category", "scope", "state_class", "truth_status"]

/-- `migrate_legacy_record`; `none` where it raises. -/
def migrateLegacyRecord (raw : Members) : Option Members := do
  let out ← fillSessionId (fillSourceAgent raw)
  let out ← fillEvidence (fillConfidence (fillType out))
  let out := fillTags (fillNull (fillNull (fillStatus out) "supersedes") "subject")
  return obsolete.foldl drop out

/-! ### The document -/

structure Contents where
  board : MemoryBoard
  memories : List (MemoryRecord String)

def Contents.empty : Contents := ⟨.default, []⟩

def Contents.get (l : Contents) (id : String) : Option (MemoryRecord String) := KeyedTable.row MemoryRecord.id id l.memories

inductive DocumentError
  | stray (keys : List PyStr)
  | board
  | memories
  | record (index : ℕ)

/-- A record without a hash gets the one of its content. -/
def ensureContentHash (contentSha256 : String → Hex64) (m : MemoryRecord String) : MemoryRecord String :=
  if m.contentSha256 = "" then { m with contentSha256 := (contentSha256 m.content).text } else m

/-- One of the fields that only records from before the ledger have, or no hash. -/
def isLegacy (item : Members) : Bool :=
  obsolete.any (fun name => (member item name).isSome) || (given item "content_sha256").isNone

/-- An item beside the records that are read already. -/
def parseItem (num : Numbers) (contentSha256 : String → Hex64) (memories : List (MemoryRecord String)) :
    Json → Option (MemoryRecord String × Bool)
  | .obj item => do
    let id ← given item "id"
    if memories.any fun m => readString id = some m.id then none else
    let migrated ← migrateLegacyRecord item
    let m ← readRecord num migrated
    return (ensureContentHash contentSha256 m, isLegacy item)
  | _ => none

/-- The records read from the items, after those that are read already, and whether one was migrated. -/
def parseItems (num : Numbers) (contentSha256 : String → Hex64) :
    ℕ → List (MemoryRecord String) × Bool → List Json → Except DocumentError (List (MemoryRecord String) × Bool)
  | _, before, [] => .ok before
  | index, (memories, dirty), item :: items =>
    match parseItem num contentSha256 memories item with
    | none => .error (.record index)
    | some (m, migrated) => parseItems num contentSha256 (index + 1) (memories ++ [m], dirty || migrated) items

local instance : LawfulBEq PyStr := inferInstanceAs (LawfulBEq (List PyChar))

def strayKeys (raw : Members) : List PyStr :=
  ((raw.filter fun p => p.1 ∉ [key "board", key "schema"] && truthy p.2).map Prod.fst).mergeSort fun a b =>
    a.map PyStr.code ≤ b.map PyStr.code

def parseBoard (raw : Members) : Except DocumentError MemoryBoard :=
  match member raw "board" with
  | none | some .null => .ok .default
  | some (.obj d) => (readBoard d).elim (.error .board) .ok
  | some _ => .error .board

def memoryItems (raw : Members) : Except DocumentError (List Json) :=
  match member raw "memories" with
  | none => .ok []
  | some (.arr items) => .ok items
  | some _ => .error .memories

/-- `parse_ledger_document`: the ledger, and whether a record was migrated. -/
def parseLedgerDocument (num : Numbers) (contentSha256 : String → Hex64) (raw : Members) :
    Except DocumentError (Contents × Bool) := do
  if (member raw "memories").isNone && strayKeys raw ≠ [] then .error (.stray (strayKeys raw)) else
  let board ← parseBoard raw
  let items ← memoryItems raw
  let (memories, dirty) ← parseItems num contentSha256 0 ([], false) items
  return (⟨board, memories⟩, dirty)

/-- What `_save` writes. -/
def saved (num : Numbers) (l : Contents) : Members :=
  [(key "board", .obj (writeBoard l.board)), (key "schema", jsonText "continuity-ledger-v1"),
    (key "memories", .arr (l.memories.map fun m => .obj (writeRecord num m)))]

end ContinuityLedger.Records
