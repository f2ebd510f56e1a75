import ContinuityLedger.Records.ClauseV

/-! The store that keeps its records in one file. A call holds the lock from its checks to the save; where the save
fails, the record goes back to what it was. -/

namespace ContinuityLedger.Records.JarvisStore

open Foundations Foundations.Sha256 Ledger Evidence

def get {Hash : Type} (memories : List (MemoryRecord Hash)) (id : String) : Option (MemoryRecord Hash) :=
  KeyedTable.row MemoryRecord.id id memories

/-- What the surroundings give a call: the gate's settings, the id that is drawn, the clock, whether saving works. -/
structure Surroundings where
  gate : GateSettings
  drawnId : String
  now : String
  saves : Bool

variable {Hash : Type} (contentSha256 : String → Hash)

def created (sur : Surroundings) (data : MemoryCreate) : MemoryRecord Hash where
  id := sur.drawnId
  content := data.content
  createdAt := sur.now
  updatedAt := sur.now
  sourceAgent := data.sourceAgent
  sessionId := data.sessionId
  type := data.type
  confidence := data.confidence
  evidence := data.evidence
  supersedes := data.supersedes
  status := data.status
  subject := data.subject
  tags := data.tags
  version := 1
  contentSha256 := contentSha256 data.content

def updated (sur : Surroundings) (existing : MemoryRecord Hash) (data : MemoryUpdate) : MemoryRecord Hash :=
  { merged existing data with
    updatedAt := sur.now
    version := existing.version + 1
    contentSha256 := (data.content.map contentSha256).getD existing.contentSha256 }

/-- An empty `supersedes` names nothing. -/
def checkSupersedes (memories : List (MemoryRecord Hash)) (supersedes : Option String) : Except StoreError Unit :=
  match supersedes with
  | none => .ok ()
  | some target => if target = "" || (get memories target).isSome then .ok () else .error (supersedesNotFound target)

def checkCreate (sur : Surroundings) (resolve : Resolver) (memories : List (MemoryRecord Hash)) (data : MemoryCreate) :
    Except StoreError Unit := do
  checkLinks data.evidence resolve
  let _ ← gateCreate sur.gate resolve data
  checkSupersedes memories data.supersedes

def checkVersion (existing : MemoryRecord Hash) (data : MemoryUpdate) : Except StoreError Unit :=
  match data.expectedVersion with
  | none => .ok ()
  | some expected =>
    if expected = existing.version then .ok () else
    .error (.versionConflict ("version conflict: expected " ++ toString expected ++ ", current " ++
      toString existing.version))

def checkUpdate (gate : GateSettings) (resolve : Resolver) (existing : MemoryRecord Hash) (data : MemoryUpdate) :
    Except StoreError Unit := do
  checkVersion existing data
  checkLinks (data.evidence.getD []) resolve
  let _ ← gateUpdate gate resolve existing data

/-- A record under a drawn id that is there already is overwritten. -/
def createMemory (sur : Surroundings) (resolve : Resolver) (memories : List (MemoryRecord Hash)) (data : MemoryCreate) :
    Except StoreError (MemoryRecord Hash) × List (MemoryRecord Hash) :=
  match checkCreate sur resolve memories data with
  | .error e => (.error e, memories)
  | .ok _ =>
    let new := created contentSha256 sur data
    let after := KeyedTable.upsert MemoryRecord.id new memories
    if sur.saves then (.ok new, after)
    else (.error (.unavailable "the ledger could not be saved"), KeyedTable.remove MemoryRecord.id new.id after)

def updateMemory (sur : Surroundings) (resolve : Resolver) (memories : List (MemoryRecord Hash)) (id : String)
    (data : MemoryUpdate) : Except StoreError (Option (MemoryRecord Hash)) × List (MemoryRecord Hash) :=
  match get memories id with
  | none => (.ok none, memories)
  | some existing =>
    match checkUpdate sur.gate resolve existing data >>= fun _ => checkSupersedes memories data.supersedes with
    | .error e => (.error e, memories)
    | .ok _ =>
      let new := updated contentSha256 sur existing data
      if sur.saves then (.ok (some new), KeyedTable.replace MemoryRecord.id new memories)
      else (.error (.unavailable "the ledger could not be saved"), memories)

/-- A record that is put back stands last. -/
def deleteMemory (sur : Surroundings) (memories : List (MemoryRecord Hash)) (id : String) :
    Except StoreError Bool × List (MemoryRecord Hash) :=
  match get memories id with
  | none => (.ok false, memories)
  | some removed =>
    let after := KeyedTable.remove MemoryRecord.id id memories
    if sur.saves then (.ok true, after)
    else (.error (.unavailable "the ledger could not be saved"), after ++ [removed])

end ContinuityLedger.Records.JarvisStore
