import ContinuityLedger.Ledger.Tables

/-! One statement on `memories` with the triggers it fires: the version bump before an update, the foreign
key actions, and the capture of every row change in the history, the chain head and the counter. -/

namespace ContinuityLedger.Ledger

open Foundations Foundations.Sha256

inductive DbError
  | uniqueViolation
  | foreignKeyViolation
  | checkViolation
  | rowSecurity
  | raised (message : String)

def require (c : Prop) [Decidable c] (e : DbError) : Except DbError Unit :=
  if c then .ok () else .error e

/-- What a statement sees of its session: the tenant, the transaction-local settings `jarvis.actor` and
`jarvis.history_op`, `now()`, and the `history_id` the sequence gives to the entry with a given `seq`. -/
structure Settings where
  tenantKey : String
  actor : Option String
  historyOp : Option String
  now : Calendar.Instant
  historyId : ℤ → ℤ

def Settings.actorName (env : Settings) : String :=
  match env.actor with
  | none => "unknown"
  | some a => if a = "" then "unknown" else a

inductive Change
  | insert (new : Memory)
  | update (old new : Memory)
  | delete (old : Memory)

def Change.memoryId : Change → String
  | .insert new => new.id
  | .update _ new => new.id
  | .delete old => old.id

def Change.op (env : Settings) : Change → Op
  | .insert _ => if env.historyOp = some "backfill" then .backfill else .create
  | .update _ _ => .update
  | .delete _ => .delete

def Change.version : Change → ℤ
  | .insert new => new.version
  | .update _ new => new.version
  | .delete old => old.version

def Change.before : Change → Option Jsonb.Value
  | .insert _ => none
  | .update old _ => some (jarvisMemoryJson old)
  | .delete old => some (jarvisMemoryJson old)

def Change.after : Change → Option Jsonb.Value
  | .insert new => some (jarvisMemoryJson new)
  | .update _ new => some (jarvisMemoryJson new)
  | .delete _ => none

def nextSeq (t : Tables) : ℤ :=
  match t.counter with
  | none => 1
  | some c => c + 1

def capturedEntry (env : Settings) (t : Tables) (ch : Change) : HistoryEntry :=
  let prev := ((t.latestEntry ch.memoryId).map (·.rowHash)).getD genesis
  { historyId := env.historyId (nextSeq t)
    memoryId := ch.memoryId
    version := ch.version
    op := ch.op env
    actor := env.actorName
    changedAt := env.now
    before := ch.before
    after := ch.after
    prevHash := prev
    rowHash := jarvisHistoryHash prev (ch.op env) ch.version ch.before ch.after
    seq := nextSeq t }

def HistoryEntry.toHead (e : HistoryEntry) : ChainHead :=
  ⟨e.memoryId, e.seq, e.rowHash, e.op = .delete⟩

/-- The capture trigger (v4). -/
def jarvisRecordHistory (env : Settings) (t : Tables) (ch : Change) : Except DbError Tables := do
  let e := capturedEntry env t ch
  require (∀ f ∈ t.history, f.seq ≠ e.seq) .uniqueViolation
  pure { t with history := t.history ++ [e], heads := KeyedTable.upsert ChainHead.id e.toHead t.heads, counter := some e.seq }

def jarvisBumpVersion (old new : Memory) : Except DbError Memory := do
  require (new.tenantKey = old.tenantKey) (.raised "tenant_key is immutable")
  require (new.id = old.id) (.raised "id is immutable")
  pure { new with version := old.version + 1 }

/-- The foreign key of `supersedes`, checked after the row is in place. -/
def checkSupersedes (t : Tables) (m : Memory) : Except DbError Unit :=
  require (∀ target ∈ m.supersedes, (t.memory target).isSome) .foreignKeyViolation

def insertRow (env : Settings) (t : Tables) (new : Memory) : Except DbError Tables := do
  require (new.tenantKey = env.tenantKey) .rowSecurity
  require (new.checks = true) .checkViolation
  require (t.memory new.id = none) .uniqueViolation
  let t' := { t with memories := t.memories ++ [new] }
  checkSupersedes t' new
  jarvisRecordHistory env t' (.insert new)

/-- `UPDATE memories SET … WHERE id = id`: `set` is the row the assignments make of the old one. -/
def updateRow (env : Settings) (t : Tables) (id : String) (set : Memory → Memory) :
    Except DbError Tables :=
  match t.memory id with
  | none => pure t
  | some old => do
    let new ← jarvisBumpVersion old (set old)
    require (new.checks = true) .checkViolation
    let t' := { t with memories := KeyedTable.replace Memory.id new t.memories }
    checkSupersedes t' new
    jarvisRecordHistory env t' (.update old new)

def referencing (t : Tables) (id : String) : List String :=
  (t.memories.filter (·.supersedes = some id)).map (·.id)

/-- `ON DELETE SET NULL (supersedes)`, one row at a time; each is an update of its own. -/
def setNull (env : Settings) : Tables → List String → Except DbError Tables
  | t, [] => pure t
  | t, id :: ids => do
    let t' ← updateRow env t id (fun m => { m with supersedes := none })
    setNull env t' ids

/-- The foreign key trigger sorts before `memories_history`, so the nulled rows are captured first.
`rank` is the order in which the executor comes across them. -/
def deleteRow (env : Settings) (t : Tables) (id : String) (rank : String → ℕ) : Except DbError Tables :=
  match t.memory id with
  | none => pure t
  | some old => do
    let t' := { t with memories := KeyedTable.remove Memory.id id t.memories }
    let order := (referencing t' id).mergeSort (fun a b => rank a ≤ rank b)
    let t'' ← setNull env t' order
    jarvisRecordHistory env t'' (.delete old)

inductive Statement
  | insert (new : Memory)
  | update (id : String) (set : Memory → Memory)
  | delete (id : String) (rank : String → ℕ)

def execute (env : Settings) (t : Tables) : Statement → Except DbError Tables
  | .insert new => insertRow env t new
  | .update id set => updateRow env t id set
  | .delete id rank => deleteRow env t id rank

end ContinuityLedger.Ledger
