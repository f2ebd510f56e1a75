import ContinuityLedger.Blocks.Database
import ContinuityLedger.Records.JarvisStore
import ContinuityLedger.Records.Row

/-! The row store's calls on one tenant, statement by statement. A call reads, judges what it read, writes one statement
and commits; between any two of these the other calls go on. -/

namespace ContinuityLedger.Records.RowStore

open Foundations Foundations.Sha256 Ledger Evidence

def databaseError : StoreError := .unavailable "Ledger database error"

def invalidRow : StoreError := .value "the row does not validate"

inductive Request
  | create (data : MemoryCreate)
  | update (id : String) (data : MemoryUpdate)
  | delete (id : String)

inductive Answer
  | record (m : MemoryRecord)
  | nothing
  | deleted (found : Bool)

/-- What a statement that ran has returned. -/
inductive Returned
  | row (m : Memory)
  | deleted (found : Bool)

/-- The row is validated behind the commit. -/
def Returned.result : Returned → Except StoreError Answer
  | .row m => match record m with
    | none => .error invalidRow
    | some r => .ok (.record r)
  | .deleted found => .ok (.deleted found)

/-- Where a call stands: before its insert, its select, its checks, its update or its delete, before the commit of a
statement that has run, or of an update that found no row. -/
inductive Progress
  | inserting
  | selecting
  | checking (existing : MemoryRecord)
  | updating (existing new : MemoryRecord)
  | deleting
  | committing (returned : Returned)
  | retrying

structure Call where
  request : Request
  attempt : ℕ
  progress : Progress

variable {S : Type} [DecidableEq S]

/-- The writer holds the tenant's counter row; what it has written is its own until it commits. -/
structure System (S : Type) where
  committed : Tables
  writer : Option (Blocks.Writer S)
  calls : S → Option Call
  objects : List EvidenceObject

def System.start (t : Tables) (objects : List EvidenceObject) : System S := ⟨t, none, fun _ => none, objects⟩

/-- What a writing statement is given: the database's settings, the service's clock, the id that is drawn, and the order
in which the foreign key action comes across rows. -/
structure WriteSettings where
  env : Settings
  clock : Calendar.Instant
  drawnId : String
  rank : String → ℕ

inductive Event (S : Type)
  | call (session : S) (request : Request) (gate : GateSettings)
  | select (session : S)
  | check (session : S) (gate : GateSettings)
  | write (session : S) (set : WriteSettings)
  | commit (session : S)
  | fail (session : S)
  | putEvidence (now : String) (req : EvidenceObjectCreate)

/-- A call that has ended, with what it returned or raised. -/
structure Ended (S : Type) where
  session : S
  request : Request
  result : Except StoreError Answer

abbrev Stepped (S : Type) := System S × Option (Ended S)

def maxUpdateAttempts : ℕ := 5
def maxCreateAttempts : ℕ := 3

def System.goes (sys : System S) (s : S) (c : Call) : Stepped S :=
  ({ sys with calls := Function.update sys.calls s (some c) }, none)

/-- The call is over and its transaction, if it has written, is undone. -/
def System.ends (sys : System S) (s : S) (request : Request) (result : Except StoreError Answer) : Stepped S :=
  ({ sys with
      writer := sys.writer.filter fun w : Blocks.Writer S => w.session ≠ s
      calls := Function.update sys.calls s none }, some ⟨s, request, result⟩)

/-- A statement has run: its session holds the counter row. -/
def System.wrote (sys : System S) (s : S) (c : Call) (t : Tables) (returned : Returned) : Stepped S :=
  ({ sys with
      writer := some ⟨s, t⟩
      calls := Function.update sys.calls s (some { c with progress := .committing returned }) }, none)

def targetExists (t : Tables) (supersedes : Option String) : Except StoreError Unit :=
  match supersedes with
  | none => .ok ()
  | some target => if target = "" || (t.memory target).isSome then .ok () else .error (supersedesNotFound target)

variable (rt : Runtime) (contentSha256 : String → Hex64) (tenant : String)

def stepCall (sys : System S) (s : S) (request : Request) (gate : GateSettings) : Option (Stepped S) :=
  if (sys.calls s).isSome then none else
  match request with
  | .create data =>
    let resolve := resolveEvidence rt sys.objects
    match checkLinks data.evidence resolve >>= fun _ => gateCreate gate resolve data with
    | .error e => some (sys.ends s request (.error e))
    | .ok _ => some (sys.goes s ⟨request, 0, .inserting⟩)
  | .update _ _ => some (sys.goes s ⟨request, 0, .selecting⟩)
  | .delete _ => some (sys.goes s ⟨request, 0, .deleting⟩)

def stepSelect (sys : System S) (s : S) : Option (Stepped S) :=
  match sys.calls s with
  | some ⟨.update id data, attempt, .selecting⟩ =>
    match sys.committed.memory id with
    | none => some (sys.ends s (.update id data) (.ok .nothing))
    | some m =>
      match record m with
      | none => some (sys.ends s (.update id data) (.error invalidRow))
      | some existing =>
        match JarvisStore.checkVersion existing data with
        | .error e => some (sys.ends s (.update id data) (.error e))
        | .ok _ => some (sys.goes s ⟨.update id data, attempt, .checking existing⟩)
  | _ => none

/-- The gate, then the lookup of the record that the new one supersedes. -/
def stepCheck (sys : System S) (s : S) (gate : GateSettings) : Option (Stepped S) :=
  match sys.calls s with
  | some ⟨.update id data, attempt, .checking existing⟩ =>
    let resolve := resolveEvidence rt sys.objects
    let new := updates contentSha256 existing data
    match checkLinks (data.evidence.getD []) resolve >>= fun _ => gateUpdate gate resolve existing data >>= fun _ =>
        targetExists sys.committed new.supersedes with
    | .error e => some (sys.ends s (.update id data) (.error e))
    | .ok _ => some (sys.goes s ⟨.update id data, attempt, .updating existing new⟩)
  | _ => none

/-- `INSERT`: a drawn id that is taken is drawn again. -/
def stepInsert (sys : System S) (s : S) (c : Call) (data : MemoryCreate) (set : WriteSettings) : Option (Stepped S) :=
  if sys.writer.isSome then none else
  match targetExists sys.committed data.supersedes with
  | .error e => some (sys.ends s c.request (.error e))
  | .ok _ =>
    let row := inserted contentSha256 tenant set.drawnId set.clock data
    match execute set.env sys.committed (.insert row) with
    | .error .uniqueViolation =>
      if c.attempt + 1 < maxCreateAttempts then some (sys.goes s { c with attempt := c.attempt + 1 })
      else some (sys.ends s c.request (.error (.unavailable "Could not allocate a unique memory id")))
    | .error .foreignKeyViolation =>
      some (sys.ends s c.request (.error (supersedesNotFound (data.supersedes.getD ""))))
    | .error _ => some (sys.ends s c.request (.error databaseError))
    | .ok t => some (sys.wrote s c t (.row row))

/-- `UPDATE … WHERE id = … AND version = …`. -/
def stepUpdate (sys : System S) (s : S) (c : Call) (id : String) (existing new : MemoryRecord) (set : WriteSettings) :
    Option (Stepped S) :=
  if (sys.committed.memory id).all (·.version ≠ existing.version) then some (sys.goes s { c with progress := .retrying })
  else if sys.writer.isSome then none else
  match execute set.env sys.committed (.update id (assign new set.clock)) with
  | .error .foreignKeyViolation =>
    some (sys.ends s c.request (.error (supersedesNotFound (new.supersedes.getD ""))))
  | .error _ => some (sys.ends s c.request (.error databaseError))
  | .ok t => (t.memory id).map fun m => sys.wrote s c t (.row m)

/-- `DELETE`. -/
def stepDelete (sys : System S) (s : S) (c : Call) (id : String) (set : WriteSettings) : Option (Stepped S) :=
  if (sys.committed.memory id).isNone then some (sys.goes s { c with progress := .committing (.deleted false) })
  else if sys.writer.isSome then none else
  match execute set.env sys.committed (.delete id set.rank) with
  | .error _ => some (sys.ends s c.request (.error databaseError))
  | .ok t => some (sys.wrote s c t (.deleted true))

/-- A statement that changes rows waits for the writer. -/
def stepWrite (sys : System S) (s : S) (set : WriteSettings) : Option (Stepped S) :=
  match sys.calls s with
  | some ⟨.create data, attempt, .inserting⟩ =>
    stepInsert contentSha256 tenant sys s ⟨.create data, attempt, .inserting⟩ data set
  | some ⟨.update id data, attempt, .updating existing new⟩ =>
    stepUpdate sys s ⟨.update id data, attempt, .updating existing new⟩ id existing new set
  | some ⟨.delete id, attempt, .deleting⟩ => stepDelete sys s ⟨.delete id, attempt, .deleting⟩ id set
  | _ => none

/-- What the other calls see once the session has committed. -/
def System.published (sys : System S) (s : S) : Tables :=
  match sys.writer with
  | none => sys.committed
  | some w => if w.session = s then w.working else sys.committed

def stepCommit (sys : System S) (s : S) : Option (Stepped S) :=
  match sys.calls s with
  | some ⟨request, _, .committing returned⟩ =>
    some ({ sys with committed := sys.published s }.ends s request returned.result)
  | some ⟨.update id data, attempt, .retrying⟩ =>
    if data.expectedVersion.isSome then
      some (sys.ends s (.update id data)
        (.error (.versionConflict "version conflict: record changed during update")))
    else if attempt + 1 < maxUpdateAttempts then some (sys.goes s ⟨.update id data, attempt + 1, .selecting⟩)
    else some (sys.ends s (.update id data)
      (.error (.versionConflict "version conflict: too much concurrent modification, retry")))
  | _ => none

/-- The connection is lost, or the database reports an error. -/
def stepFail (sys : System S) (s : S) : Option (Stepped S) :=
  (sys.calls s).map fun c => sys.ends s c.request (.error databaseError)

def stepPut (sys : System S) (now : String) (req : EvidenceObjectCreate) : System S :=
  match putEvidenceObject rt now sys.objects req with
  | .error _ => sys
  | .ok (_, _, after) => { sys with objects := after }

def step (sys : System S) : Event S → Option (Stepped S)
  | .call s request gate => stepCall rt sys s request gate
  | .select s => stepSelect sys s
  | .check s gate => stepCheck rt contentSha256 sys s gate
  | .write s set => stepWrite contentSha256 tenant sys s set
  | .commit s => stepCommit sys s
  | .fail s => stepFail sys s
  | .putEvidence now req => some (stepPut rt sys now req, none)

def run : System S → List (Event S) → Option (System S)
  | sys, [] => some sys
  | sys, ev :: evs => (step rt contentSha256 tenant sys ev).bind fun r => run r.1 evs

end ContinuityLedger.Records.RowStore
