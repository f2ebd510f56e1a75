import ContinuityLedger.Blocks.Seal

/-! The sessions of one tenant. A write holds the tenant's counter row and a seal the tenant's seal lock until the
transaction ends; what a transaction has written is its own until it commits. -/

namespace ContinuityLedger.Blocks

open Foundations Ledger

variable {S : Type} [DecidableEq S]

/-- The session that holds the counter row, and the tables as it sees them. -/
structure Writer (S : Type) where
  session : S
  working : Tables

structure RunningSeal where
  settings : SealSettings
  call : SealCall
  stage : Stage

/-- The session that holds the seal lock, the blocks it has inserted, and the call it is in. -/
structure Sealer (S : Type) where
  session : S
  pending : List Block
  running : Option RunningSeal

/-- `aborted` sessions have had an error and can only roll back. -/
structure Database (S : Type) where
  committed : Tables
  blocks : List Block
  writer : Option (Writer S)
  sealer : Option (Sealer S)
  aborted : List S

def Database.start : Database S := ⟨Tables.empty, [], none, none, []⟩

inductive Event (S : Type)
  | write (session : S) (env : Settings) (st : Statement)
  | callSeal (session : S) (settings : SealSettings) (call : SealCall)
  | sealStatement (session : S) (clock now : Calendar.Instant)
  | commit (session : S)
  | rollback (session : S)

/-- The tables a session sees: its own while it holds the counter row, else what is committed. -/
def Database.view (db : Database S) (s : S) : Tables :=
  match db.writer with
  | none => db.committed
  | some w => if w.session = s then w.working else db.committed

/-- The blocks the holder of the seal lock sees. -/
def Database.allBlocks (db : Database S) : List Block :=
  db.blocks ++ (db.sealer.map Sealer.pending).getD []

def Database.abort (db : Database S) (s : S) : Database S := { db with aborted := s :: db.aborted }

/-- A session that waits for the reply of a running call, or has failed, sends no further statement. -/
def Database.busy (db : Database S) (s : S) : Bool :=
  s ∈ db.aborted || db.sealer.any fun x : Sealer S => x.session = s && x.running.isSome

/-- A write waits while another session holds the counter row. One that changes no row takes no lock. -/
def stepWrite (tenant : String) (db : Database S) (s : S) (env : Settings) (st : Statement) :
    Option (Database S) :=
  if db.busy s || decide (env.tenantKey ≠ tenant) || db.writer.any (fun w : Writer S => w.session ≠ s) then none else
  match execute env (db.view s) st with
  | .error _ => some (db.abort s)
  | .ok t => if t.counter = (db.view s).counter then some db else some { db with writer := some ⟨s, t⟩ }

/-- A call passes its guards and waits for the seal lock. -/
def stepCallSeal (tenant : String) (db : Database S) (s : S) (set : SealSettings) (call : SealCall) :
    Option (Database S) :=
  if db.busy s then none else
  match sealGuard set call with
  | .error _ => some (db.abort s)
  | .ok _ =>
    if call.tenant ≠ some tenant then none else
    match db.sealer with
    | none => some { db with sealer := some ⟨s, [], some ⟨set, call, .locked⟩⟩ }
    | some x =>
      if x.session = s then some { db with sealer := some { x with running := some ⟨set, call, .locked⟩ } }
      else none

def stepSeal (tenant : String) (db : Database S) (s : S) (clock now : Calendar.Instant) :
    Option (Database S) :=
  match db.sealer with
  | none => none
  | some x =>
    if x.session ≠ s ∨ s ∈ db.aborted then none else
    match x.running with
    | none => none
    | some r =>
      match sealStep r.settings r.call tenant clock now (db.view s) db.allBlocks r.stage with
      | .error _ => some (db.abort s)
      | .ok (.next stage) => some { db with sealer := some { x with running := some { r with stage := stage } } }
      | .ok (.done _ b) => some { db with sealer := some ⟨s, x.pending ++ b.toList, none⟩ }

/-- The locks of a session are free again and its own versions gone. -/
def Database.release (db : Database S) (s : S) : Database S :=
  { db with
    writer := db.writer.filter (fun w : Writer S => w.session ≠ s)
    sealer := db.sealer.filter (fun x : Sealer S => x.session ≠ s)
    aborted := db.aborted.filter (· ≠ s) }

/-- `COMMIT` of a failed transaction rolls it back. -/
def stepCommit (db : Database S) (s : S) : Option (Database S) :=
  if s ∈ db.aborted then some (db.release s) else
  if db.busy s then none else
  some ({ db with
    committed := db.view s
    blocks := db.blocks ++ ((db.sealer.filter (fun x : Sealer S => x.session = s)).map Sealer.pending).getD [] }.release s)

def step (tenant : String) (db : Database S) : Event S → Option (Database S)
  | .write s env st => stepWrite tenant db s env st
  | .callSeal s set call => stepCallSeal tenant db s set call
  | .sealStatement s clock now => stepSeal tenant db s clock now
  | .commit s => stepCommit db s
  | .rollback s => some (db.release s)

def run (tenant : String) : Database S → List (Event S) → Option (Database S)
  | db, [] => some db
  | db, ev :: evs => (step tenant db ev).bind fun db' => run tenant db' evs

end ContinuityLedger.Blocks
