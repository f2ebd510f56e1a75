import ContinuityLedger.CallLog.FailClosed
import ContinuityLedger.CallLog.Retained

/-! What becomes of a call that the log is given: it is written by itself up to a cap and counted in a summary beyond it, and where
nothing can be written it is counted as an outage, of which the next append that goes through writes a gap. -/

namespace ContinuityLedger.CallLog

open Foundations Foundations.Sha256 Foundations.Codec Foundations.Calendar Foundations.Timestamps

/-! ### Entries -/

/-- `self._outage`, and what the DEGRADED file holds, without the text of the last error. -/
structure Outage where
  since : String
  unlogged : ℕ
  refused : ℕ
deriving DecidableEq

/-- An open summary. -/
structure Summary where
  windowStart : String
  windowEnd : String
  count : ℕ
deriving DecidableEq

/-- A tenant and a transport. -/
abbrev ReadKey := PyStr × PyStr

/-- What an entry tells: a call, the calls of an outage, or those of a summary. -/
inductive Entered
  | call (c : Call)
  | gap (state : Outage) (windowEnd : String)
  | denied (s : Summary)
  | reads (key : ReadKey) (s : Summary)

/-- `args_hash`. -/
def argsHash (args : List (String × Json)) : Hex64 := hexdigest ((PyStr.encode (Json.text (.obj (keyed args)))).getD [])

/-- The fields of an entry that stands for several calls. -/
def notePairs (transport tenant : PyStr) (tool : String) (method : Option String) (args : List (String × Json))
    (outcome errorCode windowStart windowEnd : String) (count : ℕ) (refused : Option ℕ) : List (String × Json) := [
  ("transport", .str transport), ("client_name", .null), ("client_version", .null), ("client_self_reported", .bool true),
  ("tenant", .str tenant), ("tool", .str (PyStr.ofString tool)), ("route", .null),
  ("method", textOrNull (method.map PyStr.ofString)), ("target", .null),
  ("args_sha256", .str (PyStr.ofString (argsHash args).text)), ("outcome", .str (PyStr.ofString outcome)),
  ("error_code", .str (PyStr.ofString errorCode)), ("status_code", .null), ("result_digest", .null), ("duration_ms", .int 0),
  ("window_start", .str (PyStr.ofString windowStart)), ("window_end", .str (PyStr.ofString windowEnd)),
  ("count", .int count)] ++ (refused.map fun r => ("refused", Json.int r)).toList

lemma names_notePairs {transport tenant : PyStr} {tool : String} {method : Option String} {args : List (String × Json)}
    {outcome errorCode windowStart windowEnd : String} {count : ℕ} {refused : Option ℕ} :
    (notePairs transport tenant tool method args outcome errorCode windowStart windowEnd count refused).map Prod.fst =
      fieldNames.take (if refused.isSome then 19 else 18) := by
  cases refused <;> rfl

def noteFields (transport tenant : PyStr) (tool : String) (method : Option String) (args : List (String × Json))
    (outcome errorCode windowStart windowEnd : String) (count : ℕ) (refused : Option ℕ) : EntryFields where
  pairs := notePairs transport tenant tool method args outcome errorCode windowStart windowEnd count refused
  distinct := by
    rw [names_notePairs]
    exact List.Nodup.sublist (List.take_sublist _ _) (by decide)
  named := names_notePairs ▸ List.take_subset _ _
  flat p hp := by
    rw [notePairs, List.mem_append] at hp
    rcases hp with hp | hp
    · simp only [List.mem_cons, List.not_mem_nil, or_false] at hp
      rcases hp with rfl | rfl | rfl | rfl | rfl | rfl | rfl | rfl | rfl | rfl | rfl | rfl | rfl | rfl | rfl | rfl | rfl | rfl
      all_goals first | rfl | exact flat_textOrNull _
    · obtain ⟨r, -, rfl⟩ := Option.map_eq_some_iff.mp (Option.mem_toList.mp hp)
      rfl

/-- `_gap_entry`. -/
def gapEntry (state : Outage) (windowEnd : String) : EntryFields :=
  noteFields (PyStr.ofString "http-api") (PyStr.ofString "operator") "(call-log)" none
    [("since", .str (PyStr.ofString state.since)), ("unlogged", .int state.unlogged), ("refused", .int state.refused)] "gap"
    ("UNLOGGED_CALLS:" ++ toString state.unlogged ++ ";REFUSED_WRITES:" ++ toString state.refused) state.since windowEnd
    state.unlogged (some state.refused)

def summaryFields (transport tenant : PyStr) (tool : String) (method : Option String) (outcome : String) (s : Summary) : EntryFields :=
  noteFields transport tenant tool method [("suppressed", .int s.count)] outcome ("SUPPRESSED:" ++ toString s.count) s.windowStart
    s.windowEnd s.count none

def Entered.fields : Entered → EntryFields
  | .call c => makeFields c
  | .gap state windowEnd => gapEntry state windowEnd
  | .denied s => summaryFields (PyStr.ofString "http-api") (PyStr.ofString "operator") "(denied calls)" none "denied_suppressed" s
  | .reads key s => summaryFields key.2 key.1 "(read calls)" (some "GET") "read_suppressed" s

/-! ### State -/

/-- The open read summaries, one for a key. -/
structure OpenReads where
  rows : Dict ReadKey Summary
  keyed : Dict.Keyed rows

namespace OpenReads

def none : OpenReads := ⟨[], List.nodup_nil⟩

def set (r : OpenReads) (key : ReadKey) (s : Summary) : OpenReads := ⟨Dict.set r.rows key s, Dict.keyed_set r.keyed key s⟩

def remove (r : OpenReads) (key : ReadKey) : OpenReads :=
  ⟨KeyedTable.remove Prod.fst key r.rows, r.keyed.sublist (List.filter_sublist.map _)⟩

/-- Python orders tuples of strings by their code points. -/
def keyLe (a b : ReadKey) : Prop :=
  a.1.map PyStr.code < b.1.map PyStr.code ∨ a.1 = b.1 ∧ a.2.map PyStr.code ≤ b.2.map PyStr.code

instance : DecidableRel keyLe := fun a b =>
  inferInstanceAs (Decidable (a.1.map PyStr.code < b.1.map PyStr.code ∨ a.1 = b.1 ∧ a.2.map PyStr.code ≤ b.2.map PyStr.code))

def sortedKeys (r : OpenReads) : List ReadKey := (r.rows.map Prod.fst).insertionSort keyLe

end OpenReads

/-- What a process has in memory. -/
structure Process where
  outage : Option Outage
  suppressed : Option Summary
  deniedWindow : String × ℕ
  readSuppressed : OpenReads
  readWindow : String × Dict PyStr ℕ

def Process.start : Process := ⟨none, none, ("", 0), .none, ("", [])⟩

/-- What the processes share, and the entries that were ever written: of those in `unsynced` the append has raised behind the
write, and the states in `kept` were still in the DEGRADED file when their gap had been written. -/
structure Shared where
  disk : Disk
  degraded : Option Outage
  entered : List Entered
  unsynced : List Entered
  kept : List Outage

def Shared.start : Shared := ⟨⟨[], none⟩, none, [], [], []⟩

/-- An append goes through, or fails and leaves nothing, or fails when the line is in the file. -/
inductive Landing
  | lands
  | fails
  | unsynced
deriving DecidableEq

/-- What a thread sees that holds the locks, with the clock readings and the landings of its appends to come. -/
structure Holding where
  shared : Shared
  process : Process
  clock : ℕ → Instant
  landings : ℕ → Landing

/-- A `CallLogError`, which an `OSError` becomes where it leaves the log, or another exception. -/
inductive Failure
  | unavailable
  | other (r : Raised)
deriving DecidableEq

abbrev Locked := EStateM Failure Holding

structure Limits where
  deniedCapPerMinute : ℕ
  readCapPerMinute : ℕ
  defaultTenantLabel : PyStr

/-! ### Under the locks -/

def failure : Raised → Failure
  | .callLog => .unavailable
  | r => .other r

/-- `self._clock()`. -/
def tick : Locked Instant := fun s => .ok (s.clock 0) { s with clock := fun n => s.clock (n + 1) }

/-- `_ts`. -/
def ts (cfg : Config) (t : Instant) : String := normTs cfg.pads t

/-- `strftime("%Y-%m-%dT%H:%M")`: what stands in front of the seconds, their fraction and the `Z`. -/
def minuteText (cfg : Config) (t : Instant) : String := String.ofList ((ts cfg t).toList.take ((ts cfg t).toList.length - 11))

/-- `_combine`. -/
def combine (fileState delta : Option Outage) : Option Outage :=
  match fileState, delta with
  | none, d => d
  | f, none => f
  | some f, some d => some ⟨min f.since d.since, f.unlogged + d.unlogged, f.refused + d.refused⟩

/-- `degraded`. -/
def Holding.degraded (s : Holding) : Option Outage := combine s.shared.degraded s.process.outage

def onProcess (f : Process → Process) : Locked PUnit := modify fun s => { s with process := f s.process }

/-- `_clear_degraded`, where the file may refuse to go. -/
def clearDegraded (unlinks : Bool) (s : Holding) : Holding :=
  { s with
    process := { s.process with outage := none }
    shared := if unlinks then { s.shared with degraded := none }
      else { s.shared with kept := s.shared.kept ++ s.shared.degraded.toList } }

section

variable (rt : Runtime) (cfg : Config) (lim : Limits)

/-- `_head`. -/
def lockedHead : Locked Chain := fun s =>
  match rt.head s.shared.disk with
  | .ok h => .ok h.chain s
  | .error r => .error (failure r) s

/-- `_append_locked` at a reading of the clock. -/
def enterAt (e : Entered) (head : Chain) (now : Instant) : Locked Chain := fun s =>
  match rt.appendLocked cfg s.shared.disk e.fields head now with
  | .error r => .error (failure r) s
  | .ok (disk, entry) =>
    let after := { s with landings := fun n => s.landings (n + 1) }
    match s.landings 0 with
    | .lands => .ok ((chainIn entry).getD head) { after with shared := { s.shared with disk := disk, entered := s.shared.entered ++ [e] } }
    | .fails => .error .unavailable after
    | .unsynced => .error .unavailable { after with
        shared := { s.shared with disk := disk, entered := s.shared.entered ++ [e], unsynced := s.shared.unsynced ++ [e] } }

/-- `_append_locked`. -/
def enter (e : Entered) (head : Chain) : Locked Chain := do
  let now ← tick
  enterAt rt cfg e head now

/-- An entry, and what is done only once it is in the log. -/
def settle (e : Entered) (f : Holding → Holding) (head : Chain) : Locked Chain := do
  let head ← enter rt cfg e head
  modify f
  return head

/-- The gap of an outage that is over. -/
def recover (unlinks : Bool) (head : Chain) : Locked Chain := do
  match (← get).degraded with
  | none => return head
  | some state =>
    let windowEnd ← tick
    settle rt cfg (.gap state (ts cfg windowEnd)) (clearDegraded unlinks) head

/-- `_flush_suppressed_locked`. -/
def flushSuppressed (head : Chain) : Locked Chain := do
  match (← get).process.suppressed with
  | none => return head
  | some s => settle rt cfg (.denied s) (fun h => { h with process := { h.process with suppressed := none } }) head

/-- The loop of `_flush_reads_locked`. -/
def flushKeys : List ReadKey → Chain → Locked Chain
  | [], head => return head
  | key :: keys, head => do
    match Dict.get (← get).process.readSuppressed.rows key with
    | none => throw (.other .key)
    | some s =>
      let head ← settle rt cfg (.reads key s)
        (fun h => { h with process := { h.process with readSuppressed := h.process.readSuppressed.remove key } }) head
      flushKeys keys head

/-- `_flush_reads_locked`. -/
def flushReads (head : Chain) : Locked Chain := do
  flushKeys rt cfg (← get).process.readSuppressed.sortedKeys head

def opened : Option Summary → Locked Summary
  | some s => return s
  | none => do
    let start ← tick
    return ⟨ts cfg start, "", 0⟩

/-- One call more in a summary, which it may open. -/
def rolled (summary : Option Summary) : Locked Summary := do
  let s ← opened cfg summary
  let finish ← tick
  return { s with count := s.count + 1, windowEnd := ts cfg finish }

def Call.isDenied (c : Call) : Bool := c.outcome = "denied"

/-- A memory read that went well. -/
def Call.isRead (c : Call) : Bool := c.method = some (PyStr.ofString "GET") && c.transport != "http-tool" && c.outcome = "ok"

/-- `_is_rest_write`. -/
def Call.isRestWrite (c : Call) : Bool :=
  ledgerWriteRoutes.any fun r => c.method = some (PyStr.ofString r.1) && c.route = some (PyStr.ofString r.2)

/-- An ordering boundary: a ledger write that went well. -/
def Call.isWrite (c : Call) : Bool := c.outcome = "ok" && ((writeTools.map PyStr.ofString).contains c.tool || c.isRestWrite)

def Call.readKey (c : Call) : ReadKey :=
  (if c.tenant = [] then lim.defaultTenantLabel else c.tenant,
    if c.transport = "" then PyStr.ofString "http-api" else PyStr.ofString c.transport)

/-- `append` returns the entry, or `{"suppressed": True}`. -/
inductive Disposal
  | entered
  | suppressed
deriving DecidableEq

/-- The summary of another minute is closed first. -/
def inDeniedWindow (window : String) (head : Chain) : Locked Chain := do
  if (← get).process.deniedWindow.1 = window then return head
  let head ← flushSuppressed rt cfg head
  onProcess fun p => { p with deniedWindow := (window, 0) }
  return head

/-- A denied call: by itself up to the cap of a minute. -/
def appendDenied (c : Call) (head : Chain) : Locked Disposal := do
  let window := minuteText cfg (← tick)
  let head ← inDeniedWindow rt cfg window head
  let count := (← get).process.deniedWindow.2 + 1
  onProcess fun p => { p with deniedWindow := (window, count) }
  if lim.deniedCapPerMinute < count then do
    let s ← rolled cfg (← get).process.suppressed
    onProcess fun p => { p with suppressed := some s }
    return .suppressed
  else do
    let _ ← enter rt cfg (.call c) head
    return .entered

def inReadWindow (window : String) (head : Chain) : Locked Chain := do
  if (← get).process.readWindow.1 = window then return head
  let head ← flushReads rt cfg head
  onProcess fun p => { p with readWindow := (window, []) }
  return head

/-- A read: by itself up to the cap that its tenant has in a minute. -/
def appendRead (c : Call) (head : Chain) : Locked Disposal := do
  let window := minuteText cfg (← tick)
  let head ← inReadWindow rt cfg window head
  let count := (Dict.get (← get).process.readWindow.2 (c.readKey lim).1).getD 0 + 1
  onProcess fun p => { p with readWindow := (p.readWindow.1, Dict.set p.readWindow.2 (c.readKey lim).1 count) }
  if lim.readCapPerMinute < count then do
    let s ← rolled cfg (Dict.get (← get).process.readSuppressed.rows (c.readKey lim))
    onProcess fun p => { p with readSuppressed := p.readSuppressed.set (c.readKey lim) s }
    return .suppressed
  else do
    let _ ← enter rt cfg (.call c) head
    return .entered

/-- Any other call, behind the open summary of reads where it is a write. -/
def appendOther (c : Call) (head : Chain) : Locked Disposal := do
  if c.isWrite then do
    let head ← flushReads rt cfg head
    let _ ← enter rt cfg (.call c) head
    return .entered
  else do
    let _ ← enter rt cfg (.call c) head
    return .entered

/-- `append`, from where the locks are held. -/
def appendHeld (unlinks : Bool) (c : Call) : Locked Disposal := do
  let head ← lockedHead rt
  let head ← recover rt cfg unlinks head
  if c.isDenied then appendDenied rt cfg lim c head
  else do
    let head ← flushSuppressed rt cfg head
    if c.isRead then appendRead rt cfg lim c head else appendOther rt cfg c head

/-- `preflight`, from where the locks are held; `writable`: the directory and the file of the day are, and there is space. -/
def preflightHeld (writable unlinks : Bool) : Locked PUnit := do
  let head ← lockedHead rt
  if !writable then throw .unavailable
  let _ ← recover rt cfg unlinks head
  return

/-- `flush`, from where the locks are held. -/
def flushHeld : Locked PUnit := do
  let head ← lockedHead rt
  let head ← flushSuppressed rt cfg head
  let _ ← flushReads rt cfg head
  return

end

end ContinuityLedger.CallLog
