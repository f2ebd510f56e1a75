import ContinuityLedger.CallLog.Appending
import ContinuityLedger.CallLog.FailClosed
import ContinuityLedger.Mcp.Witness

/-! The witness of the HTTP routes as it runs: a request is buffered and replayed, or hashed while it streams, and an answer is held
until the entry of its call is in the log. -/

namespace ContinuityLedger.CallLog.Middleware

open Foundations Foundations.Sha256
open Mcp (Message text get truthy strip orElse codeSafe isDigest decode cleanClient splitClient)

/-! ### Messages -/

/-- What the client sends. -/
inductive Incoming
  | request (body : Bytes) (more : Bool)
  | other (type : String)
deriving DecidableEq

/-- What the application sends. -/
inductive Outgoing
  | start (status : ℕ) (headers : List (Bytes × Bytes))
  | body (chunk : Bytes) (more : Bool)
  | other (type : String)
deriving DecidableEq

def Incoming.bytes : Incoming → Bytes
  | .request body _ => body
  | .other _ => []

def bodies (ms : List Incoming) : Bytes := ms.flatMap Incoming.bytes

def Outgoing.bytes : Outgoing → Bytes
  | .body chunk _ => chunk
  | _ => []

def chunks (ms : List Outgoing) : Bytes := ms.flatMap Outgoing.bytes

/-! ### The query -/

def hexValue (b : UInt8) : Option UInt8 :=
  if 0x30 ≤ b ∧ b ≤ 0x39 then some (b - 0x30)
  else if 0x41 ≤ b ∧ b ≤ 0x46 then some (b - 0x37)
  else if 0x61 ≤ b ∧ b ≤ 0x66 then some (b - 0x57)
  else none

/-- The bytes behind a `%`. -/
def hexPair (bs : Bytes) : Option UInt8 :=
  match bs with
  | a :: b :: _ => (hexValue a).bind fun x => (hexValue b).map fun y => x * 16 + y
  | _ => none

/-- `unquote_to_bytes`; `skip` are the digits of a pair that has been read. -/
def unquoteFrom : ℕ → Bytes → Bytes
  | _, [] => []
  | skip + 1, _ :: rest => unquoteFrom skip rest
  | 0, c :: rest =>
    match if c = 0x25 then hexPair rest else none with
    | some b => b :: unquoteFrom 2 rest
    | none => c :: unquoteFrom 0 rest

def isAscii (c : Char) : Bool := c.toNat < 0x80

/-- What is ASCII is unquoted and read as UTF-8, run by run; the rest stands. -/
def unquote (cs : List Char) : List Char :=
  (cs.splitBy fun a b => isAscii a == isAscii b).flatMap fun run =>
    if run.all isAscii then PyStr.decodeReplace (unquoteFrom 0 (run.map fun c => UInt8.ofNat c.toNat)) else run

def unquoted (cs : List Char) : PyStr := PyStr.ofChars (unquote (cs.map fun c => if c = '+' then ' ' else c))

def parseQsl (cs : List Char) : List (PyStr × PyStr) :=
  ((cs.splitOn '&').filter (· ≠ [])).map fun pair =>
    (unquoted (pair.takeWhile (· ≠ '=')), unquoted (pair.dropWhile (· ≠ '=')).tail)

def latin1 (bs : Bytes) : List Char := bs.map fun b => Char.ofNat b.toNat

/-- A key that is given again keeps every value. -/
def collect (out : Message) (pair : PyStr × PyStr) : Message :=
  match Dict.get out pair.1 with
  | none => Dict.set out pair.1 (.str pair.2)
  | some (.arr values) => Dict.set out pair.1 (.arr (values ++ [.str pair.2]))
  | some value => Dict.set out pair.1 (.arr [value, .str pair.2])

def queryDict (query : Bytes) : Message := (parseQsl (latin1 query)).foldl collect []

/-! ### The arguments -/

/-- Of a body too big to buffer, what has been hashed so far. -/
structure BodyStream where
  fed : Bytes

def BodyStream.add (s : BodyStream) (chunk : Bytes) : BodyStream := ⟨s.fed ++ chunk⟩

def BodyStream.asArgs (s : BodyStream) : Json := .obj [
  (text "_streamed_body_sha256", .str (text (hexdigest s.fed).text)), (text "_streamed_body_bytes", .int s.fed.length)]

/-- `bytes.strip` takes these away. -/
def isBlank (b : UInt8) : Bool := b = 0x20 || (0x09 ≤ b && b ≤ 0x0d)

/-- `none`: it nests too deep, which raises. -/
def jsonOrNone (py : Python) (raw : Bytes) : Option Json :=
  if raw.all isBlank then some .null
  else
    match (decode raw).map fun cs => Json.loads py (PyStr.ofChars cs) with
    | some (.ok j) => some j
    | some (.error .recursion) => none
    | _ => some (.obj [(text "_unparseable_body_sha256", .str (text (hexdigest raw).text))])

def requestArgs (body : Json) (query : Message) : Json :=
  match body with
  | .null => .obj query
  | body => if query = [] then body else .obj [(text "body", body), (text "query", .obj query)]

/-! ### Taking the request in -/

/-- The request as the application is to receive it: straight from the client, as one message, or message by message. -/
inductive Intake
  | through
  | whole (body : Bytes) (replayed : Bool)
  | streamed (stream : BodyStream) (pending : List Incoming)

/-- The client has more to say, it has gone, or the application may run. -/
inductive Buffered
  | waiting
  | gone
  | ready (intake : Intake) (rest : List Incoming)

def buffer (limit : ℕ) (messages : List Incoming) : List Incoming → Buffered
  | [] => .waiting
  | .other _ :: _ => .gone
  | .request body more :: rest =>
    let messages := messages ++ [.request body more]
    let received := (bodies messages).length
    if more then
      if limit < received then .ready (.streamed ⟨bodies messages⟩ messages) rest else buffer limit messages rest
    else if received ≤ limit then .ready (.whole (bodies messages) false) rest
    else .ready (.streamed ⟨bodies messages⟩ messages) rest

def intake (limit : ℕ) (method : String) (client : List Incoming) : Buffered :=
  if readMethods.contains method then .ready .through client else buffer limit [] client

/-- What the application receives, and what the client has yet to say; `none`: it waits. -/
def Intake.replay : Intake → List Incoming → Option (Incoming × Intake × List Incoming)
  | .whole body false, client => some (.request body false, .whole body true, client)
  | .streamed stream (m :: pending), client => some (m, .streamed stream pending, client)
  | .streamed stream [], m :: client => some (m, .streamed (stream.add m.bytes) [], client)
  | _, [] => none
  | intake, m :: client => some (m, intake, client)

def Intake.args (py : Python) : Intake → Option Json
  | .through => some .null
  | .whole body _ => jsonOrNone py body
  | .streamed stream _ => some stream.asArgs

/-! ### The entry -/

/-- A request that is witnessed. -/
structure Request where
  method : String
  plan : Plan
  query : Bytes
  headers : List (Bytes × Bytes)

/-- What `record` returns: the entry, that the call is counted in a summary, or `None`. -/
inductive Answer
  | entry (seq : ℕ)
  | suppressed
  | lost
deriving DecidableEq

/-- What lies outside when an entry is made: the tenant that the gate found, the time the call took, what `record` says (`none`: it
raises), and how many messages the client takes before its `send` raises. -/
structure Outside where
  tenant : Option PyStr
  duration : ℕ
  answer : Option Answer
  fails : Option ℕ

def witnessArgs (py : Python) (req : Request) (intake : Intake) : Option Json :=
  (intake.args py).map fun body =>
    let args := requestArgs body (queryDict req.query)
    if req.plan.pathParams = [] then args
    else .obj [(text "args", args), (text "path", .arr (req.plan.pathParams.map fun s => .str (text s)))]

def lowered (b : UInt8) : UInt8 := if 0x41 ≤ b ∧ b ≤ 0x5a then b + 0x20 else b

/-- `headers.get(name)`: the last of that name. -/
def Request.header (req : Request) (name : String) : Option PyStr :=
  (req.headers.reverse.find? fun h => h.1.map lowered = utf8 name).map fun h => PyStr.ofChars (latin1 h.2)

def transport (req : Request) : String :=
  if (strip ((req.header "x-jarvis-mcp-transport").getD [])).map
      (fun p => match p with | .scalar c => PyChar.scalar c.toLower | p => p) = text "stdio" then "mcp-stdio"
  else if req.plan.kind = .tool then "http-tool" else "http-api"

def code (rt : Mcp.Runtime) (status : ℕ) (body : Json) : Option PyStr :=
  if status < 400 then none
  else
    let raw := match body with
      | .obj d => if truthy (get d "reason") then get d "reason" else get d "code"
      | _ => .null
    some (codeSafe (if truthy raw then rt.strOf raw else text ("HTTP_" ++ toString status)))

def scalarOf : PyChar → Option Char
  | .scalar c => some c
  | .surrogate _ => none

/-- `fullmatch`. -/
def digestOf : Json → Option Hex64
  | .str s =>
    if h : isHex64 (String.ofList (s.filterMap scalarOf)) = true ∧ text (String.ofList (s.filterMap scalarOf)) = s then
      some ⟨String.ofList (s.filterMap scalarOf), h.1⟩
    else none
  | _ => none

/-- `make_fields`; `none`: the arguments cannot be hashed, which raises. -/
def makeFields (rt : Mcp.Runtime) (req : Request) (intake : Intake) (o : Outside) (outcome : String) (error : Option PyStr)
    (status : ℕ) (digest : Json) : Option Call := do
  let args ← witnessArgs rt.py req intake
  let canonical ← Json.encoded rt.py args
  let client := splitClient (orElse (req.header "x-jarvis-mcp-client") (req.header "user-agent"))
  return {
    transport := transport req
    clientName := client.1.bind (cleanClient · 128)
    clientVersion := client.2.bind (cleanClient · 64)
    tenant := (orElse o.tenant none).getD (text rt.defaultTenant)
    tool := text req.plan.tool
    route := some (text req.plan.route)
    method := some (text req.method)
    target := req.plan.target.map text
    argsSha256 := hexdigest canonical
    outcome := outcome
    errorCode := error
    statusCode := some status
    resultDigest := digestOf digest
    durationMs := o.duration }

/-! ### Holding the answer -/

structure Capture where
  held : List Outgoing
  buffered : ℕ
  status : ℕ
  overflow : Bool
  logged : Bool
  respBody : Bytes

def Capture.fresh : Capture := ⟨[], 0, 500, false, false, []⟩

inductive Event
  | read (m : Incoming)
  | recorded (c : Call) (a : Answer)
  | sent (m : Outgoing)
  | threw
  | refused

def maxResponseBuffer : ℕ := 2 * 1024 * 1024

def witnessHeaders : Answer → List (Bytes × Bytes)
  | .entry seq => [(utf8 "x-jarvis-call-seq", utf8 (toString seq))]
  | .suppressed => []
  | .lost => [(utf8 "x-jarvis-call-log", utf8 "degraded")]

def release (a : Answer) : Outgoing → Outgoing
  | .start status headers => .start status (headers ++ witnessHeaders a)
  | m => m

/-- What a stretch of the middleware's own code does, and whether it raises. -/
structure Stretch where
  capture : Capture
  events : List Event
  raises : Bool

/-- Messages go to the client, up to one that it does not take. -/
def deliver (fails : Option ℕ) (ms : List Outgoing) : List Event × Bool :=
  match fails with
  | none => (ms.map .sent, false)
  | some n => ((ms.take n).map .sent, n < ms.length)

section

variable (rt : Mcp.Runtime) (req : Request) (intake : Intake)

/-- `record`, and then what is held goes out. -/
def releaseHeld (c : Capture) (o : Outside) (error : Option PyStr) (digest : Json) : Stretch :=
  match makeFields rt req intake o (outcomeOf c.status) error c.status digest, o.answer with
  | some call, some a =>
    let out := deliver o.fails (c.held.map (release a))
    ⟨{ c with logged := true, held := if out.2 then c.held else [] }, .recorded call a :: out.1, out.2⟩
  | _, _ => ⟨c, [], true⟩

/-- `none`: the answer nests too deep, which raises. -/
def parsed (py : Python) (body : Bytes) : Option Json :=
  match (decode body).map fun cs => Json.loads py (PyStr.ofChars cs) with
  | some (.ok j) => some j
  | some (.error .recursion) => none
  | _ => some .null

def resultDigest : Json → Json
  | .obj d => get d "result_digest"
  | _ => .null

def finish (c : Capture) (o : Outside) : Stretch :=
  match if c.overflow then some .null else parsed rt.py c.respBody with
  | none => ⟨c, [], true⟩
  | some answer => releaseHeld rt req intake c o (code rt c.status answer) (resultDigest answer)

def capture (c : Capture) (m : Outgoing) (o : Outside) : Stretch :=
  match m with
  | .start status _ => ⟨{ c with status := status, held := c.held ++ [m] }, [], false⟩
  | .body chunk more =>
    if c.overflow then
      let out := deliver o.fails [m]
      ⟨c, out.1, out.2⟩
    else if maxResponseBuffer < c.buffered + chunk.length then
      releaseHeld rt req intake { c with held := c.held ++ [m], overflow := true } o (code rt c.status .null) .null
    else
      let c := { c with held := c.held ++ [m], buffered := c.buffered + chunk.length, respBody := c.respBody ++ chunk }
      if more then ⟨c, [], false⟩ else finish rt req intake c o
  | .other _ =>
    if c.overflow then
      let out := deliver o.fails [m]
      ⟨c, out.1, out.2⟩
    else ⟨{ c with held := c.held ++ [m] }, [], false⟩

inductive Ended
  | returned
  | raised
  | cancelled
deriving DecidableEq

/-- Behind the application. What is cancelled is no `Exception`. -/
def conclude (c : Capture) (ended : Ended) (o : Outside) : List Event :=
  match ended with
  | .returned => if c.held = [] then [] else (finish rt req intake c o).events
  | .raised =>
    if c.logged && !c.overflow then []
    else
      match makeFields rt req intake o "error" (some (text (if c.logged then "STREAMING_FAILED" else "INTERNAL")))
          (if c.logged then c.status else 500) .null, o.answer with
      | some call, some a => [.recorded call a]
      | _, _ => []
  | .cancelled => []

end

/-! ### A call -/

/-- What an application does: it asks for a message, or sends one. -/
inductive Act
  | receive
  | send (m : Outgoing) (o : Outside)

structure Served where
  client : List Incoming
  intake : Intake
  capture : Capture
  events : List Event

def step (rt : Mcp.Runtime) (req : Request) (s : Served) : Act → Served
  | .receive =>
    match s.intake.replay s.client with
    | none => s
    | some (m, intake, client) => { s with intake := intake, client := client, events := s.events ++ [.read m] }
  | .send m o =>
    let t := capture rt req s.intake s.capture m o
    { s with capture := t.capture, events := s.events ++ t.events ++ if t.raises then [.threw] else [] }

def run (rt : Mcp.Runtime) (req : Request) (s : Served) (acts : List Act) : Served := acts.foldl (step rt req) s

structure Host where
  runtime : Mcp.Runtime
  maxBodyBytes : ℕ
  preflight : Bool
  retryAfter : ℕ

def refusalBody : Bytes :=
  utf8 "\x7b\"detail\": \"the call log is unavailable, so ledger writes are refused\", \"code\": \"unavailable\", \"reason\": \"CALL_LOG_UNAVAILABLE\"\x7d"

def refusal (host : Host) : List Outgoing := [
  .start 503 [(utf8 "content-type", utf8 "application/json"), (utf8 "content-length", utf8 (toString refusalBody.length)),
    (utf8 "retry-after", utf8 (toString host.retryAfter))],
  .body refusalBody false]

/-- `__call__`, for a request that is witnessed. `last` is how the application ends, where it has. -/
def call (host : Host) (req : Request) (client : List Incoming) (acts : List Act) (fails : Option ℕ)
    (last : Option (Ended × Outside)) : List Event :=
  match intake host.maxBodyBytes req.method client with
  | .waiting | .gone => []
  | .ready intake rest =>
    if req.plan.write && !host.preflight then .refused :: (deliver fails (refusal host)).1
    else
      let s := run host.runtime req ⟨rest, intake, .fresh, []⟩ acts
      s.events ++ last.elim [] fun e => conclude host.runtime req s.intake s.capture e.1 e.2

end ContinuityLedger.CallLog.Middleware
