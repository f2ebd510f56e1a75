import ContinuityLedger.Foundations.JsonBytes
import ContinuityLedger.Mcp.Dispatch

/-! A POST on `/mcp`: its notifications run first and as they are, then each request under the call log's witness. -/

namespace ContinuityLedger.Mcp

open Foundations Foundations.Sha256

/-- The interpreter, with `str` of a JSON value that is no string, and the label of a call without a tenant. -/
structure Runtime where
  py : Python
  str : Json → PyStr
  defaultTenant : String

def Runtime.strOf (rt : Runtime) : Json → PyStr
  | .str s => s
  | j => rt.str j

/-- A number that Python writes. -/
abbrev Number := {n : ℕ // Json.printable (.int n) = true}

/-! ### Clients -/

def isControl (p : PyChar) : Bool := PyStr.code p < 0x20 || PyStr.code p = 0x7f

def isSpace : PyChar → Bool
  | .scalar c => PyText.isspace c
  | .surrogate _ => false

def strip (s : PyStr) : PyStr := ((s.dropWhile isSpace).reverse.dropWhile isSpace).reverse

def orNone (s : PyStr) : Option PyStr := if s = [] then none else some s

def cleanClient (value : PyStr) (limit : ℕ) : Option PyStr :=
  orNone ((strip (value.filter fun p => !isControl p)).take limit)

/-- `clean_client` of a member of `clientInfo`. -/
def cleanMember (rt : Runtime) (value : Json) (limit : ℕ) : Option PyStr :=
  if truthy value then cleanClient (rt.strOf value) limit else none

abbrev Client := Option PyStr × Option PyStr

def splitClient (header : Option PyStr) : Client :=
  match header.bind (cleanClient · 256) with
  | none => (none, none)
  | some cleaned =>
    let first := cleaned.takeWhile fun p => !isSpace p
    let name := first.takeWhile (· ≠ .scalar '/')
    (cleanClient name 128, cleanClient (first.drop (name.length + 1)) 64)

/-- `_sessions`, the oldest first. -/
abbrev Sessions := Dict PyStr Client

def maxSessions : ℕ := 2048

/-- `a or b`. -/
def orElse (a b : Option PyStr) : Option PyStr := if a.getD [] = [] then b else a

def rememberClient (rt : Runtime) (sessions : Sessions) (session : Option PyStr) (params : Json) : Option Sessions :=
  match orElse session none with
  | none => some sessions
  | some id => (orDict params).map fun params =>
    match orDict (get params "clientInfo") with
    | none => sessions
    | some info =>
      let kept := Dict.set sessions id (cleanMember rt (get info "name") 128, cleanMember rt (get info "version") 64)
      kept.drop (kept.length - maxSessions)

def clientFor (sessions : Sessions) (session : Option PyStr) : Client :=
  (Dict.get sessions (session.getD [])).getD (none, none)

/-- Without an `initialize` the User-Agent stands for the client. -/
def clientOf (sessions : Sessions) (session userAgent : Option PyStr) : Client :=
  let client := clientFor sessions session
  if client.1 = none then splitClient userAgent else client

/-! ### Entries -/

inductive Outcome
  | ok | denied | error
deriving DecidableEq

def Outcome.text : Outcome → String
  | .ok => "ok"
  | .denied => "denied"
  | .error => "error"

def isCodeChar : PyChar → Bool
  | .scalar c => c.isAlphanum || c = '_' || c = ':' || c = '.' || c = '-'
  | .surrogate _ => false

/-- `_CODE_SAFE.sub("", code)[:64]`. -/
def codeSafe (code : PyStr) : PyStr := (code.filter isCodeChar).take 64

structure Verdict where
  outcome : Outcome
  code : Option PyStr
  digest : Option PyStr

/-- A result that is true and no dict raises. -/
def mcpResult : Reply → Option Verdict
  | .called _ (.error _ info) =>
    let code := info.elim [] Prod.fst
    let reason := (info.bind Prod.snd).getD []
    let shown := if reason ≠ [] then reason else if code ≠ [] then code else text "TOOL_ERROR"
    some ⟨if code = text "denied" then .denied else .error, some (codeSafe shown), none⟩
  | .called _ (.result value) => (orDict value).map fun members =>
    match get members "result_digest" with
    | .str digest => ⟨.ok, none, some digest⟩
    | _ => ⟨.ok, none, none⟩
  | .unknownMethod _ _ => some ⟨.error, some (text "-32601"), none⟩
  | _ => some ⟨.ok, none, none⟩

def argsHash (py : Python) (arguments : Message) : Option Hex64 := (Json.encoded py (.obj arguments)).map hexdigest

/-- `re.fullmatch(r"[0-9a-f]{64}", s)`. -/
def isDigest (s : PyStr) : Bool :=
  s.length = 64 && s.all fun p => match p with
    | .scalar c => isHexDigit c
    | .surrogate _ => false

structure CallFields where
  client : Client
  tenant : String
  tool : PyStr
  argsSha256 : Hex64
  verdict : Verdict
  duration : Number

/-- `make_fields`, for a call over MCP. -/
def makeFields (rt : Runtime) (tool : PyStr) (arguments : Message) (verdict : Verdict) (duration : Number) (client : Client)
    (tenant : Option String) : Option CallFields :=
  (argsHash rt.py arguments).map fun hash =>
    ⟨(client.1.bind (cleanClient · 128), client.2.bind (cleanClient · 64)),
      (tenant.filter (· ≠ "")).getD rt.defaultTenant, tool, hash, { verdict with digest := verdict.digest.filter isDigest },
      duration⟩

def nullable : Option PyStr → Json
  | none => .null
  | some s => .str s

def CallFields.members (f : CallFields) : Message := [
  (text "transport", .str (text "mcp-http")), (text "client_name", nullable f.client.1),
  (text "client_version", nullable f.client.2), (text "client_self_reported", .bool true),
  (text "tenant", .str (text f.tenant)), (text "tool", .str f.tool), (text "route", .null), (text "method", .null),
  (text "target", .null), (text "args_sha256", .str (text f.argsSha256.text)),
  (text "outcome", .str (text f.verdict.outcome.text)), (text "error_code", nullable f.verdict.code),
  (text "status_code", .null), (text "result_digest", nullable f.verdict.digest), (text "duration_ms", .int f.duration.1)]

/-- What the log's directory, its clock and its counts give a call: whether the lock, the head and the entries that come
first go through, whether this minute's denied calls are over their cap, where the chain stands, and whether the line is
written. -/
structure LogAnswer where
  opens : Bool
  crowded : Bool
  seq : Number
  ts : String
  prevHash : String
  writes : Bool

def entryMembers (log : LogAnswer) (f : CallFields) : Message :=
  (text "seq", .int log.seq.1) :: (text "ts", .str (text log.ts)) :: (text "prev_hash", .str (text log.prevHash)) :: f.members

/-- The line of `_append_locked`; a string that cannot be encoded raises. -/
def entryLine (py : Python) (log : LogAnswer) (f : CallFields) : Option Bytes :=
  (Json.encoded py (.obj (entryMembers log f))).bind fun hashed =>
    (Json.encoded py (.obj (entryMembers log f ++ [(text "entry_hash", .str (text (hexdigest hashed).text))]))).map
      (· ++ [0x0a])

/-- `record`: what it takes for an outage is counted, anything else that is raised goes through it. -/
def record (py : Python) (log : LogAnswer) (f : CallFields) : Option Recorded :=
  if !log.opens then some .unlogged
  else if f.verdict.outcome = .denied && log.crowded then some .suppressed
  else (entryLine py log f).map fun _ => if log.writes then .entry else .unlogged

/-! ### Messages under the witness -/

/-- What lies outside, for one message: the tool, the log's preflight and its append, the clock, a token for a session. -/
structure Answers where
  tool : ToolAnswer
  ready : Bool
  log : LogAnswer
  duration : Number
  token : PyStr

/-- `str(params.get("name") or "(none)")[:64]`. -/
def toolName (rt : Runtime) (params : Message) : PyStr :=
  let name := get params "name"
  (if truthy name then rt.strOf name else text "(none)").take 64

def entry (rt : Runtime) (tenant : Option String) (client : Client) (answers : Answers) (params : Message)
    (verdict : Verdict) : Option Recorded :=
  (makeFields rt (toolName rt params) (argumentsOf params) verdict answers.duration client tenant).bind
    (record rt.py answers.log)

def witnessedDispatch (rt : Runtime) (tenant : Option String) (client : Client) (answers : Answers)
    (dispatch : Message → Run Reply) (m : Message) : Run Reply :=
  if !isText (get m "method") "tools/call" then dispatch m
  else
    match orDict (get m "params") with
    | none => ⟨[], none⟩
    | some params =>
      let write := isTool writeTools (toolName rt params)
      if write && !answers.ready then ⟨[.preflight false, .refusedWrite], some (.refusedWrite (get m "id"))⟩
      else
        let run := dispatch m
        let how := (run.value.elim (some ⟨.error, some (text "INTERNAL"), none⟩) mcpResult).bind
          (entry rt tenant client answers params)
        ⟨(if write then [.preflight true] else []) ++ run.events ++ (how.map Event.recorded).toList,
          how.bind fun _ => run.value⟩

/-- One message of a body, with what it met and what it did. -/
structure Processed where
  message : Message
  answers : Answers
  client : Client
  witnessed : Bool
  run : Run Reply

/-- `raw.decode("utf-8")`. -/
def decode (raw : Bytes) : Option (List Char) :=
  let cs := PyStr.decodeReplace raw
  if PyStr.utf8Chars cs = raw then some cs else none

def messageOf : Json → Option Message
  | .obj d => some d
  | _ => none

def parseBody (py : Python) (raw : Bytes) : Option (List Message) :=
  if raw = [] then none
  else (decode raw).bind fun cs =>
    match Json.loads py (PyStr.ofChars cs) with
    | .ok (.obj d) => some [d]
    | .ok (.arr items) => some (items.filterMap messageOf)
    | _ => none

structure Post where
  credential : Credential
  body : Bytes
  session : Option PyStr
  userAgent : Option PyStr
  tenant : Option String

/-- The notifications, up to one that raises, and whether none does. -/
def runNotifications (credential : Credential) : List (Message × Answers) → List Processed × Bool
  | [] => ([], true)
  | (m, answers) :: rest =>
    let p : Processed := ⟨m, answers, (none, none), false, scopedDispatch credential answers.tool m⟩
    if p.run.value.isSome then
      let done := runNotifications credential rest
      (p :: done.1, done.2)
    else ([p], false)

/-- The requests, up to one that raises; `opened` is the session that an `initialize` of this body opened. -/
def runRequests (rt : Runtime) (post : Post) : Sessions → Option PyStr → List (Message × Answers) → List Processed
  | _, _, [] => []
  | sessions, opened, (m, answers) :: rest =>
    let initializes := isText (get m "method") "initialize"
    let opened := if initializes && post.session.getD [] = [] then some answers.token else opened
    let remembered :=
      if initializes then rememberClient rt sessions (orElse opened post.session) (get m "params") else some sessions
    match remembered with
    | none => []
    | some sessions =>
      let client := clientOf sessions (orElse post.session opened) post.userAgent
      let run := witnessedDispatch rt post.tenant client answers (scopedDispatch post.credential answers.tool) m
      ⟨m, answers, client, true, run⟩ :: if run.value.isSome then runRequests rt post sessions opened rest else []

/-- The messages that `mcp_post` runs, in its order; the answers stand in the order of the body. -/
def mcpPost (rt : Runtime) (sessions : Sessions) (post : Post) (answers : ℕ → Answers) : List Processed :=
  match parseBody rt.py post.body with
  | none => []
  | some messages =>
    let all := messages.zipIdx.map fun p => (p.1, answers p.2)
    let noted := runNotifications post.credential (all.filter fun p => !isJsonrpcRequest p.1)
    if noted.2 then noted.1 ++ runRequests rt post sessions none (all.filter fun p => isJsonrpcRequest p.1) else noted.1

end ContinuityLedger.Mcp
