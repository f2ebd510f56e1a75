import ContinuityLedger.Mcp.Witness

/-! What a POST on `/mcp` is answered. -/

namespace ContinuityLedger.Mcp

open Foundations Foundations.Sha256

/-- The interpreter, as far as it may raise, and the service: whether `str` of a list or a dict returns, or it nests too
deep, and whether the call log is enabled. -/
structure Host extends Runtime where
  shows : Json → Bool
  logged : Bool

/-- Whether `str(j)` returns. -/
def Host.shown (host : Host) (j : Json) : Bool :=
  match j with
  | .arr _ | .obj _ => host.shows j
  | _ => Json.printable j

/-! ### Bodies -/

inductive Body
  | messages (ms : List Message)
  | refused
  | raised

/-- `_parse_body`, which takes no exception but a `JSONDecodeError`. -/
def readBody (py : Python) (raw : Bytes) : Body :=
  if raw = [] then .refused
  else
    match decode raw with
    | none => .raised
    | some cs =>
      match Json.loads py (PyStr.ofChars cs) with
      | .ok (.obj d) => .messages [d]
      | .ok (.arr items) => .messages (items.filterMap messageOf)
      | .ok _ => .refused
      | .error .digits | .error .recursion => .raised
      | .error _ => .refused

/-! ### Replies -/

/-- The value that stands in a reply's text. -/
def Reply.named : Reply → Option Json
  | .called _ (.error (.unknownTool name) _) | .called _ (.error (.notPermitted name) _) => some name
  | .unknownMethod _ method => some method
  | _ => none

/-- `str` of the value in the text returns. -/
def Reply.shown (host : Host) (reply : Reply) : Bool := reply.named.all host.shown

def Reply.id : Reply → Json
  | .nothing => .null
  | .initialized id _ | .listed id _ | .called id _ | .pong id | .unknownMethod id _ | .refusedWrite id => id

def Reply.isNothing : Reply → Bool
  | .nothing => true
  | _ => false

/-- The strings of a reply that its message or its tool has a say in. -/
def Reply.texts (rt : Runtime) : Reply → List PyStr
  | .called _ (.error content info) =>
    (match content with
      | .unknownTool name | .notPermitted name => rt.strOf name
      | .message text => text) ::
      (info.elim [] fun i => i.1 :: i.2.toList)
  | .unknownMethod _ method => [rt.strOf method]
  | _ => []

/-- The value under `structuredContent`, that a tool returned. -/
def Reply.structured : Reply → Option Json
  | .called _ (.result value) => some value
  | _ => none

/-- `JSONResponse` writes the value inside so many containers. -/
def fits (py : Python) (around : ℕ) (j : Json) : Bool :=
  Json.finite j && Json.printable j && Json.plain j && (Json.depth j = 0 || Json.depth j + around ≤ py.dumpsNesting)

/-- `JSONResponse` writes a reply inside so many containers; what else stands in it is ASCII that the service chose. -/
def Reply.renders (rt : Runtime) (around : ℕ) (reply : Reply) : Bool :=
  fits rt.py (around + 1) reply.id && (reply.texts rt).all PyStr.scalars &&
    reply.structured.all (fits rt.py (around + 2))

/-! ### Requests -/

/-- What `clean_client` makes a string of. -/
def clientTexts (params : Json) : List Json :=
  match (orDict params).bind fun params => orDict (get params "clientInfo") with
  | some info => [get info "name", get info "version"].filter truthy
  | none => []

def Host.remember (host : Host) (sessions : Sessions) (session : Option PyStr) (params : Json) : Option Sessions :=
  if orElse session none = none || (clientTexts params).all host.shown then
    rememberClient host.toRuntime sessions session params
  else none

/-- The session that this `initialize`, or one of the body's before it, opened. -/
def openedBy (post : Post) (opened : Option PyStr) (m : Message) (answers : Answers) : Option PyStr :=
  if isText (get m "method") "initialize" && post.session.getD [] = [] then some answers.token else opened

def remembered (host : Host) (post : Post) (sessions : Sessions) (opened : Option PyStr) (m : Message) : Option Sessions :=
  if isText (get m "method") "initialize" then host.remember sessions (orElse opened post.session) (get m "params")
  else some sessions

/-- A message under the witness, or as it is where the log is not enabled. -/
def answered (host : Host) (post : Post) (client : Client) (m : Message) (answers : Answers) : Option Reply :=
  let dispatch := scopedDispatch post.credential answers.tool
  let run := if host.logged then witnessedDispatch host.toRuntime post.tenant client answers dispatch m else dispatch m
  run.value.filter (Reply.shown host)

/-- The replies to the requests, unless one raises. -/
def respond (host : Host) (post : Post) : Sessions → Option PyStr → List (Message × Answers) → Option (List Reply)
  | _, _, [] => some []
  | sessions, opened, (m, answers) :: rest => do
    let opened := openedBy post opened m answers
    let sessions ← remembered host post sessions opened m
    let reply ← answered host post (clientOf sessions (orElse post.session opened) post.userAgent) m answers
    let replies ← respond host post sessions opened rest
    return reply :: replies

/-- A notification runs as it is, and what it is answered is dropped. -/
def noted (host : Host) (credential : Credential) (p : Message × Answers) : Bool :=
  ((scopedDispatch credential p.2.tool p.1).value.filter (Reply.shown host)).isSome

inductive Answer
  | refused
  | accepted
  | json (responses : List Reply)
  | raised

/-- The body of a single response is the response. -/
def answerOf (rt : Runtime) (replies : List Reply) : Answer :=
  let responses := replies.filter fun reply => !reply.isNothing
  if responses.all (Reply.renders rt (if responses.length = 1 then 0 else 1)) then .json responses else .raised

/-- Each message with its answers, that stand in the order of the body. -/
def withAnswers (messages : List Message) (answers : ℕ → Answers) : List (Message × Answers) :=
  messages.zipIdx.map fun p => (p.1, answers p.2)

def mcpAnswer (host : Host) (sessions : Sessions) (post : Post) (answers : ℕ → Answers) : Answer :=
  match readBody host.py post.body with
  | .refused => .refused
  | .raised => .raised
  | .messages messages =>
    let requests := (withAnswers messages answers).filter fun p => isJsonrpcRequest p.1
    if !((withAnswers messages answers).filter fun p => !isJsonrpcRequest p.1).all (noted host post.credential) then .raised
    else if requests = [] then .accepted
    else (respond host post sessions none requests).elim .raised (answerOf host.toRuntime)

end ContinuityLedger.Mcp
