import ContinuityLedger.Foundations.Codec

/-! One JSON-RPC message on `/mcp`: what it is answered, within the scope of a credential, and which tool it runs. -/

namespace ContinuityLedger.Mcp

open Foundations Foundations.Sha256

/-- A JSON object, as Python's dict. -/
abbrev Message := Codec.Members

def text (s : String) : PyStr := PyStr.ofString s

/-- `d.get(key)`. -/
def get (d : Message) (key : String) : Json := (Codec.member d key).getD .null

def isNull : Json → Bool
  | .null => true
  | _ => false

/-- `j == s`. -/
def isText (j : Json) (s : String) : Bool :=
  match j with
  | .str t => t = text s
  | _ => false

def truthy : Json → Bool
  | .null => false
  | .bool b => b
  | .int n => n ≠ 0
  | .float t => t ≠ "0.0".toList && t ≠ "-0.0".toList
  | .str s => s ≠ []
  | .arr items => !items.isEmpty
  | .obj members => !members.isEmpty

/-- `j if isinstance(j, dict) else {}`. -/
def dictOr : Json → Message
  | .obj d => d
  | _ => []

/-- `j or {}`, of which `get` is asked: what is true and no dict raises. -/
def orDict (j : Json) : Option Message :=
  if truthy j then
    match j with
    | .obj d => some d
    | _ => none
  else some []

/-- In the order of `MCP_TOOLS`. -/
def knownTools : List String := ["emr_recall", "emr_latest", "emr_search_ledger", "emr_drift_check", "search", "fetch",
  "emr_search", "emr_fetch", "emr_remember", "emr_upsert"]

def recallReadTools : List String :=
  ["emr_recall", "emr_latest", "emr_search_ledger", "search", "fetch", "emr_search", "emr_fetch"]

def writerTools : List String := recallReadTools ++ ["emr_remember", "emr_upsert"]

def writeTools : List String := ["emr_remember", "emr_upsert"]

def isTool (tools : List String) (name : PyStr) : Bool := tools.any fun t => text t = name

/-- `name in tools`: lists and dicts cannot be hashed, which raises. -/
def among (tools : List String) : Json → Option Bool
  | .str s => some (isTool tools s)
  | .arr _ | .obj _ => none
  | _ => some false

inductive Credential
  | operator | writer | recall
deriving DecidableEq

/-- `_SCOPES`: the operator's credential has none. -/
def Credential.scope : Credential → Option (List String × String)
  | .operator => none
  | .writer => some (writerTools, "writer-credential-scope")
  | .recall => some (recallReadTools, "recall-credential-read-only")

/-- What `call_tool` does: it returns a value, or one that `json.dumps` refuses, or raises a `ToolRefusal` or something else. -/
inductive ToolAnswer
  | returned (result : Json)
  | unwritable
  | refused (code message : PyStr) (reason : Option PyStr)
  | failed (message : PyStr)

inductive ErrorText
  | unknownTool (name : Json)
  | notPermitted (name : Json)
  | message (text : PyStr)

/-- The result of a `tools/call`, under `structuredContent`: what the tool returned, or `isError` with its text, a code and a
reason. -/
inductive ToolReply
  | result (value : Json)
  | error (content : ErrorText) (info : Option (PyStr × Option PyStr))

/-- The body of a response, or nothing. -/
inductive Reply
  | nothing
  | initialized (id : Json) (protocolVersion : String)
  | listed (id : Json) (tools : List String)
  | called (id : Json) (reply : ToolReply)
  | pong (id : Json)
  | unknownMethod (id method : Json)
  | refusedWrite (id : Json)

inductive Recorded
  | entry | suppressed | unlogged
deriving DecidableEq

inductive Event
  | preflight (ready : Bool)
  | refusedWrite
  | executed (tool : PyStr) (arguments : Message)
  | recorded (how : Recorded)

/-- What happens on the way, and the value, unless an error is raised. -/
structure Run (A : Type) where
  events : List Event
  value : Option A

def ToolAnswer.reply : ToolAnswer → Option ToolReply
  | .returned result => some (.result result)
  | .unwritable => none
  | .refused code message reason => some (.error (.message message) (some (code, reason.filter (· ≠ []))))
  | .failed message => some (.error (.message message) none)

/-- `arguments`, where it is a dict. -/
def argumentsOf (params : Message) : Message := dictOr (get params "arguments")

def handleToolsCall (tool : ToolAnswer) (params : Message) : Run ToolReply :=
  let name := get params "name"
  match name with
  | .str s =>
    if isTool knownTools s then ⟨[.executed s (argumentsOf params)], tool.reply⟩
    else ⟨[], some (.error (.unknownTool name) none)⟩
  | _ => ⟨[], (among knownTools name).map fun _ => .error (.unknownTool name) none⟩

def protocolVersion : String := "2025-03-26"
def protocolVersionLegacy : String := "2024-11-05"

def negotiated (params : Message) : String :=
  if isText (get params "protocolVersion") protocolVersionLegacy then protocolVersionLegacy else protocolVersion

def dispatchRpc (tool : ToolAnswer) (m : Message) : Run Reply :=
  let method := get m "method"
  let id := get m "id"
  let params := dictOr (get m "params")
  if isText method "notifications/initialized" || isText method "notifications/cancelled" then ⟨[], some .nothing⟩
  else if isText method "initialize" then ⟨[], some (.initialized id (negotiated params))⟩
  else if isText method "tools/list" then ⟨[], some (.listed id knownTools)⟩
  else if isText method "tools/call" then
    let run := handleToolsCall tool params
    ⟨run.events, run.value.map (.called id)⟩
  else if isText method "ping" then ⟨[], some (.pong id)⟩
  else if isNull id then ⟨[], some .nothing⟩
  else ⟨[], some (.unknownMethod id method)⟩

/-- `name` is asked of a dict only. -/
def scopedName (m : Message) : Json := get (dictOr (get m "params")) "name"

def scopedDispatch (credential : Credential) (tool : ToolAnswer) (m : Message) : Run Reply :=
  match credential.scope with
  | none => dispatchRpc tool m
  | some (allowed, reason) =>
    let id := get m "id"
    if isText (get m "method") "tools/list" then
      ⟨[], some (.listed id (knownTools.filter fun t => allowed.contains t))⟩
    else if isText (get m "method") "tools/call" then
      match among allowed (scopedName m) with
      | none => ⟨[], none⟩
      | some false => ⟨[], some (.called id
          (.error (.notPermitted (scopedName m)) (some (text "AUTHORITY_DENIED", some (text reason)))))⟩
      | some true => dispatchRpc tool m
    else dispatchRpc tool m

def isJsonrpcRequest (m : Message) : Bool :=
  (Codec.member m "id").isSome && !isNull (get m "id") && (Codec.member m "method").isSome

def Credential.permits (c : Credential) (tool : PyStr) : Bool :=
  match c.scope with
  | none => isTool knownTools tool
  | some (allowed, _) => isTool allowed tool && isTool knownTools tool

/-- The tool that a message runs where it is dispatched. -/
def toolOf (c : Credential) (m : Message) : Option PyStr :=
  if isText (get m "method") "tools/call" then
    match scopedName m with
    | .str s => if c.permits s then some s else none
    | _ => none
  else none

end ContinuityLedger.Mcp
