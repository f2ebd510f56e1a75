import ContinuityLedger.Foundations.PyText

/-! What the witness of the HTTP routes records of a request: its route template, its tool and whether it writes. -/

namespace ContinuityLedger.CallLog

open Foundations

def toolsPrefix : String := "/api/jarvis/tools/"
def memoryPrefix : String := "/api/jarvis/memory"
def ownPrefixes : List String := ["/api/jarvis/tools/calls"]
def readMethods : List String := ["GET", "HEAD", "OPTIONS"]

/-- `str.upper`, of which only what it does to ASCII matters here. -/
structure Casing where
  upper : String → String
  upper_ascii : ∀ s, (∀ c ∈ s.toList, c.toNat < 128) → upper s = String.ofList (s.toList.map Char.toUpper)

/-! ### Route templates -/

def idSegment : String := "{id}"

/-- The parts of a route, where `{id}` is any one segment. -/
abbrev Template := List String

def getRoutes : List Template :=
  [[], ["board"], ["retrieve"], ["conflicts"], ["search"], ["latest"], ["unified"], ["active"], ["stm"],
    ["stm", "context"], ["history", "verify"], ["{id}"], ["{id}", "history"], ["{id}", "resolve"],
    ["external", "stats"], ["emr", "status"], ["amul", "artifacts", "{id}"], ["amul", "lineage", "{id}"],
    ["amul", "field", "status"], ["graph", "stats"]]

def postRoutes : List Template :=
  [[], ["board"], ["external-search"], ["promote"], ["pipeline"], ["stm", "expand"], ["external", "ask"],
    ["external", "remember"], ["external", "forget"], ["external", "describe"], ["external", "spatialize"],
    ["external", "scan"], ["external", "reindex"], ["external", "prune"], ["external", "watch"],
    ["external", "watch", "stop"], ["external", "serve"], ["external", "serve", "stop"], ["emr", "excite"],
    ["emr", "reinforce"], ["emr", "correct"], ["amul", "anchor"], ["amul", "field", "verify"], ["graph", "bfs"],
    ["graph", "shortest-path"], ["graph", "related"], ["graph", "components"]]

/-- `MEMORY_TEMPLATES.get(method, ())`. -/
def memoryTemplates (method : String) : List Template :=
  if method = "GET" then getRoutes else
  if method = "POST" then postRoutes else
  if method = "PATCH" then [["board"], ["{id}"]] else
  if method = "PUT" then [["{id}"]] else
  if method = "DELETE" then [["stm"], ["{id}"]] else []

def fits (tpl : Template) (segs : List String) : Bool :=
  tpl.length == segs.length && (tpl.zip segs).all fun q => q.1 == idSegment || q.1 == q.2

def literals (tpl : Template) : ℕ := tpl.countP (· ≠ idSegment)

def better (tpl : Template) : Option Template → Bool
  | none => true
  | some best => literals best < literals tpl

/-- The first of the fitting templates with the most literal parts. -/
def bestOf (segs : List String) (templates : List Template) : Option Template :=
  templates.foldl (fun best tpl => if fits tpl segs && better tpl best then some tpl else best) none

/-- `^…$`, where one line break may follow the end. -/
def anchored (full : List Char → Bool) (s : String) : Bool := full s.toList || full (PyText.chomp s.toList)

def isHex (c : Char) : Bool := PyText.isAsciiDigit c || ('a' ≤ c && c ≤ 'f')

def started (start : String) (rest : List Char → Bool) (cs : List Char) : Bool :=
  start.toList.isPrefixOf cs && rest (cs.drop start.toList.length)

def oneOrMore (ok : Char → Bool) (cs : List Char) : Bool := !cs.isEmpty && cs.all ok

def artifactTail : List Char → Bool
  | '-' :: r :: digits => r ∈ ['s', 'd', 'e'] && oneOrMore PyText.isAsciiDigit digits && digits.length ≤ 9
  | _ => false

/-- `_MEMORY_TARGETS`. -/
def isMemoryTarget (s : String) : Bool :=
  anchored (started "mem-" fun cs => cs.length == 12 && cs.all isHex) s ||
  anchored (started "art-" fun cs => (cs.take 12).length == 12 && (cs.take 12).all isHex && artifactTail (cs.drop 12)) s

/-- `"/".join`. -/
def joined (parts : List String) : String := String.ofList (['/'].intercalate (parts.map String.toList))

def segments (path : String) : List String :=
  (PyText.split '/' (String.ofList (path.toList.drop memoryPrefix.toList.length))).filter (· ≠ "")

def slots (tpl : Template) (segs : List String) : List String :=
  ((tpl.zip segs).filter fun q => q.1 == idSegment).map Prod.snd

def normalizeMemoryRoute (u : Casing) (method path : String) : String × Option String × List String :=
  let segs := segments path
  match bestOf segs (memoryTemplates (u.upper method)) with
  | none => (memoryPrefix ++ "/{other}", none, segs)
  | some tpl => (joined (memoryPrefix :: tpl), (slots tpl segs).find? isMemoryTarget, slots tpl segs)

/-- `_ID_SEGMENTS`. -/
def segmentLabel (seg : String) : Option String :=
  if anchored (started "mem-" (oneOrMore isHex)) seg then some "{id}" else
  if anchored (started "eo:sha256:" (oneOrMore isHex)) seg then some "{eo}" else
  if anchored (oneOrMore PyText.isAsciiDigit) seg then some "{n}" else none

def normalizeRoute (path : String) : String × Option String :=
  let segs := PyText.split '/' path
  (joined (segs.map fun seg => (segmentLabel seg).getD seg), segs.find? fun seg => (segmentLabel seg).isSome)

/-! ### Classification -/

inductive Kind
  | tool
  | api
  deriving DecidableEq

structure Plan where
  kind : Kind
  tool : String
  route : String
  target : Option String
  write : Bool
  pathParams : List String
  deriving DecidableEq

def writeTools : List String := ["emr_remember", "emr_upsert"]

def under (path start : String) : Bool := path == start || PyText.startsWith path (start ++ "/")

/-- `strip("/")`. -/
def stripSlashes (s : String) : String :=
  String.ofList (((s.toList.dropWhile (· == '/')).reverse.dropWhile (· == '/')).reverse)

def toolName (path : String) : String :=
  let name := stripSlashes (String.ofList (path.toList.drop toolsPrefix.toList.length))
  if name = "" then "(none)" else name

def toolPlan (path : String) : Plan :=
  { kind := .tool, tool := PyText.first 64 (toolName path), route := path, target := none,
    write := toolName path ∈ writeTools, pathParams := [] }

def apiPlan (method : String) (write : String → Bool) (r : String × Option String × List String) : Plan :=
  { kind := .api, tool := method ++ " " ++ r.1, route := r.1, target := r.2.1, write := write r.1, pathParams := r.2.2 }

def writesRoute (method route : String) : Bool :=
  (route == "/api/jarvis/memory" && method == "POST") ||
  (route == "/api/jarvis/memory/{id}" && ["PATCH", "PUT", "DELETE"].contains method)

/-- `classify`, where `reads` says whether reads are witnessed. -/
def classify (u : Casing) (reads : Bool) (method path : String) : Option Plan :=
  if ownPrefixes.any (under path) then none else
  if PyText.startsWith path toolsPrefix then some (toolPlan path) else
  if method == "GET" && under path memoryPrefix && reads then
    some (apiPlan "GET" (fun _ => false) (normalizeMemoryRoute u "GET" path)) else
  if PyText.startsWith path "/api/jarvis/" && !readMethods.contains method then
    some (apiPlan method (writesRoute method)
      (if under path memoryPrefix then normalizeMemoryRoute u method path
        else ((normalizeRoute path).1, (normalizeRoute path).2, [])))
  else none

end ContinuityLedger.CallLog
