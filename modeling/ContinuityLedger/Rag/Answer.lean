import ContinuityLedger.Rag.Index

/-! The answer to a query: retrieval, the gate of support, the conflicts, the context and one of two generators. -/

namespace ContinuityLedger.Rag

open Foundations Recall

/-! ### The extractive generator -/

/-- `re.split(r"(?<=[.!?])\s+", body)`. -/
def sentences (between : Bool) (sentence : List Char) : List Char → List (List Char)
  | [] => [sentence]
  | c :: cs =>
    if between && PyText.isspace c then sentences true [] cs
    else if PyText.isspace c && ['.', '!', '?'].any (sentence.getLast? == some ·) then sentence :: sentences true [] cs
    else sentences false (sentence ++ [c]) cs

structure Quote where
  overlap : ℕ
  id : String
  text : String

def overlap (query text : String) : ℕ := ((tokenize query).dedup.filter (tokenize text).contains).length

def quotesOf (query : String) (doc : RagDocument) : List Quote :=
  ((sentences false [] doc.body.toList).map String.ofList).filterMap fun s =>
    if PyText.strip s = "" then none else some ⟨overlap query s, doc.id, PyText.strip s⟩

/-- The first two texts, a later quote of the same text left out. -/
def pick : List Quote → List Quote → List Quote
  | [], picks => picks
  | q :: rest, picks =>
    if picks.any (·.text == q.text) then pick rest picks
    else if picks.length = 1 then picks ++ [q]
    else pick rest (picks ++ [q])

/-- The sentences that are quoted: the two that share most words with the query, out of the first three documents. -/
def picks (query : String) (index : RagIndex) (usedIds : List String) : List Quote :=
  let best := ((usedIds.take 3).filterMap index.doc).flatMap (quotesOf query)
  pick (best.insertionSort fun a b => b.overlap ≤ a.overlap) []

def Quote.cited (q : Quote) : String := q.text ++ " [" ++ q.id ++ "]"

def extractiveAnswer (query : String) (index : RagIndex) (usedIds : List String) : String :=
  if usedIds = [] then "No supporting documents retrieved."
  else "Based on retrieved documents: " ++ " ".intercalate ((picks query index usedIds).map Quote.cited)

/-! ### The generation provider -/

/-- What a closing bracket ends, where it is not empty. -/
def enclosed : Option (List Char) → List (List Char)
  | some (c :: cs) => [c :: cs]
  | _ => []

/-- What stands between an opening bracket and the next bracket, where that closes it. -/
def markersFrom (opened : Option (List Char)) : List Char → List (List Char)
  | [] => []
  | c :: cs =>
    if c = '[' then markersFrom (some []) cs
    else if c = ']' then enclosed opened ++ markersFrom none cs
    else markersFrom (opened.map (· ++ [c])) cs

/-- `re.findall(r"\[([^\[\]]+)\]", text)`. -/
def markers (text : String) : List String := (markersFrom none text.toList).map String.ofList

/-- What is configured, and what the provider sends: the content and the model it names. -/
structure Provider where
  url : Bool
  required : Bool
  model : String
  reply : Option (String × Option String)

inductive Raised
  | providerError
  | osError
deriving DecidableEq

def accepted (content : String) (allowed : List String) : Option String :=
  let answer := PyText.strip content
  let citations := markers answer
  if answer ≠ "" && !citations.isEmpty && citations.all allowed.contains then some answer else none

def llmGenerate (p : Provider) (allowed : List String) : Except Raised (Option (String × String)) :=
  if !p.url || allowed.isEmpty then .ok none
  else
    match p.reply.bind fun r => (accepted r.1 allowed).map fun answer => (answer, (r.2.filter (· ≠ "")).getD p.model) with
    | some generated => .ok (some generated)
    | none => if p.required then .error .providerError else .ok none

/-! ### The loop -/

inductive Status
  | answered
  | insufficientEvidence
  | conflictedEvidence
  | chatty
deriving DecidableEq

structure EvidenceRecord where
  query : String
  intentType : Intent
  docsUsed : List Hit
  scores : Dict String ℚ
  conflicts : List Conflict
  answer : String
  llmModel : String
  epistemicStatus : String
  status : Status

/-- `"{:.places f}"` of a number that is not negative. -/
def fixed (places : ℕ) (x : ℚ) : String :=
  let digits := (Calendar.padded (places + 1) (roundTo places x * 10 ^ places).num.toNat).toList
  String.ofList (digits.take (digits.length - places)) ++ "." ++ String.ofList (digits.drop (digits.length - places))

def insufficientText (top threshold : ℚ) : String :=
  "Insufficient evidence to answer (top support " ++ fixed 3 top ++ " < threshold " ++ fixed 2 threshold ++
    "). The governed policy forbids answering without a supporting document; refine the query or ingest relevant sources."

def contextBudgetText (maxTokens : ℕ) : String :=
  "Insufficient evidence to answer: retrieved documents exceed the context token budget (" ++ toString maxTokens ++
    " tokens) and none could be admitted. Refine the query or ingest shorter sources."

def conflictText : String :=
  "Conflicting evidence prevents a single answer. Review the cited records and their provenance before adjudication."

def chattyText : String := "Hello! Ask me about the workspace and I will retrieve governed evidence."

/-- The hits with support. -/
def supported (index : RagIndex) (sc : Scores) (cfg : RetrievalConfig) : List Hit :=
  (hybridRetrieve index sc cfg).filter fun h => decide (0 < h.final)

/-- The record of the working index. -/
def answerOn (p : Provider) (sc : Scores) (work : RagIndex) (query : String) : Except Raised EvidenceRecord :=
  let intent := classifyQuery query
  let rcfg := retrievalConfig intent
  let gcfg := generationConfig intent
  if intent = .chatty then .ok ⟨query, intent, [], [], [], chattyText, p.model, "not_applicable", .chatty⟩
  else
    let hits := supported work sc rcfg
    let top := (hits.head?.map Hit.final).getD 0
    if hits = [] || top < rcfg.minSupport then
      .ok ⟨query, intent, [], [("top_support", roundTo 6 top)], [], insufficientText top rcfg.minSupport, p.model, "unsupported",
        .insufficientEvidence⟩
    else
      let conflicts := conflictsForHits work hits
      if !conflicts.isEmpty then
        let conflictHits := hits.filter fun h => conflicts.any fun g => g.documentIds.contains h.id
        .ok ⟨query, intent, conflictHits, conflictHits.map fun h => (h.id, h.final), conflicts, conflictText,
          "logical-conflict-membrane-v1", "conflicted", .conflictedEvidence⟩
      else
        let usedIds := (buildContext work hits gcfg.maxContextTokens).2
        if usedIds = [] then
          .ok ⟨query, intent, [], [("top_support", roundTo 6 top)], [], contextBudgetText gcfg.maxContextTokens, p.model,
            "unsupported", .insufficientEvidence⟩
        else do
          let generated ← llmGenerate p usedIds
          let used := hits.filter fun h => usedIds.contains h.id
          let (answer, model) := generated.getD (extractiveAnswer query work usedIds, "extractive-v0")
          pure ⟨query, intent, used, used.map fun h => (h.id, h.final), [], answer, model, "supported_not_adjudicated", .answered⟩

def workIndex (index : RagIndex) (extraDocs : List RagDocument) : RagIndex := rebuild (index.docs ++ latest extraDocs)

/-- The replay record is written before the answer is given. -/
def answerQuery (p : Provider) (persists : Bool) (sc : Scores) (index : RagIndex) (extraDocs : List RagDocument)
    (query : String) : Except Raised EvidenceRecord := do
  let record ← answerOn p sc (workIndex index extraDocs) query
  if persists then pure record else throw .osError

end ContinuityLedger.Rag
