import Mathlib.Data.Rat.Defs
import ContinuityLedger.Foundations.Dict
import ContinuityLedger.Foundations.PyText
import ContinuityLedger.Foundations.TopRanked
import ContinuityLedger.Recall.Summary

/-! The index of documents: what is asked, what is retrieved for a query, what of it fits into the context, and which of it is
in declared conflict. The scores of the documents for the query are given, in exact numbers. -/

namespace ContinuityLedger.Rag

open Foundations

/-! ### Words -/

/-- `[a-z0-9_]`, whatever the case: four letters outside ASCII have a case of their own among these. -/
def isWordChar (c : Char) : Bool := c.isAlphanum || c == '_' || ['\u0130', '\u0131', '\u017f', '\u212a'].contains c

/-- Runs of two such characters or more. -/
def runs (run : List Char) : List Char → List (List Char)
  | [] => if 2 ≤ run.length then [run] else []
  | c :: cs =>
    if isWordChar c then runs (run ++ [c]) cs
    else if 2 ≤ run.length then run :: runs [] cs
    else runs [] cs

def tokenize (text : String) : List String := (runs [] text.toList).map fun run => PyText.lower (String.ofList run)

/-! ### Modes -/

inductive Intent
  | factLookup
  | codeHelp
  | longformExplanation
  | chatty
deriving DecidableEq

def Intent.text : Intent → String
  | .factLookup => "fact_lookup"
  | .codeHelp => "code_help"
  | .longformExplanation => "longform_explanation"
  | .chatty => "chatty"

structure RetrievalConfig where
  k : ℕ
  useKeyword : Bool
  useVector : Bool
  vectorWeight : ℚ
  minSupport : ℚ

structure GenerationConfig where
  style : String
  maxContextTokens : ℕ

def chattyMarkers : List String := ["hi", "hello", "hey", "thanks", "thank", "yo", "ok", "okay"]

def codeMarkers : List String :=
  ["def ", "class ", "import ", "npm ", "git ", "pip ", "curl ", "traceback", "exception", "compile", "syntax", "```"]

def longformStarters : List String := ["explain", "why ", "walk me", "describe", "how does"]

/-- `marker in text`. -/
def occurs (marker text : String) : Bool := text.toList.tails.any marker.toList.isPrefixOf

def classifyQuery (query : String) : Intent :=
  let q := PyText.strip query
  let low := PyText.lower q
  let words := tokenize q
  if words.length ≤ 3 && low.toList.getLast? != some '?' && (words.any chattyMarkers.contains || words.isEmpty) then .chatty
  else if codeMarkers.any fun m => occurs m low then .codeHelp
  else if longformStarters.any (PyText.startsWith low ·) || 25 < words.length then .longformExplanation
  else .factLookup

def retrievalConfig : Intent → RetrievalConfig
  | .factLookup => ⟨5, true, true, 6 / 10, 35 / 100⟩
  | .codeHelp => ⟨6, true, true, 5 / 10, 30 / 100⟩
  | .longformExplanation => ⟨12, true, true, 5 / 10, 20 / 100⟩
  | .chatty => ⟨0, false, false, 0, 101 / 100⟩

def generationConfig : Intent → GenerationConfig
  | .factLookup => ⟨"short", 256⟩
  | .codeHelp => ⟨"code", 512⟩
  | .longformExplanation => ⟨"longform", 1024⟩
  | .chatty => ⟨"chat", 0⟩

open Recall

/-! ### Documents -/

inductive AuthorityClass
  | untrusted
  | working
  | verified
  | constitutional
deriving DecidableEq

def AuthorityClass.trustWeight : AuthorityClass → ℚ
  | .untrusted => 55 / 100
  | .working => 75 / 100
  | .verified => 1
  | .constitutional => 1

inductive DocumentStatus
  | draft
  | verified
  | archived
deriving DecidableEq

structure RagDocument where
  id : String
  title : String
  body : String
  source : String
  authorityClass : AuthorityClass
  status : DocumentStatus
  subject : Option String
  conflictIds : List String
deriving DecidableEq

def RagDocument.live (d : RagDocument) : Bool := d.status != .archived

structure RagIndex where
  docs : List RagDocument
  nodup : (docs.map RagDocument.id).Nodup

/-- Of several documents with one id the last is kept, in the place of the first. -/
def latest (docs : List RagDocument) : List RagDocument := docs.foldl (fun ds d => KeyedTable.upsert RagDocument.id d ds) []

lemma nodup_latest (docs : List RagDocument) : ((latest docs).map RagDocument.id).Nodup := by
  unfold latest
  induction docs using List.reverseRecOn with
  | nil => exact List.nodup_nil
  | append_singleton ds d ih =>
    rw [List.foldl_append]
    exact KeyedTable.nodup_upsert RagDocument.id ih d

def rebuild (docs : List RagDocument) : RagIndex := ⟨latest docs, nodup_latest docs⟩

def RagIndex.doc (index : RagIndex) (id : String) : Option RagDocument := KeyedTable.row RagDocument.id id index.docs

/-- The index without the archived documents. -/
def RagIndex.current (index : RagIndex) : RagIndex :=
  ⟨index.docs.filter RagDocument.live, index.nodup.sublist ((List.filter_sublist).map RagDocument.id)⟩

/-! ### Retrieval -/

/-- The scores of the documents for one query. A keyword score is a sum of quotients that are not negative. -/
structure Scores where
  vector : String → ℚ
  keyword : String → ℚ

/-- The order of a search: the higher score first, then the smaller id. -/
def ranked (a b : String × ℚ) : Prop := b.2 < a.2 ∨ (a.2 = b.2 ∧ a.1 ≤ b.1)

instance : DecidableRel ranked := fun a b => inferInstanceAs (Decidable (b.2 < a.2 ∨ (a.2 = b.2 ∧ a.1 ≤ b.1)))

def RagIndex.search (index : RagIndex) (score : String → ℚ) (k : ℕ) : Dict String ℚ :=
  TopRanked.top ranked k (index.docs.map fun d => (d.id, score d.id))

def RagIndex.searchVector (index : RagIndex) (sc : Scores) (k : ℕ) : Dict String ℚ := index.search sc.vector k

def RagIndex.searchKeyword (index : RagIndex) (sc : Scores) (k : ℕ) : Dict String ℚ := index.search sc.keyword k

structure Hit where
  id : String
  final : ℚ
  retrievalScore : ℚ
  trustWeight : ℚ
  authorityClass : AuthorityClass
  vector : ℚ
  keyword : ℚ
deriving DecidableEq

def sat (x : ℚ) : ℚ := x / (x + 1)

/-- The two lists that a search leaves, each empty where it is switched off. -/
def vecScores (index : RagIndex) (sc : Scores) (cfg : RetrievalConfig) : Dict String ℚ :=
  if cfg.useVector then index.searchVector sc cfg.k else []

def kwScores (index : RagIndex) (sc : Scores) (cfg : RetrievalConfig) : Dict String ℚ :=
  if cfg.useKeyword then index.searchKeyword sc cfg.k else []

def hit (cfg : RetrievalConfig) (vec kw : Dict String ℚ) (doc : RagDocument) : Hit :=
  let wv := if vec.isEmpty then 0 else cfg.vectorWeight
  let wk := if kw.isEmpty then 0 else 1 - cfg.vectorWeight
  let v := (vec.get doc.id).getD 0
  let kk := sat ((kw.get doc.id).getD 0)
  let retrievalScore := if wv + wk = 0 then 0 else (wv * v + wk * kk) / (wv + wk)
  let trustWeight := doc.authorityClass.trustWeight
  ⟨doc.id, roundTo 6 (retrievalScore * trustWeight), roundTo 6 retrievalScore, trustWeight, doc.authorityClass, roundTo 6 v,
    roundTo 6 kk⟩

/-- The documents of both lists that are not archived. -/
def results (index : RagIndex) (sc : Scores) (cfg : RetrievalConfig) : List Hit :=
  let vec := vecScores index sc cfg
  let kw := kwScores index sc cfg
  (index.docs.filter fun doc => (vec.has doc.id || kw.has doc.id) && doc.live).map (hit cfg vec kw)

/-- The order of the hits: the higher final score first, then the smaller id. -/
def outranks (a b : Hit) : Prop := b.final < a.final ∨ (a.final = b.final ∧ a.id ≤ b.id)

instance : DecidableRel outranks := fun a b => inferInstanceAs (Decidable (b.final < a.final ∨ (a.final = b.final ∧ a.id ≤ b.id)))

def hybridRetrieve (index : RagIndex) (sc : Scores) (cfg : RetrievalConfig) : List Hit :=
  TopRanked.top outranks cfg.k (results index sc cfg)

/-! ### Context -/

def block (doc : RagDocument) : String :=
  "[Doc " ++ doc.id ++ " | " ++ doc.title ++ " | " ++ doc.source ++ "]\n" ++ doc.body

def cost (index : RagIndex) (h : Hit) : ℕ := ((index.doc h.id).map fun doc => estimateTokens (block doc)).getD 0

/-- The hits that fit, each behind those before it. -/
def admitHits (index : RagIndex) (maxTokens : ℕ) : List Hit → ℕ → List Hit
  | [], _ => []
  | h :: hits, usedTokens =>
    if maxTokens < usedTokens + cost index h then admitHits index maxTokens hits usedTokens
    else h :: admitHits index maxTokens hits (usedTokens + cost index h)

def buildContext (index : RagIndex) (hits : List Hit) (maxTokens : ℕ) : String × List String :=
  let admitted := admitHits index maxTokens hits 0
  ("\n\n".intercalate (admitted.filterMap fun h => (index.doc h.id).map block), admitted.map Hit.id)

/-! ### Conflicts -/

structure Conflict where
  documentIds : List String
  subject : Option String
deriving DecidableEq

/-- The ids of a document and of those in the index that it declares a conflict with. -/
def present (index : RagIndex) (doc : RagDocument) : List String :=
  (doc.id :: doc.conflictIds.filter fun cid => (index.doc cid).isSome).dedup.insertionSort (· ≤ ·)

def conflictsForHits (index : RagIndex) (hits : List Hit) : List Conflict :=
  let groups := ((hits.filterMap fun h => index.doc h.id).map (present index)).filter fun ids => 1 < ids.length
  (groups.dedup.insertionSort (· ≤ ·)).map fun ids =>
    ⟨ids, ids.findSome? fun id => (index.doc id).bind fun doc => doc.subject.filter (· ≠ "")⟩

end ContinuityLedger.Rag
