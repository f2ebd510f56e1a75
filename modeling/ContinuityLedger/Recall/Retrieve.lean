import ContinuityLedger.Recall.Detected
import ContinuityLedger.Foundations.Timestamps
import Mathlib.Data.Prod.Lex

/-! Retrieval: a page of records, why each was selected, and the conflicts that touch the page. -/

namespace ContinuityLedger.Recall

open Foundations Records Ledger

/-- What a listing is asked for. -/
structure Listed where
  truthScope : Option String
  query : Option String
  limit : ℤ
  memoryType : Option String
  status : Option String
  sessionId : Option String
  subject : Option String

/-- `needle in text`. -/
def occursIn (needle text : String) : Bool := text.toList.tails.any needle.toList.isPrefixOf

/-- An empty text filters nothing. -/
def given (value : Option String) : Option String := value.filter (· ≠ "")

def memoryMatchesQuery (m : MemoryRecord String) (q : String) : Bool :=
  occursIn q (PyText.lower m.content) || m.tags.any (fun tag => occursIn q (PyText.lower tag)) ||
    (given m.subject).any (fun s => occursIn q (PyText.lower s)) || occursIn q (PyText.lower m.type.text) ||
    occursIn q (PyText.lower m.sourceAgent) || occursIn q (PyText.lower m.sessionId)

def inScope (scope : String) (m : MemoryRecord String) : Bool :=
  let lower := PyText.lower scope
  if lower = "live" then m.status ≠ .archived else m.status.text = lower || m.sourceAgent = lower

def Listed.passes (call : Listed) (m : MemoryRecord String) : Bool :=
  (given call.truthScope).all (inScope · m) && (given call.memoryType).all (m.type.text = ·) &&
    (given call.status).all (m.status.text = ·) && (given call.sessionId).all (m.sessionId = ·) &&
    (given call.subject).all (m.subject = some ·) &&
    (given call.query).all fun q => memoryMatchesQuery m (PyText.lower q)

/-- `results[:limit]`. -/
def slice {α : Type} (limit : ℤ) (results : List α) : List α :=
  if 0 ≤ limit then results.take limit.toNat else results.take (results.length - limit.natAbs)

def newestFirst (a b : MemoryRecord String) : Bool := toLex (b.createdAt, b.id) ≤ toLex (a.createdAt, a.id)

/-- `JarvisStore.list_memories`. -/
def listMemories (memories : List (MemoryRecord String)) (call : Listed) : List (MemoryRecord String) :=
  slice call.limit ((memories.filter call.passes).mergeSort newestFirst)

structure SelectionProvenance where
  memoryId : String
  whySelected : String
  sourceAgent : String
  sessionId : String
  createdAt : String
  type : MemoryType
  status : Status
  confidence : Jsonb.Decimal
  supersedes : Option String
  evidence : List Evidence.EvidenceLink
  subject : Option String

def queryReason (rec : MemoryRecord String) (query : String) : String :=
  let q := PyText.lower query
  if occursIn q (PyText.lower rec.content) then "content matched query '" ++ query ++ "'"
  else if rec.tags.any fun t => occursIn q (PyText.lower t) then "tag matched query '" ++ query ++ "'"
  else if (given rec.subject).any fun s => occursIn q (PyText.lower s) then "subject matched query '" ++ query ++ "'"
  else "included under query filter '" ++ query ++ "'"

def scopeReason (rec : MemoryRecord String) (scope : String) : String :=
  if PyText.lower scope = "live" ∧ rec.status ≠ .archived then "status is non-archived (truth_scope=live)"
  else "matched truth_scope=" ++ scope

def buildWhySelected (rec : MemoryRecord String) (call : Listed) : String :=
  let reasons := ((given call.query).map (queryReason rec)).toList ++ ((given call.truthScope).map (scopeReason rec)).toList ++
    ((given call.memoryType).map fun _ => "type=" ++ rec.type.text).toList ++
    ((given call.status).map fun _ => "status=" ++ rec.status.text).toList
  let reasons := if reasons = [] then ["listed by recency (no filter)"] else reasons
  "; ".intercalate (reasons ++ ["source_agent=" ++ rec.sourceAgent, "session_id=" ++ rec.sessionId])

def toSelection (call : Listed) (rec : MemoryRecord String) : SelectionProvenance where
  memoryId := rec.id
  whySelected := buildWhySelected rec call
  sourceAgent := rec.sourceAgent
  sessionId := rec.sessionId
  createdAt := rec.createdAt
  type := rec.type
  status := rec.status
  confidence := rec.confidence
  supersedes := rec.supersedes
  evidence := rec.evidence
  subject := rec.subject

/-- What the conflict scan lists. -/
def cohortCall : Listed := ⟨some "live", none, 9999, none, none, none, none⟩

variable (contentSha256 : String → String)

/-- The listing is the store's own. -/
def ledgerRetrieve (list : Listed → List (MemoryRecord String)) (call : Listed) :
    List (MemoryRecord String) × List SelectionProvenance × List ConflictSet :=
  let memories := list call
  let conflicts := detectConflicts contentSha256 (list cohortCall) call.subject
  let returned := memories.map (·.id)
  let touching := if call.subject.isNone then conflicts.filter fun c => c.memories.any fun m => m.id ∈ returned else conflicts
  (memories, memories.map (toSelection call), touching)

/-! ### Any store -/

/-- The content of a store, under distinct ids, and how it lists it. -/
structure Backend where
  memories : List (MemoryRecord String)
  list : Listed → List (MemoryRecord String)
  distinct : (memories.map (·.id)).Nodup
  lists : ∀ call, (list call).Subperm (memories.filter call.passes)

lemma slice_sublist {α : Type} (limit : ℤ) (xs : List α) : (slice limit xs).Sublist xs := by
  rw [slice]
  split_ifs <;> exact List.take_sublist _ _

def fileStore (memories : List (MemoryRecord String)) (distinct : (memories.map (·.id)).Nodup) : Backend where
  memories := memories
  list := listMemories memories
  distinct := distinct
  lists _ := (slice_sublist _ _).subperm.trans (List.mergeSort_perm _ _).subperm

/-- The row store reads the instant from the row. -/
def laterFirst (a b : MemoryRecord String) : Bool :=
  match Timestamps.parseUtc a.createdAt, Timestamps.parseUtc b.createdAt with
  | some s, some t => toLex (t, b.id) ≤ toLex (s, a.id)
  | _, _ => true

def rowStore (memories : List (MemoryRecord String)) (distinct : (memories.map (·.id)).Nodup) : Backend where
  memories := memories
  list call := ((memories.filter call.passes).mergeSort laterFirst).take call.limit.toNat
  distinct := distinct
  lists _ := (List.take_sublist _ _).subperm.trans (List.mergeSort_perm _ _).subperm

namespace Backend

variable (store : Backend)

def live : List (MemoryRecord String) := store.memories.filter active

def retrieve (call : Listed) : List (MemoryRecord String) × List SelectionProvenance × List ConflictSet :=
  ledgerRetrieve contentSha256 store.list call

/-- The records that the scan looks at. -/
def scanned : List (MemoryRecord String) := store.list cohortCall

lemma mem_list {call : Listed} {m : MemoryRecord String} (h : m ∈ store.list call) :
    m ∈ store.memories ∧ call.passes m = true :=
  List.mem_filter.mp ((store.lists call).subset h)

lemma listed_once (call : Listed) : ((store.list call).map (·.id)).Nodup := by
  obtain ⟨rows, hperm, hsub⟩ := store.lists call
  have hrows : (rows.map (·.id)).Nodup := store.distinct.sublist ((hsub.trans List.filter_sublist).map _)
  exact (hperm.map _).nodup_iff.mp hrows

lemma scanned_once : (store.scanned.map (·.id)).Nodup := store.listed_once cohortCall

lemma live_once : (store.live.map (·.id)).Nodup := store.distinct.sublist (List.filter_sublist.map _)

lemma passes_cohortCall (m : MemoryRecord String) : cohortCall.passes m = active m := by
  have hlower : PyText.lower "live" = "live" := by decide
  simp [Listed.passes, cohortCall, given, inScope, active, hlower]

lemma scanned_subset {m : MemoryRecord String} (h : m ∈ store.scanned) : m ∈ store.live := by
  obtain ⟨hm, hp⟩ := store.mem_list h
  exact List.mem_filter.mpr ⟨hm, (passes_cohortCall m) ▸ hp⟩

end Backend

end ContinuityLedger.Recall
