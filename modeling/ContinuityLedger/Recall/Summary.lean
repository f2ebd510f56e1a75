import Mathlib.Algebra.Order.Floor.Ring
import Mathlib.Data.Finset.Card
import Mathlib.Data.Rat.Floor
import ContinuityLedger.Foundations.Dict
import ContinuityLedger.Records.Record

/-! What recall computes of records in exact numbers, and what of a record enters short-term memory: its summary, its other
renderings and what they cost, and how two records bear on each other. -/

namespace ContinuityLedger.Recall

open Foundations Records

structure ActivationBreakdown where
  Q : ℚ
  P : ℚ
  A : ℚ
  baseA : ℚ
  gateA : ℚ
  graphBoost : ℚ
  graphHops : ℕ
  graphSeedId : Option String
  graphPath : List String
  graphEdges : List (List String × ℚ)

abbrev Scored := MemoryRecord String × ActivationBreakdown

/-- `round(x, places)`: to the nearest, and halfway to the even neighbour. -/
def roundTo (places : ℕ) (x : ℚ) : ℚ :=
  let scaled := x * 10 ^ places
  let part := scaled - ⌊scaled⌋
  let nearest := if part < 1 / 2 then ⌊scaled⌋ else if 1 / 2 < part then ⌊scaled⌋ + 1
    else if ⌊scaled⌋ % 2 = 0 then ⌊scaled⌋ else ⌊scaled⌋ + 1
  nearest / 10 ^ places

open Foundations Records Ledger

/-- `re.sub(r"\s+", " ", ...)`. -/
def collapse (afterSpace : Bool) : List Char → List Char
  | [] => []
  | c :: cs =>
    if PyText.isspace c then if afterSpace then collapse true cs else ' ' :: collapse true cs
    else c :: collapse false cs

/-- `text.rsplit(" ", 1)[0]`. -/
def beforeLastBlank (cs : List Char) : List Char :=
  if ' ' ∈ cs then (cs.reverse.dropWhile (· ≠ ' ')).tail.reverse else cs

def maxChars : ℕ := 140

/-- `make_summary`. -/
def makeSummary (content : String) : String :=
  let text := collapse false (PyText.strip content).toList
  if text.length ≤ maxChars then String.ofList text
  else
    let cut := beforeLastBlank (text.take (maxChars - 1))
    let kept := if cut = [] then text.take (maxChars - 1) else cut
    String.ofList ((kept.reverse.dropWhile (· ∈ [',', ';', ':'])).reverse ++ ['…'])

/-- `estimate_tokens`. -/
def estimateTokens (text : String) : ℕ :=
  if text = "" then 0 else max 1 ((text.length + 3) / 4)

inductive Resolution
  | summary
  | detail
  | evidence
deriving DecidableEq

def evidenceLine (link : Evidence.EvidenceLink) : String :=
  "[" ++ link.kind ++ "] " ++ link.ref ++ (if link.note = "" then "" else " (" ++ link.note ++ ")")

/-- `render_resolution`. -/
def renderResolution (rec : MemoryRecord String) : Resolution → String
  | .summary => makeSummary rec.content
  | .detail => rec.content
  | .evidence =>
    let lines := if rec.evidence = [] then ["(none recorded on LTM particle)"] else rec.evidence.map evidenceLine
    "\n".intercalate (rec.content :: "--- evidence ---" :: lines)

structure STMEntry where
  memoryId : String
  summary : String
  payload : String
  resolution : Resolution
  activation : ℚ
  components : ActivationBreakdown
  type : MemoryType
  status : Status
  subject : Option String
  confidence : Jsonb.Decimal
  tokenCost : ℕ
  evidenceRefs : List String

/-- `_entry_from_record`. -/
def entryFromRecord (s : Scored) (resolution : Resolution) : STMEntry where
  memoryId := s.1.id
  summary := makeSummary s.1.content
  payload := renderResolution s.1 resolution
  resolution := resolution
  activation := s.2.A
  components := s.2
  type := s.1.type
  status := s.1.status
  subject := s.1.subject
  confidence := s.1.confidence
  tokenCost := estimateTokens (renderResolution s.1 resolution)
  evidenceRefs := s.1.evidence.map fun link => link.kind ++ ":" ++ link.ref

/-- `a.subject and a.subject == b.subject`. -/
def sharesSubject (a b : MemoryRecord String) : Bool := a.subject.any (· ≠ "") && a.subject == b.subject

/-- `bond_strength`. -/
def bondStrength (a b : MemoryRecord String) : ℚ :=
  if a.id = b.id then 0
  else
    let subject : ℚ := if sharesSubject a b then 3 / 5 else 0
    let tags : ℚ := if a.tags = [] ∧ b.tags = [] then 0
      else 2 / 5 * ((a.tags.toFinset ∩ b.tags.toFinset).card / (a.tags.toFinset ∪ b.tags.toFinset).card)
    roundTo 4 (min 1 (subject + tags))

/-- `is_contradiction`. -/
def isContradiction (a b : MemoryRecord String) : Bool := sharesSubject a b && a.contentSha256 ≠ b.contentSha256

lemma isContradiction_comm (a b : MemoryRecord String) : isContradiction a b = isContradiction b a := by
  by_cases h : a.subject = b.subject
  · simp only [isContradiction, sharesSubject, h, beq_self_eq_true, Bool.and_true, ne_comm]
  · have hab : (a.subject == b.subject) = false := beq_eq_false_iff_ne.mpr h
    have hba : (b.subject == a.subject) = false := beq_eq_false_iff_ne.mpr (Ne.symm h)
    rw [isContradiction, isContradiction, sharesSubject, sharesSubject, hab, hba, Bool.and_false, Bool.and_false,
      Bool.false_and, Bool.false_and]

end ContinuityLedger.Recall
