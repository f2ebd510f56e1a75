import ContinuityLedger.Records.Record

/-! The Clause V gate: which types a record may have, the evidence each type needs, and which updates are judged. -/

namespace ContinuityLedger.Records

open Foundations Ledger Evidence

def allowedTypes : List MemoryType := [.architecture, .decision, .fact, .research]

/-- In sorted order. -/
def evidenceKinds : List String :=
  ["command", "commit", "doc", "document", "file", "issue", "log", "pr", "receipt", "test", "url"]

def commaJoined (xs : List String) : String := (", ").intercalate xs

def evidenceRequired (message : String) : Reason := ⟨"clause_v_evidence_required", message, "evidence", true⟩

def hasRef (link : EvidenceLink) : Bool := PyText.strip link.ref ≠ ""

def checkable (link : EvidenceLink) : Bool := PyText.lower (PyText.strip link.kind) ∈ evidenceKinds && hasRef link

def evidenceReason (type : MemoryType) (links : List EvidenceLink) (resolve : Resolver) :
    Except Refusal (Option Reason) :=
  if type = .decision then
    .ok (if links.any hasRef then none
      else some (evidenceRequired
        "A decision needs at least one evidence link (a user-request link is accepted)."))
  else if links.any checkable then .ok none
  else do
    if ← links.anyM (countsAsFactEvidence resolve) then return none
    return some (evidenceRequired ("A " ++ type.text ++ " needs at least one checkable evidence link (kind one of: " ++
      commaJoined evidenceKinds ++ ", or an evidence-object link to an intact " ++ cesFact ++
      " object). A chat message is not evidence."))

def typeReasons (type : MemoryType) : List Reason :=
  match type with
  | .preference => [⟨"clause_v_preference", "Preferences are memory, not evidence (Clause V). Record a decision or an " ++
      "architecture note instead.", "type", true⟩]
  | .task => [⟨"clause_v_transient_state", "Tasks are transient state (Clause V); they do not belong in the ledger.",
      "type", true⟩]
  | .externalContext => [⟨"clause_v_external_context", "External context is ungoverned context (Clause V). Record a " ++
      "decision that cites it as evidence.", "type", true⟩]
  | t =>
    if t ∈ allowedTypes then [] else
    [⟨"clause_v_type_not_allowed", "Type '" ++ t.text ++ "' is not allowed on the constitutional path (allowed: " ++
      commaJoined (allowedTypes.map MemoryType.text) ++ ").", "type", true⟩]

def hardReasons (type : MemoryType) (evidence : List EvidenceLink) (resolve : Resolver) :
    Except Refusal (List Reason) := do
  let reason ← evidenceReason type evidence resolve
  return typeReasons type ++ reason.toList

/-- `softReasons` stands for the patterns that look for emotion, transient state and transcripts. -/
structure GateSettings where
  jarvisClauseV : Option String
  jarvisClauseVSoft : Option String
  softReasons : String → Option String → List String → List Reason

def GateSettings.isOff (set : GateSettings) : Bool :=
  PyText.lower (PyText.strip (set.jarvisClauseV.getD "")) = "off"

inductive SoftMode
  | warn | enforce | off
deriving DecidableEq

def GateSettings.softMode (set : GateSettings) : SoftMode :=
  let value := PyText.lower (PyText.strip (set.jarvisClauseVSoft.getD ""))
  if value = "enforce" then .enforce else if value = "off" then .off else .warn

def judgedHard (resolve : Resolver) (checkHard : Bool) (type : MemoryType) (evidence : List EvidenceLink) :
    Except StoreError (List Reason) :=
  if checkHard then (hardReasons type evidence resolve).mapError StoreError.evidence else .ok []

def judgedSoft (set : GateSettings) (checkSoft : Bool) (content : String) (subject : Option String)
    (tags : List String) : List Reason :=
  if set.softMode = .off || !checkSoft then [] else set.softReasons content subject tags

/-- The warnings that are left behind, or a refusal. -/
def judge (set : GateSettings) (resolve : Resolver) (checkHard checkSoft : Bool) (type : MemoryType) (content : String)
    (subject : Option String) (tags : List String) (evidence : List EvidenceLink) : Except StoreError (List Reason) :=
  if set.isOff then .ok [] else do
    let hard ← judgedHard resolve checkHard type evidence
    let soft := judgedSoft set checkSoft content subject tags
    let refused := hard ++ if set.softMode = .enforce then soft else []
    if refused ≠ [] then .error (.clauseV refused) else .ok (if set.softMode = .enforce then [] else soft)

def gateCreate (set : GateSettings) (resolve : Resolver) (data : MemoryCreate) : Except StoreError (List Reason) :=
  judge set resolve true true data.type data.content data.subject data.tags data.evidence

/-- Whether an update could admit something to the constitutional path. -/
def admits {Hash : Type} (existing : MemoryRecord Hash) (data : MemoryUpdate) : Bool :=
  let status := data.status.getD existing.status
  status = .verified || data.type.any (· ≠ existing.type) || data.evidence.isSome ||
    (existing.status = .archived && status ≠ .archived)

def gateUpdate {Hash : Type} (set : GateSettings) (resolve : Resolver) (existing : MemoryRecord Hash) (data : MemoryUpdate) :
    Except StoreError (List Reason) :=
  let new := merged existing data
  let textChanged := data.content.isSome || data.subject.isSome || data.tags.isSome
  judge set resolve (admits existing data && new.status ≠ .archived) (textChanged && new.status ≠ .archived)
    new.type new.content new.subject new.tags new.evidence

/-! ### What the gate lets through -/

/-- A record that is not archived has an allowed type and the evidence that its type needs. -/
def Admitted {Hash : Type} (resolve : Resolver) (m : MemoryRecord Hash) : Prop :=
  m.status ≠ .archived → m.type ∈ allowedTypes ∧ evidenceReason m.type m.evidence resolve = .ok none

lemma typeReasons_nil {type : MemoryType} : typeReasons type = [] ↔ type ∈ allowedTypes := by
  cases type <;> simp [typeReasons, allowedTypes]

lemma hardReasons_nil {type : MemoryType} {evidence : List EvidenceLink} {resolve : Resolver}
    (h : hardReasons type evidence resolve = .ok []) :
    type ∈ allowedTypes ∧ evidenceReason type evidence resolve = .ok none := by
  obtain ⟨reason, hr, heq⟩ := Checks.bind_ok h
  obtain ⟨htype, hreason⟩ := List.append_eq_nil_iff.mp (Except.ok.inj heq)
  refine ⟨typeReasons_nil.mp htype, ?_⟩
  cases reason with
  | none => exact hr
  | some r => simp at hreason

lemma judge_ok {set : GateSettings} {resolve : Resolver} {checkSoft : Bool} {type : MemoryType} {content : String}
    {subject : Option String} {tags : List String} {evidence : List EvidenceLink} {warnings : List Reason}
    (hset : set.isOff = false)
    (h : judge set resolve true checkSoft type content subject tags evidence = .ok warnings) :
    type ∈ allowedTypes ∧ evidenceReason type evidence resolve = .ok none := by
  rw [judge, if_neg (by rw [hset]; exact Bool.false_ne_true)] at h
  obtain ⟨hard, hhard, hrest⟩ := Checks.bind_ok h
  dsimp only at hrest
  have hnil : hard = [] := by
    by_contra hne
    rw [if_pos (fun happ => hne (List.append_eq_nil_iff.mp happ).1)] at hrest
    cases hrest
  subst hnil
  apply hardReasons_nil
  rw [judgedHard, if_pos rfl] at hhard
  cases hr : hardReasons type evidence resolve with
  | error e => rw [hr] at hhard; cases hhard
  | ok reasons =>
    rw [hr] at hhard
    rw [Except.ok.inj hhard]

lemma gateCreate_admits {set : GateSettings} {resolve : Resolver} {data : MemoryCreate} {warnings : List Reason}
    (hset : set.isOff = false) (h : gateCreate set resolve data = .ok warnings) :
    data.type ∈ allowedTypes ∧ evidenceReason data.type data.evidence resolve = .ok none :=
  judge_ok hset h

/-- An update that is not judged changes nothing that the rule is about, or archives. -/
lemma gateUpdate_admits {set : GateSettings} {resolve : Resolver} {Hash : Type} {existing : MemoryRecord Hash} {data : MemoryUpdate}
    {warnings : List Reason} (hset : set.isOff = false) (hold : Admitted resolve existing)
    (h : gateUpdate set resolve existing data = .ok warnings) : Admitted resolve (merged existing data) := by
  intro hstatus
  cases hadm : admits existing data with
  | true =>
    rw [gateUpdate] at h
    simp only [hadm, hstatus, ne_eq, not_false_eq_true, decide_true, Bool.and_self] at h
    exact judge_ok hset h
  | false =>
    simp only [admits, Bool.or_eq_false_iff, Bool.and_eq_false_iff, decide_eq_false_iff_not, Decidable.not_not] at hadm
    obtain ⟨⟨⟨-, htype⟩, hevidence⟩, hleft⟩ := hadm
    have hkept : existing.status ≠ .archived := by
      rcases hleft with h | h
      · exact h
      · exact absurd h hstatus
    have hsame : (merged existing data).type = existing.type := by
      cases ht : data.type with
      | none => simp [merged, ht]
      | some t => simpa [merged, ht] using htype
    have hlinks : (merged existing data).evidence = existing.evidence := by
      cases he : data.evidence with
      | none => simp [merged, he]
      | some links => simp [he] at hevidence
    rw [hsame, hlinks]
    exact hold hkept

lemma anyM_counts_extends {r r' : Resolver} (h : r.Extends r') {links : List EvidenceLink}
    (hr : links.anyM (countsAsFactEvidence r) = .ok true) : links.anyM (countsAsFactEvidence r') = .ok true := by
  induction links with
  | nil => cases hr
  | cons link links ih =>
    rw [List.anyM] at hr ⊢
    obtain ⟨found, hfound, hrest⟩ := Checks.bind_ok hr
    obtain ⟨found', hfound'⟩ := countsAsFactEvidence_quiet h.quiet link
    rw [hfound']
    cases found' with
    | true => rfl
    | false =>
      cases found with
      | true => rw [countsAsFactEvidence_extends h hfound] at hfound'; cases hfound'
      | false => exact ih hrest

/-- Evidence that is enough stays enough where the resolver finds no less. -/
lemma evidenceReason_extends {r r' : Resolver} (h : r.Extends r') {type : MemoryType} {links : List EvidenceLink}
    (hr : evidenceReason type links r = .ok none) : evidenceReason type links r' = .ok none := by
  rw [evidenceReason] at hr ⊢
  by_cases htype : type = .decision
  · rwa [if_pos htype] at hr ⊢
  by_cases hlink : links.any checkable = true
  · rw [if_neg htype, if_pos hlink]
  rw [if_neg htype, if_neg hlink] at hr ⊢
  obtain ⟨found, hfound, hrest⟩ := Checks.bind_ok hr
  cases found with
  | false => cases hrest
  | true =>
    rw [anyM_counts_extends h hfound]
    rfl

lemma Admitted.extends {r r' : Resolver} (h : r.Extends r') {m : MemoryRecord} (hm : Admitted r m) : Admitted r' m :=
  fun hstatus => ⟨(hm hstatus).1, evidenceReason_extends h (hm hstatus).2⟩

end ContinuityLedger.Records
