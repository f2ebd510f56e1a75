import ContinuityLedger.Blocks.Block
import ContinuityLedger.Evidence.Links

/-! The verifier's second look at evidence: every evidence object that an entry of a block cites must still exist and
still hash to its id. -/

namespace ContinuityLedger.Blocks

open Foundations Foundations.Sha256 Ledger Evidence

/-- `j -> key`, where a missing member is null. -/
def member (j : Jsonb.Value) (key : String) : Jsonb.Value :=
  match j with
  | .object fields => (fields.lookup key).getD .null
  | _ => .null

/-- `j ->> key`. -/
def memberText (j : Jsonb.Value) (key : String) : Option String :=
  match member j key with
  | .null => none
  | .string s => some s
  | other => some other.text

/-- `jsonb_array_elements(coalesce(image -> 'evidence', '[]'))`, which raises on what is no array. -/
def evidenceItems (image : Option Jsonb.Value) : Except Exn (List Jsonb.Value) :=
  match image with
  | none => .ok []
  | some (.object fields) =>
    match fields.lookup "evidence" with
    | none => .ok []
    | some (.array items) => .ok items
    | some _ => .error .value
  | some _ => .ok []

/-- The distinct refs of the links to evidence objects in a range of the history, in order, without empty ones. -/
def citedRefs (t : Tables) (first last : ℤ) : Except Exn (List String) := do
  let items ← (t.history.filter fun e => first ≤ e.seq && e.seq ≤ last).mapM fun e => do
    let after ← evidenceItems e.after
    let before ← evidenceItems e.before
    pure (after ++ before)
  let refs := (items.flatten.filter fun j => memberText j "kind" = some linkKindName).filterMap fun j => memberText j "ref"
  pure ((refs.dedup.filter (· ≠ "")).mergeSort fun a b => a ≤ b)

def citeProblems (rt : Runtime) (objects : List EvidenceObject) (label ref : String) :
    Except Exn (List (String × PyStr)) :=
  match getEvidenceObject objects ref with
  | none => .ok [(label, text ("cites evidence object " ++ ref ++ ", which does not exist"))]
  | some obj =>
    (verifyStored rt obj).map fun problems =>
      problems.map fun p => (label, text ("cites evidence object " ++ ref ++ ": ") ++ p)

def blockLabel (b : Block) : String := "block " ++ toString b.height

def blockCiteProblems (rt : Runtime) (t : Tables) (objects : List EvidenceObject) (b : Block) :
    Except Exn (List (String × PyStr)) := do
  let refs ← citedRefs t b.firstSeq b.lastSeq
  let problems ← refs.mapM (citeProblems rt objects (blockLabel b))
  pure problems.flatten

/-- `_block_evidence_problems`. -/
def blockEvidenceProblems (rt : Runtime) (t : Tables) (blocks : List Block) (objects : List EvidenceObject) :
    Except Exn (List (String × PyStr)) := do
  let problems ← (byHeight blocks).mapM (blockCiteProblems rt t objects)
  pure problems.flatten

/-- An item of a range that is a link to an evidence object is looked up under its ref. -/
lemma mem_citedRefs {t : Tables} {first last : ℤ} {refs : List String} (h : citedRefs t first last = .ok refs)
    {e : HistoryEntry} (he : e ∈ t.history) (hseq : first ≤ e.seq ∧ e.seq ≤ last) {items : List Jsonb.Value}
    (hitems : evidenceItems e.after = .ok items) {j : Jsonb.Value} (hj : j ∈ items)
    (hkind : memberText j "kind" = some linkKindName) {ref : String} (href : memberText j "ref" = some ref)
    (hne : ref ≠ "") : ref ∈ refs := by
  obtain ⟨all, hall, hrest⟩ := Checks.bind_ok h
  obtain rfl := Except.ok.inj hrest
  obtain ⟨mine, hmine, hof⟩ := (Checks.mapM_ok_iff hall).1 e (List.mem_filter.mpr ⟨he, by simpa using hseq⟩)
  obtain ⟨after, hafter, hof⟩ := Checks.bind_ok hof
  obtain ⟨before, -, hof⟩ := Checks.bind_ok hof
  obtain rfl := Except.ok.inj hof
  obtain rfl : items = after := Except.ok.inj (hitems.symm.trans hafter)
  have hin : j ∈ all.flatten := List.mem_flatten.mpr ⟨_, hmine, List.mem_append_left _ hj⟩
  rw [List.mem_mergeSort, List.mem_filter, List.mem_dedup, List.mem_filterMap]
  exact ⟨⟨j, List.mem_filter.mpr ⟨hin, by simpa using hkind⟩, href⟩, by simpa using hne⟩

/-- What is wrong with an object that a block cites is reported for the block. -/
lemma mem_blockEvidenceProblems {rt : Runtime} {t : Tables} {blocks : List Block} {objects : List EvidenceObject}
    {found : List (String × PyStr)} (h : blockEvidenceProblems rt t blocks objects = .ok found) {b : Block}
    (hb : b ∈ blocks) {ref : String} (href : ∀ refs, citedRefs t b.firstSeq b.lastSeq = .ok refs → ref ∈ refs) :
    ∃ problems, citeProblems rt objects (blockLabel b) ref = .ok problems ∧ ∀ p ∈ problems, p ∈ found := by
  obtain ⟨all, hall, hrest⟩ := Checks.bind_ok h
  obtain rfl := Except.ok.inj hrest
  obtain ⟨mine, hmine, hof⟩ := (Checks.mapM_ok_iff hall).1 b ((List.mergeSort_perm _ _).mem_iff.mpr hb)
  obtain ⟨refs, hrefs, hof⟩ := Checks.bind_ok hof
  obtain ⟨lists, hlists, hof⟩ := Checks.bind_ok hof
  obtain rfl := Except.ok.inj hof
  obtain ⟨problems, hproblems, hcite⟩ := (Checks.mapM_ok_iff hlists).1 ref (href refs hrefs)
  refine ⟨problems, hcite, fun p hp => ?_⟩
  exact List.mem_flatten.mpr ⟨_, hmine, List.mem_flatten.mpr ⟨problems, hproblems, hp⟩⟩

end ContinuityLedger.Blocks
