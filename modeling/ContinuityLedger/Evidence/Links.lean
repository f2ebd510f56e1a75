import ContinuityLedger.Evidence.Object
import ContinuityLedger.Foundations.PyText

/-! Links from records to evidence: which of them name an evidence object, what the stores' resolver finds for these,
and the check a record's links pass before it is written. -/

namespace ContinuityLedger.Evidence

open Foundations

structure EvidenceLink where
  kind : String
  ref : String
  note : String
  refLength : 1 ≤ ref.length ∧ ref.length ≤ 1000
  noteLength : note.length ≤ 500
deriving DecidableEq

/-- What a link resolved to. -/
structure EvidenceInfo where
  id : String
  schemaId : String
deriving DecidableEq

abbrev Resolver := String → Except Refusal (Option EvidenceInfo)

def linkKindName : String := "evidence-object"

def linkKind (link : EvidenceLink) : String := PyText.lower (PyText.strip link.kind)

def linkRef (link : EvidenceLink) : String := PyText.strip link.ref

def unresolved (ref : String) (message : String) : Reason := ⟨"evidence_object_unresolved", some ref, text message⟩

/-- The reasons one link gives against its record; what is no `EvidenceError` is not caught. -/
def linkReasons (resolve : Resolver) (link : EvidenceLink) : Except Refusal (List Reason) :=
  if linkKind link ≠ linkKindName then .ok [] else
  let ref := linkRef link
  if !matchesId ref then
    .ok [unresolved (PyText.first 120 ref) "not a valid evidence-object id (eo:sha256:<64 hex>)"]
  else match resolve ref with
    | .error (.evidence e) => .ok (if e.reasons = [] then [⟨e.code, some ref, e.message⟩] else e.reasons)
    | .error (.raised e) => .error (.raised e)
    | .ok none => .ok [unresolved ref "no such evidence object in this ledger"]
    | .ok (some _) => .ok []

def checkLinks (evidence : List EvidenceLink) (resolve : Resolver) : Except Refusal Unit := do
  let reasons ← evidence.mapM (linkReasons resolve)
  if reasons.flatten ≠ [] then
    throw (.evidence ⟨"evidence_object_invalid",
      text "an evidence link does not resolve to an intact evidence object", reasons.flatten, 422⟩)

/-- Only an intact FactEvidence object proves a fact. -/
def countsAsFactEvidence (resolve : Resolver) (link : EvidenceLink) : Except Refusal Bool :=
  if linkKind link ≠ linkKindName then .ok false else
  match resolve (linkRef link) with
  | .error (.evidence _) => .ok false
  | .error (.raised e) => .error (.raised e)
  | .ok info => .ok (info.any fun i => i.schemaId = cesFact)

/-- The stores' `_resolve_evidence`. -/
def resolveEvidence (rt : Runtime) (objects : List EvidenceObject) : Resolver := fun ref =>
  match getEvidenceObject objects ref with
  | none => .ok none
  | some obj =>
    match verifyStored rt obj with
    | .error e => .error (.raised e)
    | .ok [] => .ok (some ⟨obj.id, obj.schemaId⟩)
    | .ok (problem :: _) =>
      .error (.evidence ⟨"evidence_object_invalid", text "the stored evidence object is damaged",
        [⟨"evidence_object_hash_mismatch", some ref, problem⟩], 422⟩)

/-- It answers, or reports a damaged object. -/
def Resolver.Quiet (r : Resolver) : Prop := ∀ ref e, r ref ≠ .error (.raised e)

/-- Whatever `r` finds intact, `r'` finds too. -/
structure Resolver.Extends (r r' : Resolver) : Prop where
  found : ∀ ref info, r ref = .ok (some info) → r' ref = .ok (some info)
  quiet : r'.Quiet

lemma Resolver.Extends.refl {r : Resolver} (h : r.Quiet) : r.Extends r := ⟨fun _ _ h => h, h⟩

lemma Resolver.Extends.trans {r s u : Resolver} (h : r.Extends s) (h' : s.Extends u) : r.Extends u :=
  ⟨fun ref info hr => h'.found ref info (h.found ref info hr), h'.quiet⟩

/-- Every object of the store is what it was when it was created. -/
def Intact (rt : Runtime) (objects : List EvidenceObject) : Prop := ∀ obj ∈ objects, verifyStored rt obj = .ok []

lemma Intact.quiet {rt : Runtime} {objects : List EvidenceObject} (h : Intact rt objects) :
    (resolveEvidence rt objects).Quiet := by
  intro ref e hr
  rw [resolveEvidence] at hr
  cases hget : getEvidenceObject objects ref with
  | none => simp [hget] at hr
  | some obj => simp [hget, h obj (KeyedTable.row_mem hget)] at hr

lemma resolveEvidence_ok {rt : Runtime} {objects : List EvidenceObject} {ref : String} {info : EvidenceInfo}
    (h : resolveEvidence rt objects ref = .ok (some info)) :
    ∃ obj, getEvidenceObject objects ref = some obj ∧ verifyStored rt obj = .ok [] ∧ obj.id = ref := by
  rw [resolveEvidence] at h
  cases hget : getEvidenceObject objects ref with
  | none => simp [hget] at h
  | some obj =>
    rw [hget] at h
    cases hv : verifyStored rt obj with
    | error e => simp [hv] at h
    | ok problems =>
      cases problems with
      | nil => exact ⟨obj, rfl, hv, KeyedTable.row_key hget⟩
      | cons p ps => simp [hv] at h

/-- Objects are only ever added. -/
lemma resolveEvidence_extends {rt : Runtime} {objects more : List EvidenceObject} (h : Intact rt (objects ++ more)) :
    (resolveEvidence rt objects).Extends (resolveEvidence rt (objects ++ more)) := by
  refine ⟨fun ref info hr => ?_, h.quiet⟩
  obtain ⟨obj, hget, -, -⟩ := resolveEvidence_ok hr
  have happ : getEvidenceObject (objects ++ more) ref = some obj := by
    rw [getEvidenceObject, KeyedTable.row] at hget ⊢
    rw [List.find?_append, hget]
    rfl
  rw [resolveEvidence] at hr ⊢
  rw [happ]
  rwa [hget] at hr

/-- A put adds an object that verifies, or changes nothing. -/
lemma putEvidenceObject_intact {rt : Runtime} {now : String} {objects after : List EvidenceObject}
    {req : EvidenceObjectCreate} {obj : EvidenceObject} {created : Bool} (h : Intact rt objects)
    (hput : putEvidenceObject rt now objects req = .ok (obj, created, after)) :
    Intact rt after ∧ ∃ more, after = objects ++ more := by
  obtain ⟨⟨oid, data⟩, hbuild, hrest⟩ := Checks.bind_ok hput
  cases hget : getEvidenceObject objects oid with
  | some old =>
    simp only [hget, pure, Except.pure, Except.ok.injEq, Prod.mk.injEq] at hrest
    obtain ⟨-, -, rfl⟩ := hrest
    exact ⟨h, [], (List.append_nil _).symm⟩
  | none =>
    simp only [hget, pure, Except.pure, Except.ok.injEq, Prod.mk.injEq] at hrest
    obtain ⟨-, -, rfl⟩ := hrest
    refine ⟨fun o ho => ?_, _, rfl⟩
    rcases List.mem_append.mp ho with ho | ho
    · exact h o ho
    · obtain rfl := List.mem_singleton.mp ho
      exact buildObject_verified hbuild rfl rfl rfl rfl

lemma linkReasons_nil {resolve : Resolver} {link : EvidenceLink} (hk : linkKind link = linkKindName)
    (h : linkReasons resolve link = .ok []) : matchesId (linkRef link) = true ∧ ∃ info, resolve (linkRef link) = .ok (some info) := by
  rw [linkReasons, if_neg (by simpa using hk)] at h
  by_cases hid : matchesId (linkRef link) = true
  · refine ⟨hid, ?_⟩
    simp only [hid, Bool.not_true, Bool.false_eq_true, if_false] at h
    cases hr : resolve (linkRef link) with
    | error e =>
      cases e with
      | evidence e =>
        simp only [hr, Except.ok.injEq] at h
        by_cases hn : e.reasons = [] <;> simp [hn] at h
      | raised e => simp [hr] at h
    | ok info =>
      cases info with
      | none => simp [hr] at h
      | some info => exact ⟨info, rfl⟩
  · simp [hid] at h

/-- Every link of the kind has resolved where the check passed. -/
lemma checkLinks_ok {evidence : List EvidenceLink} {resolve : Resolver} (h : checkLinks evidence resolve = .ok ()) :
    ∀ link ∈ evidence, linkKind link = linkKindName →
      matchesId (linkRef link) = true ∧ ∃ info, resolve (linkRef link) = .ok (some info) := by
  obtain ⟨reasons, hm, hrest⟩ := Checks.bind_ok h
  by_cases hempty : reasons.flatten = []
  · intro link hl hk
    obtain ⟨r, hr, hreasons⟩ := (Checks.mapM_ok_iff hm).1 link hl
    obtain rfl : r = [] := List.flatten_eq_nil_iff.mp hempty r hr
    exact linkReasons_nil hk hreasons
  · rw [if_pos hempty] at hrest
    cases hrest

lemma countsAsFactEvidence_quiet {r : Resolver} (h : r.Quiet) (link : EvidenceLink) :
    ∃ b, countsAsFactEvidence r link = .ok b := by
  by_cases hk : linkKind link ≠ linkKindName
  · exact ⟨false, if_pos hk⟩
  · rw [countsAsFactEvidence, if_neg hk]
    cases hr : r (linkRef link) with
    | ok info => exact ⟨_, rfl⟩
    | error e =>
      cases e with
      | evidence e => exact ⟨_, rfl⟩
      | raised e => exact absurd hr (h _ e)

lemma countsAsFactEvidence_extends {r r' : Resolver} (h : r.Extends r') {link : EvidenceLink}
    (hc : countsAsFactEvidence r link = .ok true) : countsAsFactEvidence r' link = .ok true := by
  by_cases hk : linkKind link ≠ linkKindName
  · rw [countsAsFactEvidence, if_pos hk] at hc
    cases hc
  · rw [countsAsFactEvidence, if_neg hk] at hc ⊢
    cases hr : r (linkRef link) with
    | error e => cases e <;> simp [hr] at hc
    | ok info =>
      cases info with
      | none => simp [hr] at hc
      | some info =>
        rw [h.found _ _ hr]
        rwa [hr] at hc

end ContinuityLedger.Evidence
