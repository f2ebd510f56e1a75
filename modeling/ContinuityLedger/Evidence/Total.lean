import ContinuityLedger.Evidence.Links
import ContinuityLedger.Foundations.JsonBytes

/-! Creating an evidence object and checking a stored one: on which inputs they raise what nothing catches. -/

namespace ContinuityLedger.Evidence

open Foundations Foundations.Sha256 Foundations.Json

/-! ### What raises -/

/-- `method not in FACT_METHODS` of a list or a dict. -/
def unhashable (schemaId : String) (payload : Payload) : Bool :=
  schemaId = cesFact && match Dict.get payload (text "method") with
    | some (.arr _) | some (.obj _) => true
    | _ => false

lemma methodProblems_error {payload : Payload} {e : Exn} :
    methodProblems payload = .error e ↔ e = .type ∧ unhashable cesFact payload = true := by
  rw [methodProblems, field, unhashable]
  cases Dict.get payload (text "method") with
  | none => simp
  | some j => cases j <;> simp [eq_comm]

lemma validatePayload_error (rt : Runtime) {schemaId : String} {payload : Payload} {e : Exn} :
    validatePayload rt schemaId payload = .error e ↔ e = .type ∧ unhashable schemaId payload = true := by
  unfold validatePayload
  split_ifs with h₁ h₂ h₃
  · subst h₁
    have hne : unhashable cesDecision payload = false := by
      rw [unhashable, decide_eq_false (by decide : cesDecision ≠ cesFact), Bool.false_and]
    simp [hne]
  · subst h₂
    cases hm : methodProblems payload with
    | error e' =>
      have h := methodProblems_error.mp hm
      simp only [bind, Except.bind, Except.error.injEq, h.1, h.2, and_true, eq_comm]
    | ok problems =>
      have hne : unhashable cesFact payload ≠ true := fun h => by
        have := methodProblems_error.mpr ⟨rfl, h⟩
        rw [hm] at this
        cases this
      simp [bind, Except.bind, pure, Except.pure, hne]
  · subst h₃
    have hne : unhashable cesReplayReceipt payload = false := by
      rw [unhashable, decide_eq_false (by decide : cesReplayReceipt ≠ cesFact), Bool.false_and]
    simp [hne]
  · have hne : unhashable schemaId payload = false := by
      rw [unhashable, decide_eq_false h₂, Bool.false_and]
    simp [hne]

/-- No float that JSON has no text for, no integer too long to print, no containers too deep, no surrogate alone. -/
structure Writable (py : Python) (j : Json) : Prop where
  finite : finite j = true
  printable : printable j = true
  depth : depth j ≤ py.dumpsNesting
  plain : plain j = true

section

variable {py : Python} {schemaId : String} {payload : Payload} {pointer : Option Payload}

lemma canonicalBytes_ok : (∃ data, canonicalBytes py schemaId payload pointer = .ok data) ↔
    Writable py (envelope schemaId payload pointer) := by
  rw [canonicalBytes, dumps]
  by_cases hf : finite (envelope schemaId payload pointer) = true
  · by_cases hp : printable (envelope schemaId payload pointer) = true
    · by_cases hd : py.dumpsNesting < depth (envelope schemaId payload pointer)
      · simp only [hf, hp, hd, Bool.not_true, Bool.false_eq_true, if_false, if_true, reduceCtorEq, exists_false, false_iff]
        exact fun h => absurd h.depth (Nat.not_le.mpr hd)
      · have hs := PyStr.encode_isSome_eq (Json.text (envelope schemaId payload pointer))
        rw [scalars_text] at hs
        simp only [hf, hp, hd, Bool.not_true, Bool.false_eq_true, if_false]
        cases he : PyStr.encode (Json.text (envelope schemaId payload pointer)) with
        | none =>
          rw [he] at hs
          simp only [reduceCtorEq, exists_false, false_iff]
          exact fun h => absurd h.plain (by simp [← hs])
        | some data =>
          rw [he] at hs
          exact iff_of_true ⟨data, rfl⟩ ⟨hf, hp, Nat.le_of_not_lt hd, hs.symm⟩
    · simp only [hf, hp, Bool.not_true, Bool.not_false, Bool.false_eq_true, if_false, if_true, reduceCtorEq, exists_false, false_iff]
      exact fun h => absurd h.printable (by simp [hp])
  · simp only [hf, Bool.not_false, if_true, reduceCtorEq, exists_false, false_iff]
    exact fun h => absurd h.finite (by simp [hf])

lemma canonicalBytes_recursion : canonicalBytes py schemaId payload pointer = .error .recursion ↔
    finite (envelope schemaId payload pointer) = true ∧ printable (envelope schemaId payload pointer) = true ∧
      py.dumpsNesting < depth (envelope schemaId payload pointer) := by
  rw [canonicalBytes, dumps]
  by_cases hf : finite (envelope schemaId payload pointer) = true
  · by_cases hp : printable (envelope schemaId payload pointer) = true
    · by_cases hd : py.dumpsNesting < depth (envelope schemaId payload pointer)
      · simp [hf, hp, hd]
      · cases he : PyStr.encode (Json.text (envelope schemaId payload pointer)) <;> simp [hf, hp, hd, he]
    · simp [hf, hp]
  · simp [hf]

end

/-! ### Creating -/

lemma refuseIf_raised {α : Type} {c : Prop} [Decidable c] {e : EvidenceError} {f : Unit → Except Refusal α} {x : Exn} :
    refuseIf c e >>= f = .error (.raised x) ↔ ¬ c ∧ f () = .error (.raised x) := by
  rw [refuseIf]
  split_ifs with h <;> simp [h, bind, Except.bind]

lemma mapError_raised {α β : Type} {y : Except Exn β} {f : β → Except Refusal α} {x : Exn} :
    y.mapError Refusal.raised >>= f = .error (.raised x) ↔ y = .error x ∨ ∃ b, y = .ok b ∧ f b = .error (.raised x) := by
  cases y <;> simp [Except.mapError, bind, Except.bind]

lemma buildObject_raised {rt : Runtime} {req : EvidenceObjectCreate} {x : Exn} : buildObject rt req = .error (.raised x) ↔
    req.schemaId ∈ knownSchemas ∧ walkAll req = [] ∧ (validatePayload rt req.schemaId req.payload = .error x ∨
      validatePayload rt req.schemaId req.payload = .ok [] ∧ (req.pointer.map validatePointer).getD [] = [] ∧
        canonicalBytes rt.toPython req.schemaId req.payload req.pointer = .error x) := by
  rw [buildObject, refuseIf_raised, not_not, refuseIf_raised, not_not, mapError_raised]
  refine and_congr_right fun _ => and_congr_right fun _ => or_congr_right ?_
  constructor
  · rintro ⟨schema, hschema, h⟩
    obtain ⟨hnone, hrest⟩ := refuseIf_raised.mp h
    obtain ⟨rfl, hpointer⟩ := List.append_eq_nil_iff.mp (not_not.mp hnone)
    obtain h | ⟨data, -, h⟩ := mapError_raised.mp hrest
    · exact ⟨hschema, hpointer, h⟩
    · obtain ⟨-, h⟩ := refuseIf_raised.mp h
      obtain ⟨-, h⟩ := refuseIf_raised.mp h
      cases h
  · rintro ⟨hschema, hpointer, h⟩
    refine ⟨[], hschema, refuseIf_raised.mpr ⟨?_, mapError_raised.mpr (.inl h)⟩⟩
    simpa using hpointer

/-- What is not refused before has a method that can be looked up, and what passes every check can be written. -/
def Answerable (rt : Runtime) (req : EvidenceObjectCreate) : Prop :=
  req.schemaId ∈ knownSchemas → walkAll req = [] → unhashable req.schemaId req.payload = false ∧
    (validatePayload rt req.schemaId req.payload = .ok [] → (req.pointer.map validatePointer).getD [] = [] →
      Writable rt.toPython (envelope req.schemaId req.payload req.pointer))

lemma answers_iff {rt : Runtime} {req : EvidenceObjectCreate} :
    (∀ x, buildObject rt req ≠ .error (.raised x)) ↔ Answerable rt req := by
  simp only [ne_eq, buildObject_raised, not_and, not_or, Answerable]
  rw [forall_comm]
  refine forall_congr' fun _ => ?_
  rw [forall_comm]
  refine forall_congr' fun _ => ?_
  rw [forall_and]
  refine and_congr ?_ ?_
  · simp [validatePayload_error]
  · rw [← canonicalBytes_ok]
    constructor
    · intro h hvalid hpointer
      cases hc : canonicalBytes rt.toPython req.schemaId req.payload req.pointer with
      | error x => exact absurd hc (h x hvalid hpointer)
      | ok data => exact ⟨data, rfl⟩
    · intro h x hvalid hpointer hc
      obtain ⟨data, hdata⟩ := h hvalid hpointer
      rw [hdata] at hc
      cases hc

/-! ### Checking -/

/-- What is not reported before has containers that can be written, and a method that can be looked up. -/
def Checkable (rt : Runtime) (obj : EvidenceObject) : Prop :=
  matchesId obj.id = true → walkProblems obj.payload "payload" = [] →
    (finite (envelope obj.schemaId obj.payload obj.pointer) = true →
      printable (envelope obj.schemaId obj.payload obj.pointer) = true →
        depth (envelope obj.schemaId obj.payload obj.pointer) ≤ rt.dumpsNesting) ∧
    (Writable rt.toPython (envelope obj.schemaId obj.payload obj.pointer) → unhashable obj.schemaId obj.payload = false)

lemma verifyStored_error {rt : Runtime} {obj : EvidenceObject} {x : Exn} : verifyStored rt obj = .error x ↔
    matchesId obj.id = true ∧ walkProblems obj.payload "payload" = [] ∧
      (x = .recursion ∧ canonicalBytes rt.toPython obj.schemaId obj.payload obj.pointer = .error .recursion ∨
        (∃ data, canonicalBytes rt.toPython obj.schemaId obj.payload obj.pointer = .ok data) ∧
          validatePayload rt obj.schemaId obj.payload = .error x) := by
  unfold verifyStored objectId
  by_cases hid : matchesId obj.id = true
  · by_cases hwalk : walkProblems obj.payload "payload" = []
    · simp only [hid, hwalk, Bool.not_true, Bool.false_eq_true, if_false, ne_eq, not_true_eq_false, true_and]
      cases hc : canonicalBytes rt.toPython obj.schemaId obj.payload obj.pointer with
      | error e => cases e <;> simp [Except.map, eq_comm]
      | ok data =>
        cases hv : validatePayload rt obj.schemaId obj.payload with
        | error e => simp [Except.map, bind, Except.bind]
        | ok problems => simp [Except.map, bind, Except.bind, pure, Except.pure]
    · simp [hid, hwalk]
  · simp [hid]

lemma reports_iff {rt : Runtime} {obj : EvidenceObject} : (∀ x, verifyStored rt obj ≠ .error x) ↔ Checkable rt obj := by
  simp only [ne_eq, verifyStored_error, not_and, not_or, Checkable]
  rw [forall_comm]
  refine forall_congr' fun _ => ?_
  rw [forall_comm]
  refine forall_congr' fun _ => ?_
  rw [forall_and]
  refine and_congr ?_ ?_
  · simp only [forall_eq, canonicalBytes_recursion, not_and, Nat.not_lt]
  · simp only [canonicalBytes_ok, validatePayload_error]
    simp

/-! ### The store -/

/-- A store that was filled by puts. -/
inductive Stored (rt : Runtime) : List EvidenceObject → Prop
  | nil : Stored rt []
  | put {now : String} {objects after : List EvidenceObject} {req : EvidenceObjectCreate} {obj : EvidenceObject}
      {created : Bool} : Stored rt objects → putEvidenceObject rt now objects req = .ok (obj, created, after) →
      Stored rt after

lemma Stored.intact {rt : Runtime} {objects : List EvidenceObject} (h : Stored rt objects) : Intact rt objects := by
  induction h with
  | nil => exact List.forall_mem_nil _
  | put _ hput ih => exact (putEvidenceObject_intact ih hput).1

/-- What is built is put, or is there already; what is there under its id verifies. -/
lemma put_of_build {rt : Runtime} {objects : List EvidenceObject} {req : EvidenceObjectCreate} {oid : String} {data : Bytes}
    (h : Stored rt objects) (hbuild : buildObject rt req = .ok (oid, data)) (now : String) :
    ∃ obj created after, putEvidenceObject rt now objects req = .ok (obj, created, after) ∧
      getEvidenceObject after oid = some obj ∧ verifyStored rt obj = .ok [] := by
  cases hget : getEvidenceObject objects oid with
  | some old =>
    refine ⟨old, false, objects, ?_, hget, h.intact old (KeyedTable.row_mem hget)⟩
    simp [putEvidenceObject, hbuild, hget, bind, Except.bind, pure, Except.pure]
  | none =>
    let obj : EvidenceObject := ⟨oid, req.schemaId, req.payload, req.pointer, data.length, now, req.sourceAgent⟩
    refine ⟨obj, true, objects ++ [obj], ?_, ?_, buildObject_verified hbuild rfl rfl rfl rfl⟩
    · simp only [putEvidenceObject, hbuild, hget, bind, Except.bind, pure, Except.pure]
      rfl
    · rw [getEvidenceObject, KeyedTable.row_append_singleton, ← getEvidenceObject, hget]
      exact if_pos rfl

/-- Creating answers or refuses, checking reports, and what is created verifies. -/
structure Agrees (rt : Runtime) (objects : List EvidenceObject) (req : EvidenceObjectCreate) (obj : EvidenceObject) : Prop where
  answers : ∀ x, buildObject rt req ≠ .error (.raised x)
  reports : ∀ x, verifyStored rt obj ≠ .error x
  verified : ∀ oid data, buildObject rt req = .ok (oid, data) → ∀ now, ∃ put created after,
    putEvidenceObject rt now objects req = .ok (put, created, after) ∧ getEvidenceObject after oid = some put ∧
      verifyStored rt put = .ok []

lemma recursion_pos : 0 < 900 := Nat.succ_pos 899

def standardRuntime : Runtime := ⟨⟨id, 900, 900, recursion_pos, recursion_pos⟩, fun _ => true, PyStr.ofString, fun _ => []⟩

def decision : EvidenceObjectCreate := ⟨cesDecision, [(text "statement", .str (text "ship it")),
  (text "authority", .str (text "the operator")), (text "source", .str (text "chat 7"))], none, "operator", none⟩

def misnamed : EvidenceObject := ⟨"chat 7", cesDecision, [], none, 2, "2026-10-01T00:00:00+00:00", "operator"⟩

/-- A fact whose method is an empty list. -/
def listed : EvidenceObjectCreate := ⟨cesFact, [(text "observation", .str (text "it builds")),
  (text "source", .str (text "ci")), (text "method", .arr [])], none, "operator", none⟩

end ContinuityLedger.Evidence
