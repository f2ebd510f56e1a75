import ContinuityLedger.Foundations.JsonTorn
import ContinuityLedger.Foundations.PyText

/-! Artifacts of the AMUL field, the line each is written in, and what a line is read as. -/

namespace ContinuityLedger.Amul

open Foundations Foundations.Sha256 Foundations.Codec

inductive ArtifactResolution
  | summary
  | detail
  | evidence
deriving DecidableEq

namespace ArtifactResolution

def all : List ArtifactResolution := [summary, detail, evidence]

def text : ArtifactResolution → String
  | summary => "summary"
  | detail => "detail"
  | evidence => "evidence"

def codec : Codec ArtifactResolution := Codec.literal all text (by intro a; cases a <;> rfl)

end ArtifactResolution

def schema : String := "amul-artifact-v1"

structure ProvenanceEvent where
  actor : String
  action : String
  moment : String
  ref : Option String
deriving DecidableEq

namespace ProvenanceEvent

def data (e : ProvenanceEvent) : Data :=
  .obj [("actor", .str e.actor), ("action", .str e.action), ("at", .str e.moment), ("ref", e.ref.elim .null .str)]

def nullableString : Codec (Option String) := Codec.nullable Codec.string rfl

def read : Json → Option ProvenanceEvent
  | .obj d => do
    let actor ← required Codec.string d "actor"
    let action ← required Codec.string d "action"
    let moment ← required Codec.string d "at"
    let ref ← defaulted nullableString none d "ref"
    return ⟨actor, action, moment, ref⟩
  | _ => none

end ProvenanceEvent

/-- One resolution of one memory of the ledger. -/
structure Artifact where
  artifactId : String
  ledgerId : String
  resolution : ArtifactResolution
  payload : String
  payloadSha256 : String
  authorityClass : String
  lineageParentIds : List String
  derivedFrom : List String
  provenanceChain : List ProvenanceEvent
  createdAt : String
  schemaVersion : String
deriving DecidableEq

namespace Artifact

def strings (ss : List String) : Data := .arr (ss.map .str)

/-- `model_dump()`. -/
def data (a : Artifact) : Data :=
  .obj [("artifact_id", .str a.artifactId), ("ledger_id", .str a.ledgerId), ("resolution", .str a.resolution.text),
    ("payload", .str a.payload), ("payload_sha256", .str a.payloadSha256), ("authority_class", .str a.authorityClass),
    ("lineage_parent_ids", strings a.lineageParentIds), ("derived_from", strings a.derivedFrom),
    ("provenance_chain", .arr (a.provenanceChain.map ProvenanceEvent.data)), ("created_at", .str a.createdAt),
    ("schema_version", .str a.schemaVersion)]

def readList {A : Type} (read : Json → Option A) (d : Members) (key : String) : Option (List A) :=
  match member d key with
  | none => some []
  | some (.arr items) => items.mapM read
  | some _ => none

/-- `Artifact(**value)`. -/
def read : Json → Option Artifact
  | .obj d => do
    let artifactId ← required Codec.string d "artifact_id"
    let ledgerId ← required Codec.string d "ledger_id"
    let resolution ← required ArtifactResolution.codec d "resolution"
    let payload ← required Codec.string d "payload"
    let payloadSha256 ← required Codec.string d "payload_sha256"
    let authorityClass ← required Codec.string d "authority_class"
    let lineageParentIds ← readList Codec.readString d "lineage_parent_ids"
    let derivedFrom ← readList Codec.readString d "derived_from"
    let provenanceChain ← readList ProvenanceEvent.read d "provenance_chain"
    let createdAt ← required Codec.string d "created_at"
    let schemaVersion ← defaulted Codec.string schema d "schema_version"
    return ⟨artifactId, ledgerId, resolution, payload, payloadSha256, authorityClass, lineageParentIds, derivedFrom,
      provenanceChain, createdAt, schemaVersion⟩
  | _ => none

/-- `json.dumps(artifact.model_dump(), separators=(",", ":"))`. -/
def text (a : Artifact) : List Char := a.data.ascii

/-- `Artifact(**json.loads(line))`. -/
def parse (py : Python) (line : List Char) : Option Artifact :=
  match Json.loads py (PyStr.ofChars line) with
  | .ok j => read j
  | .error _ => none

/-! ### What is written is read -/

lemma jsonItems_map {A : Type} (f : A → Data) (as : List A) : Data.jsonItems (as.map f) = as.map fun a => (f a).json := by
  induction as with
  | nil => rfl
  | cons a as ih => rw [List.map_cons, Data.jsonItems, ih, List.map_cons]

lemma readString_str (s : String) : readString (.str (PyStr.ofString s)) = some s := readString_eq_some.mpr rfl

lemma read_event (e : ProvenanceEvent) : ProvenanceEvent.read e.data.json = some e := by
  obtain ⟨actor, action, moment, ref⟩ := e
  cases ref <;>
    simp [ProvenanceEvent.data, Data.json, Data.jsonMembers, ProvenanceEvent.read, required, defaulted,
      ProvenanceEvent.nullableString, Codec.nullable, readNullable, Codec.string, readString_str]

lemma mapM_read {A : Type} {f : A → Data} {read : Json → Option A} (h : ∀ a, read (f a).json = some a) (as : List A) :
    (Data.jsonItems (as.map f)).mapM read = some as := by
  rw [jsonItems_map]
  induction as with
  | nil => rfl
  | cons a as ih => simp [h, ih]

lemma read_data (a : Artifact) : read a.data.json = some a := by
  have hres (r : ArtifactResolution) : ArtifactResolution.codec.read (.str (PyStr.ofString r.text)) = some r :=
    ArtifactResolution.codec.read_write r
  have hstrings (ss : List String) : (Data.jsonItems (ss.map .str)).mapM readString = some ss :=
    mapM_read readString_str ss
  simp [data, strings, Data.json, Data.jsonMembers, read, required, defaulted, readList, Codec.string, readString_str, hres, hstrings,
    mapM_read read_event]

/-! ### The text -/

lemma proper_items {A : Type} {f : A → Data} (h : ∀ a, (f a).proper) (as : List A) : Data.properItems (as.map f) := by
  induction as with
  | nil => exact trivial
  | cons a as ih => exact ⟨h a, ih⟩

lemma unnumbered_items {A : Type} {f : A → Data} (h : ∀ a, (f a).unnumbered) (as : List A) :
    Data.unnumberedItems (as.map f) := by
  induction as with
  | nil => exact trivial
  | cons a as ih => exact ⟨h a, ih⟩

lemma depth_items {A : Type} {f : A → Data} {n : ℕ} (h : ∀ a, Json.depth (f a).json ≤ n) (as : List A) :
    Json.depthItems (Data.jsonItems (as.map f)) ≤ n := by
  induction as with
  | nil => exact Nat.zero_le n
  | cons a as ih => exact max_le (h a) ih

lemma proper_event (e : ProvenanceEvent) : e.data.proper := by
  obtain ⟨actor, action, moment, ref⟩ := e
  cases ref <;> simp [ProvenanceEvent.data, Data.proper, Data.properMembers]

lemma unnumbered_event (e : ProvenanceEvent) : e.data.unnumbered := by
  obtain ⟨actor, action, moment, ref⟩ := e
  cases ref <;> simp [ProvenanceEvent.data, Data.unnumbered, Data.unnumberedMembers]

lemma depth_event (e : ProvenanceEvent) : Json.depth e.data.json ≤ 1 := by
  obtain ⟨actor, action, moment, ref⟩ := e
  cases ref <;> simp [ProvenanceEvent.data, Data.json, Data.jsonMembers, Json.depth, Json.depthMembers]

lemma proper_data (a : Artifact) : a.data.proper := by
  have hstrings (ss : List String) : (strings ss).proper := proper_items (f := Data.str) (fun _ => trivial) ss
  simp [data, Data.proper, Data.properMembers, hstrings, proper_items proper_event]

lemma unnumbered_data (a : Artifact) : a.data.unnumbered := by
  have hstrings (ss : List String) : (strings ss).unnumbered := unnumbered_items (f := Data.str) (fun _ => trivial) ss
  simp [data, Data.unnumbered, Data.unnumberedMembers, hstrings, unnumbered_items unnumbered_event]

lemma depth_data (a : Artifact) : Json.depth a.data.json ≤ 3 := by
  have hstrings (ss : List String) : Json.depth (strings ss).json ≤ 2 := by
    have h := depth_items (f := Data.str) (n := 0) (fun s => Nat.le_refl 0) ss
    simp only [strings, Data.json, Json.depth]
    omega
  have hevents : Json.depthItems (Data.jsonItems (a.provenanceChain.map ProvenanceEvent.data)) ≤ 1 :=
    depth_items depth_event _
  have h₁ := hstrings a.lineageParentIds
  have h₂ := hstrings a.derivedFrom
  simp [data, Data.json, Data.jsonMembers, Json.depth, Json.depthMembers]
  omega

lemma parse_text (py : Python) (hpy : 3 ≤ py.loadsNesting) (a : Artifact) : parse py a.text = some a := by
  rw [parse, text, Data.loads_ascii py (proper_data a) ((depth_data a).trans hpy)]
  exact read_data a

lemma parse_torn (py : Python) (hpy : 3 ≤ py.loadsNesting) (a : Artifact) {p q : List Char} (hq : q ≠ [])
    (h : p ++ q = a.text) : parse py p = none := by
  obtain ⟨e, he⟩ := Data.loads_torn py (proper_data a) (unnumbered_data a) ((depth_data a).trans hpy) hq h
  rw [parse, he]

lemma text_head (a : Artifact) : ∃ cs, a.text = '{' :: cs := ⟨_, rfl⟩

lemma printable_text (a : Artifact) : Data.Printable a.text := Data.printable_ascii _

end Artifact

end ContinuityLedger.Amul
