import ContinuityLedger.Evidence.Identity
import ContinuityLedger.Evidence.Total
import ContinuityLedger.Foundations.JsonChars
import ContinuityLedger.Foundations.TextLines

/-! `FileEvidenceStore`: a file of one JSON line for each evidence object, read as a whole for each call and only ever appended to.
Every object that is built has a line, and what is read of it is the object. -/

namespace ContinuityLedger.Evidence.FileStore

open Foundations Foundations.Sha256 Foundations.Json

def pointerJson : Option Payload → Json
  | none => .null
  | some p => .obj p

/-- `obj.model_dump()`. -/
def modelDump (o : EvidenceObject) : Payload := [(text "id", .str (text o.id)), (text "schema_id", .str (text o.schemaId)),
  (text "payload", .obj o.payload), (text "pointer", pointerJson o.pointer), (text "size_bytes", .int o.sizeBytes),
  (text "created_at", .str (text o.createdAt)), (text "created_by", .str (text o.createdBy))]

def readPayload : Json → Option Payload
  | .obj d => some d
  | _ => none

def readPointer : Option Json → Option (Option Payload)
  | none | some .null => some none
  | some (.obj p) => some (some p)
  | some _ => none

def readSize : Json → Option ℕ
  | .int n => if 0 ≤ n then some n.toNat else none
  | _ => none

/-- `EvidenceObject(**json.loads(line))`, of what a store writes: validation refuses other shapes. -/
def readObject : Json → Option EvidenceObject
  | .obj d => do
    let id ← (Dict.get d (text "id")).bind Codec.readString
    let schemaId ← (Dict.get d (text "schema_id")).bind Codec.readString
    let payload ← (Dict.get d (text "payload")).bind readPayload
    let pointer ← readPointer (Dict.get d (text "pointer"))
    let sizeBytes ← (Dict.get d (text "size_bytes")).bind readSize
    let createdAt ← (Dict.get d (text "created_at")).bind Codec.readString
    let createdBy ← (Dict.get d (text "created_by")).bind Codec.readString
    return ⟨id, schemaId, payload, pointer, sizeBytes, createdAt, createdBy⟩
  | _ => none

def readLine (py : Python) (line : List Char) : Option EvidenceObject :=
  match loads py (PyStr.ofChars line) with
  | .ok j => readObject j
  | .error _ => none

/-- `_read`; a line that is no object raises. -/
def read (py : Python) (file : Bytes) : Option (Dict String EvidenceObject) := do
  let lines ← TextLines.readLines file
  let objects ← (lines.filter fun line => !line.all PyText.isspace).mapM (readLine py)
  return Dict.ofPairs (objects.map fun o => (o.id, o))

/-- `json.dumps(..., sort_keys=True, ensure_ascii=False)`: the separators have a blank behind them. -/
def dumpsSpaced (py : Python) (j : Json) : Option PyStr :=
  if printable j = true ∧ depth j ≤ py.dumpsNesting then some (rendered [.scalar ' '] (sorted j)) else none

/-- The line of an object; a lone surrogate raises before anything is written. -/
def line (py : Python) (o : EvidenceObject) : Option Bytes :=
  ((dumpsSpaced py (.obj (modelDump o))).bind PyStr.encode).map (· ++ [0x0a])

/-- `put`: the object, whether it is new, and the file behind it. -/
def put (py : Python) (now : String) (file : Bytes) (oid : String) (req : EvidenceObjectCreate) (size : ℕ) :
    Option (EvidenceObject × Bool × Bytes) := do
  let objects ← read py file
  match Dict.get objects oid with
  | some existing => return (existing, false, file)
  | none =>
    let obj : EvidenceObject := ⟨oid, req.schemaId, req.payload, req.pointer, size, now, req.sourceAgent⟩
    let written ← line py obj
    return (obj, true, file ++ written)

/-- The outer `none` is a file that cannot be read. -/
def get (py : Python) (file : Bytes) (oid : String) : Option (Option EvidenceObject) :=
  (read py file).map fun objects => Dict.get objects oid

def all (py : Python) (file : Bytes) : Option (List EvidenceObject) := (read py file).map fun objects => objects.map Prod.snd

end ContinuityLedger.Evidence.FileStore

namespace ContinuityLedger.Evidence

open Foundations Foundations.Sha256 Foundations.Json

/-! ### Objects with their keys in order -/

def sortedDict (p : Payload) : Payload := (sortedMembers p).insertionSort memberLE

namespace EvidenceObject

def tidy (o : EvidenceObject) : EvidenceObject :=
  { o with payload := sortedDict o.payload, pointer := o.pointer.map sortedDict }

/-- Equal, whatever the order of the keys. -/
structure Same (o o' : EvidenceObject) : Prop where
  id : o.id = o'.id
  schemaId : o.schemaId = o'.schemaId
  payload : same (.obj o.payload) (.obj o'.payload)
  pointer : Option.Rel (fun p p' => same (.obj p) (.obj p')) o.pointer o'.pointer
  sizeBytes : o.sizeBytes = o'.sizeBytes
  createdAt : o.createdAt = o'.createdAt
  createdBy : o.createdBy = o'.createdBy

/-- No key stands twice in a dict. -/
def Dicts (o : EvidenceObject) : Prop := distinct (.obj o.payload) ∧ ∀ p ∈ o.pointer, distinct (.obj p)

lemma same_iff_tidy {o o' : EvidenceObject} (h : o.Dicts) : o.Same o' ↔ o.tidy = o'.tidy := by
  obtain ⟨id, schemaId, payload, pointer, size, createdAt, createdBy⟩ := o
  obtain ⟨id', schemaId', payload', pointer', size', createdAt', createdBy'⟩ := o'
  have hpayload : same (.obj payload) (.obj payload') ↔ sortedDict payload = sortedDict payload' := by
    rw [same_iff h.1]
    exact Json.obj.injEq .. ▸ Iff.rfl
  have hpointer : Option.Rel (fun p p' => same (.obj p) (.obj p')) pointer pointer' ↔
      pointer.map sortedDict = pointer'.map sortedDict := by
    cases pointer with
    | none => cases pointer' <;> simp
    | some p =>
      cases pointer' with
      | none => simp
      | some p' =>
        have hp : same (.obj p) (.obj p') ↔ sortedDict p = sortedDict p' := by
          rw [same_iff (h.2 p rfl)]
          exact Json.obj.injEq .. ▸ Iff.rfl
        simp [hp]
  rw [tidy, tidy, EvidenceObject.mk.injEq, ← hpayload, ← hpointer]
  constructor
  · rintro ⟨h₁, h₂, h₃, h₄, h₅, h₆, h₇⟩
    exact ⟨h₁, h₂, h₃, h₄, h₅, h₆, h₇⟩
  · rintro ⟨h₁, h₂, h₃, h₄, h₅, h₆, h₇⟩
    exact ⟨h₁, h₂, h₃, h₄, h₅, h₆, h₇⟩

lemma sortedDict_idem {p : Payload} (h : distinct (.obj p)) : sortedDict (sortedDict p) = sortedDict p :=
  Json.obj.inj (sorted_sorted h)

lemma tidy_tidy {o : EvidenceObject} (h : o.Dicts) : o.tidy.tidy = o.tidy := by
  have hpointer : (o.pointer.map sortedDict).map sortedDict = o.pointer.map sortedDict := by
    rw [Option.map_map]
    exact Option.map_congr fun p hp => sortedDict_idem (h.2 p hp)
  simp only [tidy, sortedDict_idem h.1, hpointer]

lemma same_tidy {o : EvidenceObject} (h : o.Dicts) : o.Same o.tidy := (same_iff_tidy h).mpr (tidy_tidy h).symm

lemma dicts_tidy {o : EvidenceObject} (h : o.Dicts) : o.tidy.Dicts := by
  refine ⟨distinct_sorted h.1, fun p hp => ?_⟩
  obtain ⟨q, hq, rfl⟩ := Option.mem_map.mp hp
  exact distinct_sorted (h.2 q hq)

end EvidenceObject

namespace FileStore

/-! ### A line -/

lemma nodup_modelDump (o : EvidenceObject) : ((modelDump o).map Prod.fst).Nodup := by
  simp [modelDump, text, Codec.ofString_inj]

lemma readPointer_sorted (pointer : Option Payload) :
    readPointer (some (sorted (pointerJson pointer))) = some (pointer.map sortedDict) := by
  cases pointer <;> rfl

/-- What is written is read again. -/
lemma readObject_modelDump (o : EvidenceObject) : readObject (sorted (.obj (modelDump o))) = some o.tidy := by
  have hget : ∀ key, Dict.get (sortedDict (modelDump o)) (text key) = (Codec.member (modelDump o) key).map sorted :=
    fun key => get_sorted (nodup_modelDump o) _
  have hstr : ∀ s : String, Codec.readString (sorted (.str (PyStr.ofString s))) = some s := fun s => Codec.readString_eq_some.mpr rfl
  have hsize : readSize (sorted (.int o.sizeBytes)) = some o.sizeBytes := by simp [readSize, sorted]
  have hpayload : readPayload (sorted (.obj o.payload)) = some (sortedDict o.payload) := rfl
  change readObject (.obj (sortedDict (modelDump o))) = _
  rw [readObject]
  simp only [hget]
  simp [modelDump, text, Codec.member_cons, readPointer_sorted, hstr, hsize, hpayload, EvidenceObject.tidy]

/-- `splitlines` does not end a line at it. -/
def keepsLine (p : PyChar) : Prop := ∀ c, p = .scalar c → PyText.isLineBreak c = false

lemma keepsLine_ascii : Ascii keepsLine := by
  intro c hlow hhigh d hd
  obtain rfl := PyChar.scalar.inj hd
  have hne : c.toNat ∉ [0xa, 0xb, 0xc, 0xd, 0x1c, 0x1d, 0x1e, 0x85, 0x2028, 0x2029] := by
    simp only [List.mem_cons, List.not_mem_nil, or_false]
    omega
  simpa [PyText.isLineBreak] using hne

/-- The line of an object that can be written, read and kept on a line. -/
structure Lined (py : Python) (o : EvidenceObject) (cs : List Char) : Prop where
  written : line py o = some (PyStr.utf8Chars (cs ++ ['\n']))
  unbroken : TextLines.Unbroken cs
  filled : cs.all PyText.isspace = false
  reads : readLine py cs = some o.tidy

lemma lined {py : Python} {o : EvidenceObject} (hw : Writable py (.obj (modelDump o))) (hp : proper py (.obj (modelDump o)))
    (hroom : depth (.obj (modelDump o)) ≤ py.loadsNesting) (hkeeps : everyChar keepsLine (.obj (modelDump o))) :
    ∃ cs, Lined py o cs := by
  have hgap : Blank [.scalar ' '] := by simp [Blank, isSpace]
  have hspaced : ∀ p ∈ [PyChar.scalar ' '], keepsLine p := by
    simpa using keepsLine_ascii ' ' (by decide) (by decide)
  have hscalars : PyStr.scalars [.scalar ' '] = true := rfl
  obtain ⟨cs, hcs⟩ := rendered_chars hscalars hw.plain
  refine ⟨cs, ?_, ?_, ?_, ?_⟩
  · rw [line, dumpsSpaced, if_pos ⟨hw.printable, hw.depth⟩, hcs, Option.bind_some, PyStr.encode_ofChars, Option.map_some,
      PyStr.utf8Chars, PyStr.utf8Chars, List.flatMap_append]
    rfl
  · intro c hc
    have hall := every_rendered keepsLine_ascii hspaced (everyChar_sorted hkeeps)
    rw [hcs] at hall
    exact hall (.scalar c) (List.mem_map_of_mem hc) c rfl
  · have hbrace : PyChar.scalar '{' ∈ PyStr.ofChars cs := by
      rw [← hcs, sorted, rendered]
      exact List.mem_cons_self
    obtain ⟨c, hc, heq⟩ := List.mem_map.mp hbrace
    obtain rfl := PyChar.scalar.inj heq
    rw [List.all_eq_false]
    exact ⟨'{', hc, by decide⟩
  · have hread := loads_rendered py hgap (proper_sorted hp) ((depth_sorted _).trans_le hroom)
    rw [readLine, ← hcs, hread]
    exact readObject_modelDump o

/-! ### What is put -/

/-- What `build_object` passes was walked without a problem, and its bytes are few. -/
lemma buildObject_ok {rt : Runtime} {req : EvidenceObjectCreate} {oid : String} {data : Bytes}
    (h : buildObject rt req = .ok (oid, data)) : req.schemaId ∈ knownSchemas ∧ walkAll req = [] ∧
      canonicalBytes rt.toPython req.schemaId req.payload req.pointer = .ok data ∧ data.length ≤ inlineLimitBytes ∧
        oid = idPrefix ++ (hexdigest data).text := by
  obtain ⟨_, hschema, h⟩ := Checks.bind_ok h
  obtain ⟨_, hwalk, h⟩ := Checks.bind_ok h
  obtain ⟨_, -, h⟩ := Checks.bind_ok h
  obtain ⟨_, -, h⟩ := Checks.bind_ok h
  obtain ⟨bytes, hbytes, h⟩ := Checks.bind_ok h
  obtain ⟨_, hlen, h⟩ := Checks.bind_ok h
  obtain ⟨_, -, h⟩ := Checks.bind_ok h
  obtain ⟨rfl, rfl⟩ := Prod.mk.inj (Except.ok.inj h)
  exact ⟨not_not.mp (refuseIf_ok hschema), not_not.mp (refuseIf_ok hwalk), mapError_ok hbytes,
    Nat.le_of_not_lt (refuseIf_ok hlen), rfl⟩

lemma walkAll_accepted {req : EvidenceObjectCreate} (h : walkAll req = []) :
    Content.Accepted ⟨req.schemaId, req.payload, req.pointer⟩ := by
  have hpayload := walkAll_payload h
  refine ⟨hpayload, fun p hp => ?_⟩
  obtain hp : req.pointer = some p := hp
  simp only [walkAll, hp, hpayload] at h
  exact h

/-- The request's strings, its agent and the time end no line. -/
structure OneLine (req : EvidenceObjectCreate) (now : String) : Prop where
  payload : everyChar keepsLine (.obj req.payload)
  pointer : everyChar keepsLine (pointerJson req.pointer)
  agent : everyChar keepsLine (.str (text req.sourceAgent))
  now : everyChar keepsLine (.str (text now))

lemma keepsLine_ofString {s : String} (h : Data.Printable s.toList) : everyChar keepsLine (.str (text s)) :=
  fun p hp => .inr (every_ascii keepsLine_ascii h p hp)

lemma printable_oid (data : Bytes) : Data.Printable (idPrefix ++ (hexdigest data).text).toList := by
  rw [String.toList_append]
  exact Data.printable_append.mpr ⟨by decide, printable_hexText _⟩

lemma printable_schemaId {schemaId : String} (h : schemaId ∈ knownSchemas) : Data.Printable schemaId.toList := by
  revert schemaId
  decide

/-- What a dict's member needs for the dict to be written. -/
def Fits (py : Python) (m : PyStr × Json) : Prop :=
  PyStr.scalars m.1 = true ∧ finite m.2 = true ∧ printable m.2 = true ∧ plain m.2 = true ∧ Json.depth m.2 < py.dumpsNesting

lemma writable_obj {py : Python} {ms : List (PyStr × Json)} : Writable py (.obj ms) ↔ ∀ m ∈ ms, Fits py m := by
  have hdepth : Json.depth (.obj ms) ≤ py.dumpsNesting ↔ ∀ m ∈ ms, Json.depth m.2 < py.dumpsNesting := by
    obtain ⟨n, hn⟩ := Nat.exists_eq_succ_of_ne_zero py.dumps_pos.ne'
    rw [Json.depth, hn, Nat.succ_le_succ_iff, depthMembers_le]
    exact forall₂_congr fun m _ => Nat.lt_succ_iff.symm
  constructor
  · intro h
    have hf := h.finite
    have hp := h.printable
    have hpl := h.plain
    rw [finite, finiteMembers_eq, List.all_eq_true] at hf
    rw [printable, printableMembers_eq, List.all_eq_true] at hp
    rw [plain, plainMembers_eq, List.all_eq_true] at hpl
    intro m hm
    obtain ⟨hkey, hvalue⟩ := (Bool.and_eq_true _ _).mp (hpl m hm)
    exact ⟨hkey, hf m hm, hp m hm, hvalue, hdepth.mp h.depth m hm⟩
  · intro h
    refine ⟨?_, ?_, hdepth.mpr fun m hm => (h m hm).2.2.2.2, ?_⟩
    · rw [finite, finiteMembers_eq, List.all_eq_true]
      exact fun m hm => (h m hm).2.1
    · rw [printable, printableMembers_eq, List.all_eq_true]
      exact fun m hm => (h m hm).2.2.1
    · rw [plain, plainMembers_eq, List.all_eq_true]
      exact fun m hm => (Bool.and_eq_true _ _).mpr ⟨(h m hm).1, (h m hm).2.2.2.1⟩

lemma fits_text (py : Python) (key value : String) : Fits py (text key, .str (text value)) :=
  ⟨PyStr.scalars_ofString _, rfl, rfl, PyStr.scalars_ofString _, py.dumps_pos⟩

/-- What was built has a line. -/
lemma lined_of_build {rt : Runtime} (hroom : 10 ≤ rt.loadsNesting) {req : EvidenceObjectCreate} {oid now : String}
    {data : Bytes} (hbuild : buildObject rt req = .ok (oid, data))
    (hdicts : Content.Dicts ⟨req.schemaId, req.payload, req.pointer⟩) (hline : OneLine req now) :
    ∃ cs, Lined rt.toPython ⟨oid, req.schemaId, req.payload, req.pointer, data.length, now, req.sourceAgent⟩ cs := by
  obtain ⟨hschema, hwalk, hbytes, hlen, rfl⟩ := buildObject_ok hbuild
  have haccepted := walkAll_accepted hwalk
  have hw := writable_obj.mp (canonicalBytes_ok.mp ⟨data, hbytes⟩)
  have hsize : (toString data.length).length ≤ maxDigits := by
    have hfive : (toString data.length).length ≤ 5 := by
      rw [Nat.toString_eq_repr, Nat.length_repr_le_iff (by decide)]
      exact hlen.trans_lt (by decide)
    exact hfive.trans (by decide)
  have hpayload : Fits rt.toPython (text "payload", .obj req.payload) := hw _ (by simp)
  have hpointer : Fits rt.toPython (text "pointer", pointerJson req.pointer) := by
    cases hptr : req.pointer with
    | none => exact ⟨PyStr.scalars_ofString _, rfl, rfl, rfl, rt.dumps_pos⟩
    | some p => exact hw _ (by simp [hptr, pointerJson])
  have hpointerWalk : proper rt.toPython (pointerJson req.pointer) ∧ Json.depth (pointerJson req.pointer) ≤ 9 := by
    cases hptr : req.pointer with
    | none => exact ⟨trivial, Nat.zero_le _⟩
    | some p =>
      rw [hptr] at hpointer
      exact ⟨proper_of_walk _ (haccepted.2 p hptr) (hdicts.2 p hptr) hpointer.2.2.1, depth_of_walk (haccepted.2 p hptr)⟩
  have hpayloadWalk : proper rt.toPython (.obj req.payload) ∧ Json.depth (.obj req.payload) ≤ 9 :=
    ⟨proper_of_walk _ haccepted.1 hdicts.1 hpayload.2.2.1, depth_of_walk haccepted.1⟩
  apply lined
  · rw [writable_obj]
    simp only [modelDump, List.forall_mem_cons]
    exact ⟨fits_text .., fits_text .., hpayload, hpointer,
      ⟨PyStr.scalars_ofString _, rfl, by simpa [printable] using hsize, rfl, rt.dumps_pos⟩, fits_text .., fits_text ..,
      List.forall_mem_nil _⟩
  · refine ⟨nodup_modelDump _, properMembers_iff.mpr ?_⟩
    simp only [modelDump, List.forall_mem_cons]
    exact ⟨trivial, trivial, hpayloadWalk.1, hpointerWalk.1, hsize, trivial, trivial, List.forall_mem_nil _⟩
  · refine Nat.le_trans (Nat.succ_le_succ (depthMembers_le (n := 9).mpr ?_)) hroom
    simp only [modelDump, List.forall_mem_cons]
    exact ⟨Nat.zero_le _, Nat.zero_le _, hpayloadWalk.2, hpointerWalk.2, Nat.zero_le _, Nat.zero_le _, Nat.zero_le _,
      List.forall_mem_nil _⟩
  · have hkey : ∀ key : String, Data.Printable key.toList → ∀ p ∈ text key, PyStr.code p < 0x20 ∨ keepsLine p :=
      fun key h => keepsLine_ofString h
    refine everyMember_iff.mpr ?_
    simp only [modelDump, List.forall_mem_cons]
    exact ⟨⟨hkey _ (by decide), keepsLine_ofString (printable_oid data)⟩,
      ⟨hkey _ (by decide), keepsLine_ofString (printable_schemaId hschema)⟩, ⟨hkey _ (by decide), hline.payload⟩,
      ⟨hkey _ (by decide), hline.pointer⟩, ⟨hkey _ (by decide), trivial⟩, ⟨hkey _ (by decide), hline.now⟩,
      ⟨hkey _ (by decide), hline.agent⟩, List.forall_mem_nil _⟩

end FileStore

end ContinuityLedger.Evidence
