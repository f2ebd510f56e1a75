import ContinuityLedger.Evidence.Object
import ContinuityLedger.Foundations.JsonRead

/-! An evidence object's content and its id: the canonical bytes of two contents are equal where the contents are. -/

namespace ContinuityLedger.Evidence

open Foundations Foundations.Sha256 Foundations.Json

/-! ### What the walk accepts -/

lemma limits_eq_none {w : Walked} {depth : ℕ} {path : PyStr} {walked : Walked}
    (h : ((limits w depth path).getD walked).problems = w.problems) : limits w depth path = none := by
  unfold limits at h ⊢
  split_ifs at h ⊢
  · simp [Walked.report] at h
  · simp [Walked.report] at h
  · rfl

lemma walkItems_kept {items : List Json} {i depth : ℕ} {path : PyStr} {w : Walked}
    (h : (walkItems items i depth path w).problems = w.problems) :
    ∀ j ∈ items, ∃ p v, (walk j depth p v).problems = v.problems := by
  induction items generalizing i w with
  | nil => simp
  | cons j js ih =>
    rw [walkItems] at h
    have hone := walk_isPrefix j depth (path ++ text ("[" ++ toString i ++ "]")) w
    have hrest := walkItems_isPrefix js (i + 1) depth path (walk j depth (path ++ text ("[" ++ toString i ++ "]")) w)
    rw [h] at hrest
    have heq := hrest.eq_of_length (le_antisymm hrest.length_le hone.length_le)
    exact List.forall_mem_cons.mpr ⟨⟨_, w, heq⟩, ih (h.trans heq.symm)⟩

lemma walkMembers_kept {members : List (PyStr × Json)} {depth : ℕ} {path : PyStr} {w : Walked}
    (h : (walkMembers members depth path w).problems = w.problems) :
    ∀ m ∈ members, ∃ p v, (walk m.2 depth p v).problems = v.problems := by
  induction members generalizing w with
  | nil => simp
  | cons m ms ih =>
    obtain ⟨k, j⟩ := m
    rw [walkMembers] at h
    have hone := walk_isPrefix j depth (path ++ text "." ++ k) w
    have hrest := walkMembers_isPrefix ms depth path (walk j depth (path ++ text "." ++ k) w)
    rw [h] at hrest
    have heq := hrest.eq_of_length (le_antisymm hrest.length_le hone.length_le)
    exact List.forall_mem_cons.mpr ⟨⟨_, w, heq⟩, ih (h.trans heq.symm)⟩

/-- What the walk accepts has no floats. -/
lemma proper_of_walk (py : Python) {value : Json} {depth : ℕ} {path : PyStr} {w : Walked}
    (h : (walk value depth path w).problems = w.problems) (hd : distinct value) (hp : printable value = true) :
    proper py value := by
  induction value using induct generalizing depth path w with
  | int n => simpa [printable, proper] using hp
  | float t =>
    rw [walk] at h
    have hlimits := limits_eq_none (w := { w with counter := w.counter + 1 }) h
    rw [hlimits] at h
    simp [Walked.report] at h
  | arr items ih =>
    rw [walk] at h
    have hlimits := limits_eq_none (w := { w with counter := w.counter + 1 }) h
    rw [hlimits] at h
    rw [printable, printableItems_eq, List.all_eq_true] at hp
    rw [proper, properItems_iff]
    intro j hj
    obtain ⟨p, v, hkept⟩ := walkItems_kept (w := { w with counter := w.counter + 1 }) h j hj
    exact ih j hj hkept (distinctItems_iff.mp hd j hj) (hp j hj)
  | obj members ih =>
    rw [walk] at h
    have hlimits := limits_eq_none (w := { w with counter := w.counter + 1 }) h
    rw [hlimits] at h
    rw [printable, printableMembers_eq, List.all_eq_true] at hp
    refine ⟨hd.1, properMembers_iff.mpr fun m hm => ?_⟩
    obtain ⟨p, v, hkept⟩ := walkMembers_kept (w := { w with counter := w.counter + 1 }) h m hm
    exact ih m hm hkept (distinctMembers_iff.mp hd.2 m hm) (hp m hm)
  | _ => trivial

lemma walk_limit {value : Json} {depth : ℕ} {path : PyStr} {w : Walked}
    (h : (walk value depth path w).problems = w.problems) : depth ≤ maxDepth := by
  have hlimits : limits { w with counter := w.counter + 1 } depth path = none := by
    cases value <;> (rw [walk] at h <;> first | exact limits_eq_none (w := { w with counter := w.counter + 1 }) h | simp)
  unfold limits at hlimits
  split_ifs at hlimits with _ hd
  exact Nat.le_of_not_lt hd

/-- What the walk accepts is not nested too deeply. -/
lemma depth_of_walk {value : Json} {depth : ℕ} {path : PyStr} {w : Walked}
    (h : (walk value depth path w).problems = w.problems) : Json.depth value + depth ≤ maxDepth + 1 := by
  have hlimit := walk_limit h
  induction value using induct generalizing depth path w with
  | arr items ih =>
    rw [walk] at h
    have hlimits := limits_eq_none (w := { w with counter := w.counter + 1 }) h
    rw [hlimits] at h
    have hitems : depthItems items ≤ maxDepth - depth := by
      refine depthItems_le.mpr fun j hj => ?_
      obtain ⟨p, v, hkept⟩ := walkItems_kept (w := { w with counter := w.counter + 1 }) h j hj
      have := ih j hj hkept (walk_limit hkept)
      omega
    rw [Json.depth]
    omega
  | obj members ih =>
    rw [walk] at h
    have hlimits := limits_eq_none (w := { w with counter := w.counter + 1 }) h
    rw [hlimits] at h
    have hmembers : depthMembers members ≤ maxDepth - depth := by
      refine depthMembers_le.mpr fun m hm => ?_
      obtain ⟨p, v, hkept⟩ := walkMembers_kept (w := { w with counter := w.counter + 1 }) h m hm
      have := ih m hm hkept (walk_limit hkept)
      omega
    rw [Json.depth]
    omega
  | _ =>
    simp only [Json.depth]
    omega

/-! ### Bytes of a value with its keys in order -/

lemma finiteItems_eq (js : List Json) : finiteItems js = js.all finite := by
  induction js with
  | nil => rfl
  | cons j js ih => rw [finiteItems, ih, List.all_cons]

lemma finiteMembers_eq (ms : List (PyStr × Json)) : finiteMembers ms = ms.all fun m => finite m.2 := by
  induction ms with
  | nil => rfl
  | cons m ms ih => rw [finiteMembers, ih, List.all_cons]

lemma finite_sorted (j : Json) : finite (sorted j) = finite j := by
  induction j using induct with
  | arr items ih =>
    rw [sorted, finite, finite, finiteItems_eq, finiteItems_eq, sortedItems_eq, List.all_map, Bool.eq_iff_iff,
      List.all_eq_true, List.all_eq_true]
    exact forall₂_congr fun j hj => by rw [Function.comp_apply, ih j hj]
  | obj members ih =>
    rw [sorted, finite, finite, finiteMembers_eq, finiteMembers_eq, (perm_sorted members).all_eq, List.all_map,
      Bool.eq_iff_iff, List.all_eq_true, List.all_eq_true]
    exact forall₂_congr fun m hm => by rw [Function.comp_apply, ih m hm]
  | _ => rfl

lemma dumps_congr (py : Python) {a b : Json} (h : sorted a = sorted b) : dumps py a = dumps py b := by
  rw [dumps, dumps, ← printable_sorted a, ← printable_sorted b, ← depth_sorted a, ← depth_sorted b, text_eq, text_eq, h]

lemma envelope_sorted (schemaId : String) (payload : Payload) (pointer : Option Payload) :
    sorted (envelope schemaId payload pointer) = .obj ((text "payload", sorted (.obj payload)) ::
      ((pointer.map fun p => (text "pointer", sorted (.obj p))).toList ++ [(text "schema_id", .str (text schemaId))])) := by
  have h₁ : ¬ memberLE (text "schema_id", .null) (text "payload", .null) := by decide
  have h₂ : ¬ memberLE (text "schema_id", .null) (text "pointer", .null) := by decide
  have h₃ : memberLE (text "payload", .null) (text "pointer", .null) := by decide
  unfold memberLE at h₁ h₂ h₃
  cases pointer <;>
    simp [envelope, sorted, sortedMembers, memberLE, h₁, h₂, h₃]

/-! ### Contents -/

/-- What the id is the hash of. -/
structure Content where
  schemaId : String
  payload : Payload
  pointer : Option Payload

namespace Content

def bytes (py : Python) (c : Content) : Except Exn Bytes := canonicalBytes py c.schemaId c.payload c.pointer

def oid (py : Python) (c : Content) : Except Exn String := objectId py c.schemaId c.payload c.pointer

def value (c : Content) : Json := envelope c.schemaId c.payload c.pointer

/-- No key stands twice in a dict. -/
def Dicts (c : Content) : Prop := distinct (.obj c.payload) ∧ ∀ p ∈ c.pointer, distinct (.obj p)

/-- The walk of `build_object` has no problem with it. -/
def Accepted (c : Content) : Prop :=
  walkProblems c.payload "payload" = [] ∧ ∀ p ∈ c.pointer, walkProblems p "pointer" = []

/-- The same schema, payload and pointer, whatever the order of the keys. -/
def Same (c c' : Content) : Prop :=
  c.schemaId = c'.schemaId ∧ same (.obj c.payload) (.obj c'.payload) ∧
    Option.Rel (fun p p' => same (.obj p) (.obj p')) c.pointer c'.pointer

variable {py : Python} {c c' : Content}

lemma same_iff_sorted (h : c.Dicts) : c.Same c' ↔ sorted c.value = sorted c'.value := by
  obtain ⟨schemaId, payload, pointer⟩ := c
  obtain ⟨schemaId', payload', pointer'⟩ := c'
  have hpayload : same (.obj payload) (.obj payload') ↔ _ := same_iff h.1 _
  rw [value, value, envelope_sorted, envelope_sorted, Same, hpayload]
  have htext : text schemaId = text schemaId' ↔ schemaId = schemaId' := Codec.ofString_inj
  cases pointer with
  | none => cases pointer' <;> simp [htext, and_comm]
  | some p =>
    cases pointer' with
    | none => simp
    | some p' =>
      have hpointer : same (.obj p) (.obj p') ↔ _ := same_iff (h.2 p rfl) _
      simp [htext, hpointer]
      tauto

lemma proper_value (py : Python) (hd : c.Dicts) (ha : c.Accepted) (hp : printable c.value = true) : proper py c.value := by
  obtain ⟨schemaId, payload, pointer⟩ := c
  have hpayload : printable (.obj payload) = true → proper py (.obj payload) := proper_of_walk py ha.1 hd.1
  cases pointer with
  | none =>
    simp only [value, envelope, Option.map_none, Option.toList_none, List.append_nil, printable, printableMembers,
      Bool.and_true, Bool.true_and] at hp
    exact ⟨by simp [Codec.ofString_inj, text], trivial, hpayload hp, trivial⟩
  | some p =>
    have hpointer : printable (.obj p) = true → proper py (.obj p) := proper_of_walk py (ha.2 p rfl) (hd.2 p rfl)
    simp only [value, envelope, Option.map_some, Option.toList_some, List.cons_append, List.nil_append, printable,
      printableMembers, Bool.and_true, Bool.true_and, Bool.and_eq_true] at hp
    exact ⟨by simp [Codec.ofString_inj, text], trivial, hpayload hp.1, hpointer hp.2, trivial⟩

lemma bytes_congr (h : sorted c.value = sorted c'.value) : c.bytes py = c'.bytes py := by
  have hfinite : finite c.value = finite c'.value := by rw [← finite_sorted, h, finite_sorted]
  simp only [value] at hfinite h
  rw [bytes, bytes, canonicalBytes, canonicalBytes, hfinite, dumps_congr py h]

lemma bytes_ok {data : Bytes} (h : c.bytes py = .ok data) :
    printable c.value = true ∧ PyStr.encode (Json.text c.value) = some data := by
  rw [bytes, canonicalBytes, ← value, dumps] at h
  split_ifs at h with hf hp hd
  simp only at h
  cases he : PyStr.encode (Json.text c.value) with
  | none => simp [he] at h
  | some bytes =>
    rw [he] at h
    exact ⟨by simpa using hp, congrArg some (Except.ok.inj h)⟩

lemma bytes_inj (hd : c.Dicts) (hd' : c'.Dicts) (ha : c.Accepted) (ha' : c'.Accepted) {data : Bytes}
    (h : c.bytes py = .ok data) (h' : c'.bytes py = .ok data) : c.Same c' := by
  obtain ⟨hp, he⟩ := bytes_ok h
  obtain ⟨hp', he'⟩ := bytes_ok h'
  obtain ⟨cs, hcs, rfl⟩ := PyStr.encode_eq_some he
  obtain ⟨cs', hcs', heq⟩ := PyStr.encode_eq_some he'
  have hchars : cs = cs' := by rw [← PyStr.decode_utf8Chars cs, heq, PyStr.decode_utf8Chars]
  have htext : rendered [] (sorted c.value) = rendered [] (sorted c'.value) := by
    rw [← text_eq, ← text_eq, hcs, hcs', hchars]
  let reader : Python := { py with
    loadsNesting := max (depth c.value) (depth c'.value) + 1
    loads_pos := Nat.succ_pos _ }
  have hroom : max (depth c.value) (depth c'.value) ≤ reader.loadsNesting := Nat.le_succ _
  exact (same_iff_sorted hd).mpr (rendered_inj reader (List.forall_mem_nil _) (proper_value reader hd ha hp)
    (proper_value reader hd' ha' hp') ((le_max_left _ _).trans hroom) ((le_max_right _ _).trans hroom) htext)

lemma oid_ok {oid : String} (h : c.oid py = .ok oid) : ∃ data, c.bytes py = .ok data ∧ oid = idPrefix ++ (hexdigest data).text := by
  obtain ⟨data, hdata, rfl⟩ := Checks.map_ok h
  exact ⟨data, hdata, rfl⟩

/-- Contents have the same bytes where they are the same; contents that are not share an id only where two texts share a
digest. -/
theorem bytes_identify (hd : c.Dicts) (hd' : c'.Dicts) (ha : c.Accepted) (ha' : c'.Accepted) :
    (∀ data data', c.bytes py = .ok data → c'.bytes py = .ok data' → (data = data' ↔ c.Same c')) ∧
    (c.Same c' → c.bytes py = c'.bytes py ∧ c.oid py = c'.oid py) ∧
    ∀ oid, c.oid py = .ok oid → c'.oid py = .ok oid → c.Same c' ∨ ∃ data data', c.bytes py = .ok data ∧
      c'.bytes py = .ok data' ∧ data ≠ data' ∧ hexdigest data = hexdigest data' := by
  have hsame : c.Same c' → c.bytes py = c'.bytes py := fun h => bytes_congr ((same_iff_sorted hd).mp h)
  refine ⟨fun data data' h h' => ⟨?_, ?_⟩, fun h => ⟨hsame h, ?_⟩, fun oid h h' => ?_⟩
  · rintro rfl
    exact bytes_inj hd hd' ha ha' h h'
  · intro heq
    rw [hsame heq, h'] at h
    exact (Except.ok.inj h).symm
  · exact congrArg (Except.map fun data => idPrefix ++ (hexdigest data).text) (hsame h)
  · obtain ⟨data, hdata, rfl⟩ := oid_ok h
    obtain ⟨data', hdata', heq⟩ := oid_ok h'
    by_cases hbytes : data = data'
    · subst hbytes
      exact .inl (bytes_inj hd hd' ha ha' hdata hdata')
    · refine .inr ⟨data, data', hdata, hdata', hbytes, Hex64.ext (String.toList_inj.mp ?_)⟩
      have hlists := congrArg String.toList heq
      rwa [String.toList_append, String.toList_append, List.append_cancel_left_eq] at hlists

def numbered : Content := ⟨cesFact, [(text "b", .int 1), (text "a", .bool true)], none⟩

def renumbered : Content := ⟨cesFact, [(text "a", .bool true), (text "b", .int 1)], none⟩

lemma nesting_pos : 0 < 900 := Nat.succ_pos 899

def interpreter : Python := ⟨id, 900, 900, nesting_pos, nesting_pos⟩

theorem bytes_identify_numbered : numbered.Same renumbered ∧ numbered.oid interpreter = renumbered.oid interpreter := by
  have hsame : numbered.Same renumbered := by
    refine ⟨rfl, ⟨numbered.payload, List.Perm.swap _ _ [], ?_⟩, .none⟩
    simp [sameMembers, same, numbered]
  have hdicts : numbered.Dicts := by simp [Dicts, numbered, distinct, distinctMembers, text, Codec.ofString_inj]
  have hdicts' : renumbered.Dicts := by simp [Dicts, renumbered, distinct, distinctMembers, text, Codec.ofString_inj]
  have haccepted : numbered.Accepted := ⟨by decide, by simp [numbered]⟩
  have haccepted' : renumbered.Accepted := ⟨by decide, by simp [renumbered]⟩
  exact ⟨hsame, ((bytes_identify hdicts hdicts' haccepted haccepted').2.1 hsame).2⟩

end Content

end ContinuityLedger.Evidence
