import ContinuityLedger.Foundations.JsonBytes
import ContinuityLedger.Foundations.JsonRead

/-! Which characters a JSON text is made of: printable ASCII, and the characters of its strings that are not escaped. -/

namespace ContinuityLedger.Foundations.Json

instance (cs : List Char) : Decidable (Data.Printable cs) :=
  List.decidableBAll (fun c : Char => 0x20 ≤ c.toNat ∧ c.toNat < 0x7f) cs

variable {Q : PyChar → Prop}

/-- Printable ASCII has it. -/
def Ascii (Q : PyChar → Prop) : Prop := ∀ c : Char, 0x20 ≤ c.toNat → c.toNat < 0x7f → Q (.scalar c)

mutual

/-- Every character of its strings and keys is a control character, which is escaped, or has `Q`. -/
def everyChar (Q : PyChar → Prop) : Json → Prop
  | float t => ∀ c ∈ t, Q (.scalar c)
  | str s => ∀ p ∈ s, PyStr.code p < 0x20 ∨ Q p
  | arr items => everyItem Q items
  | obj members => everyMember Q members
  | _ => True

def everyItem (Q : PyChar → Prop) : List Json → Prop
  | [] => True
  | j :: js => everyChar Q j ∧ everyItem Q js

def everyMember (Q : PyChar → Prop) : List (PyStr × Json) → Prop
  | [] => True
  | (k, j) :: ms => (∀ p ∈ k, PyStr.code p < 0x20 ∨ Q p) ∧ everyChar Q j ∧ everyMember Q ms

end

lemma everyItem_iff {js : List Json} : everyItem Q js ↔ ∀ j ∈ js, everyChar Q j := by
  induction js with
  | nil => simp [everyItem]
  | cons j js ih => rw [everyItem, ih, List.forall_mem_cons]

lemma everyMember_iff {ms : List (PyStr × Json)} :
    everyMember Q ms ↔ ∀ m ∈ ms, (∀ p ∈ m.1, PyStr.code p < 0x20 ∨ Q p) ∧ everyChar Q m.2 := by
  induction ms with
  | nil => simp [everyMember]
  | cons m ms ih => rw [everyMember, ih, List.forall_mem_cons, and_assoc]

lemma everyChar_sorted {j : Json} (h : everyChar Q j) : everyChar Q (sorted j) := by
  induction j using induct with
  | arr items ih =>
    rw [sorted, everyChar, everyItem_iff, sortedItems_eq]
    exact List.forall_mem_map.mpr fun j hj => ih j hj (everyItem_iff.mp h j hj)
  | obj members ih =>
    rw [sorted, everyChar, everyMember_iff]
    intro m hm
    obtain ⟨m', hm', rfl⟩ := List.mem_map.mp ((perm_sorted members).mem_iff.mp hm)
    obtain ⟨hkey, hvalue⟩ := everyMember_iff.mp h m' hm'
    exact ⟨hkey, ih m' hm' hvalue⟩
  | _ => exact h

lemma every_ascii (hQ : Ascii Q) {cs : List Char} (h : Data.Printable cs) : ∀ p ∈ PyStr.ofChars cs, Q p :=
  List.forall_mem_map.mpr fun c hc => hQ c (h c hc).1 (h c hc).2

lemma every_escape (hQ : Ascii Q) {p : PyChar} (hp : PyStr.code p < 0x20 ∨ Q p) : ∀ q ∈ escape p, Q q := by
  cases p with
  | surrogate n =>
    rcases hp with hp | hp
    · simp only [PyStr.code] at hp
      omega
    · simpa [escape] using hp
  | scalar c =>
    cases hl : Data.shortEscape c with
    | some l =>
      obtain ⟨-, -, hrange⟩ := Data.shortEscape_some hl
      rw [escape_short hl]
      simpa using ⟨hQ '\\' (by decide) (by decide), hQ l hrange.1 hrange.2⟩
    | none =>
      rw [escape_plain hl]
      split_ifs with hc
      · refine List.forall_mem_append.mpr ⟨every_ascii hQ (by decide), every_ascii hQ ?_⟩
        exact Data.printable_cons.mpr ⟨Data.printable_hexDigit (by omega),
          Data.printable_cons.mpr ⟨Data.printable_hexDigit (by omega), Data.printable_nil⟩⟩
      · simpa using hp.resolve_left hc

lemma every_quote (hQ : Ascii Q) {s : PyStr} (hs : ∀ p ∈ s, PyStr.code p < 0x20 ∨ Q p) : ∀ q ∈ quote s, Q q := by
  have hmark : Q (.scalar '"') := hQ '"' (by decide) (by decide)
  refine List.forall_mem_cons.mpr ⟨hmark, List.forall_mem_append.mpr ⟨fun q hq => ?_, by simpa using hmark⟩⟩
  obtain ⟨p, hp, hq⟩ := List.mem_flatMap.mp hq
  exact every_escape hQ (hs p hp) q hq

lemma every_int (hQ : Ascii Q) (n : ℤ) : ∀ p ∈ PyStr.ofString (toString n), Q p := by
  cases n with
  | ofNat m => exact every_ascii hQ (Data.printable_num m)
  | negSucc m =>
    rw [text_negSucc, ← Data.toList_num]
    exact List.forall_mem_cons.mpr ⟨hQ '-' (by decide) (by decide), every_ascii hQ (Data.printable_num _)⟩

lemma every_items (hQ : Ascii Q) {gap : PyStr} (hgap : ∀ p ∈ gap, Q p) {js : List Json}
    (h : ∀ j ∈ js, ∀ p ∈ rendered gap j, Q p) : ∀ p ∈ renderedItems gap js, Q p := by
  have hclose : ∀ p ∈ [PyChar.scalar ']'], Q p := by simpa using hQ ']' (by decide) (by decide)
  induction js with
  | nil => exact hclose
  | cons j js ih =>
    obtain ⟨hj, hjs⟩ := List.forall_mem_cons.mp h
    rw [renderedItems]
    refine List.forall_mem_append.mpr ⟨hj, ?_⟩
    split_ifs
    · exact hclose
    · exact List.forall_mem_cons.mpr ⟨hQ ',' (by decide) (by decide), List.forall_mem_append.mpr ⟨hgap, ih hjs⟩⟩

lemma every_members (hQ : Ascii Q) {gap : PyStr} (hgap : ∀ p ∈ gap, Q p) {ms : List (PyStr × Json)}
    (h : ∀ m ∈ ms, (∀ p ∈ m.1, PyStr.code p < 0x20 ∨ Q p) ∧ ∀ p ∈ rendered gap m.2, Q p) :
    ∀ p ∈ renderedMembers gap ms, Q p := by
  have hclose : ∀ p ∈ [PyChar.scalar '}'], Q p := by simpa using hQ '}' (by decide) (by decide)
  induction ms with
  | nil => exact hclose
  | cons m ms ih =>
    obtain ⟨k, j⟩ := m
    obtain ⟨⟨hk, hj⟩, hms⟩ := List.forall_mem_cons.mp h
    rw [renderedMembers]
    refine List.forall_mem_append.mpr ⟨every_quote hQ hk, List.forall_mem_cons.mpr ⟨hQ ':' (by decide) (by decide),
      List.forall_mem_append.mpr ⟨hgap, List.forall_mem_append.mpr ⟨hj, ?_⟩⟩⟩⟩
    split_ifs
    · exact hclose
    · exact List.forall_mem_cons.mpr ⟨hQ ',' (by decide) (by decide), List.forall_mem_append.mpr ⟨hgap, ih hms⟩⟩

lemma every_rendered (hQ : Ascii Q) {gap : PyStr} (hgap : ∀ p ∈ gap, Q p) {j : Json} (h : everyChar Q j) :
    ∀ p ∈ rendered gap j, Q p := by
  induction j using induct with
  | null => exact every_ascii hQ (by decide)
  | bool b => cases b <;> exact every_ascii hQ (by decide)
  | int n => exact every_int hQ n
  | float t => exact List.forall_mem_map.mpr h
  | str s => exact every_quote hQ h
  | arr items ih =>
    exact List.forall_mem_cons.mpr ⟨hQ '[' (by decide) (by decide),
      every_items hQ hgap fun j hj => ih j hj (everyItem_iff.mp h j hj)⟩
  | obj members ih =>
    refine List.forall_mem_cons.mpr ⟨hQ '{' (by decide) (by decide), every_members hQ hgap fun m hm => ?_⟩
    obtain ⟨hk, hm'⟩ := everyMember_iff.mp h m hm
    exact ⟨hk, ih m hm hm'⟩

lemma plainItems_eq (js : List Json) : plainItems js = js.all plain := by
  induction js with
  | nil => rfl
  | cons j js ih => rw [plainItems, ih, List.all_cons]

lemma plainMembers_eq (ms : List (PyStr × Json)) :
    plainMembers ms = ms.all fun m => PyStr.scalars m.1 && plain m.2 := by
  induction ms with
  | nil => rfl
  | cons m ms ih => rw [plainMembers, ih, List.all_cons]

/-- No surrogate stands alone in the text where none does in the strings. -/
lemma everyChar_plain {j : Json} (h : plain j = true) : everyChar (fun p => PyStr.isScalar p = true) j := by
  induction j using induct with
  | float t => exact fun c _ => rfl
  | str s => exact fun p hp => .inr (List.all_eq_true.mp h p hp)
  | arr items ih =>
    rw [plain, plainItems_eq, List.all_eq_true] at h
    exact everyItem_iff.mpr fun j hj => ih j hj (h j hj)
  | obj members ih =>
    rw [plain, plainMembers_eq, List.all_eq_true] at h
    refine everyMember_iff.mpr fun m hm => ?_
    obtain ⟨hk, hj⟩ := (Bool.and_eq_true _ _).mp (h m hm)
    exact ⟨fun p hp => .inr (List.all_eq_true.mp hk p hp), ih m hm hj⟩
  | _ => trivial

/-- A text without lone surrogates is one of characters. -/
lemma rendered_chars {gap : PyStr} (hgap : PyStr.scalars gap = true) {j : Json} (h : plain j = true) :
    ∃ cs, rendered gap (sorted j) = PyStr.ofChars cs := by
  have hall := every_rendered (Q := fun p => PyStr.isScalar p = true) (fun _ _ _ => rfl) (List.all_eq_true.mp hgap)
    (everyChar_sorted (everyChar_plain h))
  have hsome : (PyStr.encode (rendered gap (sorted j))).isSome = true := by
    rw [PyStr.encode_isSome_eq]
    exact List.all_eq_true.mpr hall
  obtain ⟨bytes, hbytes⟩ := Option.isSome_iff_exists.mp hsome
  obtain ⟨cs, hcs, -⟩ := PyStr.encode_eq_some hbytes
  exact ⟨cs, hcs⟩

lemma printable_hexText (d : Sha256.Hex64) : Data.Printable d.text.toList := by
  have hvalid := d.valid
  rw [Sha256.isHex64, Bool.and_eq_true, List.all_eq_true] at hvalid
  have hall : Data.Printable "0123456789abcdef".toList := by decide
  exact fun c hc => hall c (List.contains_iff_mem.mp (hvalid.2 c hc))

end ContinuityLedger.Foundations.Json
