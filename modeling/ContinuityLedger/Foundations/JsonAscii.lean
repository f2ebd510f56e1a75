import ContinuityLedger.Foundations.Dict
import ContinuityLedger.Foundations.Codec

/-! `json.dumps(..., separators=(",", ":"))` of strings, numbers, lists and dicts: in ASCII, and in the order of the keys.
What is written is read again by `json.loads`. -/

namespace ContinuityLedger.Foundations

open Sha256

/-- What is written. -/
inductive Data
  | null
  | num (n : ℕ)
  | str (s : String)
  | arr (items : List Data)
  | obj (members : List (String × Data))

namespace Data

open Json (Token)

mutual

def json : Data → Json
  | null => .null
  | num n => .int n
  | str s => .str (PyStr.ofString s)
  | arr items => .arr (jsonItems items)
  | obj members => .obj (jsonMembers members)

def jsonItems : List Data → List Json
  | [] => []
  | d :: ds => json d :: jsonItems ds

def jsonMembers : List (String × Data) → List (PyStr × Json)
  | [] => []
  | (k, d) :: ms => (PyStr.ofString k, json d) :: jsonMembers ms

end

def shortEscape (c : Char) : Option Char :=
  if c = '"' then some '"'
  else if c = '\\' then some '\\'
  else if c = '\n' then some 'n'
  else if c = '\r' then some 'r'
  else if c = '\t' then some 't'
  else if c = '\x08' then some 'b'
  else if c = '\x0c' then some 'f'
  else none

/-- A character as it stands or with a short escape, else in UTF-16. -/
def tokens (c : Char) : List Token :=
  if (shortEscape c).isSome || (0x20 ≤ c.toNat && c.toNat < 0x7f) then [.raw (.scalar c)]
  else if c.toNat < 0x10000 then [.unit c.toNat]
  else [.unit (0xd800 + (c.toNat - 0x10000) / 0x400), .unit (0xdc00 + (c.toNat - 0x10000) % 0x400)]

def tokenText : Token → List Char
  | .raw (.scalar c) =>
    match shortEscape c with
    | some l => ['\\', l]
    | none => [c]
  | .raw (.surrogate _) => []
  | .unit u => ['\\', 'u', hexDigit (u / 4096), hexDigit (u / 256 % 16), hexDigit (u / 16 % 16), hexDigit (u % 16)]

/-- A string behind its opening quote. -/
def closed (ts : List Token) : List Char := ts.flatMap tokenText ++ ['"']

def quoted (s : String) : List Char := '"' :: closed (s.toList.flatMap tokens)

mutual

def ascii : Data → List Char
  | null => ['n', 'u', 'l', 'l']
  | num n => (toString n).toList
  | str s => quoted s
  | arr items => '[' :: itemsText items
  | obj members => '{' :: membersText members

/-- The items of a list behind its opening bracket. -/
def itemsText : List Data → List Char
  | [] => [']']
  | d :: ds => ascii d ++ (if ds.isEmpty then [']'] else ',' :: itemsText ds)

def membersText : List (String × Data) → List Char
  | [] => ['}']
  | (k, d) :: ms => quoted k ++ ':' :: (ascii d ++ (if ms.isEmpty then ['}'] else ',' :: membersText ms))

end

mutual

/-- Numbers are no longer than Python reads, and no key stands twice in a dict. -/
def proper : Data → Prop
  | num n => (toString n).length ≤ Json.maxDigits
  | arr items => properItems items
  | obj members => (members.map Prod.fst).Nodup ∧ properMembers members
  | _ => True

def properItems : List Data → Prop
  | [] => True
  | d :: ds => proper d ∧ properItems ds

def properMembers : List (String × Data) → Prop
  | [] => True
  | (_, d) :: ms => proper d ∧ properMembers ms

end

/-! ### Strings -/

/-- What `tokens` makes. -/
def Good : Token → Prop
  | .raw (.scalar c) => (shortEscape c).isSome ∨ (0x20 ≤ c.toNat ∧ c.toNat < 0x7f)
  | .raw (.surrogate _) => False
  | .unit u => u < 0x10000

lemma tokens_good (c : Char) : ∀ t ∈ tokens c, Good t := by
  have hvalid := PyStr.char_valid c
  unfold tokens
  split_ifs with h₁ h₂
  · intro t ht
    obtain rfl := List.mem_singleton.mp ht
    simpa [Good] using h₁
  · intro t ht
    obtain rfl := List.mem_singleton.mp ht
    exact h₂
  · simp only [List.mem_cons, List.not_mem_nil, or_false, forall_eq_or_imp, forall_eq, Good]
    omega

lemma hexDigit?_hexDigit {k : ℕ} (h : k < 16) : Json.hexDigit? (.scalar (hexDigit k)) = some k := by
  revert k
  decide

lemma hex4_digits {u : ℕ} (h : u < 0x10000) : Json.hex4 (.scalar (hexDigit (u / 4096))) (.scalar (hexDigit (u / 256 % 16)))
    (.scalar (hexDigit (u / 16 % 16))) (.scalar (hexDigit (u % 16))) = some u := by
  unfold Json.hex4
  rw [hexDigit?_hexDigit (by omega), hexDigit?_hexDigit (by omega), hexDigit?_hexDigit (by omega),
    hexDigit?_hexDigit (by omega)]
  exact congrArg some (by omega)

lemma shortEscape_some {c l : Char} (h : shortEscape c = some l) :
    Json.simpleEscape (.scalar l) = some c ∧ l ≠ 'u' ∧ 0x20 ≤ l.toNat ∧ l.toNat < 0x7f := by
  unfold shortEscape at h
  split_ifs at h with h₁ h₂ h₃ h₄ h₅ h₆ h₇ <;> (obtain rfl := Option.some.inj h; subst c; decide)

lemma shortEscape_none {c : Char} (h : shortEscape c = none) : c ≠ '"' ∧ c ≠ '\\' := by
  constructor <;> (rintro rfl; exact absurd h (by decide))

/-- A token's text is read as the token. -/
lemma scanTokens_token {t : Token} (ht : Good t) (rest : PyStr) :
    Json.scanTokens (PyStr.ofChars (tokenText t) ++ rest) = (Json.scanTokens rest).map (Json.push t) := by
  cases t with
  | raw p =>
    cases p with
    | surrogate n => exact absurd ht id
    | scalar c =>
      cases hl : shortEscape c with
      | some l =>
        have htext : tokenText (.raw (.scalar c)) = ['\\', l] := by simp only [tokenText, hl]
        obtain ⟨hsimple, hu, -⟩ := shortEscape_some hl
        rw [htext, Json.scanTokens.eq_def]
        simp [PyStr.ofChars, hsimple, hu]
      | none =>
        have htext : tokenText (.raw (.scalar c)) = [c] := by simp only [tokenText, hl]
        obtain ⟨hq, hb⟩ := shortEscape_none hl
        have hrange : 0x20 ≤ c.toNat := by
          rcases ht with ht | ht
          · simp [hl] at ht
          · exact ht.1
        have hcode : ¬ PyStr.code (.scalar c) < 0x20 := Nat.not_lt.mpr hrange
        rw [htext, Json.scanTokens.eq_def]
        simp only [PyStr.ofChars, List.map_cons, List.map_nil, List.cons_append, List.nil_append, PyChar.scalar.injEq,
          if_neg hq, if_neg hb, if_neg hcode]
  | unit u =>
    rw [Json.scanTokens.eq_def]
    simp [tokenText, PyStr.ofChars, hex4_digits ht]

lemma scanTokens_closed {ts : List Token} (ht : ∀ t ∈ ts, Good t) (rest : PyStr) :
    Json.scanTokens (PyStr.ofChars (closed ts) ++ rest) = some (ts, rest) := by
  induction ts with
  | nil =>
    rw [Json.scanTokens.eq_def]
    simp [closed, PyStr.ofChars]
  | cons t ts ih =>
    obtain ⟨h, hs⟩ := List.forall_mem_cons.mp ht
    have hcons : PyStr.ofChars (closed (t :: ts)) ++ rest =
        PyStr.ofChars (tokenText t) ++ (PyStr.ofChars (closed ts) ++ rest) := by
      simp [closed, PyStr.ofChars]
    rw [hcons, scanTokens_token h, ih hs]
    rfl

lemma joined_raw (c : Char) (ts : List Token) : Json.joined (.raw (.scalar c) :: ts) = .scalar c :: Json.joined ts := by
  rw [Json.joined]
  · rfl
  · simp

lemma joined_unit {u : ℕ} (h : u < 0xd800 ∨ 0xdc00 ≤ u) (ts : List Token) :
    Json.joined (.unit u :: ts) = (Token.unit u).char :: Json.joined ts := by
  cases ts with
  | nil => rfl
  | cons t ts =>
    cases t with
    | raw p => rfl
    | unit v => rw [Json.joined, if_neg (by omega)]

lemma joined_tokens (c : Char) (ts : List Token) : Json.joined (tokens c ++ ts) = .scalar c :: Json.joined ts := by
  have hvalid := PyStr.char_valid c
  have hback : Char.ofNat c.toNat = c := Char.ofNat_toNat c
  unfold tokens
  split_ifs with h₁ h₂
  · exact joined_raw c ts
  · rw [List.cons_append, List.nil_append, joined_unit (by omega), Token.char, dif_neg (by omega), hback]
  · have hsum : 0x10000 + (0xd800 + (c.toNat - 0x10000) / 0x400 - 0xd800) * 0x400 +
        (0xdc00 + (c.toNat - 0x10000) % 0x400 - 0xdc00) = c.toNat := by omega
    rw [List.cons_append, List.cons_append, List.nil_append, Json.joined, if_pos (by omega), hsum, hback]

lemma joined_string (s : String) : Json.joined (s.toList.flatMap tokens) = PyStr.ofString s := by
  have h : ∀ cs : List Char, Json.joined (cs.flatMap tokens) = PyStr.ofChars cs := by
    intro cs
    induction cs with
    | nil => rfl
    | cons c cs ih =>
      rw [List.flatMap_cons, joined_tokens, ih]
      rfl
  exact h s.toList

lemma good_string (s : String) : ∀ t ∈ s.toList.flatMap tokens, Good t := by
  intro t ht
  obtain ⟨c, -, hc⟩ := List.mem_flatMap.mp ht
  exact tokens_good c t hc

/-- A string's text is read as the string. -/
lemma scanString_closed (s : String) (rest : PyStr) :
    Json.scanString (PyStr.ofChars (closed (s.toList.flatMap tokens)) ++ rest) = .ok (PyStr.ofString s, rest) := by
  rw [Json.scanString, scanTokens_closed (good_string s)]
  simp only [joined_string]

/-! ### Numbers -/

/-- A number ends before this. -/
def Ends (rest : PyStr) : Prop :=
  ∀ p ∈ rest.head?, Json.isDigit p = false ∧ p ≠ .scalar '.' ∧ p ≠ .scalar 'e' ∧ p ≠ .scalar 'E'

lemma ends_nil : Ends [] := by simp [Ends]

lemma ends_char {c : Char} {rest : PyStr} (h : c ∈ [',', ']', '}', ':', '"']) : Ends (.scalar c :: rest) := by
  intro p hp
  obtain rfl := Option.some.inj hp
  simp only [List.mem_cons, List.not_mem_nil, or_false] at h
  rcases h with rfl | rfl | rfl | rfl | rfl <;> exact ⟨by decide, by decide, by decide, by decide⟩

lemma toList_num (n : ℕ) : (toString n).toList = Nat.toDigits 10 n := by rw [Nat.toString_eq_repr, Nat.toList_repr]

lemma toDigits_head {n : ℕ} (h : 0 < n) : ∃ c cs, Nat.toDigits 10 n = c :: cs ∧ c ≠ '0' := by
  induction n using Nat.strong_induction_on with
  | _ n ih =>
    rcases Nat.lt_or_ge n 10 with hlt | hge
    · refine ⟨_, [], Nat.toDigits_of_lt_base hlt, fun hz => ?_⟩
      have := Nat.digitChar_eq_zero.mp hz
      omega
    · obtain ⟨c, cs, hc, hne⟩ := ih (n / 10) (by omega) (by omega)
      exact ⟨c, cs ++ [(n % 10).digitChar], by rw [Nat.toDigits_of_base_le (by decide) hge, hc]; rfl, hne⟩

lemma isDigit_scalar {c : Char} (h : c.isDigit = true) : Json.isDigit (.scalar c) = true := by
  have hrange : 48 ≤ c.toNat ∧ c.toNat ≤ 57 := by
    simpa [Char.isDigit, UInt32.le_iff_toNat_le] using h
  simp [Json.isDigit, PyStr.code, hrange]

lemma digits_scalar {n : ℕ} : ∀ c ∈ Nat.toDigits 10 n, Json.isDigit (.scalar c) = true := fun _ hc =>
  isDigit_scalar (Nat.isDigit_of_mem_toDigits (by decide) (by decide) hc)

lemma takeWhile_digits {n : ℕ} {rest : PyStr} (hr : Ends rest) :
    (PyStr.ofChars (Nat.toDigits 10 n) ++ rest).takeWhile Json.isDigit = PyStr.ofChars (Nat.toDigits 10 n) := by
  have hrest : rest.takeWhile Json.isDigit = [] := by
    cases rest with
    | nil => rfl
    | cons p rest => rw [List.takeWhile_cons_of_neg (by simp [(hr p rfl).1])]
  rw [List.takeWhile_append_of_pos, hrest, List.append_nil]
  intro p hp
  obtain ⟨c, hc, rfl⟩ := List.mem_map.mp hp
  exact digits_scalar c hc

lemma whole_digits {n : ℕ} {rest : PyStr} (hr : Ends rest) :
    Json.whole (PyStr.ofChars (Nat.toDigits 10 n) ++ rest) = PyStr.ofChars (Nat.toDigits 10 n) := by
  rcases Nat.eq_zero_or_pos n with rfl | hpos
  · simp [Json.whole, PyStr.ofChars]
  · have htake := takeWhile_digits (n := n) hr
    obtain ⟨c, cs, hc, hne⟩ := toDigits_head hpos
    rw [hc] at htake ⊢
    simpa [Json.whole, PyStr.ofChars, hne] using htake

lemma fraction_ends {rest : PyStr} (hr : Ends rest) : Json.fraction rest = [] := by
  cases rest with
  | nil => rfl
  | cons p rest => simp [Json.fraction, (hr p rfl).2.1]

lemma exponent_ends {rest : PyStr} (hr : Ends rest) : Json.exponent rest = [] := by
  cases rest with
  | nil => rfl
  | cons p rest => simp [Json.exponent, (hr p rfl).2.2.1, (hr p rfl).2.2.2]

lemma chars_ofChars (cs : List Char) : Json.chars (PyStr.ofChars cs) = cs := by
  simp [Json.chars, PyStr.ofChars, PyStr.code, Function.comp_def, Char.ofNat_toNat]

/-- A number's text is read as the number. -/
lemma scanNumber_num (py : Python) {n : ℕ} {rest : PyStr} (hn : (toString n).length ≤ Json.maxDigits) (hr : Ends rest) :
    Json.scanNumber py (PyStr.ofChars (toString n).toList ++ rest) = .ok (.int n, rest) := by
  rw [toList_num]
  have hminus : ((PyStr.ofChars (Nat.toDigits 10 n) ++ rest).take 1).filter (fun p => p = .scalar '-') = [] := by
    obtain ⟨c, cs, hc⟩ := List.exists_cons_of_ne_nil (Nat.toDigits_ne_nil (n := n) (b := 10))
    have hdigit := Nat.isDigit_of_mem_toDigits (by decide) (by decide) (hc ▸ List.mem_cons_self)
    have hne : c ≠ '-' := by
      rintro rfl
      exact absurd hdigit (by decide)
    simp [hc, PyStr.ofChars, hne]
  have hlen : (PyStr.ofChars (Nat.toDigits 10 n)).length ≤ Json.maxDigits := by
    rw [PyStr.ofChars, List.length_map, ← toList_num, String.length_toList]
    exact hn
  have hne : PyStr.ofChars (Nat.toDigits 10 n) ≠ [] := by
    simp [PyStr.ofChars]
  unfold Json.scanNumber
  simp only [hminus, List.length_nil, List.drop_zero, whole_digits hr, if_neg hne, Nat.zero_add, List.drop_left,
    fraction_ends hr, exponent_ends hr, decide_true, Bool.and_self, if_true, if_neg (Nat.not_lt.mpr hlen), chars_ofChars,
    Nat.ofDigitChars_ten_toDigits]

/-! ### Values -/

/-- The first character tells what is scanned. -/
lemma ascii_head (d : Data) : ∃ c cs, ascii d = c :: cs ∧ Json.isSpace (.scalar c) = false ∧ c ≠ ']' ∧ c ≠ '}' := by
  cases d with
  | null => exact ⟨'n', _, rfl, by decide⟩
  | num n =>
    obtain ⟨c, cs, hc⟩ := List.exists_cons_of_ne_nil (Nat.toDigits_ne_nil (n := n) (b := 10))
    have hdigit := Nat.isDigit_of_mem_toDigits (by decide) (by decide) (hc ▸ List.mem_cons_self)
    refine ⟨c, cs, (toList_num n).trans hc, ?_, ?_, ?_⟩
    · by_contra hspace
      simp only [Json.isSpace, Bool.not_eq_false, Bool.or_eq_true, decide_eq_true_eq, PyChar.scalar.injEq] at hspace
      rcases hspace with ((rfl | rfl) | rfl) | rfl <;> exact absurd hdigit (by decide)
    · rintro rfl
      exact absurd hdigit (by decide)
    · rintro rfl
      exact absurd hdigit (by decide)
  | str s => exact ⟨'"', _, rfl, by decide⟩
  | arr items => exact ⟨'[', _, rfl, by decide⟩
  | obj members => exact ⟨'{', _, rfl, by decide⟩

lemma skip_scalar {c : Char} (h : Json.isSpace (.scalar c) = false) (s : PyStr) : Json.skip (.scalar c :: s) = .scalar c :: s := by
  rw [Json.skip, List.dropWhile_cons_of_neg (by simp [h])]

lemma skip_ascii (d : Data) (s : PyStr) : Json.skip (PyStr.ofChars (ascii d) ++ s) = PyStr.ofChars (ascii d) ++ s := by
  obtain ⟨c, cs, hc, hspace, -⟩ := ascii_head d
  rw [hc]
  exact skip_scalar hspace _

lemma ofChars_append (a b : List Char) : PyStr.ofChars (a ++ b) = PyStr.ofChars a ++ PyStr.ofChars b := List.map_append

lemma ofChars_cons (c : Char) (cs : List Char) : PyStr.ofChars (c :: cs) = .scalar c :: PyStr.ofChars cs := rfl

lemma scanValue_quote (py : Python) (steps room : ℕ) (s : PyStr) : Json.scanValue py (steps + 1) room (.scalar '"' :: s) =
    (Json.scanString s).map fun r => (.str r.1, r.2) := by
  rw [Json.scanValue.eq_def]
  simp

lemma scanValue_brace (py : Python) (steps room : ℕ) (s : PyStr) :
    Json.scanValue py (steps + 1) (room + 1) (.scalar '{' :: s) =
      if (Json.skip s).head? = some (.scalar '}') then .ok (.obj [], (Json.skip s).tail)
      else (Json.scanMembers py steps room (Json.skip s)).map fun r => (.obj (Dict.ofPairs r.1), r.2) := by
  rw [Json.scanValue.eq_def]
  simp

lemma scanValue_bracket (py : Python) (steps room : ℕ) (s : PyStr) :
    Json.scanValue py (steps + 1) (room + 1) (.scalar '[' :: s) =
      if (Json.skip s).head? = some (.scalar ']') then .ok (.arr [], (Json.skip s).tail)
      else (Json.scanItems py steps room (Json.skip s)).map fun r => (.arr r.1, r.2) := by
  rw [Json.scanValue.eq_def]
  simp

lemma scanValue_other (py : Python) (steps room : ℕ) {c : Char} (hq : c ≠ '"') (ho : c ≠ '{') (ha : c ≠ '[') (s : PyStr) :
    Json.scanValue py (steps + 1) room (.scalar c :: s) =
      match Json.scanWord (.scalar c :: s) with
      | some r => .ok r
      | none => Json.scanNumber py (.scalar c :: s) := by
  rw [Json.scanValue.eq_def]
  cases hword : Json.scanWord (.scalar c :: s) <;>
    simp only [PyChar.scalar.injEq, if_neg hq, if_neg ho, if_neg ha, hword]

lemma scanValue_digit (py : Python) (steps room : ℕ) {c : Char} (h : c.isDigit = true) (s : PyStr) :
    Json.scanValue py (steps + 1) room (.scalar c :: s) = Json.scanNumber py (.scalar c :: s) := by
  have hne : ∀ d : Char, d.isDigit = false → c ≠ d := by
    rintro d hd rfl
    exact absurd h (by simp [hd])
  have hword : Json.scanWord (.scalar c :: s) = none := by
    simp [Json.scanWord, Json.words, PyStr.ofString, PyStr.ofChars, List.findSome?, (hne 'n' (by decide)).symm,
      (hne 't' (by decide)).symm, (hne 'f' (by decide)).symm, (hne 'N' (by decide)).symm, (hne 'I' (by decide)).symm,
      (hne '-' (by decide)).symm]
  rw [scanValue_other py steps room (hne '"' (by decide)) (hne '{' (by decide)) (hne '[' (by decide)), hword]

lemma scanValue_null (py : Python) (steps room : ℕ) (s : PyStr) :
    Json.scanValue py (steps + 1) room (PyStr.ofChars ['n', 'u', 'l', 'l'] ++ s) = .ok (.null, s) := by
  have hword : Json.scanWord (PyStr.ofChars ['n', 'u', 'l', 'l'] ++ s) = some (.null, s) := by
    simp [Json.scanWord, Json.words, PyStr.ofString, PyStr.ofChars, show "null".length = 4 from rfl]
  rw [ofChars_cons, List.cons_append, scanValue_other py steps room (by decide) (by decide) (by decide), ← List.cons_append,
    ← ofChars_cons, hword]

lemma keys_jsonMembers (ms : List (String × Data)) :
    (jsonMembers ms).map Prod.fst = ms.map fun m => PyStr.ofString m.1 := by
  induction ms with
  | nil => rfl
  | cons m ms ih => rw [jsonMembers, List.map_cons, List.map_cons, ih]

lemma nodup_jsonMembers {ms : List (String × Data)} (h : (ms.map Prod.fst).Nodup) :
    ((jsonMembers ms).map Prod.fst).Nodup := by
  have hinj : Function.Injective PyStr.ofString := fun _ _ heq => Codec.ofString_inj.mp heq
  rw [keys_jsonMembers]
  simpa [Function.comp_def] using! h.map hinj

mutual

/-- A value's text is read as the value. -/
lemma scan_ascii (py : Python) : (d : Data) → {steps room : ℕ} → {r : PyStr} → d.proper → Ends r →
    (ascii d).length < steps → Json.depth d.json ≤ room →
    Json.scanValue py steps room (PyStr.ofChars (ascii d) ++ r) = .ok (d.json, r)
  | null, steps + 1, room, r, _, _, _, _ => scanValue_null py steps room r
  | num n, steps + 1, room, r, hp, hr, _, _ => by
      obtain ⟨c, cs, hc⟩ := List.exists_cons_of_ne_nil (Nat.toDigits_ne_nil (n := n) (b := 10))
      have hdigit := Nat.isDigit_of_mem_toDigits (by decide) (by decide) (hc ▸ List.mem_cons_self)
      have hnum := scanNumber_num py hp hr
      rw [ascii]
      rw [toList_num, hc, ofChars_cons, List.cons_append] at hnum ⊢
      rw [scanValue_digit py steps room hdigit, hnum, json]
  | str s, steps + 1, room, r, _, _, _, _ => by
      rw [ascii, quoted, ofChars_cons, List.cons_append, scanValue_quote, scanString_closed]
      rfl
  | arr [], steps + 1, room + 1, r, _, _, _, _ => by
      rw [ascii, ofChars_cons, List.cons_append, scanValue_bracket, itemsText, ofChars_cons, List.cons_append,
        skip_scalar (by decide)]
      rfl
  | arr (d :: ds), steps + 1, room + 1, r, hp, hr, hl, hd => by
      have hl : (itemsText (d :: ds)).length < steps := by simpa [ascii] using hl
      have hd : Json.depthItems (jsonItems (d :: ds)) ≤ room := by simpa [json, Json.depth] using hd
      have hitems := scan_items py (d :: ds) (by simp) (r := r) hp hl hd
      obtain ⟨c, cs, hc, -, hne, -⟩ := ascii_head d
      have hskip : Json.skip (PyStr.ofChars (itemsText (d :: ds)) ++ r) = PyStr.ofChars (itemsText (d :: ds)) ++ r := by
        rw [itemsText, ofChars_append, List.append_assoc, skip_ascii]
      rw [ascii, ofChars_cons, List.cons_append, scanValue_bracket, hskip, hitems, if_neg]
      · rfl
      · rw [itemsText, hc]
        simpa [PyStr.ofChars] using hne
  | obj [], steps + 1, room + 1, r, _, _, _, _ => by
      rw [ascii, ofChars_cons, List.cons_append, scanValue_brace, membersText, ofChars_cons, List.cons_append,
        skip_scalar (by decide)]
      rfl
  | obj ((k, d) :: ms), steps + 1, room + 1, r, hp, hr, hl, hd => by
      have hl : (membersText ((k, d) :: ms)).length < steps := by simpa [ascii] using hl
      have hd : Json.depthMembers (jsonMembers ((k, d) :: ms)) ≤ room := by simpa [json, Json.depth] using hd
      have hmembers := scan_members py ((k, d) :: ms) (by simp) (r := r) hp.2 hl hd
      have hskip : Json.skip (PyStr.ofChars (membersText ((k, d) :: ms)) ++ r) =
          PyStr.ofChars (membersText ((k, d) :: ms)) ++ r := by
        rw [membersText, quoted, List.cons_append, ofChars_cons, List.cons_append, skip_scalar (by decide)]
      rw [ascii, ofChars_cons, List.cons_append, scanValue_brace, hskip, hmembers, if_neg]
      · simp only [Except.map, Dict.ofPairs_of_nodup (nodup_jsonMembers hp.1), json]
      · rw [membersText, quoted]
        simp [PyStr.ofChars]

lemma scan_items (py : Python) : (ds : List Data) → ds ≠ [] → {steps room : ℕ} → {r : PyStr} → properItems ds →
    (itemsText ds).length < steps → Json.depthItems (jsonItems ds) ≤ room →
    Json.scanItems py steps room (PyStr.ofChars (itemsText ds) ++ r) = .ok (jsonItems ds, r)
  | [d], _, steps + 1, room, r, hp, hl, hd => by
      have hl : (ascii d).length < steps := by simpa [itemsText] using hl
      have hd : Json.depth d.json ≤ room := by simpa [jsonItems, Json.depthItems] using hd
      have hone := scan_ascii py d (r := .scalar ']' :: r) hp.1 (ends_char (by decide)) hl hd
      have htext : PyStr.ofChars (itemsText [d]) ++ r = PyStr.ofChars (ascii d) ++ .scalar ']' :: r := by
        simp [itemsText, PyStr.ofChars]
      rw [htext, Json.scanItems, hone]
      simp only [bind, Except.bind, skip_scalar (by decide : Json.isSpace (.scalar ']') = false), List.head?_cons, if_true,
        List.tail_cons, pure, Except.pure, jsonItems]
  | d :: e :: ds, _, steps + 1, room, r, hp, hl, hd => by
      have hl : (ascii d).length + ((itemsText (e :: ds)).length + 1) < steps + 1 := by
        simpa [itemsText.eq_2 d (e :: ds)] using hl
      have hl₁ : (ascii d).length < steps := by omega
      have hl₂ : (itemsText (e :: ds)).length < steps := by omega
      have hd : Json.depth d.json ≤ room ∧ Json.depthItems (jsonItems (e :: ds)) ≤ room := by
        simpa [jsonItems.eq_2 d (e :: ds), Json.depthItems.eq_2] using hd
      have hone := scan_ascii py d (r := .scalar ',' :: (PyStr.ofChars (itemsText (e :: ds)) ++ r)) hp.1
        (ends_char (by decide)) hl₁ hd.1
      have hrest := scan_items py (e :: ds) (by simp) (r := r) hp.2 hl₂ hd.2
      have htext : PyStr.ofChars (itemsText (d :: e :: ds)) ++ r =
          PyStr.ofChars (ascii d) ++ .scalar ',' :: (PyStr.ofChars (itemsText (e :: ds)) ++ r) := by
        rw [itemsText.eq_2 d (e :: ds)]
        simp [PyStr.ofChars]
      have hskip : Json.skip (PyStr.ofChars (itemsText (e :: ds)) ++ r) = PyStr.ofChars (itemsText (e :: ds)) ++ r := by
        rw [itemsText, ofChars_append, List.append_assoc, skip_ascii]
      rw [htext, Json.scanItems, hone]
      simp only [bind, Except.bind, skip_scalar (by decide : Json.isSpace (.scalar ',') = false), List.head?_cons,
        Option.some.injEq, PyChar.scalar.injEq, if_neg (by decide : (',' : Char) ≠ ']'), List.tail_cons, hskip, hrest,
        ne_eq, not_true_eq_false, if_false, pure, Except.pure, jsonItems]

lemma scan_members (py : Python) : (ms : List (String × Data)) → ms ≠ [] → {steps room : ℕ} → {r : PyStr} →
    properMembers ms → (membersText ms).length < steps → Json.depthMembers (jsonMembers ms) ≤ room →
    Json.scanMembers py steps room (PyStr.ofChars (membersText ms) ++ r) = .ok (jsonMembers ms, r)
  | [(k, d)], _, steps + 1, room, r, hp, hl, hd => by
      have hl : (ascii d).length < steps := by
        simp only [membersText, List.length_append, List.length_cons] at hl
        omega
      have hd : Json.depth d.json ≤ room := by simpa [jsonMembers, Json.depthMembers] using hd
      have hone := scan_ascii py d (r := .scalar '}' :: r) hp.1 (ends_char (by decide)) hl hd
      have htext : PyStr.ofChars (membersText [(k, d)]) ++ r = .scalar '"' ::
          (PyStr.ofChars (closed (k.toList.flatMap tokens)) ++ .scalar ':' ::
            (PyStr.ofChars (ascii d) ++ .scalar '}' :: r)) := by
        simp [membersText, quoted, PyStr.ofChars]
      rw [htext, Json.scanMembers]
      simp only [List.head?_cons, ne_eq, not_true_eq_false, if_false, List.tail_cons, scanString_closed, bind, Except.bind,
        skip_scalar (by decide : Json.isSpace (.scalar ':') = false), skip_ascii, hone,
        skip_scalar (by decide : Json.isSpace (.scalar '}') = false), if_true, pure, Except.pure, jsonMembers]
  | (k, d) :: m :: ms, _, steps + 1, room, r, hp, hl, hd => by
      have hl : (ascii d).length + ((membersText (m :: ms)).length + 1) < steps + 1 := by
        simp only [membersText.eq_2 k d (m :: ms), List.length_append, List.length_cons, List.isEmpty_cons,
          Bool.false_eq_true, if_false] at hl
        omega
      have hl₁ : (ascii d).length < steps := by omega
      have hl₂ : (membersText (m :: ms)).length < steps := by omega
      have hd : Json.depth d.json ≤ room ∧ Json.depthMembers (jsonMembers (m :: ms)) ≤ room := by
        simpa [jsonMembers.eq_2 k d (m :: ms), Json.depthMembers.eq_2] using hd
      have hone := scan_ascii py d (r := .scalar ',' :: (PyStr.ofChars (membersText (m :: ms)) ++ r)) hp.1
        (ends_char (by decide)) hl₁ hd.1
      have hrest := scan_members py (m :: ms) (by simp) (r := r) hp.2 hl₂ hd.2
      have htext : PyStr.ofChars (membersText ((k, d) :: m :: ms)) ++ r = .scalar '"' ::
          (PyStr.ofChars (closed (k.toList.flatMap tokens)) ++ .scalar ':' ::
            (PyStr.ofChars (ascii d) ++ .scalar ',' :: (PyStr.ofChars (membersText (m :: ms)) ++ r))) := by
        rw [membersText.eq_2 k d (m :: ms), quoted]
        simp [PyStr.ofChars]
      have hskip : Json.skip (PyStr.ofChars (membersText (m :: ms)) ++ r) =
          PyStr.ofChars (membersText (m :: ms)) ++ r := by
        rw [membersText, quoted, List.cons_append, ofChars_cons, List.cons_append, skip_scalar (by decide)]
      rw [htext, Json.scanMembers]
      simp only [List.head?_cons, ne_eq, not_true_eq_false, if_false, List.tail_cons, scanString_closed, bind, Except.bind,
        skip_scalar (by decide : Json.isSpace (.scalar ':') = false), skip_ascii, hone,
        skip_scalar (by decide : Json.isSpace (.scalar ',') = false), Option.some.injEq, PyChar.scalar.injEq,
        if_neg (by decide : (',' : Char) ≠ '}'), hskip, hrest, pure, Except.pure, jsonMembers]

end

/-- From the blank to the tilde. -/
def Printable (cs : List Char) : Prop := ∀ c ∈ cs, 0x20 ≤ c.toNat ∧ c.toNat < 0x7f

lemma printable_append {a b : List Char} : Printable (a ++ b) ↔ Printable a ∧ Printable b := List.forall_mem_append

lemma printable_cons {c : Char} {cs : List Char} : Printable (c :: cs) ↔ (0x20 ≤ c.toNat ∧ c.toNat < 0x7f) ∧ Printable cs :=
  List.forall_mem_cons

lemma printable_nil : Printable [] := List.forall_mem_nil _

lemma printable_hexDigit {k : ℕ} (h : k < 16) : 0x20 ≤ (hexDigit k).toNat ∧ (hexDigit k).toNat < 0x7f := by
  revert k
  decide

lemma printable_token {t : Token} (ht : Good t) : Printable (tokenText t) := by
  cases t with
  | raw p =>
    cases p with
    | surrogate n => exact absurd ht id
    | scalar c =>
      cases hl : shortEscape c with
      | some l =>
        obtain ⟨-, -, hl'⟩ := shortEscape_some hl
        simp only [tokenText, hl]
        exact printable_cons.mpr ⟨by decide, printable_cons.mpr ⟨hl', printable_nil⟩⟩
      | none =>
        simp only [tokenText, hl]
        refine printable_cons.mpr ⟨?_, printable_nil⟩
        rcases ht with ht | ht
        · simp [hl] at ht
        · exact ht
  | unit u =>
    have ht : u < 0x10000 := ht
    simp only [tokenText, printable_cons]
    exact ⟨by decide, by decide, printable_hexDigit (by omega), printable_hexDigit (by omega), printable_hexDigit (by omega),
      printable_hexDigit (by omega), printable_nil⟩

lemma printable_closed {ts : List Token} (ht : ∀ t ∈ ts, Good t) : Printable (closed ts) := by
  refine printable_append.mpr ⟨fun c hc => ?_, printable_cons.mpr ⟨by decide, printable_nil⟩⟩
  obtain ⟨t, hmem, hc⟩ := List.mem_flatMap.mp hc
  exact printable_token (ht t hmem) c hc

lemma printable_quoted (s : String) : Printable (quoted s) :=
  printable_cons.mpr ⟨by decide, printable_closed (good_string s)⟩

lemma printable_num (n : ℕ) : Printable (toString n).toList := by
  rw [toList_num]
  intro c hc
  have hdigit := Nat.isDigit_of_mem_toDigits (by decide) (by decide) hc
  have hrange : 48 ≤ c.toNat ∧ c.toNat ≤ 57 := by
    simpa [Char.isDigit, UInt32.le_iff_toNat_le] using hdigit
  omega

mutual

lemma printable_ascii : (d : Data) → Printable (ascii d)
  | null => by
      rw [ascii]
      simp only [printable_cons]
      exact ⟨by decide, by decide, by decide, by decide, printable_nil⟩
  | num n => printable_num n
  | str s => printable_quoted s
  | arr items => printable_cons.mpr ⟨by decide, printable_items items⟩
  | obj members => printable_cons.mpr ⟨by decide, printable_members members⟩

lemma printable_items : (ds : List Data) → Printable (itemsText ds)
  | [] => printable_cons.mpr ⟨by decide, printable_nil⟩
  | d :: ds => by
      rw [itemsText, printable_append]
      refine ⟨printable_ascii d, ?_⟩
      split_ifs
      · exact printable_cons.mpr ⟨by decide, printable_nil⟩
      · exact printable_cons.mpr ⟨by decide, printable_items ds⟩

lemma printable_members : (ms : List (String × Data)) → Printable (membersText ms)
  | [] => printable_cons.mpr ⟨by decide, printable_nil⟩
  | (k, d) :: ms => by
      rw [membersText, printable_append, printable_cons, printable_append]
      refine ⟨printable_quoted k, by decide, printable_ascii d, ?_⟩
      split_ifs
      · exact printable_cons.mpr ⟨by decide, printable_nil⟩
      · exact printable_cons.mpr ⟨by decide, printable_members ms⟩

end

lemma loads_ascii (py : Python) {d : Data} (hp : d.proper) (hd : Json.depth d.json ≤ py.loadsNesting) :
    Json.loads py (PyStr.ofChars (ascii d)) = .ok d.json := by
  have hlen : (PyStr.ofChars (ascii d)).length = (ascii d).length := List.length_map _
  have hscan : Json.scanValue py (2 * (PyStr.ofChars (ascii d)).length + 2) py.loadsNesting (PyStr.ofChars (ascii d)) =
      .ok (d.json, []) := by
    have hsteps : (ascii d).length < 2 * (ascii d).length + 2 := by omega
    have h := scan_ascii py d hp ends_nil hsteps hd
    rwa [List.append_nil, ← hlen] at h
  have hskip := skip_ascii d []
  rw [List.append_nil] at hskip
  have hmark : (PyStr.ofChars (ascii d)).head? ≠ some (.scalar '\ufeff') := by
    obtain ⟨c, cs, hc, -⟩ := ascii_head d
    have hrange := printable_ascii d c (hc ▸ List.mem_cons_self)
    rw [hc]
    intro hmark
    obtain rfl : c = '\ufeff' := by simpa [PyStr.ofChars] using hmark
    exact absurd hrange (by decide)
  rw [Json.loads, hskip, hscan]
  simp [bind, Except.bind, hmark, Json.skip, pure, Except.pure]

end Data

end ContinuityLedger.Foundations
