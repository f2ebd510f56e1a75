import Mathlib.Data.List.Perm.Basic
import ContinuityLedger.Foundations.JsonAscii

/-! What `dumps` writes with sorted keys and `ensure_ascii=False`, `loads` reads again, whether or not a blank stands behind
its separators; so a text determines its value up to the order of the keys. -/

namespace ContinuityLedger.Foundations.Json

open Data (Ends)

/-- A value is proved by what it contains. -/
@[elab_as_elim]
lemma induct {P : Json → Prop} (null : P .null) (bool : ∀ b, P (.bool b)) (int : ∀ n, P (.int n))
    (float : ∀ t, P (.float t)) (str : ∀ s, P (.str s)) (arr : ∀ items, (∀ j ∈ items, P j) → P (.arr items))
    (obj : ∀ members, (∀ m ∈ members, P m.2) → P (.obj members)) (j : Json) : P j :=
  @Json.rec P (fun items => ∀ j ∈ items, P j) (fun members => ∀ m ∈ members, P m.2) (fun m => P m.2) null bool int float str
    arr obj (List.forall_mem_nil _) (fun _ _ hj hjs => List.forall_mem_cons.mpr ⟨hj, hjs⟩) (List.forall_mem_nil _)
    (fun _ _ hm hms => List.forall_mem_cons.mpr ⟨hm, hms⟩) (fun _ _ hj => hj) j

/-! ### Strings -/

def escapeTokens (p : PyChar) : List Token :=
  match p with
  | .surrogate _ => [.raw p]
  | .scalar c => if (Data.shortEscape c).isNone && c.toNat < 0x20 then [.unit c.toNat] else [.raw p]

lemma escape_short {c l : Char} (h : Data.shortEscape c = some l) : escape (.scalar c) = [.scalar '\\', .scalar l] := by
  unfold Data.shortEscape at h
  split_ifs at h <;> (obtain rfl := Option.some.inj h; subst c; decide)

lemma escape_plain {c : Char} (h : Data.shortEscape c = none) : escape (.scalar c) = if c.toNat < 0x20 then
    PyStr.ofString "\\u00" ++ PyStr.ofChars [Sha256.hexDigit (c.toNat / 16), Sha256.hexDigit (c.toNat % 16)]
    else [.scalar c] := by
  unfold Data.shortEscape at h
  split_ifs at h with h₁ h₂ h₃ h₄ h₅ h₆ h₇
  simp only [escape, if_neg h₁, if_neg h₂, if_neg h₃, if_neg h₄, if_neg h₅, if_neg h₆, if_neg h₇]

lemma scanTokens_escape (p : PyChar) (rest : PyStr) : scanTokens (escape p ++ rest) =
    (scanTokens rest).map fun r => (escapeTokens p ++ r.1, r.2) := by
  cases p with
  | surrogate n =>
    have hcode : ¬ PyStr.code (.surrogate n) < 0x20 := by
      simp only [PyStr.code]
      omega
    rw [escape, List.singleton_append, scanTokens.eq_def]
    simp only [reduceCtorEq, if_false, if_neg hcode]
    rfl
  | scalar c =>
    cases hl : Data.shortEscape c with
    | some l =>
      obtain ⟨hsimple, hu, -⟩ := Data.shortEscape_some hl
      have htokens : escapeTokens (.scalar c) = [.raw (.scalar c)] := by simp [escapeTokens, hl]
      rw [escape_short hl, htokens, scanTokens.eq_def]
      simp only [List.cons_append, List.nil_append, PyChar.scalar.injEq, if_neg (by decide : ('\\' : Char) ≠ '"'), if_true,
        if_neg hu, hsimple, Option.bind_some]
      rfl
    | none =>
      obtain ⟨hq, hb⟩ := Data.shortEscape_none hl
      rw [escape_plain hl]
      split_ifs with hc
      · have htokens : escapeTokens (.scalar c) = [.unit c.toNat] := by simp [escapeTokens, hl, hc]
        have htext : PyStr.ofString "\\u00" = [.scalar '\\', .scalar 'u', .scalar '0', .scalar '0'] := by decide
        have hhex : hex4 (.scalar '0') (.scalar '0') (.scalar (Sha256.hexDigit (c.toNat / 16)))
            (.scalar (Sha256.hexDigit (c.toNat % 16))) = some c.toNat := by
          have h := Data.hex4_digits (u := c.toNat) (by omega)
          rw [show c.toNat / 4096 = 0 by omega, show c.toNat / 256 % 16 = 0 by omega,
            show c.toNat / 16 % 16 = c.toNat / 16 by omega] at h
          exact h
        rw [htext, htokens, scanTokens.eq_def]
        simp only [PyStr.ofChars, List.map_cons, List.map_nil, List.cons_append, List.nil_append, PyChar.scalar.injEq,
          if_neg (by decide : ('\\' : Char) ≠ '"'), if_true, hhex, Option.bind_some]
        rfl
      · have htokens : escapeTokens (.scalar c) = [.raw (.scalar c)] := by simp [escapeTokens, hc]
        have hcode : ¬ PyStr.code (.scalar c) < 0x20 := hc
        rw [htokens, List.singleton_append, scanTokens.eq_def]
        simp only [PyChar.scalar.injEq, if_neg hq, if_neg hb, if_neg hcode]
        rfl

lemma scanTokens_quoted (s rest : PyStr) :
    scanTokens (s.flatMap escape ++ .scalar '"' :: rest) = some (s.flatMap escapeTokens, rest) := by
  induction s with
  | nil =>
    rw [List.flatMap_nil, List.nil_append, scanTokens.eq_def]
    simp
  | cons p s ih =>
    rw [List.flatMap_cons, List.append_assoc, scanTokens_escape, ih, List.flatMap_cons]
    rfl

lemma joined_escape (p : PyChar) (ts : List Token) : joined (escapeTokens p ++ ts) = p :: joined ts := by
  have hraw : joined (.raw p :: ts) = p :: joined ts := by
    rw [joined]
    · rfl
    · simp
  cases p with
  | surrogate n => exact hraw
  | scalar c =>
    unfold escapeTokens
    dsimp only
    split_ifs with h
    · have hc : c.toNat < 0x20 := (by simpa using h : _ ∧ _).2
      rw [List.singleton_append, Data.joined_unit (by omega), Token.char, dif_neg (by omega), Char.ofNat_toNat]
    · exact hraw

lemma joined_flatMap (s : PyStr) : joined (s.flatMap escapeTokens) = s := by
  induction s with
  | nil => rfl
  | cons p s ih => rw [List.flatMap_cons, joined_escape, ih]

/-- A string's text is read as the string. -/
lemma scanString_quoted (s rest : PyStr) : scanString (s.flatMap escape ++ .scalar '"' :: rest) = .ok (s, rest) := by
  rw [scanString, scanTokens_quoted]
  simp only [joined_flatMap]

/-! ### Numbers and words -/

lemma text_negSucc (m : ℕ) : PyStr.ofString (toString (Int.negSucc m)) =
    .scalar '-' :: PyStr.ofChars (Nat.toDigits 10 (m + 1)) := by
  have htext : toString (Int.negSucc m) = "-" ++ toString (m + 1) := rfl
  rw [htext, PyStr.ofString, String.toList_append, Data.ofChars_append, Data.toList_num]
  rfl

/-- A number's text is read as the number. -/
lemma scanNumber_int (py : Python) {n : ℤ} {rest : PyStr} (hn : (toString n.natAbs).length ≤ maxDigits) (hr : Ends rest) :
    scanNumber py (PyStr.ofString (toString n) ++ rest) = .ok (.int n, rest) := by
  cases n with
  | ofNat m => exact Data.scanNumber_num py hn hr
  | negSucc m =>
    have hlen : (PyStr.ofChars (Nat.toDigits 10 (m + 1))).length ≤ maxDigits := by
      rw [PyStr.ofChars, List.length_map, ← Data.toList_num, String.length_toList]
      exact hn
    have hne : PyStr.ofChars (Nat.toDigits 10 (m + 1)) ≠ [] := by simp [PyStr.ofChars]
    have hminus : ((PyChar.scalar '-' :: (PyStr.ofChars (Nat.toDigits 10 (m + 1)) ++ rest)).take 1).filter
        (fun p => p = .scalar '-') = [.scalar '-'] := by simp
    rw [text_negSucc, List.cons_append]
    unfold scanNumber
    simp only [hminus, List.length_singleton, List.drop_succ_cons, List.drop_zero, Data.whole_digits hr, if_neg hne,
      Nat.add_comm 1, List.drop_left, List.length_nil, Data.fraction_ends hr, Data.exponent_ends hr, decide_true, Bool.and_self, if_true,
      if_neg (Nat.not_lt.mpr hlen), Data.chars_ofChars, Nat.ofDigitChars_ten_toDigits, List.cons_ne_nil, if_false]
    rfl

lemma scanWord_word {w : String × Json} (hw : w ∈ words) (s : PyStr) :
    scanWord (PyStr.ofString w.1 ++ s) = some (w.2, s) := by
  simp only [words, List.mem_cons, List.not_mem_nil, or_false] at hw
  rcases hw with rfl | rfl | rfl | rfl | rfl | rfl <;>
    simp [scanWord, words, PyStr.ofString, PyStr.ofChars] <;> rfl

lemma word_head : ∀ w ∈ words, w.1.toList.head?.any (fun c => c ∉ ['"', '{', '[', ' ', ']', '}']) = true := by decide

lemma scanValue_word (py : Python) (steps room : ℕ) {w : String × Json} (hw : w ∈ words) (s : PyStr) :
    scanValue py (steps + 1) room (PyStr.ofString w.1 ++ s) = .ok (w.2, s) := by
  have hscan := scanWord_word hw s
  obtain ⟨c, hc, hne⟩ := (Option.any_eq_true _ _).mp (word_head w hw)
  obtain ⟨cs, hcs⟩ := List.head?_eq_some_iff.mp hc
  simp only [List.mem_cons, List.not_mem_nil, or_false, decide_eq_true_eq, not_or] at hne
  rw [PyStr.ofString, hcs, Data.ofChars_cons, List.cons_append] at hscan ⊢
  rw [Data.scanValue_other py steps room hne.1 hne.2.1 hne.2.2.1, hscan]

lemma scanValue_int (py : Python) (steps room : ℕ) {n : ℤ} {rest : PyStr} (hn : (toString n.natAbs).length ≤ maxDigits)
    (hr : Ends rest) : scanValue py (steps + 1) room (PyStr.ofString (toString n) ++ rest) = .ok (.int n, rest) := by
  have hscan := scanNumber_int py hn hr
  cases n with
  | ofNat m =>
    obtain ⟨c, cs, hc⟩ := List.exists_cons_of_ne_nil (Nat.toDigits_ne_nil (n := m) (b := 10))
    have hdigit := Nat.isDigit_of_mem_toDigits (by decide) (by decide) (hc ▸ List.mem_cons_self)
    have htext : PyStr.ofString (toString (Int.ofNat m)) = .scalar c :: PyStr.ofChars cs := by
      have h : toString (Int.ofNat m) = toString m := rfl
      rw [h, PyStr.ofString, Data.toList_num, hc, Data.ofChars_cons]
    rw [htext, List.cons_append] at hscan ⊢
    rw [Data.scanValue_digit py steps room hdigit, hscan]
  | negSucc m =>
    obtain ⟨c, cs, hc⟩ := List.exists_cons_of_ne_nil (Nat.toDigits_ne_nil (n := m + 1) (b := 10))
    have hdigit := Nat.isDigit_of_mem_toDigits (by decide) (by decide) (hc ▸ List.mem_cons_self)
    have hI : c ≠ 'I' := by
      rintro rfl
      exact absurd hdigit (by decide)
    have hword : scanWord (.scalar '-' :: (PyStr.ofChars (Nat.toDigits 10 (m + 1)) ++ rest)) = none := by
      simp [scanWord, words, PyStr.ofString, PyStr.ofChars, hc, hI.symm]
    rw [text_negSucc, List.cons_append] at hscan ⊢
    rw [Data.scanValue_other py steps room (by decide) (by decide) (by decide), hword]
    exact hscan

/-! ### Values -/

mutual

/-- A value's text with `gap` behind its separators, and the keys as they come. -/
def rendered (gap : PyStr) : Json → PyStr
  | null => PyStr.ofString "null"
  | bool b => PyStr.ofString (if b then "true" else "false")
  | int n => PyStr.ofString (toString n)
  | float t => PyStr.ofChars t
  | str s => quote s
  | arr items => .scalar '[' :: renderedItems gap items
  | obj members => .scalar '{' :: renderedMembers gap members

/-- The items of a list behind its opening bracket. -/
def renderedItems (gap : PyStr) : List Json → PyStr
  | [] => [.scalar ']']
  | j :: js => rendered gap j ++ (if js.isEmpty then [.scalar ']'] else .scalar ',' :: (gap ++ renderedItems gap js))

def renderedMembers (gap : PyStr) : List (PyStr × Json) → PyStr
  | [] => [.scalar '}']
  | (k, j) :: ms => quote k ++ .scalar ':' :: (gap ++ (rendered gap j ++
      (if ms.isEmpty then [.scalar '}'] else .scalar ',' :: (gap ++ renderedMembers gap ms))))

end

/-- The order of the keys. -/
def memberLE (p q : PyStr × Json) : Prop := p.1.map PyStr.code ≤ q.1.map PyStr.code

instance : DecidableRel memberLE := fun p q => inferInstanceAs (Decidable (p.1.map PyStr.code ≤ q.1.map PyStr.code))

mutual

/-- The keys of every dict in their order. -/
def sorted : Json → Json
  | arr items => arr (sortedItems items)
  | obj members => obj ((sortedMembers members).insertionSort memberLE)
  | j => j

def sortedItems : List Json → List Json
  | [] => []
  | j :: js => sorted j :: sortedItems js

def sortedMembers : List (PyStr × Json) → List (PyStr × Json)
  | [] => []
  | (k, j) :: ms => (k, sorted j) :: sortedMembers ms

end

lemma textItems_joined (items : List Json) (hitems : ∀ j ∈ items, text j = rendered [] (sorted j)) :
    comma.intercalate (textItems items) ++ [.scalar ']'] = renderedItems [] (sortedItems items) := by
  induction items with
  | nil => rfl
  | cons j js ih =>
    obtain ⟨hj, hjs⟩ := List.forall_mem_cons.mp hitems
    cases js with
    | nil => simp [textItems, sortedItems, renderedItems, hj]
    | cons i js =>
      have ih := ih hjs
      rw [textItems] at ih ⊢
      rw [textItems, List.intercalate_cons_cons, sortedItems, renderedItems, List.append_assoc, List.append_assoc, ih, hj]
      rfl

lemma members_joined (ms : List (PyStr × Json)) : comma.intercalate ((ms.map fun m => (m.1, rendered [] m.2)).map member) ++
    [.scalar '}'] = renderedMembers [] ms := by
  induction ms with
  | nil => rfl
  | cons m ms ih =>
    obtain ⟨k, j⟩ := m
    cases ms with
    | nil => simp [member, renderedMembers]
    | cons n ms =>
      rw [List.map_cons, List.map_cons] at ih ⊢
      rw [List.map_cons, List.map_cons, List.intercalate_cons_cons, renderedMembers, List.append_assoc, List.append_assoc, ih]
      simp [member, comma]

lemma textMembers_eq (ms : List (PyStr × Json)) (hms : ∀ m ∈ ms, text m.2 = rendered [] (sorted m.2)) :
    textMembers ms = (sortedMembers ms).map fun m => (m.1, rendered [] m.2) := by
  induction ms with
  | nil => rfl
  | cons m ms ih =>
    obtain ⟨k, j⟩ := m
    obtain ⟨hj, hjs⟩ := List.forall_mem_cons.mp hms
    rw [textMembers, sortedMembers, List.map_cons, hj, ih hjs]

/-- `dumps` writes the keys in their order, and no blanks. -/
lemma text_eq (j : Json) : text j = rendered [] (sorted j) := by
  induction j using induct with
  | arr items ih => rw [text, sorted, rendered, textItems_joined items ih]
  | obj members ih =>
    have hsort := List.map_insertionSort (r := memberLE) (s := keyLE) (fun m : PyStr × Json => (m.1, rendered [] m.2))
      (sortedMembers members) (fun a _ b _ => Iff.rfl)
    rw [text, sorted, rendered, textMembers_eq members ih, ← hsort, members_joined]
  | _ => rfl

/-! ### Reading again -/

/-- Blanks only. -/
def Blank (gap : PyStr) : Prop := ∀ p ∈ gap, isSpace p = true

/-- A float's text is read as the float. -/
structure Rereads (py : Python) (t : List Char) : Prop where
  head : ∃ c cs, t = c :: cs ∧ c ∉ [' ', '\t', '\n', '\r', ']', '}', '\ufeff']
  scan : ∀ steps room r, Ends r → scanValue py (steps + 1) room (PyStr.ofChars t ++ r) = .ok (.float t, r)

mutual

/-- Numbers are no longer than Python reads, floats are read again, and no key stands twice in a dict. -/
def proper (py : Python) : Json → Prop
  | int n => (toString n.natAbs).length ≤ maxDigits
  | float t => Rereads py t
  | arr items => properItems py items
  | obj members => (members.map Prod.fst).Nodup ∧ properMembers py members
  | _ => True

def properItems (py : Python) : List Json → Prop
  | [] => True
  | j :: js => proper py j ∧ properItems py js

def properMembers (py : Python) : List (PyStr × Json) → Prop
  | [] => True
  | (_, j) :: ms => proper py j ∧ properMembers py ms

end

lemma skip_blank {gap : PyStr} (hgap : Blank gap) (s : PyStr) : skip (gap ++ s) = skip s := by
  rw [skip, List.dropWhile_append_of_pos hgap, ← skip]

lemma isSpace_scalar {c : Char} (h : c ∉ [' ', '\t', '\n', '\r']) : isSpace (.scalar c) = false := by
  simp only [List.mem_cons, List.not_mem_nil, or_false, not_or] at h
  simp [isSpace, h]

/-- The first character tells what is scanned. -/
lemma rendered_head (py : Python) (gap : PyStr) {j : Json} (hj : proper py j) :
    ∃ c cs, rendered gap j = .scalar c :: cs ∧ c ∉ [' ', '\t', '\n', '\r', ']', '}', '\ufeff'] := by
  cases j with
  | null => exact ⟨'n', _, rfl, by decide⟩
  | bool b => cases b <;> exact ⟨_, _, rfl, by decide⟩
  | int n =>
    cases n with
    | ofNat m =>
      obtain ⟨c, cs, hc⟩ := List.exists_cons_of_ne_nil (Nat.toDigits_ne_nil (n := m) (b := 10))
      have hdigit := Nat.isDigit_of_mem_toDigits (by decide) (by decide) (hc ▸ List.mem_cons_self)
      refine ⟨c, PyStr.ofChars cs, ?_, ?_⟩
      · have h : toString (Int.ofNat m) = toString m := rfl
        rw [rendered, h, PyStr.ofString, Data.toList_num, hc, Data.ofChars_cons]
      · intro hmem
        have hall : [' ', '\t', '\n', '\r', ']', '}', '\ufeff'].all (fun d => !d.isDigit) = true := by decide
        have hnot := List.all_eq_true.mp hall c hmem
        rw [hdigit] at hnot
        cases hnot
    | negSucc m => exact ⟨'-', _, text_negSucc m, by decide⟩
  | float t =>
    obtain ⟨c, cs, rfl, hc⟩ := hj.head
    exact ⟨c, PyStr.ofChars cs, rfl, hc⟩
  | str s => exact ⟨'"', _, rfl, by decide⟩
  | arr items => exact ⟨'[', _, rfl, by decide⟩
  | obj members => exact ⟨'{', _, rfl, by decide⟩

lemma skip_rendered (py : Python) (gap : PyStr) {j : Json} (hj : proper py j) (s : PyStr) :
    skip (rendered gap j ++ s) = rendered gap j ++ s := by
  obtain ⟨c, cs, hc, hne⟩ := rendered_head py gap hj
  rw [hc]
  exact Data.skip_scalar (isSpace_scalar fun h => hne (by simp at h ⊢; tauto)) _

lemma skip_quote (k s : PyStr) : skip (quote k ++ s) = quote k ++ s := Data.skip_scalar (by decide) _

mutual

/-- A value's text is read as the value. -/
lemma scan_rendered (py : Python) {gap : PyStr} (hgap : Blank gap) : (j : Json) → {steps room : ℕ} → {r : PyStr} →
    proper py j → Ends r → (rendered gap j).length < steps → depth j ≤ room →
    scanValue py steps room (rendered gap j ++ r) = .ok (j, r)
  | null, steps + 1, room, r, _, _, _, _ => scanValue_word py steps room (w := ("null", .null)) (by simp [words]) r
  | bool true, steps + 1, room, r, _, _, _, _ => scanValue_word py steps room (w := ("true", .bool true)) (by simp [words]) r
  | bool false, steps + 1, room, r, _, _, _, _ =>
      scanValue_word py steps room (w := ("false", .bool false)) (by simp [words]) r
  | int n, steps + 1, room, r, hp, hr, _, _ => scanValue_int py steps room hp hr
  | float t, steps + 1, room, r, hp, hr, _, _ => hp.scan steps room r hr
  | str s, steps + 1, room, r, _, _, _, _ => by
      rw [rendered, quote, List.cons_append, Data.scanValue_quote, List.append_assoc, List.singleton_append,
        scanString_quoted]
      rfl
  | arr [], steps + 1, room + 1, r, _, _, _, _ => by
      rw [rendered, renderedItems, List.cons_append, Data.scanValue_bracket, List.singleton_append,
        Data.skip_scalar (by decide)]
      rfl
  | arr (j :: js), steps + 1, room + 1, r, hp, hr, hl, hd => by
      have hl : (renderedItems gap (j :: js)).length < steps := by simpa [rendered] using hl
      have hd : depthItems (j :: js) ≤ room := by simpa [depth] using hd
      have hitems := scan_items py hgap (j :: js) (by simp) (r := r) hp hl hd
      obtain ⟨c, cs, hc, hne⟩ := rendered_head py gap hp.1
      have hskip : skip (renderedItems gap (j :: js) ++ r) = renderedItems gap (j :: js) ++ r := by
        rw [renderedItems, List.append_assoc, skip_rendered py gap hp.1]
      rw [rendered, List.cons_append, Data.scanValue_bracket, hskip, hitems, if_neg]
      · rfl
      · rw [renderedItems, hc]
        simp only [List.cons_append, List.head?_cons, Option.some.injEq, PyChar.scalar.injEq]
        rintro rfl
        exact hne (by simp)
  | obj [], steps + 1, room + 1, r, _, _, _, _ => by
      rw [rendered, renderedMembers, List.cons_append, Data.scanValue_brace, List.singleton_append,
        Data.skip_scalar (by decide)]
      rfl
  | obj ((k, j) :: ms), steps + 1, room + 1, r, hp, hr, hl, hd => by
      have hl : (renderedMembers gap ((k, j) :: ms)).length < steps := by simpa [rendered] using hl
      have hd : depthMembers ((k, j) :: ms) ≤ room := by simpa [depth] using hd
      have hmembers := scan_members py hgap ((k, j) :: ms) (by simp) (r := r) hp.2 hl hd
      have hskip : skip (renderedMembers gap ((k, j) :: ms) ++ r) = renderedMembers gap ((k, j) :: ms) ++ r := by
        rw [renderedMembers, List.append_assoc, skip_quote]
      rw [rendered, List.cons_append, Data.scanValue_brace, hskip, hmembers, if_neg]
      · simp only [Except.map, Dict.ofPairs_of_nodup hp.1]
      · rw [renderedMembers, quote]
        simp

lemma scan_items (py : Python) {gap : PyStr} (hgap : Blank gap) : (js : List Json) → js ≠ [] → {steps room : ℕ} →
    {r : PyStr} → properItems py js → (renderedItems gap js).length < steps → depthItems js ≤ room →
    scanItems py steps room (renderedItems gap js ++ r) = .ok (js, r)
  | [j], _, steps + 1, room, r, hp, hl, hd => by
      have hl : (rendered gap j).length < steps := by simpa [renderedItems] using hl
      have hd : depth j ≤ room := by simpa [depthItems] using hd
      have hone := scan_rendered py hgap j (r := .scalar ']' :: r) hp.1 (Data.ends_char (by decide)) hl hd
      have htext : renderedItems gap [j] ++ r = rendered gap j ++ .scalar ']' :: r := by simp [renderedItems]
      rw [htext, scanItems, hone]
      simp only [bind, Except.bind, Data.skip_scalar (by decide : isSpace (.scalar ']') = false), List.head?_cons, if_true,
        List.tail_cons, pure, Except.pure]
  | j :: i :: js, _, steps + 1, room, r, hp, hl, hd => by
      have hl : (rendered gap j).length < steps ∧ (renderedItems gap (i :: js)).length < steps := by
        simp only [renderedItems.eq_2 gap j (i :: js), List.isEmpty_cons, Bool.false_eq_true, if_false, List.length_append,
          List.length_cons] at hl
        omega
      have hd : depth j ≤ room ∧ depthItems (i :: js) ≤ room := by simpa [depthItems.eq_2 j (i :: js)] using hd
      have hone := scan_rendered py hgap j (r := .scalar ',' :: (gap ++ (renderedItems gap (i :: js) ++ r))) hp.1
        (Data.ends_char (by decide)) hl.1 hd.1
      have hrest := scan_items py hgap (i :: js) (by simp) (r := r) hp.2 hl.2 hd.2
      have htext : renderedItems gap (j :: i :: js) ++ r =
          rendered gap j ++ .scalar ',' :: (gap ++ (renderedItems gap (i :: js) ++ r)) := by
        rw [renderedItems.eq_2 gap j (i :: js)]
        simp
      have hskip : skip (gap ++ (renderedItems gap (i :: js) ++ r)) = renderedItems gap (i :: js) ++ r := by
        rw [skip_blank hgap, renderedItems, List.append_assoc, skip_rendered py gap hp.2.1]
      rw [htext, scanItems, hone]
      simp only [bind, Except.bind, Data.skip_scalar (by decide : isSpace (.scalar ',') = false), List.head?_cons,
        Option.some.injEq, PyChar.scalar.injEq, if_neg (by decide : (',' : Char) ≠ ']'), List.tail_cons, hskip, hrest,
        ne_eq, not_true_eq_false, if_false, pure, Except.pure]

lemma scan_members (py : Python) {gap : PyStr} (hgap : Blank gap) : (ms : List (PyStr × Json)) → ms ≠ [] →
    {steps room : ℕ} → {r : PyStr} → properMembers py ms → (renderedMembers gap ms).length < steps →
    depthMembers ms ≤ room → scanMembers py steps room (renderedMembers gap ms ++ r) = .ok (ms, r)
  | [(k, j)], _, steps + 1, room, r, hp, hl, hd => by
      have hl : (rendered gap j).length < steps := by
        simp only [renderedMembers, List.length_append, List.length_cons] at hl
        omega
      have hd : depth j ≤ room := by simpa [depthMembers] using hd
      have hone := scan_rendered py hgap j (r := .scalar '}' :: r) hp.1 (Data.ends_char (by decide)) hl hd
      have htext : renderedMembers gap [(k, j)] ++ r = .scalar '"' :: (k.flatMap escape ++ .scalar '"' :: .scalar ':' ::
          (gap ++ (rendered gap j ++ .scalar '}' :: r))) := by
        simp [renderedMembers, quote]
      have hskip : skip (gap ++ (rendered gap j ++ .scalar '}' :: r)) = rendered gap j ++ .scalar '}' :: r := by
        rw [skip_blank hgap, skip_rendered py gap hp.1]
      rw [htext, scanMembers]
      simp only [List.head?_cons, ne_eq, not_true_eq_false, if_false, List.tail_cons, scanString_quoted, bind, Except.bind,
        Data.skip_scalar (by decide : isSpace (.scalar ':') = false), hskip, hone,
        Data.skip_scalar (by decide : isSpace (.scalar '}') = false), if_true, pure, Except.pure]
  | (k, j) :: m :: ms, _, steps + 1, room, r, hp, hl, hd => by
      have hl : (rendered gap j).length < steps ∧ (renderedMembers gap (m :: ms)).length < steps := by
        simp only [renderedMembers.eq_2 gap k j (m :: ms), List.isEmpty_cons, Bool.false_eq_true, if_false,
          List.length_append, List.length_cons] at hl
        omega
      have hd : depth j ≤ room ∧ depthMembers (m :: ms) ≤ room := by simpa [depthMembers.eq_2 k j (m :: ms)] using hd
      have hone := scan_rendered py hgap j (r := .scalar ',' :: (gap ++ (renderedMembers gap (m :: ms) ++ r))) hp.1
        (Data.ends_char (by decide)) hl.1 hd.1
      have hrest := scan_members py hgap (m :: ms) (by simp) (r := r) hp.2 hl.2 hd.2
      have htext : renderedMembers gap ((k, j) :: m :: ms) ++ r = .scalar '"' :: (k.flatMap escape ++ .scalar '"' ::
          .scalar ':' :: (gap ++ (rendered gap j ++ .scalar ',' :: (gap ++ (renderedMembers gap (m :: ms) ++ r))))) := by
        rw [renderedMembers.eq_2 gap k j (m :: ms), quote]
        simp
      have hvalue : skip (gap ++ (rendered gap j ++ .scalar ',' :: (gap ++ (renderedMembers gap (m :: ms) ++ r)))) =
          rendered gap j ++ .scalar ',' :: (gap ++ (renderedMembers gap (m :: ms) ++ r)) := by
        rw [skip_blank hgap, skip_rendered py gap hp.1]
      have hskip : skip (gap ++ (renderedMembers gap (m :: ms) ++ r)) = renderedMembers gap (m :: ms) ++ r := by
        rw [skip_blank hgap, renderedMembers, List.append_assoc, skip_quote]
      rw [htext, scanMembers]
      simp only [List.head?_cons, ne_eq, not_true_eq_false, if_false, List.tail_cons, scanString_quoted, bind, Except.bind,
        Data.skip_scalar (by decide : isSpace (.scalar ':') = false), hvalue, hone,
        Data.skip_scalar (by decide : isSpace (.scalar ',') = false), Option.some.injEq, PyChar.scalar.injEq,
        if_neg (by decide : (',' : Char) ≠ '}'), hskip, hrest, pure, Except.pure]

end

lemma loads_rendered (py : Python) {gap : PyStr} (hgap : Blank gap) {j : Json} (hj : proper py j)
    (hd : depth j ≤ py.loadsNesting) : loads py (rendered gap j) = .ok j := by
  have hsteps : (rendered gap j).length < 2 * (rendered gap j).length + 2 := by omega
  have hscan := scan_rendered py hgap j hj Data.ends_nil hsteps hd
  have hskip := skip_rendered py gap hj []
  rw [List.append_nil] at hscan hskip
  have hmark : (rendered gap j).head? ≠ some (.scalar '\ufeff') := by
    obtain ⟨c, cs, hc, hne⟩ := rendered_head py gap hj
    rw [hc]
    intro hmark
    obtain rfl : c = '\ufeff' := by simpa using hmark
    exact hne (by simp)
  rw [loads, hskip, hscan]
  simp [bind, Except.bind, hmark, skip, pure, Except.pure]

/-! ### The order of the keys -/

lemma code_injective : Function.Injective PyStr.code := by
  intro p q h
  cases p with
  | scalar c =>
    have hc := PyStr.char_valid c
    cases q with
    | scalar d =>
      have h : c.toNat = d.toNat := h
      rw [← Char.ofNat_toNat c, h, Char.ofNat_toNat]
    | surrogate n =>
      simp only [PyStr.code] at h
      omega
  | surrogate n =>
    cases q with
    | scalar d =>
      have hd := PyStr.char_valid d
      simp only [PyStr.code] at h
      omega
    | surrogate m =>
      simp only [PyStr.code] at h
      exact congrArg PyChar.surrogate (Fin.ext (by omega))

lemma sortedMembers_eq (ms : List (PyStr × Json)) : sortedMembers ms = ms.map fun m => (m.1, sorted m.2) := by
  induction ms with
  | nil => rfl
  | cons m ms ih => rw [sortedMembers, ih, List.map_cons]

lemma sortedItems_eq (js : List Json) : sortedItems js = js.map sorted := by
  induction js with
  | nil => rfl
  | cons j js ih => rw [sortedItems, ih, List.map_cons]

lemma properMembers_iff {py : Python} {ms : List (PyStr × Json)} : properMembers py ms ↔ ∀ m ∈ ms, proper py m.2 := by
  induction ms with
  | nil => simp [properMembers]
  | cons m ms ih => rw [properMembers, ih, List.forall_mem_cons]

lemma properItems_iff {py : Python} {js : List Json} : properItems py js ↔ ∀ j ∈ js, proper py j := by
  induction js with
  | nil => simp [properItems]
  | cons j js ih => rw [properItems, ih, List.forall_mem_cons]

lemma depthMembers_le {ms : List (PyStr × Json)} {n : ℕ} : depthMembers ms ≤ n ↔ ∀ m ∈ ms, depth m.2 ≤ n := by
  induction ms with
  | nil => simp [depthMembers]
  | cons m ms ih => rw [depthMembers, Nat.max_le, ih, List.forall_mem_cons]

lemma depthItems_le {js : List Json} {n : ℕ} : depthItems js ≤ n ↔ ∀ j ∈ js, depth j ≤ n := by
  induction js with
  | nil => simp [depthItems]
  | cons j js ih => rw [depthItems, Nat.max_le, ih, List.forall_mem_cons]

lemma perm_sorted (ms : List (PyStr × Json)) :
    ((sortedMembers ms).insertionSort memberLE).Perm (ms.map fun m => (m.1, sorted m.2)) := by
  rw [← sortedMembers_eq]
  exact List.perm_insertionSort memberLE _

lemma proper_sorted {py : Python} {j : Json} (h : proper py j) : proper py (sorted j) := by
  induction j using induct with
  | arr items ih =>
    rw [sorted, proper, properItems_iff, sortedItems_eq]
    exact List.forall_mem_map.mpr fun j hj => ih j hj (properItems_iff.mp h j hj)
  | obj members ih =>
    rw [sorted, proper, properMembers_iff, ((perm_sorted members).map Prod.fst).nodup_iff, List.map_map]
    refine ⟨h.1, fun m hm => ?_⟩
    obtain ⟨m', hm', rfl⟩ := List.mem_map.mp ((perm_sorted members).mem_iff.mp hm)
    exact ih m' hm' (properMembers_iff.mp h.2 m' hm')
  | _ => exact h

lemma depth_sorted (j : Json) : depth (sorted j) = depth j := by
  induction j using induct with
  | arr items ih =>
    refine Nat.add_right_cancel_iff.mpr (eq_of_forall_ge_iff fun n => ?_)
    rw [depthItems_le, depthItems_le, sortedItems_eq, List.forall_mem_map]
    exact forall₂_congr fun j hj => by rw [ih j hj]
  | obj members ih =>
    refine Nat.add_right_cancel_iff.mpr (eq_of_forall_ge_iff fun n => ?_)
    rw [depthMembers_le, depthMembers_le]
    simp only [(perm_sorted members).mem_iff, List.forall_mem_map]
    exact forall₂_congr fun m hm => by rw [ih m hm]
  | _ => rfl

lemma printableItems_eq (js : List Json) : printableItems js = js.all printable := by
  induction js with
  | nil => rfl
  | cons j js ih => rw [printableItems, ih, List.all_cons]

lemma printableMembers_eq (ms : List (PyStr × Json)) : printableMembers ms = ms.all fun m => printable m.2 := by
  induction ms with
  | nil => rfl
  | cons m ms ih => rw [printableMembers, ih, List.all_cons]

lemma printable_sorted (j : Json) : printable (sorted j) = printable j := by
  induction j using induct with
  | arr items ih =>
    rw [sorted, printable, printable, printableItems_eq, printableItems_eq, sortedItems_eq, List.all_map,
      Bool.eq_iff_iff, List.all_eq_true, List.all_eq_true]
    exact forall₂_congr fun j hj => by rw [Function.comp_apply, ih j hj]
  | obj members ih =>
    rw [sorted, printable, printable, printableMembers_eq, printableMembers_eq, (perm_sorted members).all_eq,
      List.all_map, Bool.eq_iff_iff, List.all_eq_true, List.all_eq_true]
    exact forall₂_congr fun m hm => by rw [Function.comp_apply, ih m hm]
  | _ => rfl

/-! ### The same value -/

mutual

/-- No key stands twice in a dict. -/
def distinct : Json → Prop
  | arr items => distinctItems items
  | obj members => (members.map Prod.fst).Nodup ∧ distinctMembers members
  | _ => True

def distinctItems : List Json → Prop
  | [] => True
  | j :: js => distinct j ∧ distinctItems js

def distinctMembers : List (PyStr × Json) → Prop
  | [] => True
  | (_, j) :: ms => distinct j ∧ distinctMembers ms

end

lemma distinctItems_iff {js : List Json} : distinctItems js ↔ ∀ j ∈ js, distinct j := by
  induction js with
  | nil => simp [distinctItems]
  | cons j js ih => rw [distinctItems, ih, List.forall_mem_cons]

lemma distinctMembers_iff {ms : List (PyStr × Json)} : distinctMembers ms ↔ ∀ m ∈ ms, distinct m.2 := by
  induction ms with
  | nil => simp [distinctMembers]
  | cons m ms ih => rw [distinctMembers, ih, List.forall_mem_cons]

mutual

/-- The same value, whatever the order of the keys. -/
def same : Json → Json → Prop
  | null, null => True
  | bool b, bool c => b = c
  | int m, int n => m = n
  | float t, float u => t = u
  | str s, str t => s = t
  | arr items, arr items' => sameItems items items'
  | obj members, obj members' => ∃ ms, ms.Perm members' ∧ sameMembers members ms
  | _, _ => False

def sameItems : List Json → List Json → Prop
  | [], [] => True
  | j :: js, i :: is => same j i ∧ sameItems js is
  | _, _ => False

def sameMembers : List (PyStr × Json) → List (PyStr × Json) → Prop
  | [], [] => True
  | (k, j) :: ms, (l, i) :: ns => k = l ∧ same j i ∧ sameMembers ms ns
  | _, _ => False

end

lemma sameItems_iff {js is : List Json} (h : ∀ j ∈ js, ∀ i, same j i ↔ sorted j = sorted i) :
    sameItems js is ↔ js.map sorted = is.map sorted := by
  induction js generalizing is with
  | nil => cases is <;> simp [sameItems]
  | cons j js ih =>
    obtain ⟨hj, hjs⟩ := List.forall_mem_cons.mp h
    cases is with
    | nil => simp [sameItems]
    | cons i is => rw [sameItems, hj, ih hjs, List.map_cons, List.map_cons, List.cons.injEq]

lemma sameMembers_iff {ms ns : List (PyStr × Json)} (h : ∀ m ∈ ms, ∀ i, same m.2 i ↔ sorted m.2 = sorted i) :
    sameMembers ms ns ↔ (ms.map fun m => (m.1, sorted m.2)) = ns.map fun m => (m.1, sorted m.2) := by
  induction ms generalizing ns with
  | nil => cases ns <;> simp [sameMembers]
  | cons m ms ih =>
    obtain ⟨hm, hms⟩ := List.forall_mem_cons.mp h
    cases ns with
    | nil => simp [sameMembers]
    | cons n ns => rw [sameMembers, hm, ih hms, List.map_cons, List.map_cons, List.cons.injEq, Prod.mk.injEq, and_assoc]

/-- In a dict, where no key stands twice, the order of the keys is the only one. -/
lemma insertionSort_eq {ms ns : List (PyStr × Json)} (hn : (ms.map Prod.fst).Nodup) (h : ms.Perm ns) :
    ms.insertionSort memberLE = ns.insertionSort memberLE := by
  have hperm := ((List.perm_insertionSort memberLE ms).trans h).trans (List.perm_insertionSort memberLE ns).symm
  have htotal : ∀ p q, memberLE p q ∨ memberLE q p := fun p q => le_total (p.1.map PyStr.code) (q.1.map PyStr.code)
  have htrans : ∀ p q r, memberLE p q → memberLE q r → memberLE p r := fun _ _ _ => le_trans
  have : Std.Total memberLE := ⟨htotal⟩
  have : IsTrans _ memberLE := ⟨htrans⟩
  refine hperm.eq_of_pairwise (fun p q hp hq hpq hqp => ?_) (List.pairwise_insertionSort memberLE ms)
    (List.pairwise_insertionSort memberLE ns)
  have hkey : p.1 = q.1 := List.map_injective_iff.mpr code_injective (le_antisymm hpq hqp)
  rw [List.mem_insertionSort] at hp hq
  exact List.inj_on_of_nodup_map hn hp (h.mem_iff.mpr hq) hkey

lemma nodup_sorted {ms : List (PyStr × Json)} (hn : (ms.map Prod.fst).Nodup) :
    ((ms.map fun m => (m.1, sorted m.2)).map Prod.fst).Nodup := by
  rwa [List.map_map]

/-- Two values are the same where they are equal with their keys in order. -/
lemma same_iff {a : Json} (ha : distinct a) (b : Json) : same a b ↔ sorted a = sorted b := by
  induction a using induct generalizing b with
  | arr items ih =>
    cases b with
    | arr items' =>
      rw [same, sorted, sorted, Json.arr.injEq, sortedItems_eq, sortedItems_eq]
      exact sameItems_iff fun j hj => ih j hj (distinctItems_iff.mp ha j hj)
    | _ => simp [same, sorted]
  | obj members ih =>
    cases b with
    | obj members' =>
      have hms : ∀ ns, sameMembers members ns ↔ _ := fun ns =>
        @sameMembers_iff members ns fun m hm => ih m hm (distinctMembers_iff.mp ha.2 m hm)
      rw [same, sorted, sorted, Json.obj.injEq, sortedMembers_eq, sortedMembers_eq]
      constructor
      · rintro ⟨ns, hperm, hsame⟩
        rw [hms] at hsame
        rw [hsame]
        exact insertionSort_eq (hsame ▸ nodup_sorted ha.1) (hperm.map _)
      · intro h
        have hperm : (members.map fun m => (m.1, sorted m.2)).Perm (members'.map fun m => (m.1, sorted m.2)) := by
          refine (List.perm_insertionSort memberLE _).symm.trans ?_
          rw [h]
          exact List.perm_insertionSort memberLE _
        have hself : List.Forall₂ (fun x (m : PyStr × Json) => x = (m.1, sorted m.2))
            (members'.map fun m => (m.1, sorted m.2)) members' := by
          rw [List.forall₂_map_left_iff]
          exact List.forall₂_same.mpr fun _ _ => rfl
        obtain ⟨ns, hsame, hns⟩ := List.perm_comp_forall₂ hperm hself
        refine ⟨ns, hns, (hms ns).mpr ?_⟩
        rw [← List.forall₂_eq_eq_eq, List.forall₂_map_right_iff]
        exact hsame
    | _ => simp [same, sorted]
  | _ => cases b <;> simp [same, sorted]

lemma distinct_sorted {j : Json} (h : distinct j) : distinct (sorted j) := by
  induction j using induct with
  | arr items ih =>
    rw [sorted, distinct, distinctItems_iff, sortedItems_eq]
    exact List.forall_mem_map.mpr fun j hj => ih j hj (distinctItems_iff.mp h j hj)
  | obj members ih =>
    rw [sorted, distinct, distinctMembers_iff, ((perm_sorted members).map Prod.fst).nodup_iff, List.map_map]
    refine ⟨h.1, fun m hm => ?_⟩
    obtain ⟨m', hm', rfl⟩ := List.mem_map.mp ((perm_sorted members).mem_iff.mp hm)
    exact ih m' hm' (distinctMembers_iff.mp h.2 m' hm')
  | _ => exact h

/-- Keys in order stay as they are. -/
lemma sorted_sorted {j : Json} (h : distinct j) : sorted (sorted j) = sorted j := by
  induction j using induct with
  | arr items ih =>
    rw [sorted, sorted, sortedItems_eq, sortedItems_eq, List.map_map]
    exact congrArg arr (List.map_congr_left fun j hj => ih j hj (distinctItems_iff.mp h j hj))
  | obj members ih =>
    have hkept : (members.map fun m => (m.1, sorted m.2)).map (fun m => (m.1, sorted m.2)) =
        members.map fun m => (m.1, sorted m.2) := by
      rw [List.map_map]
      exact List.map_congr_left fun m hm => Prod.ext rfl (ih m hm (distinctMembers_iff.mp h.2 m hm))
    rw [sorted, sorted, sortedMembers_eq ((sortedMembers members).insertionSort memberLE), sortedMembers_eq]
    refine congrArg obj ((insertionSort_eq ?_ ((List.perm_insertionSort memberLE _).map _)).trans (by rw [hkept]))
    rw [List.map_map, ((List.perm_insertionSort memberLE _).map _).nodup_iff]
    exact nodup_sorted h.1
  | _ => rfl

lemma get_perm {V : Type} {d d' : Dict PyStr V} (hn : (d.map Prod.fst).Nodup) (h : d.Perm d') (k : PyStr) :
    Dict.get d' k = Dict.get d k := by
  cases hg : Dict.get d k with
  | some v =>
    have hmem := h.mem_iff.mp (Dict.get_mem hg)
    have hn' : (d'.map Prod.fst).Nodup := (h.map Prod.fst).nodup_iff.mp hn
    rw [Dict.get, KeyedTable.row_eq_some hn' hmem]
    rfl
  | none =>
    have hnone : KeyedTable.row Prod.fst k d = none := by simpa [Dict.get] using hg
    rw [Dict.get, KeyedTable.row_eq_none.mpr fun p hp => KeyedTable.row_eq_none.mp hnone p (h.mem_iff.mpr hp)]
    rfl

lemma get_map_sorted (ms : List (PyStr × Json)) (k : PyStr) :
    Dict.get (ms.map fun m => (m.1, sorted m.2)) k = (Dict.get ms k).map sorted := by
  rw [Dict.get, Dict.get, KeyedTable.row, KeyedTable.row, List.find?_map, Option.map_map, Option.map_map]
  rfl

/-- Under a key stands the same value with its keys in order. -/
lemma get_sorted {ms : List (PyStr × Json)} (hn : (ms.map Prod.fst).Nodup) (k : PyStr) :
    Dict.get ((sortedMembers ms).insertionSort memberLE) k = (Dict.get ms k).map sorted := by
  rw [get_perm (nodup_sorted hn) (perm_sorted ms).symm, get_map_sorted]

/-- A text determines its value, up to the order of the keys. -/
lemma rendered_inj (py : Python) {gap : PyStr} (hgap : Blank gap) {a b : Json} (ha : proper py a) (hb : proper py b)
    (hda : depth a ≤ py.loadsNesting) (hdb : depth b ≤ py.loadsNesting)
    (h : rendered gap (sorted a) = rendered gap (sorted b)) : sorted a = sorted b := by
  have hread := loads_rendered py hgap (proper_sorted ha) ((depth_sorted a).trans_le hda)
  rw [h, loads_rendered py hgap (proper_sorted hb) ((depth_sorted b).trans_le hdb)] at hread
  exact (Except.ok.inj hread).symm

end ContinuityLedger.Foundations.Json
