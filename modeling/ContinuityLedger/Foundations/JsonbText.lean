import ContinuityLedger.Foundations.Delimited
import ContinuityLedger.Foundations.Jsonb
import ContinuityLedger.Foundations.TimestampLaws

/-! The text of a `jsonb` value tells the value, and where it ends: no text of an array, an object or a string goes on
in another, and a number or a word ends at the first character that is none of its own. -/

namespace ContinuityLedger.Foundations.Jsonb

/-- The characters that stand for one character inside quotes. -/
def escapeChars (c : Char) : List Char := (escapeChar c).toList

/-- The short escapes: what follows the backslash, and what it stands for. -/
def shortEscapes : List (Char × Char) :=
  [('"', '"'), ('\\', '\\'), ('b', Char.ofNat 8), ('f', Char.ofNat 12), ('n', '\n'), ('r', '\r'), ('t', '\t')]

inductive Escaped (c : Char) : List Char → Prop
  | plain (hq : c ≠ '"') (hb : c ≠ '\\') : Escaped c [c]
  | short (k : Char) (h : (k, c) ∈ shortEscapes) : Escaped c ['\\', k]
  | code (h : c.toNat < 32) :
      Escaped c ['\\', 'u', '0', '0', Nat.digitChar (c.toNat / 16), Nat.digitChar (c.toNat % 16)]

lemma char_eq_ofNat {c : Char} {n : ℕ} (h : c.toNat = n) : c = Char.ofNat n := by
  rw [← h, Char.ofNat_toNat]

lemma escaped (c : Char) : Escaped c (escapeChars c) := by
  unfold escapeChars escapeChar
  split_ifs with hq hb h8 h12 hn hr ht hc
  · subst hq
    exact .short '"' (by decide)
  · subst hb
    exact .short '\\' (by decide)
  · rw [char_eq_ofNat h8]
    exact .short 'b' (by decide)
  · rw [char_eq_ofNat h12]
    exact .short 'f' (by decide)
  · subst hn
    exact .short 'n' (by decide)
  · subst hr
    exact .short 'r' (by decide)
  · subst ht
    exact .short 't' (by decide)
  · rw [String.toList_append, String.toList_ofList, String.toList_ofList]
    exact .code hc
  · rw [String.toList_singleton]
    exact .plain hq hb

lemma digitChar_inj {m n : ℕ} (hm : m < 16) (hn : n < 16) (h : Nat.digitChar m = Nat.digitChar n) : m = n := by
  interval_cases m <;> interval_cases n <;> first | rfl | exact absurd h (by decide)

lemma shortEscapes_inj {k c d : Char} (hc : (k, c) ∈ shortEscapes) (hd : (k, d) ∈ shortEscapes) : c = d := by
  have hkeys : (shortEscapes.map Prod.fst).Nodup := by decide
  exact (Prod.mk.inj (List.inj_on_of_nodup_map hkeys hc hd rfl)).2

lemma shortEscapes_ne_u {c : Char} : ('u', c) ∉ shortEscapes := by
  simp [shortEscapes]

lemma escape_cut {c d : Char} {x y : List Char} (h : escapeChars c ++ x = escapeChars d ++ y) : c = d ∧ x = y := by
  have hc := escaped c
  have hd := escaped d
  generalize escapeChars c = p at h hc
  generalize escapeChars d = q at h hd
  cases hc with
  | plain hq hb =>
    cases hd with
    | plain => simpa using h
    | short k hk => exact absurd (List.cons.inj h).1 hb
    | code hlt => exact absurd (List.cons.inj h).1 hb
  | short k hk =>
    cases hd with
    | plain hq hb => exact absurd (List.cons.inj h).1.symm hb
    | short l hl =>
      simp only [List.cons_append, List.nil_append, List.cons.injEq, true_and] at h
      obtain ⟨rfl, hxy⟩ := h
      exact ⟨shortEscapes_inj hk hl, hxy⟩
    | code hlt =>
      simp only [List.cons_append, List.nil_append, List.cons.injEq, true_and] at h
      obtain ⟨rfl, -⟩ := h
      exact absurd hk shortEscapes_ne_u
  | code hlt =>
    cases hd with
    | plain hq hb => exact absurd (List.cons.inj h).1.symm hb
    | short l hl =>
      simp only [List.cons_append, List.nil_append, List.cons.injEq, true_and] at h
      obtain ⟨rfl, -⟩ := h
      exact absurd hl shortEscapes_ne_u
    | code hlt' =>
      simp only [List.cons_append, List.nil_append, List.cons.injEq, true_and] at h
      obtain ⟨hhigh, hlow, hxy⟩ := h
      have hdiv := digitChar_inj (by omega) (by omega) hhigh
      have hmod := digitChar_inj (by omega) (by omega) hlow
      refine ⟨Char.toNat_inj.mp ?_, hxy⟩
      omega

/-- No escape starts with a quote. -/
lemma escape_ne_quote (c : Char) (x y : List Char) : escapeChars c ++ x ≠ '"' :: y := by
  intro h
  have hc := escaped c
  generalize escapeChars c = p at h hc
  cases hc with
  | plain hq hb => exact hq (List.cons.inj h).1
  | short k hk => exact absurd (List.cons.inj h).1 (by decide)
  | code hlt => exact absurd (List.cons.inj h).1 (by decide)

lemma escapes_cut {cs ds x y : List Char}
    (h : cs.flatMap escapeChars ++ '"' :: x = ds.flatMap escapeChars ++ '"' :: y) : cs = ds ∧ x = y := by
  induction cs generalizing ds with
  | nil =>
    cases ds with
    | nil => simpa using h
    | cons d ds =>
      rw [List.flatMap_cons, List.append_assoc] at h
      exact absurd h.symm (escape_ne_quote d _ _)
  | cons c cs ih =>
    rw [List.flatMap_cons, List.append_assoc] at h
    cases ds with
    | nil => exact absurd h (escape_ne_quote c _ _)
    | cons d ds =>
      rw [List.flatMap_cons, List.append_assoc] at h
      obtain ⟨rfl, hrest⟩ := escape_cut h
      obtain ⟨rfl, hxy⟩ := ih hrest
      exact ⟨rfl, hxy⟩

lemma quote_toList (s : String) : (quote s).toList = '"' :: (s.toList.flatMap escapeChars ++ ['"']) := by
  unfold quote
  rw [String.toList_append, String.toList_append, String.toList_join, List.flatMap_map]
  rfl

lemma quote_cut {s t : String} {x y : List Char} (h : (quote s).toList ++ x = (quote t).toList ++ y) :
    s = t ∧ x = y := by
  rw [quote_toList, quote_toList, List.cons_append, List.cons_append, List.append_assoc, List.append_assoc] at h
  obtain ⟨hst, hxy⟩ := escapes_cut (List.cons.inj h).2
  exact ⟨String.toList_inj.mp hst, hxy⟩

def isNumberChar (c : Char) : Bool := PyText.isAsciiDigit c || c = '-' || c = '.'

/-- Nothing follows, or a character that no number contains. -/
def Ends (x : List Char) : Prop := ∀ c ∈ x.head?, isNumberChar c = false

lemma cut_run {p : Char → Bool} {a b x y : List Char} (ha : a.all p = true) (hb : b.all p = true)
    (hx : ∀ c ∈ x.head?, p c = false) (hy : ∀ c ∈ y.head?, p c = false) (h : a ++ x = b ++ y) : a = b ∧ x = y := by
  have hrun : ∀ u v : List Char, u.all p = true → (∀ c ∈ v.head?, p c = false) → (u ++ v).takeWhile p = u := by
    intro u v hu hv
    rw [List.takeWhile_append_of_pos (List.all_eq_true.mp hu)]
    cases v with
    | nil => simp
    | cons c v => simp [hv c (by simp)]
  have hab : a = b := by rw [← hrun a x ha hx, ← hrun b y hb hy, h]
  subst hab
  exact ⟨rfl, List.append_cancel_left h⟩

/-- Sign, digits before the point, and the point with the digits after it. -/
def Decimal.digits (d : Decimal) : List Char := (Calendar.padded (d.scale + 1) d.coefficient.natAbs).toList

def Decimal.sign (d : Decimal) : List Char := if d.coefficient < 0 then ['-'] else []

def Decimal.whole (d : Decimal) : List Char := d.digits.take (d.digits.length - d.scale)

def Decimal.fraction (d : Decimal) : List Char := d.digits.drop (d.digits.length - d.scale)

def Decimal.point (d : Decimal) : List Char := if d.scale = 0 then [] else '.' :: d.fraction

lemma Decimal.text_toList (d : Decimal) : d.text.toList = d.sign ++ d.whole ++ d.point := by
  unfold Decimal.text Decimal.sign Decimal.point
  dsimp only
  rw [String.toList_append, String.toList_append, String.toList_ofList]
  congr 1
  · congr 1
    split_ifs <;> rfl
  · split_ifs
    · rfl
    · rw [String.toList_append, String.toList_ofList, String.toList_ofList]
      rfl

lemma Decimal.digits_digit (d : Decimal) : ∀ c ∈ d.digits, PyText.isAsciiDigit c = true :=
  List.all_eq_true.mp (Timestamps.padded_digits _ _)

lemma Decimal.length_digits (d : Decimal) : d.scale + 1 ≤ d.digits.length := by
  unfold Decimal.digits Calendar.padded
  rw [String.toList_append, String.toList_ofList, List.length_append, List.length_replicate, String.length_toList]
  omega

lemma Decimal.length_fraction (d : Decimal) : d.fraction.length = d.scale := by
  have hlen := d.length_digits
  rw [Decimal.fraction, List.length_drop]
  omega

lemma Decimal.whole_append (d : Decimal) : d.whole ++ d.fraction = d.digits := List.take_append_drop _ _

lemma Decimal.whole_digit (d : Decimal) : ∀ c ∈ d.whole, PyText.isAsciiDigit c = true :=
  fun c hc => d.digits_digit c (List.mem_of_mem_take hc)

lemma Decimal.whole_ne_nil (d : Decimal) : d.whole ≠ [] := by
  have hlen := d.length_digits
  refine List.ne_nil_of_length_pos ?_
  rw [Decimal.whole, List.length_take]
  omega

lemma Decimal.text_isNumber (d : Decimal) : d.text.toList.all isNumberChar = true := by
  rw [List.all_eq_true]
  intro c hc
  have hdigit : ∀ c ∈ d.digits, isNumberChar c = true := fun c hc => by simp [isNumberChar, d.digits_digit c hc]
  rw [d.text_toList, List.mem_append, List.mem_append] at hc
  rcases hc with (hc | hc) | hc
  · unfold Decimal.sign at hc
    split_ifs at hc with hneg
    · rw [List.mem_singleton.mp hc]
      rfl
    · exact absurd hc (List.not_mem_nil)
  · exact hdigit c (List.mem_of_mem_take hc)
  · unfold Decimal.point at hc
    split_ifs at hc with hs
    · exact absurd hc (List.not_mem_nil)
    · rcases List.mem_cons.mp hc with rfl | hc
      · rfl
      · exact hdigit c (List.mem_of_mem_drop hc)

lemma Decimal.sign_cut {d e : Decimal} {x y : List Char} (h : d.sign ++ (d.whole ++ x) = e.sign ++ (e.whole ++ y)) :
    (d.coefficient < 0 ↔ e.coefficient < 0) ∧ d.whole ++ x = e.whole ++ y := by
  have hlead : ∀ (a : Decimal) (u v : List Char), a.whole ++ u ≠ '-' :: v := by
    intro a u v hav
    obtain ⟨c, cs, hcs⟩ := List.exists_cons_of_ne_nil a.whole_ne_nil
    rw [hcs, List.cons_append] at hav
    have hc := a.whole_digit c (by rw [hcs]; exact List.mem_cons_self)
    rw [(List.cons.inj hav).1] at hc
    exact absurd hc (by decide)
  unfold Decimal.sign at h
  split_ifs at h with hd he he
  · exact ⟨iff_of_true hd he, (List.cons.inj h).2⟩
  · exact absurd h.symm (hlead e y _)
  · exact absurd h (hlead d x _)
  · exact ⟨iff_of_false hd he, h⟩

lemma Decimal.point_head (d : Decimal) : ∀ c ∈ d.point.head?, PyText.isAsciiDigit c = false := by
  intro c hc
  unfold Decimal.point at hc
  split_ifs at hc with hs
  · exact absurd hc (by simp)
  · rw [← Option.some.inj hc]
    rfl

lemma Decimal.point_cut {d e : Decimal} (h : d.point = e.point) : d.scale = e.scale ∧ d.fraction = e.fraction := by
  have hempty : ∀ a : Decimal, a.scale = 0 → a.fraction = [] :=
    fun a ha => List.eq_nil_of_length_eq_zero (a.length_fraction.trans ha)
  unfold Decimal.point at h
  split_ifs at h with hd he he
  · exact ⟨hd.trans he.symm, by rw [hempty d hd, hempty e he]⟩
  · have hf := (List.cons.inj h).2
    exact ⟨by rw [← d.length_fraction, ← e.length_fraction, hf], hf⟩

/-- The sign, then the digits up to the point, then those after it. -/
lemma Decimal.text_injective {d e : Decimal} (h : d.text.toList = e.text.toList) : d = e := by
  rw [d.text_toList, e.text_toList, List.append_assoc, List.append_assoc] at h
  obtain ⟨hsign, h⟩ := sign_cut h
  obtain ⟨hwhole, hpoint⟩ := cut_run (List.all_eq_true.mpr d.whole_digit) (List.all_eq_true.mpr e.whole_digit)
    d.point_head e.point_head h
  obtain ⟨hscale, hfraction⟩ := point_cut hpoint
  have hdigits : d.digits = e.digits := by rw [← d.whole_append, ← e.whole_append, hwhole, hfraction]
  have hvalue := congrArg (fun cs => Nat.ofDigitChars 10 cs 0) hdigits
  simp only [Decimal.digits, Timestamps.padded_value] at hvalue
  have hcoefficient : d.coefficient = e.coefficient := by omega
  cases d
  cases e
  simp_all

inductive Kind
  | null | boolean | number | string | array | object
deriving DecidableEq

/-- What kind of value a first character starts. -/
def kindOf (c : Char) : Kind :=
  if c = 'n' then .null
  else if c = 't' || c = 'f' then .boolean
  else if c = '"' then .string
  else if c = '[' then .array
  else if c = '\x7b' then .object
  else .number

def Value.kind : Value → Kind
  | .null => .null
  | .boolean _ => .boolean
  | .number _ => .number
  | .string _ => .string
  | .array _ => .array
  | .object _ => .object

lemma kindOf_number {c : Char} (h : isNumberChar c = true) : kindOf c = .number := by
  unfold kindOf
  split_ifs with hn ht hq ha ho
  · rw [hn] at h
    exact absurd h (by decide)
  · simp only [Bool.or_eq_true, decide_eq_true_eq] at ht
    rcases ht with rfl | rfl <;> exact absurd h (by decide)
  · rw [hq] at h
    exact absurd h (by decide)
  · rw [ha] at h
    exact absurd h (by decide)
  · rw [ho] at h
    exact absurd h (by decide)
  · rfl

lemma Value.text_lead (v : Value) : ∃ c cs, v.text.toList = c :: cs ∧ kindOf c = v.kind ∧ c ≠ ']' := by
  cases v with
  | null => exact ⟨'n', "ull".toList, by rw [Value.text]; rfl, rfl, by decide⟩
  | boolean b =>
    cases b with
    | true => exact ⟨'t', "rue".toList, by rw [Value.text]; rfl, rfl, by decide⟩
    | false => exact ⟨'f', "alse".toList, by rw [Value.text]; rfl, rfl, by decide⟩
  | number d =>
    have hne : d.text.toList ≠ [] := by
      rw [d.text_toList]
      simp [d.whole_ne_nil]
    obtain ⟨c, cs, hcs⟩ := List.exists_cons_of_ne_nil hne
    have hc : isNumberChar c = true :=
      List.all_eq_true.mp d.text_isNumber c (by rw [hcs]; exact List.mem_cons_self)
    refine ⟨c, cs, by rw [Value.text, hcs], kindOf_number hc, ?_⟩
    rintro rfl
    exact absurd hc (by decide)
  | string s => exact ⟨'"', _, by rw [Value.text, quote_toList], rfl, by decide⟩
  | array items =>
    refine ⟨'[', (textItems items).toList ++ [']'], ?_, rfl, by decide⟩
    rw [Value.text, String.toList_append, String.toList_append]
    rfl
  | object fields =>
    refine ⟨'\x7b', (textFields fields).toList ++ ['\x7d'], ?_, rfl, by decide⟩
    rw [Value.text, String.toList_append, String.toList_append]
    rfl

lemma Value.kind_eq {v w : Value} {x y : List Char} (h : v.text.toList ++ x = w.text.toList ++ y) :
    v.kind = w.kind := by
  obtain ⟨c, cs, hcs, hc, -⟩ := v.text_lead
  obtain ⟨d, ds, hds, hd, -⟩ := w.text_lead
  rw [hcs, hds] at h
  rw [← hc, ← hd, (List.cons.inj h).1]

/-- What follows an item: the end of its list, or the next item. -/
def afterItem (js : List Value) (x : List Char) : List Char :=
  if js = [] then ']' :: x else ',' :: ' ' :: ((textItems js).toList ++ ']' :: x)

def afterField (fs : List (String × Value)) (x : List Char) : List Char :=
  if fs = [] then '\x7d' :: x else ',' :: ' ' :: ((textFields fs).toList ++ '\x7d' :: x)

lemma textItems_cons (j : Value) (js : List Value) (x : List Char) :
    (textItems (j :: js)).toList ++ ']' :: x = j.text.toList ++ afterItem js x := by
  cases js with
  | nil => simp [textItems, afterItem]
  | cons k ks =>
    rw [textItems, afterItem, if_neg (by simp), String.toList_append, String.toList_append, List.append_assoc,
      List.append_assoc]
    · rfl
    · simp

lemma textFields_cons (k : String) (j : Value) (fs : List (String × Value)) (x : List Char) :
    (textFields ((k, j) :: fs)).toList ++ '\x7d' :: x =
      (quote k).toList ++ ':' :: ' ' :: (j.text.toList ++ afterField fs x) := by
  cases fs with
  | nil =>
    rw [textFields, afterField, if_pos rfl, String.toList_append, String.toList_append, List.append_assoc,
      List.append_assoc]
    rfl
  | cons f fs =>
    rw [textFields, afterField, if_neg (by simp), String.toList_append, String.toList_append, String.toList_append,
      String.toList_append, List.append_assoc, List.append_assoc, List.append_assoc, List.append_assoc]
    · rfl
    · simp

lemma ends_afterItem (js : List Value) (x : List Char) : Ends (afterItem js x) := by
  intro c hc
  unfold afterItem at hc
  split_ifs at hc <;> rw [← Option.some.inj hc] <;> rfl

lemma ends_afterField (fs : List (String × Value)) (x : List Char) : Ends (afterField fs x) := by
  intro c hc
  unfold afterField at hc
  split_ifs at hc <;> rw [← Option.some.inj hc] <;> rfl

/-- A value does not start with the end of a list. -/
lemma Value.text_ne_end (v : Value) (x y : List Char) : ']' :: x ≠ v.text.toList ++ y := by
  intro h
  obtain ⟨c, cs, hcs, -, hend⟩ := v.text_lead
  rw [hcs] at h
  exact hend (List.cons.inj h).1.symm

lemma Value.boolean_eq {a b : Bool} {x y : List Char}
    (h : (Value.boolean a).text.toList ++ x = (Value.boolean b).text.toList ++ y) : a = b := by
  cases a <;> cases b <;> first | rfl | exact absurd (List.cons.inj h).1 (by decide)

lemma array_toList (items : List Value) (x : List Char) :
    (Value.array items).text.toList ++ x = '[' :: ((textItems items).toList ++ ']' :: x) := by
  rw [Value.text, String.toList_append, String.toList_append, List.append_assoc, List.append_assoc]
  rfl

lemma object_toList (fields : List (String × Value)) (x : List Char) :
    (Value.object fields).text.toList ++ x = '\x7b' :: ((textFields fields).toList ++ '\x7d' :: x) := by
  rw [Value.text, String.toList_append, String.toList_append, List.append_assoc, List.append_assoc]
  rfl

mutual

lemma Value.cut : (v w : Value) → {x y : List Char} → Ends x → Ends y →
    v.text.toList ++ x = w.text.toList ++ y → v = w ∧ x = y
  | .null, w, x, y, _, _, h => by
    have hk := Value.kind_eq h
    cases w with
    | null => exact ⟨rfl, List.append_cancel_left h⟩
    | _ => exact absurd hk (by simp [Value.kind])
  | .boolean a, w, x, y, _, _, h => by
    have hk := Value.kind_eq h
    cases w with
    | boolean b =>
      have hab : a = b := Value.boolean_eq h
      subst hab
      exact ⟨rfl, List.append_cancel_left h⟩
    | _ => exact absurd hk (by simp [Value.kind])
  | .number d, w, x, y, hx, hy, h => by
    have hk := Value.kind_eq h
    cases w with
    | number e =>
      rw [Value.text, Value.text] at h
      obtain ⟨hde, hxy⟩ := cut_run d.text_isNumber e.text_isNumber hx hy h
      exact ⟨by rw [Decimal.text_injective hde], hxy⟩
    | _ => exact absurd hk (by simp [Value.kind])
  | .string s, w, x, y, _, _, h => by
    have hk := Value.kind_eq h
    cases w with
    | string t =>
      rw [Value.text, Value.text] at h
      obtain ⟨rfl, hxy⟩ := quote_cut h
      exact ⟨rfl, hxy⟩
    | _ => exact absurd hk (by simp [Value.kind])
  | .array items, w, x, y, _, _, h => by
    have hk := Value.kind_eq h
    cases w with
    | array items' =>
      rw [array_toList, array_toList] at h
      obtain ⟨rfl, hxy⟩ := cutItems items items' (List.cons.inj h).2
      exact ⟨rfl, hxy⟩
    | _ => exact absurd hk (by simp [Value.kind])
  | .object fields, w, x, y, _, _, h => by
    have hk := Value.kind_eq h
    cases w with
    | object fields' =>
      rw [object_toList, object_toList] at h
      obtain ⟨rfl, hxy⟩ := cutFields fields fields' (List.cons.inj h).2
      exact ⟨rfl, hxy⟩
    | _ => exact absurd hk (by simp [Value.kind])

lemma cutItems : (js ks : List Value) → {x y : List Char} →
    (textItems js).toList ++ ']' :: x = (textItems ks).toList ++ ']' :: y → js = ks ∧ x = y
  | [], ks, x, y, h => by
    cases ks with
    | nil => exact ⟨rfl, (List.cons.inj h).2⟩
    | cons k ks =>
      rw [textItems_cons] at h
      exact absurd h (k.text_ne_end _ _)
  | j :: js, ks, x, y, h => by
    cases ks with
    | nil =>
      rw [textItems_cons] at h
      exact absurd h.symm (j.text_ne_end _ _)
    | cons k ks =>
      rw [textItems_cons, textItems_cons] at h
      obtain ⟨rfl, hrest⟩ := Value.cut j k (ends_afterItem js x) (ends_afterItem ks y) h
      unfold afterItem at hrest
      split_ifs at hrest with hjs hks hks
      · exact ⟨by rw [hjs, hks], (List.cons.inj hrest).2⟩
      · exact absurd (List.cons.inj hrest).1 (by decide)
      · exact absurd (List.cons.inj hrest).1 (by decide)
      · obtain ⟨rfl, hxy⟩ := cutItems js ks (List.cons.inj (List.cons.inj hrest).2).2
        exact ⟨rfl, hxy⟩

lemma cutFields : (fs gs : List (String × Value)) → {x y : List Char} →
    (textFields fs).toList ++ '\x7d' :: x = (textFields gs).toList ++ '\x7d' :: y → fs = gs ∧ x = y
  | [], gs, x, y, h => by
    cases gs with
    | nil => exact ⟨rfl, (List.cons.inj h).2⟩
    | cons g gs =>
      rw [textFields_cons, quote_toList] at h
      exact absurd (List.cons.inj h).1 (by decide)
  | (k, j) :: fs, gs, x, y, h => by
    cases gs with
    | nil =>
      rw [textFields_cons, quote_toList] at h
      exact absurd (List.cons.inj h).1 (by decide)
    | cons g gs =>
      rw [textFields_cons, textFields_cons] at h
      obtain ⟨hkey, hvalue⟩ := quote_cut h
      obtain ⟨hj, hrest⟩ := Value.cut j g.2 (ends_afterField fs x) (ends_afterField gs y)
        (List.cons.inj (List.cons.inj hvalue).2).2
      unfold afterField at hrest
      split_ifs at hrest with hfs hgs hgs
      · exact ⟨by rw [hfs, hgs, hkey, hj], (List.cons.inj hrest).2⟩
      · exact absurd (List.cons.inj hrest).1 (by decide)
      · exact absurd (List.cons.inj hrest).1 (by decide)
      · obtain ⟨rfl, hxy⟩ := cutFields fs gs (List.cons.inj (List.cons.inj hrest).2).2
        exact ⟨by rw [hkey, hj], hxy⟩

end

end ContinuityLedger.Foundations.Jsonb
