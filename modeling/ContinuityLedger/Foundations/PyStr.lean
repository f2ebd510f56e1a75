import Mathlib.Data.List.Forall2
import ContinuityLedger.Foundations.Sha256

/-! Python strings, where a surrogate may stand alone, and their bytes in UTF-8: `encode`, which raises on such a
surrogate, and `decode` with `"replace"`, which puts U+FFFD for what is no UTF-8. -/

namespace ContinuityLedger.Foundations

open Sha256

/-- A code point of a Python string. -/
inductive PyChar
  | scalar (c : Char)
  | surrogate (n : Fin 2048)
deriving DecidableEq

abbrev PyStr := List PyChar

namespace PyStr

def code : PyChar → ℕ
  | .scalar c => c.toNat
  | .surrogate n => 0xd800 + n

def ofChars (cs : List Char) : PyStr := cs.map .scalar

def ofString (s : String) : PyStr := ofChars s.toList

/-- `s.encode("utf-8")`. -/
def encode : PyStr → Option Bytes
  | [] => some []
  | .scalar c :: s => (encode s).map (String.utf8EncodeChar c ++ ·)
  | .surrogate _ :: _ => none

def utf8Chars (cs : List Char) : Bytes := cs.flatMap String.utf8EncodeChar

lemma encode_ofChars (cs : List Char) : encode (ofChars cs) = some (utf8Chars cs) := by
  induction cs with
  | nil => rfl
  | cons c cs ih =>
    rw [ofChars, List.map_cons, encode, ← ofChars, ih]
    simp [utf8Chars]

lemma encode_eq_some {s : PyStr} {bs : Bytes} (h : encode s = some bs) :
    ∃ cs, s = ofChars cs ∧ bs = utf8Chars cs := by
  induction s generalizing bs with
  | nil => exact ⟨[], rfl, (Option.some.inj h).symm⟩
  | cons p s ih =>
    cases p with
    | surrogate n => simp [encode] at h
    | scalar c =>
      obtain ⟨bs', hb, rfl⟩ := Option.map_eq_some_iff.mp h
      obtain ⟨cs, rfl, rfl⟩ := ih hb
      exact ⟨c :: cs, rfl, by simp [utf8Chars]⟩

/-- A string can be encoded where every code point is a character. -/
lemma encode_isSome {s : PyStr} : (encode s).isSome ↔ ∀ n, PyChar.surrogate n ∉ s := by
  induction s with
  | nil => simp [encode]
  | cons p s ih =>
    cases p with
    | surrogate n => exact iff_of_false (by simp [encode]) (fun h => h n (by simp))
    | scalar c => simp [encode, ih]

lemma ofChars_injective : Function.Injective ofChars :=
  List.map_injective_iff.mpr fun _ _ h => PyChar.scalar.inj h

lemma utf8_ofList (cs : List Char) : utf8 (String.ofList cs) = utf8Chars cs := by
  simp [utf8, String.toUTF8, String.toByteArray_ofList, List.utf8Encode, utf8Chars]

/-- Where the bytes after a first byte must lie. -/
def tails (b : ℕ) : Option (List (ℕ × ℕ)) :=
  if b < 0x80 then some []
  else if b < 0xc2 then none
  else if b < 0xe0 then some [(0x80, 0xbf)]
  else if b = 0xe0 then some [(0xa0, 0xbf), (0x80, 0xbf)]
  else if b = 0xed then some [(0x80, 0x9f), (0x80, 0xbf)]
  else if b < 0xf0 then some [(0x80, 0xbf), (0x80, 0xbf)]
  else if b = 0xf0 then some [(0x90, 0xbf), (0x80, 0xbf), (0x80, 0xbf)]
  else if b < 0xf4 then some [(0x80, 0xbf), (0x80, 0xbf), (0x80, 0xbf)]
  else if b = 0xf4 then some [(0x80, 0x8f), (0x80, 0xbf), (0x80, 0xbf)]
  else none

/-- How many bytes lie where they must. -/
def fitting : List (ℕ × ℕ) → Bytes → ℕ
  | r :: rs, b :: bs => if r.1 ≤ b.toNat ∧ b.toNat ≤ r.2 then fitting rs bs + 1 else 0
  | _, _ => 0

/-- The character that a first byte and the bytes after it write. -/
def assembled (b : ℕ) (tail : Bytes) : Char :=
  let lead := match tail.length with
    | 0 => b
    | 1 => b % 32
    | 2 => b % 16
    | _ => b % 8
  Char.ofNat (tail.foldl (fun v t => v * 64 + t.toNat % 64) lead)

/-- `decode("utf-8", "replace")`, past `skip` bytes that were read already. -/
def decodeFrom : ℕ → Bytes → List Char
  | _, [] => []
  | skip + 1, _ :: bs => decodeFrom skip bs
  | 0, b :: bs =>
    match tails b.toNat with
    | none => '\ufffd' :: decodeFrom 0 bs
    | some rs =>
      let n := fitting rs bs
      (if n = rs.length then assembled b.toNat (bs.take n) else '\ufffd') :: decodeFrom n bs

def decodeReplace (bs : Bytes) : List Char := decodeFrom 0 bs

lemma decodeFrom_append {skip : ℕ} {pre bs : Bytes} (h : pre.length = skip) :
    decodeFrom skip (pre ++ bs) = decodeFrom 0 bs := by
  induction pre generalizing skip with
  | nil =>
    obtain rfl : 0 = skip := h
    rfl
  | cons b pre ih =>
    obtain ⟨n, rfl⟩ : ∃ n, skip = n + 1 := ⟨pre.length, h.symm⟩
    rw [List.cons_append, decodeFrom]
    exact ih (by simpa using h)

/-- How a character is written: a first byte, and bytes after it that lie where they must and are no first bytes. -/
structure Shape (c : Char) (b : UInt8) (tail : Bytes) (rs : List (ℕ × ℕ)) : Prop where
  bytes : String.utf8EncodeChar c = b :: tail
  ranges : tails b.toNat = some rs
  fits : List.Forall₂ (fun r t => r.1 ≤ t.toNat ∧ t.toNat ≤ r.2) rs tail
  assembles : assembled b.toNat tail = c
  inner : ∀ t ∈ tail, tails t.toNat = none

lemma toNat_ofNat_lt {n : ℕ} (h : n < 256) : (UInt8.ofNat n).toNat = n := by
  simp [Nat.mod_eq_of_lt h]

lemma tails_inner {n : ℕ} (h : 0x80 ≤ n) (h' : n < 0xc0) : tails n = none := by
  unfold tails
  rw [if_neg (by omega), if_pos (by omega)]

lemma char_valid (c : Char) : c.toNat < 0xd800 ∨ (0xdfff < c.toNat ∧ c.toNat < 0x110000) := c.valid

lemma shape (c : Char) : ∃ b tail rs, Shape c b tail rs := by
  have hvalid := char_valid c
  have hval : c.val.toNat = c.toNat := rfl
  have hback : Char.ofNat c.toNat = c := Char.ofNat_toNat c
  generalize hv : c.toNat = v at hvalid hval hback
  by_cases h₁ : v ≤ 0x7f
  · have hb := toNat_ofNat_lt (n := v) (by omega)
    refine ⟨UInt8.ofNat v, [], [], by simp only [String.utf8EncodeChar, hval, if_pos h₁], ?_, .nil, ?_, by simp⟩
    · rw [hb, tails, if_pos (by omega)]
    · rw [hb]
      exact hback
  by_cases h₂ : v ≤ 0x7ff
  · have hb := toNat_ofNat_lt (n := v / 64 % 0x20 + 0xc0) (by omega)
    have ht := toNat_ofNat_lt (n := v % 0x40 + 0x80) (by omega)
    refine ⟨UInt8.ofNat (v / 64 % 0x20 + 0xc0), [UInt8.ofNat (v % 0x40 + 0x80)], [(0x80, 0xbf)],
      by simp only [String.utf8EncodeChar, hval, if_neg h₁, if_pos h₂], ?_, ?_, ?_, ?_⟩
    · rw [hb, tails, if_neg (by omega), if_neg (by omega), if_pos (by omega)]
    · refine .cons ?_ .nil
      simp only [ht]
      omega
    · rw [hb, assembled]
      simp only [List.length_cons, List.length_nil, List.foldl_cons, List.foldl_nil, ht]
      rw [← hback]
      congr 1
      omega
    · simp only [List.mem_singleton, forall_eq, ht]
      exact tails_inner (by omega) (by omega)
  by_cases h₃ : v ≤ 0xffff
  · have hb := toNat_ofNat_lt (n := v / 4096 % 0x10 + 0xe0) (by omega)
    have ht := toNat_ofNat_lt (n := v / 64 % 0x40 + 0x80) (by omega)
    have hu := toNat_ofNat_lt (n := v % 0x40 + 0x80) (by omega)
    have hrange : ∃ lo hi, tails (v / 4096 % 0x10 + 0xe0) = some [(lo, hi), (0x80, 0xbf)] ∧
        lo ≤ v / 64 % 0x40 + 0x80 ∧ v / 64 % 0x40 + 0x80 ≤ hi := by
      unfold tails
      rw [if_neg (by omega), if_neg (by omega), if_neg (by omega)]
      split_ifs
      · exact ⟨_, _, rfl, by omega, by omega⟩
      · exact ⟨_, _, rfl, by omega, by omega⟩
      · exact ⟨_, _, rfl, by omega, by omega⟩
      all_goals omega
    obtain ⟨lo, hi, hr, hlo, hhi⟩ := hrange
    refine ⟨UInt8.ofNat (v / 4096 % 0x10 + 0xe0), [UInt8.ofNat (v / 64 % 0x40 + 0x80), UInt8.ofNat (v % 0x40 + 0x80)],
      [(lo, hi), (0x80, 0xbf)], by simp only [String.utf8EncodeChar, hval, if_neg h₁, if_neg h₂, if_pos h₃], ?_, ?_, ?_, ?_⟩
    · rw [hb, hr]
    · refine .cons ?_ (.cons ?_ .nil)
      · simp only [ht]
        omega
      · simp only [hu]
        omega
    · rw [hb, assembled]
      simp only [List.length_cons, List.length_nil, List.foldl_cons, List.foldl_nil, ht, hu]
      rw [← hback]
      congr 1
      omega
    · simp only [List.mem_cons, List.not_mem_nil, or_false, forall_eq_or_imp, forall_eq, ht, hu]
      exact ⟨tails_inner (by omega) (by omega), tails_inner (by omega) (by omega)⟩
  · have hb := toNat_ofNat_lt (n := v / 262144 % 0x08 + 0xf0) (by omega)
    have ht := toNat_ofNat_lt (n := v / 4096 % 0x40 + 0x80) (by omega)
    have hu := toNat_ofNat_lt (n := v / 64 % 0x40 + 0x80) (by omega)
    have hw := toNat_ofNat_lt (n := v % 0x40 + 0x80) (by omega)
    have hrange : ∃ lo hi, tails (v / 262144 % 0x08 + 0xf0) = some [(lo, hi), (0x80, 0xbf), (0x80, 0xbf)] ∧
        lo ≤ v / 4096 % 0x40 + 0x80 ∧ v / 4096 % 0x40 + 0x80 ≤ hi := by
      unfold tails
      rw [if_neg (by omega), if_neg (by omega), if_neg (by omega), if_neg (by omega), if_neg (by omega),
        if_neg (by omega)]
      split_ifs
      · exact ⟨_, _, rfl, by omega, by omega⟩
      · exact ⟨_, _, rfl, by omega, by omega⟩
      · exact ⟨_, _, rfl, by omega, by omega⟩
      · omega
    obtain ⟨lo, hi, hr, hlo, hhi⟩ := hrange
    refine ⟨UInt8.ofNat (v / 262144 % 0x08 + 0xf0), [UInt8.ofNat (v / 4096 % 0x40 + 0x80),
      UInt8.ofNat (v / 64 % 0x40 + 0x80), UInt8.ofNat (v % 0x40 + 0x80)], [(lo, hi), (0x80, 0xbf), (0x80, 0xbf)],
      by simp only [String.utf8EncodeChar, hval, if_neg h₁, if_neg h₂, if_neg h₃], ?_, ?_, ?_, ?_⟩
    · rw [hb, hr]
    · refine .cons ?_ (.cons ?_ (.cons ?_ .nil))
      · simp only [ht]
        omega
      · simp only [hu]
        omega
      · simp only [hw]
        omega
    · rw [hb, assembled]
      simp only [List.length_cons, List.length_nil, List.foldl_cons, List.foldl_nil, ht, hu, hw]
      rw [← hback]
      congr 1
      omega
    · simp only [List.mem_cons, List.not_mem_nil, or_false, forall_eq_or_imp, forall_eq, ht, hu, hw]
      exact ⟨tails_inner (by omega) (by omega), tails_inner (by omega) (by omega), tails_inner (by omega) (by omega)⟩

lemma fitting_append {rs : List (ℕ × ℕ)} {tail : Bytes} (h : List.Forall₂ (fun r t => r.1 ≤ t.toNat ∧ t.toNat ≤ r.2) rs tail)
    (bs : Bytes) : fitting rs (tail ++ bs) = tail.length := by
  induction h with
  | nil => cases bs <;> rfl
  | cons hr _ ih =>
    rw [List.cons_append, fitting, if_pos hr, ih]
    rfl

lemma fitting_take {rs : List (ℕ × ℕ)} {tail : Bytes} (h : List.Forall₂ (fun r t => r.1 ≤ t.toNat ∧ t.toNat ≤ r.2) rs tail)
    (k : ℕ) : fitting rs (tail.take k) = (tail.take k).length := by
  induction h generalizing k with
  | nil => simp [fitting]
  | cons hr _ ih =>
    cases k with
    | zero => rfl
    | succ k =>
      rw [List.take_succ_cons, fitting, if_pos hr, ih]
      rfl

lemma decode_cons (c : Char) (bs : Bytes) : decodeReplace (String.utf8EncodeChar c ++ bs) = c :: decodeReplace bs := by
  obtain ⟨b, tail, rs, hs⟩ := shape c
  have hlen : tail.length = rs.length := hs.fits.length_eq.symm
  rw [decodeReplace, hs.bytes, List.cons_append, decodeFrom, hs.ranges]
  simp only [fitting_append hs.fits bs]
  rw [if_pos hlen, List.take_left, hs.assembles, decodeFrom_append rfl, decodeReplace]

lemma decode_append (cs : List Char) (bs : Bytes) : decodeReplace (utf8Chars cs ++ bs) = cs ++ decodeReplace bs := by
  induction cs with
  | nil => rfl
  | cons c cs ih =>
    rw [utf8Chars, List.flatMap_cons, List.append_assoc, decode_cons, ← utf8Chars, ih]
    rfl

@[simp] lemma decode_nil : decodeReplace [] = [] := rfl

@[simp] lemma decode_utf8Chars (cs : List Char) : decodeReplace (utf8Chars cs) = cs := by
  simpa using decode_append cs []

lemma utf8_injective : Function.Injective utf8 := by
  intro a b h
  have hchars : utf8Chars a.toList = utf8Chars b.toList := by
    rw [← utf8_ofList, ← utf8_ofList, String.ofList_toList, String.ofList_toList, h]
  have hdecode := congrArg decodeReplace hchars
  rw [decode_utf8Chars, decode_utf8Chars] at hdecode
  exact String.toList_inj.mp hdecode

/-- A character cut short is one U+FFFD. -/
lemma decode_cut {c : Char} {k : ℕ} (hk : 0 < k) (h : k < (String.utf8EncodeChar c).length) :
    decodeReplace ((String.utf8EncodeChar c).take k) = ['\ufffd'] := by
  obtain ⟨b, tail, rs, hs⟩ := shape c
  obtain ⟨j, rfl⟩ : ∃ j, k = j + 1 := ⟨k - 1, by omega⟩
  rw [hs.bytes, List.length_cons] at h
  have hlen : tail.length = rs.length := hs.fits.length_eq.symm
  have hne : (tail.take j).length ≠ rs.length := by
    rw [List.length_take]
    omega
  have hrest : decodeFrom (tail.take j).length (tail.take j) = [] := by
    have h := @decodeFrom_append _ (tail.take j) [] rfl
    rwa [List.append_nil] at h
  rw [decodeReplace, hs.bytes, List.take_succ_cons, decodeFrom, hs.ranges]
  simp only [fitting_take hs.fits]
  rw [if_neg hne, hrest]

/-- A text cut at a byte lacks its end, and has one U+FFFD where the cut splits a character. -/
lemma decode_take {cs : List Char} {k : ℕ} (hk : k < (utf8Chars cs).length) : ∃ n < cs.length,
    decodeReplace ((utf8Chars cs).take k) = cs.take n ∨ decodeReplace ((utf8Chars cs).take k) = cs.take n ++ ['\ufffd'] := by
  induction cs generalizing k with
  | nil => simp [utf8Chars] at hk
  | cons c cs ih =>
    have hcons : utf8Chars (c :: cs) = String.utf8EncodeChar c ++ utf8Chars cs := List.flatMap_cons
    rw [hcons, List.length_append] at hk
    rw [hcons, List.take_append]
    rcases Nat.lt_or_ge k (String.utf8EncodeChar c).length with hlt | hge
    · rw [Nat.sub_eq_zero_of_le hlt.le, List.take_zero, List.append_nil]
      refine ⟨0, by simp, ?_⟩
      rcases Nat.eq_zero_or_pos k with rfl | hpos
      · exact .inl rfl
      · exact .inr (by simpa using decode_cut hpos hlt)
    · rw [List.take_of_length_le hge, decode_cons]
      obtain ⟨n, hn, h⟩ := ih (k := k - (String.utf8EncodeChar c).length) (by omega)
      refine ⟨n + 1, by simpa using hn, ?_⟩
      rcases h with h | h
      · exact .inl (by rw [h, List.take_succ_cons])
      · exact .inr (by rw [h, List.take_succ_cons, List.cons_append])

lemma decode_inner {tail : Bytes} (h : ∀ t ∈ tail, tails t.toNat = none) (bs : Bytes) :
    decodeReplace (tail ++ bs) = List.replicate tail.length '\ufffd' ++ decodeReplace bs := by
  induction tail with
  | nil => rfl
  | cons t tail ih =>
    obtain ⟨ht, htail⟩ := List.forall_mem_cons.mp h
    rw [List.cons_append, decodeReplace, decodeFrom, ht]
    exact congrArg _ (ih htail)

/-- What is left of a text behind a byte is its end, with U+FFFDs before it where the cut splits a character. -/
lemma decode_drop (cs : List Char) (k : ℕ) : ∃ m n, (0 < k → 0 < n) ∧ decodeReplace ((utf8Chars cs).drop k) =
    List.replicate m '\ufffd' ++ cs.drop n := by
  induction cs generalizing k with
  | nil => exact ⟨0, k, id, by simp [utf8Chars]⟩
  | cons c cs ih =>
    have hcons : utf8Chars (c :: cs) = String.utf8EncodeChar c ++ utf8Chars cs := List.flatMap_cons
    cases k with
    | zero => exact ⟨0, 0, id, by rw [List.drop_zero, decode_utf8Chars]; rfl⟩
    | succ k =>
      obtain ⟨b, tail, rs, hs⟩ := shape c
      rw [hcons, hs.bytes, List.cons_append, List.drop_succ_cons, List.drop_append]
      rcases Nat.lt_or_ge k tail.length with hk | hk
      · rw [Nat.sub_eq_zero_of_le hk.le, List.drop_zero,
          decode_inner (fun t ht => hs.inner t (List.mem_of_mem_drop ht)), decode_utf8Chars]
        exact ⟨_, 1, fun _ => Nat.one_pos, rfl⟩
      · rw [List.drop_of_length_le hk, List.nil_append]
        obtain ⟨m, n, _, h⟩ := ih (k - tail.length)
        exact ⟨m, n + 1, fun _ => n.succ_pos, h⟩

end PyStr

end ContinuityLedger.Foundations
