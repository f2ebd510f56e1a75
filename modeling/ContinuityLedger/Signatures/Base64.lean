import ContinuityLedger.Signatures.Keys

/-! Base64 with its padding is decoded to what it was made of. -/

namespace ContinuityLedger.Signatures

open Foundations Foundations.Sha256

def padding (n : ℕ) : List Char := List.replicate ((3 - n % 3) % 3) '='

/-- `b64encode`. -/
def base64Encode (bs : Bytes) : List Char := base64Digits bs ++ padding bs.length

lemma base64Value_char {n : ℕ} (h : n < 64) : base64Value (base64Char n) = some n := by
  have hall : ∀ n : Fin 64, base64Value (base64Char n) = some n.val := by decide +kernel
  exact hall ⟨n, h⟩

lemma base64Char_ne {n : ℕ} (h : n < 64) : base64Char n ≠ '=' := by
  intro he
  have hnone : base64Value '=' = none := by decide
  rw [← he, base64Value_char h] at hnone
  cases hnone

lemma base64Loop_push {quad : List ℕ} {n : ℕ} (h : n < 64) (hq : quad.length < 3) (cs : List Char) :
    base64Loop quad 0 (base64Char n :: cs) = base64Loop (quad ++ [n]) 0 cs := by
  rw [base64Loop, if_neg (base64Char_ne h)]
  simp only [base64Value_char h, lt_irrefl, if_false, if_neg (by omega : ¬ quad.length = 3)]

lemma base64Loop_close {a b c n : ℕ} (h : n < 64) (cs : List Char) :
    base64Loop [a, b, c] 0 (base64Char n :: cs) = (base64Loop [] 0 cs).map (quadBytes [a, b, c, n] ++ ·) := by
  rw [base64Loop, if_neg (base64Char_ne h)]
  simp [base64Value_char h]

lemma ofNat_eq {n : ℕ} {b : UInt8} (h : n % 256 = b.toNat) : UInt8.ofNat n = b := by
  rw [← UInt8.toNat_inj, UInt8.toNat_ofNat']
  exact h

lemma base64Loop_encode (bs : Bytes) : base64Loop [] 0 (base64Encode bs) = some bs := by
  unfold base64Encode
  induction bs using base64Digits.induct with
  | case1 a b c rest ih =>
    have ha := a.toNat_lt
    have hb := b.toNat_lt
    have hc := c.toNat_lt
    have hpad : padding (a :: b :: c :: rest).length = padding rest.length := by
      have hmod : (a :: b :: c :: rest).length % 3 = rest.length % 3 := by simp [Nat.add_assoc]
      rw [padding, hmod, padding]
    rw [hpad]
    simp only [base64Digits, List.cons_append]
    rw [base64Loop_push (by omega) (by simp), base64Loop_push (by omega) (by simp),
      base64Loop_push (by omega) (by simp)]
    simp only [List.nil_append, List.cons_append]
    rw [base64Loop_close (by omega), ih]
    simp only [quadBytes, Option.map_some, List.cons_append, List.nil_append]
    rw [ofNat_eq (b := a) (by omega), ofNat_eq (b := b) (by omega), ofNat_eq (b := c) (by omega)]
  | case2 a b =>
    have ha := a.toNat_lt
    have hb := b.toNat_lt
    simp only [base64Digits, List.cons_append]
    rw [base64Loop_push (by omega) (by simp), base64Loop_push (by omega) (by simp),
      base64Loop_push (by omega) (by simp)]
    simp only [List.nil_append, List.cons_append, padding, List.length_cons, List.length_nil, Nat.reduceAdd,
      Nat.reduceMod, Nat.reduceSub, List.replicate_one]
    rw [base64Loop, if_pos rfl, if_pos (by simp), if_pos rfl]
    simp only [quadBytes]
    rw [ofNat_eq (b := a) (by omega), ofNat_eq (b := b) (by omega)]
  | case3 a =>
    have ha := a.toNat_lt
    simp only [base64Digits, List.cons_append]
    rw [base64Loop_push (by omega) (by simp), base64Loop_push (by omega) (by simp)]
    simp only [List.nil_append, List.cons_append, padding, List.length_cons, List.length_nil, Nat.reduceAdd,
      Nat.reduceMod, Nat.reduceSub, List.replicate_succ, List.replicate_zero]
    rw [base64Loop, if_pos rfl, if_neg (by simp), base64Loop, if_pos rfl, if_pos (by simp), if_pos rfl]
    simp only [quadBytes]
    rw [ofNat_eq (b := a) (by omega)]
  | case4 => rfl

lemma base64Encode_alphabet {bs : Bytes} {c : Char} (h : c ∈ base64Encode bs) : c ∈ base64Alphabet ∨ c = '=' := by
  rcases List.mem_append.mp h with h | h
  · exact Or.inl (base64Digits_alphabet bs c h)
  · exact Or.inr (List.eq_of_mem_replicate h)

/-- What was encoded is decoded. -/
lemma base64Decode_encode (bs : Bytes) : base64Decode (String.ofList (base64Encode bs)) = some bs := by
  unfold base64Decode
  rw [String.toList_ofList, if_neg, base64Loop_encode]
  intro h
  have hfirst : ∀ n, n < 64 → some (base64Char n) ≠ some '=' := fun n hn => mt Option.some.inj (base64Char_ne hn)
  rcases bs with _ | ⟨a, _ | ⟨b, _ | ⟨c, rest⟩⟩⟩
  · cases h
  · have ha := a.toNat_lt
    exact hfirst _ (by omega) h
  · have ha := a.toNat_lt
    have hb := b.toNat_lt
    exact hfirst _ (by omega) h
  · have ha := a.toNat_lt
    have hb := b.toNat_lt
    have hc := c.toNat_lt
    exact hfirst _ (by omega) h

end ContinuityLedger.Signatures
