import ContinuityLedger.Foundations.Sha256

/-! Thirty-two bytes and their sixty-four digits determine each other. -/

namespace ContinuityLedger.Foundations.Sha256

lemma hexValue_hexDigit {n : ℕ} (h : n < 16) : hexValue (hexDigit n) = n := by
  interval_cases n <;> decide

lemma isHexDigit_spec {c : Char} (h : isHexDigit c = true) : hexValue c < 16 ∧ hexDigit (hexValue c) = c := by
  have hmem : c ∈ "0123456789abcdef".toList := List.contains_iff_mem.mp h
  have hlen : "0123456789abcdef".toList.length = 16 := by decide
  have hlt : "0123456789abcdef".toList.idxOf c < "0123456789abcdef".toList.length := List.idxOf_lt_length_of_mem hmem
  refine ⟨by rw [hexValue]; omega, ?_⟩
  rw [hexDigit, hexValue, List.getD_eq_getElem?_getD, List.getElem?_eq_getElem hlt, Option.getD_some]
  exact List.getElem_idxOf hlt

lemma fromHexChars_hexChars : (bs : Bytes) → fromHexChars (hexChars bs) = bs
  | [] => rfl
  | b :: bs => by
    have hb : b.toNat < 256 := b.toNat_lt
    have ih := fromHexChars_hexChars bs
    rw [hexChars] at ih ⊢
    rw [List.flatMap_cons, hexByte, List.cons_append, List.cons_append, List.nil_append, fromHexChars, ih,
      hexValue_hexDigit (by omega), hexValue_hexDigit (by omega)]
    have hsum : b.toNat / 16 * 16 + b.toNat % 16 = b.toNat := by omega
    rw [hsum, UInt8.ofNat_toNat]

lemma hexChars_fromHexChars : (cs : List Char) → 2 ∣ cs.length → (∀ c ∈ cs, isHexDigit c = true) →
    hexChars (fromHexChars cs) = cs
  | [], _, _ => rfl
  | [_], h, _ => by
    rw [List.length_singleton] at h
    omega
  | a :: b :: cs, h, hd => by
    obtain ⟨ha, hda⟩ := isHexDigit_spec (hd a (by simp))
    obtain ⟨hb, hdb⟩ := isHexDigit_spec (hd b (by simp))
    have ih := hexChars_fromHexChars cs (by rw [List.length_cons, List.length_cons] at h; omega)
      fun c hc => hd c (by simp [hc])
    have hn : (UInt8.ofNat (hexValue a * 16 + hexValue b)).toNat = hexValue a * 16 + hexValue b := by
      rw [UInt8.toNat_ofNat']
      omega
    rw [hexChars] at ih ⊢
    rw [fromHexChars, List.flatMap_cons, hexByte, hn, ih]
    have hhigh : (hexValue a * 16 + hexValue b) / 16 = hexValue a := by omega
    have hlow : (hexValue a * 16 + hexValue b) % 16 = hexValue b := by omega
    rw [hhigh, hlow, hda, hdb]
    rfl

lemma Hex64.chars_length (h : Hex64) : h.text.toList.length = 64 := by
  have hv := h.valid
  simp only [isHex64, Bool.and_eq_true, beq_iff_eq] at hv
  exact hv.1

lemma Hex64.chars_isHexDigit (h : Hex64) : ∀ c ∈ h.text.toList, isHexDigit c = true := by
  have hv := h.valid
  simp only [isHex64, Bool.and_eq_true, List.all_eq_true] at hv
  exact hv.2

lemma Hex64.hexChars_bytes (h : Hex64) : hexChars h.bytes = h.text.toList :=
  hexChars_fromHexChars _ (by rw [h.chars_length]; decide) h.chars_isHexDigit

@[simp] lemma Hex64.bytes_length (h : Hex64) : h.bytes.length = 32 := by
  have hlen := congrArg List.length h.hexChars_bytes
  rw [hexChars_length, h.chars_length] at hlen
  omega

lemma Hex64.bytes_injective : Function.Injective Hex64.bytes := by
  intro a b h
  have hchars : a.text.toList = b.text.toList := by rw [← a.hexChars_bytes, ← b.hexChars_bytes, h]
  exact Hex64.ext (String.toList_inj.mp hchars)

@[ext] lemma Digest.ext {a b : Digest} (h : a.bytes = b.bytes) : a = b := by
  cases a
  cases b
  simpa using h

lemma Digest.hex_injective : Function.Injective Digest.hex := by
  intro a b h
  have hchars := String.ofList_injective (congrArg Hex64.text h)
  have hback := congrArg fromHexChars hchars
  rw [fromHexChars_hexChars, fromHexChars_hexChars] at hback
  exact Digest.ext hback

end ContinuityLedger.Foundations.Sha256
