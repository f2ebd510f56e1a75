import ContinuityLedger.Foundations.Delimited
import ContinuityLedger.Foundations.Hex
import ContinuityLedger.Foundations.PyStr

/-! Fields before a bar: numbers, hashes, and texts with their length in bytes before them, which end where they say
whatever they contain. -/

namespace ContinuityLedger.Foundations.Delimited

open Sha256

lemma free_text (h : Hex64) : Free '|' h.text := fun hbar => absurd (h.chars_isHexDigit _ hbar) (by decide)

lemma free_number (n : ℤ) : Free '|' (toString n) := free_int (by decide) (by decide) n

lemma cut_number {m n : ℤ} {x y : String} (h : toString m ++ ("|" ++ x) = toString n ++ ("|" ++ y)) :
    m = n ∧ x = y := by
  obtain ⟨hn, hx⟩ := cut_bar (free_number m) (free_number n) h
  exact ⟨int_text_injective hn, hx⟩

lemma cut_hash {a b : Hex64} {x y : String} (h : a.text ++ ("|" ++ x) = b.text ++ ("|" ++ y)) : a = b ∧ x = y := by
  obtain ⟨ha, hx⟩ := cut_bar (free_text a) (free_text b) h
  exact ⟨Hex64.ext ha, hx⟩

lemma utf8_append (a b : String) : utf8 (a ++ b) = utf8 a ++ utf8 b := by
  simp [utf8, String.toUTF8]

/-- Every character takes a byte at least. -/
lemma length_le_utf8 (s : String) : s.toList.length ≤ (utf8 s).length := by
  rw [← String.ofList_toList (s := s), PyStr.utf8_ofList, String.toList_ofList, PyStr.utf8Chars, List.length_flatMap]
  refine le_of_eq_of_le (List.length_map _).symm (List.length_le_sum_of_one_le _ fun n hn => ?_)
  obtain ⟨c, -, rfl⟩ := List.mem_map.mp hn
  rw [String.length_utf8EncodeChar]
  exact c.utf8Size_pos

lemma nat_text_injective {m n : ℕ} (h : toString m = toString n) : m = n := Nat.repr_injective h

lemma cut_colon {a b x y : String} (ha : Free ':' a) (hb : Free ':' b) (h : a ++ (":" ++ x) = b ++ (":" ++ y)) :
    a = b ∧ x = y := by
  have hl := congrArg String.toList h
  simp only [String.toList_append, String.reduceToList, List.singleton_append] at hl
  obtain ⟨h₁, h₂⟩ := cut ha hb hl
  exact ⟨String.toList_injective h₁, String.toList_injective h₂⟩

lemma cut_prefixed {a b x y : String}
    (h : toString (utf8 a).length ++ (":" ++ (a ++ x)) = toString (utf8 b).length ++ (":" ++ (b ++ y))) :
    a = b ∧ x = y := by
  obtain ⟨hlen, htext⟩ := cut_colon (free_nat (by decide) _) (free_nat (by decide) _) h
  have hbytes := congrArg utf8 htext
  rw [utf8_append, utf8_append] at hbytes
  obtain ⟨ha, hx⟩ := List.append_inj hbytes (nat_text_injective hlen)
  exact ⟨PyStr.utf8_injective ha, PyStr.utf8_injective hx⟩

end ContinuityLedger.Foundations.Delimited
