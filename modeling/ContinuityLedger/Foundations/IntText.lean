import ContinuityLedger.Foundations.Delimited
import ContinuityLedger.Foundations.PyText

/-! `int` reads a number's decimal text back. -/

namespace ContinuityLedger.Foundations.PyText

lemma decimalValue_digit {c : Char} (h : c.isDigit = true) : decimalValue c = some (c.toNat - 48) := by
  have hrange : 48 ≤ c.toNat ∧ c.toNat ≤ 57 := by
    simpa [Char.isDigit, UInt32.le_iff_toNat_le] using h
  have hzeros : decimalZeros = 0x30 :: decimalZeros.tail := rfl
  rw [decimalValue, hzeros, List.find?_cons_of_pos, Option.map_some]
  simpa using ⟨hrange.1, Nat.lt_succ_of_le hrange.2⟩

lemma isspace_digit {c : Char} (h : c.isDigit = true) : isspace c = false := by
  have hrange : 48 ≤ c.toNat ∧ c.toNat ≤ 57 := by
    simpa [Char.isDigit, UInt32.le_iff_toNat_le] using h
  obtain ⟨hlow, hhigh⟩ := hrange
  unfold isspace
  generalize c.toNat = n at hlow hhigh
  interval_cases n <;> decide

lemma int_digits {cs : List Char} (h : ∀ c ∈ cs, c.isDigit = true) (hlen : cs.length ≤ 4300) :
    int (String.ofList cs) = some (Nat.ofDigitChars 10 cs 0) := by
  have hmap : cs.mapM decimalValue = some (cs.map fun c => c.toNat - 48) := by
    clear hlen
    induction cs with
    | nil => rfl
    | cons c cs ih =>
      obtain ⟨hc, hcs⟩ := List.forall_mem_cons.mp h
      rw [List.mapM_cons, decimalValue_digit hc, ih hcs]
      rfl
  rw [int, String.toList_ofList, if_neg (not_lt.mpr hlen), hmap, Option.map_some, List.foldl_map,
    Nat.ofDigitChars_eq_foldl]
  rfl

lemma ungrouped_digits {cs : List Char} (h : ∀ c ∈ cs, c.isDigit = true) (hne : cs ≠ []) : ungrouped cs = some cs := by
  have hfree : '_' ∉ cs := fun hm => absurd (h _ hm) (by decide)
  have hsplit : (['_'].intercalate [cs]).splitOn '_' = [cs] :=
    List.splitOn_intercalate '_' (by simpa using hfree) (List.cons_ne_nil _ _)
  rw [List.intercalate_singleton] at hsplit
  simp [ungrouped, hsplit, hne]

lemma strip_of_ends {cs : List Char} (hhead : ∀ c ∈ cs.head?, isspace c = false)
    (hlast : ∀ c ∈ cs.getLast?, isspace c = false) : strip (String.ofList cs) = String.ofList cs := by
  have hkeep : ∀ l : List Char, (∀ c ∈ l.head?, isspace c = false) → lstripChars l = l := by
    intro l hl
    cases l with
    | nil => rfl
    | cons c l => exact List.dropWhile_cons_of_neg (by simp [hl c rfl])
  rw [strip, String.toList_ofList, hkeep cs hhead, hkeep, List.reverse_reverse]
  rwa [List.head?_reverse]

section

variable {cs : List Char} (h : ∀ c ∈ cs, c.isDigit = true) (hne : cs ≠ []) (hlen : cs.length ≤ 4300)
include h hne hlen

lemma intText_digits : intText (String.ofList cs) = some ((Nat.ofDigitChars 10 cs 0 : ℕ) : ℤ) := by
  have hstrip : strip (String.ofList cs) = String.ofList cs :=
    strip_of_ends (fun c hc => isspace_digit (h c (List.mem_of_mem_head? hc)))
      fun c hc => isspace_digit (h c (List.mem_of_getLast? hc))
  have hsign : ∀ c ∈ cs.head?, c ≠ '-' ∧ c ≠ '+' := by
    intro c hc
    have hd := h c (List.mem_of_mem_head? hc)
    exact ⟨by rintro rfl; exact absurd hd (by decide), by rintro rfl; exact absurd hd (by decide)⟩
  rw [intText, hstrip, String.toList_ofList]
  split
  · exact absurd rfl (hsign '-' rfl).1
  · exact absurd rfl (hsign '+' rfl).2
  · simp only [ungrouped_digits h hne, Option.bind_some, int_digits h hlen]
    rfl

lemma intText_minus : intText (String.ofList ('-' :: cs)) = some (-((Nat.ofDigitChars 10 cs 0 : ℕ) : ℤ)) := by
  have hstrip : strip (String.ofList ('-' :: cs)) = String.ofList ('-' :: cs) := by
    refine strip_of_ends (fun c hc => ?_) fun c hc => ?_
    · obtain rfl : '-' = c := by simpa using hc
      decide
    · rw [List.getLast?_cons_of_ne_nil hne] at hc
      exact isspace_digit (h c (List.mem_of_getLast? hc))
  rw [intText, hstrip, String.toList_ofList]
  simp only [ungrouped_digits h hne, Option.bind_some, int_digits h hlen]
  rfl

end

/-- `int(str(n))`, where the digits are not more than `int` takes. -/
lemma intText_toString {n : ℤ} (h : (Nat.toDigits 10 n.natAbs).length ≤ 4300) : intText (toString n) = some n := by
  have hdigits : ∀ c ∈ Nat.toDigits 10 n.natAbs, c.isDigit = true := fun c hc =>
    Nat.isDigit_of_mem_toDigits (by decide) (by decide) hc
  have hne : Nat.toDigits 10 n.natAbs ≠ [] := List.ne_nil_of_length_pos Nat.length_toDigits_pos
  have hrepr : toString n = n.repr := rfl
  rw [hrepr, Int.repr_eq_if]
  split_ifs with hpos
  · have habs : n.toNat = n.natAbs := by omega
    rw [Nat.repr, habs, intText_digits hdigits hne h, Nat.ofDigitChars_ten_toDigits, Int.natAbs_of_nonneg hpos]
  · have habs : (-n).toNat = n.natAbs := by omega
    have htext : "-" ++ (Nat.repr n.natAbs) = String.ofList ('-' :: Nat.toDigits 10 n.natAbs) := by
      refine String.toList_injective ?_
      simp [Nat.repr]
    rw [habs, htext, intText_minus hdigits hne h, Nat.ofDigitChars_ten_toDigits]
    congr 1
    omega

end ContinuityLedger.Foundations.PyText
