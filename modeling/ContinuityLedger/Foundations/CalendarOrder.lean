import Mathlib.Data.String.Basic
import ContinuityLedger.Foundations.TimestampLaws

/-! Dates written as eight digits are in the order of their days. -/

namespace ContinuityLedger.Foundations.Timestamps

open Calendar

/-! ### The order of numbers in digits -/

def Digits (cs : List Char) : Prop := cs.all PyText.isAsciiDigit = true

lemma digits_cons {c : Char} {cs : List Char} : Digits (c :: cs) ↔ PyText.isAsciiDigit c = true ∧ Digits cs := by
  rw [Digits, List.all_cons, Bool.and_eq_true, Digits]

lemma value_cons (c : Char) (cs : List Char) : Nat.ofDigitChars 10 (c :: cs) 0 =
    10 ^ cs.length * (c.toNat - '0'.toNat) + Nat.ofDigitChars 10 cs 0 := by
  rw [Nat.ofDigitChars_cons, Nat.ofDigitChars_eq_ofDigitChars_zero]
  simp

lemma digit_bounds {c : Char} (h : PyText.isAsciiDigit c = true) : '0'.toNat ≤ c.toNat ∧ c.toNat < '0'.toNat + 10 := by
  simp only [PyText.isAsciiDigit, Bool.and_eq_true, decide_eq_true_eq, Char.le_def, UInt32.le_iff_toNat_le] at h
  exact ⟨h.1, Nat.lt_succ_of_le h.2⟩

lemma value_lt {cs : List Char} (h : Digits cs) : Nat.ofDigitChars 10 cs 0 < 10 ^ cs.length := by
  induction cs with
  | nil => simp
  | cons c cs ih =>
    obtain ⟨hc, hcs⟩ := digits_cons.mp h
    have hlt := ih hcs
    have hdigit := digit_bounds hc
    have hle : c.toNat - '0'.toNat ≤ 9 := by omega
    have hmul := Nat.mul_le_mul_left (10 ^ cs.length) hle
    rw [value_cons, List.length_cons, pow_succ]
    omega

/-- Of two numbers with as many digits the smaller comes first. -/
lemma digits_lt {a b : List Char} (ha : Digits a) (hb : Digits b) (hlen : a.length = b.length)
    (h : Nat.ofDigitChars 10 a 0 < Nat.ofDigitChars 10 b 0) : a < b := by
  induction a generalizing b with
  | nil =>
    obtain rfl := List.length_eq_zero_iff.mp hlen.symm
    exact absurd h (lt_irrefl _)
  | cons c a ih =>
    cases b with
    | nil => cases hlen
    | cons d b =>
      obtain ⟨hc, has⟩ := digits_cons.mp ha
      obtain ⟨hd, hbs⟩ := digits_cons.mp hb
      replace hlen : a.length = b.length := Nat.succ.inj hlen
      rw [value_cons, value_cons, hlen] at h
      rcases Nat.lt_trichotomy c.toNat d.toNat with hlt | heq | hgt
      · exact List.Lex.rel (Char.lt_def.mpr (UInt32.lt_iff_toNat_lt.mpr hlt))
      · obtain rfl : c = d := Char.toNat_inj.mp heq
        exact List.cons_lt_cons_iff.mpr (Or.inr ⟨rfl, ih has hbs hlen (by omega)⟩)
      · exfalso
        have hb' := value_lt hbs
        have hc' := digit_bounds hc
        have hd' := digit_bounds hd
        have hle : d.toNat - '0'.toNat + 1 ≤ c.toNat - '0'.toNat := by omega
        have hmul := Nat.mul_le_mul_left (10 ^ b.length) hle
        rw [Nat.mul_add, Nat.mul_one] at hmul
        omega

/-- Of two texts of one length the front decides. -/
lemma append_lt {a b : List Char} (h : a < b) (hlen : a.length = b.length) (c d : List Char) : a ++ c < b ++ d := by
  induction a generalizing b with
  | nil =>
    obtain rfl := List.length_eq_zero_iff.mp hlen.symm
    exact absurd h (lt_irrefl _)
  | cons x a ih =>
    cases b with
    | nil => cases hlen
    | cons y b =>
      rcases List.cons_lt_cons_iff.mp h with hxy | ⟨rfl, hab⟩
      · exact List.cons_lt_cons_iff.mpr (Or.inl hxy)
      · exact List.cons_lt_cons_iff.mpr (Or.inr ⟨rfl, ih hab (Nat.succ.inj hlen)⟩)

/-! ### The order of dates -/

/-- A date as the number that its eight digits write. -/
def Date.number (c : Date) : ℤ := c.year * 10000 + c.month * 100 + c.dayOfMonth

lemma yearOfEra_mono {m n : ℕ} (h : m ≤ n) : (m - m / 1460 + m / 36524 - m / 146096) / 365 ≤
    (n - n / 1460 + n / 36524 - n / 146096) / 365 := by
  have hcenturies (k : ℕ) : k / 146096 = k / 36524 / 4 := (Nat.div_div_eq_div_mul k 36524 4).symm
  have hdays : m - m / 1460 ≤ n - n / 1460 := by omega
  have hcentury : m / 36524 ≤ n / 36524 := Nat.div_le_div_right h
  have hquarter : m / 36524 - m / 36524 / 4 ≤ n / 36524 - n / 36524 / 4 := by
    generalize m / 36524 = a at hcentury ⊢
    generalize n / 36524 = b at hcentury ⊢
    omega
  rw [hcenturies, hcenturies, Nat.add_sub_assoc (Nat.div_le_self _ _), Nat.add_sub_assoc (Nat.div_le_self _ _)]
  exact Nat.div_le_div_right (Nat.add_le_add hdays hquarter)

/-- The day of a year that begins in March, within the month it lies in. -/
lemma month_bounds {n mp : ℕ} (hmp : mp = (5 * n + 2) / 153) (hn : n < 367) :
    mp < 12 ∧ (153 * mp + 2) / 5 ≤ n ∧ n - (153 * mp + 2) / 5 < 31 := by
  omega

lemma number_march (year : ℤ) {n mp : ℕ} (hmp : mp = (5 * n + 2) / 153) (hn : n < 367) : Date.number (marchDate year n) =
    year * 10000 + ((mp * 100 + (if mp < 10 then 300 else 9100) + (n - (153 * mp + 2) / 5) + 1 : ℕ) : ℤ) := by
  obtain ⟨hmp12, -, -⟩ := month_bounds hmp hn
  simp only [Date.number, marchDate, ← hmp]
  by_cases h : mp < 10
  · rw [if_pos h, if_pos h, if_neg (by omega : ¬ mp + 3 ≤ 2)]
    push_cast
    omega
  · rw [if_neg h, if_neg h, if_pos (by omega : mp - 9 ≤ 2)]
    have hmonth : ((mp - 9 : ℕ) : ℤ) = mp - 9 := by omega
    rw [hmonth]
    push_cast
    omega

lemma number_march_lt (year : ℤ) {m n : ℕ} (h : m < n) (hn : n < 367) :
    Date.number (marchDate year m) < Date.number (marchDate year n) := by
  obtain ⟨p, hp⟩ : ∃ p, p = (5 * m + 2) / 153 := ⟨_, rfl⟩
  obtain ⟨q, hq⟩ : ∃ q, q = (5 * n + 2) / 153 := ⟨_, rfl⟩
  have hpq : p ≤ q := by omega
  obtain ⟨hp12, hple, hp31⟩ := month_bounds hp (by omega)
  obtain ⟨hq12, hqle, hq31⟩ := month_bounds hq hn
  rw [number_march year hp (by omega), number_march year hq hn]
  rcases Nat.lt_or_eq_of_le hpq with hlt | rfl
  · split_ifs <;> omega
  · split_ifs <;> omega

lemma number_year_lt {year year' : ℤ} (h : year < year') {m n : ℕ} (hm : m < 367) (hn : n < 367) :
    Date.number (marchDate year m) < Date.number (marchDate year' n) := by
  obtain ⟨p, hp⟩ : ∃ p, p = (5 * m + 2) / 153 := ⟨_, rfl⟩
  obtain ⟨q, hq⟩ : ∃ q, q = (5 * n + 2) / 153 := ⟨_, rfl⟩
  obtain ⟨hp12, -, hp31⟩ := month_bounds hp hm
  rw [number_march year hp hm, number_march year' hq hn]
  split_ifs <;> omega

/-- The date of a day whose place in its era of 400 years is known. -/
lemma civil_eq (d : ℤ) : ∃ m y : ℕ, (m : ℤ) = (d + 719468) % 146097 ∧ y = (m - m / 1460 + m / 36524 - m / 146096) / 365 ∧
    y < 400 ∧ m - (365 * y + y / 4 - y / 100) < 367 ∧ 365 * y + y / 4 - y / 100 ≤ m ∧
    civil d = marchDate (y + (d + 719468) / 146097 * 400) (m - (365 * y + y / 4 - y / 100)) := by
  obtain ⟨m, hm⟩ : ∃ m, m = ((d + 719468) % 146097).toNat := ⟨_, rfl⟩
  obtain ⟨y, hy⟩ : ∃ y, y = (m - m / 1460 + m / 36524 - m / 146096) / 365 := ⟨_, rfl⟩
  have hmZ : (m : ℤ) = (d + 719468) % 146097 := by omega
  have hlt : m < 146097 := by omega
  obtain ⟨hle, hrest⟩ := yearOfEra_spec hlt hy
  refine ⟨m, y, hmZ, hy, by omega, by omega, hle, ?_⟩
  rw [hy, hm]
  rfl

lemma civil_lt {d e : ℤ} (h : d < e) : Date.number (civil d) < Date.number (civil e) := by
  obtain ⟨m, y, hm, hy, hy400, hm367, hym, hd⟩ := civil_eq d
  obtain ⟨n, w, hn, hw, hw400, hn367, hwn, he⟩ := civil_eq e
  have hera : (d + 719468) / 146097 ≤ (e + 719468) / 146097 := Int.ediv_le_ediv (by decide) (by omega)
  rw [hd, he]
  rcases lt_or_eq_of_le hera with hlt | heq
  · refine number_year_lt ?_ hm367 hn367
    clear hm hn hy hw hd he hym hwn
    omega
  · have hmn : m < n := by
      clear hy hw hd he
      omega
    have hyw : y ≤ w := by
      rw [hy, hw]
      exact yearOfEra_mono hmn.le
    rcases Nat.lt_or_eq_of_le hyw with hlt | rfl
    · refine number_year_lt ?_ hm367 hn367
      rw [heq]
      clear hm hn hy hw hd he hym hwn
      omega
    · rw [heq]
      refine number_march_lt _ ?_ hn367
      clear hm hn hy hw hd he heq
      omega

lemma civil_le {d e : ℤ} (h : d ≤ e) : Date.number (civil d) ≤ Date.number (civil e) := by
  rcases lt_or_eq_of_le h with hlt | rfl
  · exact (civil_lt hlt).le
  · exact le_refl _

/-! ### The order of their texts -/

def dayChars (t : Instant) : List Char :=
  (padded 4 (civil (day t)).year.toNat).toList ++ (padded 2 (civil (day t)).month).toList ++
    (padded 2 (civil (day t)).dayOfMonth).toList

lemma dayChars_spec {t : Instant} (h : InRange t) : (dayChars t).length = 8 ∧ Digits (dayChars t) ∧
    (Nat.ofDigitChars 10 (dayChars t) 0 : ℤ) = Date.number (civil (day t)) := by
  obtain ⟨hl, hu⟩ := day_bounds h
  obtain ⟨⟨hy0, hy⟩, hm, hd⟩ := civil_bounds hl hu
  have hlen := padded_length (w := 2) (by decide) (by omega : (civil (day t)).month < 10 ^ 2)
  have hlen' := padded_length (w := 2) (by decide) (by omega : (civil (day t)).dayOfMonth < 10 ^ 2)
  refine ⟨?_, ?_, ?_⟩
  · rw [dayChars, List.length_append, List.length_append, padded_length (by decide) (by omega), hlen, hlen']
  · simp only [Digits, dayChars, List.all_append, padded_digits, Bool.and_self]
  · rw [dayChars, Nat.ofDigitChars_append, Nat.ofDigitChars_append, padded_value, Nat.ofDigitChars_eq_ofDigitChars_zero,
      padded_value, hlen', Nat.ofDigitChars_eq_ofDigitChars_zero, padded_value, hlen, Date.number]
    push_cast
    rw [Int.toNat_of_nonneg (by omega)]
    omega

/-- A later day comes later. -/
lemma dayChars_le {s t : Instant} (h : s ≤ t) (hs : InRange s) (ht : InRange t) : dayChars s ≤ dayChars t := by
  obtain ⟨hslen, hsd, hsv⟩ := dayChars_spec hs
  obtain ⟨htlen, htd, htv⟩ := dayChars_spec ht
  rcases lt_or_eq_of_le (day_mono h) with hlt | heq
  · refine (digits_lt hsd htd (hslen.trans htlen.symm) ?_).le
    have hnum := civil_lt hlt
    omega
  · rw [dayChars, dayChars, heq]

end ContinuityLedger.Foundations.Timestamps
