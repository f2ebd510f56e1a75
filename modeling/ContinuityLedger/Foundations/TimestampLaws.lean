import ContinuityLedger.Foundations.Timestamps
import Mathlib.Tactic.IntervalCases

/-! What is written as a timestamp is read back as the instant it was written from. -/

namespace ContinuityLedger.Foundations.Timestamps

open Calendar

/-- The days of the years before, and less than 367 more. -/
lemma yearOfEra_spec {doe yoe : ℕ} (h : doe < 146097)
    (hy : yoe = (doe - doe / 1460 + doe / 36524 - doe / 146096) / 365) :
    365 * yoe + yoe / 4 - yoe / 100 ≤ doe ∧ doe < 365 * yoe + yoe / 4 - yoe / 100 + 367 := by
  obtain ⟨g, hg⟩ : ∃ g, g = doe / 1460 := ⟨_, rfl⟩
  obtain ⟨c, hc⟩ : ∃ c, c = doe / 36524 := ⟨_, rfl⟩
  obtain ⟨f, hf⟩ : ∃ f, f = doe / 146096 := ⟨_, rfl⟩
  have hc4 : c ≤ 4 := by omega
  have hyear : 365 * yoe ≤ doe - g + c - f ∧ doe - g + c - f < 365 * yoe + 365 := by
    rw [hy, hg, hc, hf]
    omega
  have hdays : 1460 * g ≤ doe ∧ doe < 1460 * g + 1460 := by omega
  have hleap : yoe / 4 ≤ g ∧ g ≤ yoe / 4 + 1 := by omega
  have hcentury : 100 * (c - f) ≤ yoe ∧ yoe < 100 * (c + 1) := by
    have hstart : 36524 * c ≤ doe ∧ doe < 36524 * (c + 1) := by omega
    interval_cases c <;> omega
  constructor <;> omega

/-- The date that lies `n` days behind 1 March of a year. -/
def marchDate (year : ℤ) (n : ℕ) : Date :=
  let mp := (5 * n + 2) / 153
  let month := if mp < 10 then mp + 3 else mp - 9
  ⟨year + (if month ≤ 2 then 1 else 0), month, n - (153 * mp + 2) / 5 + 1⟩

lemma dayNumber_marchDate (era : ℤ) {yoe n : ℕ} (hy : yoe < 400) (hn : n < 367) :
    dayNumber (marchDate (yoe + era * 400) n) =
      era * 146097 + ((yoe * 365 + yoe / 4 - yoe / 100 + n : ℕ) : ℤ) - 719468 := by
  obtain ⟨mp, hmp⟩ : ∃ mp, mp = (5 * n + 2) / 153 := ⟨_, rfl⟩
  have hmonth : (153 * mp + 2) / 5 ≤ n := by omega
  have hday : (153 * mp + 2) / 5 + (n - (153 * mp + 2) / 5 + 1) - 1 = n := by
    generalize (153 * mp + 2) / 5 = a at hmonth
    omega
  have hera : ((yoe : ℤ) + era * 400) / 400 = era := by omega
  have hyoe : (((yoe : ℤ) + era * 400) % 400).toNat = yoe := by omega
  simp only [dayNumber, marchDate, ← hmp]
  by_cases h : mp < 10
  · have hback : mp + 3 - 3 = mp := by omega
    rw [if_pos h, if_neg (by omega : ¬ mp + 3 ≤ 2), if_neg (by omega : ¬ mp + 3 ≤ 2), add_zero, hera, hyoe,
      if_neg (by omega : ¬ mp + 3 ≤ 2), hback, hday]
  · have hback : mp - 9 + 9 = mp := by omega
    have hmp12 : mp < 12 := by omega
    rw [if_neg h, if_pos (by omega : mp - 9 ≤ 2), if_pos (by omega : mp - 9 ≤ 2), add_sub_cancel_right, hera, hyoe,
      if_pos (by omega : mp - 9 ≤ 2), hback, hday]

lemma dayNumber_civil (d : ℤ) : dayNumber (civil d) = d := by
  set doe := ((d + 719468) % 146097).toNat with hdoe
  have hlt : doe < 146097 := by omega
  set yoe := (doe - doe / 1460 + doe / 36524 - doe / 146096) / 365 with hyoe
  obtain ⟨hle, hrest⟩ := yearOfEra_spec hlt hyoe
  have hyear : yoe < 400 := by omega
  have hdoy : doe - (365 * yoe + yoe / 4 - yoe / 100) < 367 := by omega
  have hciv : civil d = marchDate (yoe + (d + 719468) / 146097 * 400) (doe - (365 * yoe + yoe / 4 - yoe / 100)) := rfl
  rw [hciv, dayNumber_marchDate _ hyear hdoy]
  have hsplit := Int.emod_add_mul_ediv (d + 719468) 146097
  have hdoeZ : (doe : ℤ) = (d + 719468) % 146097 := by omega
  have hparts : yoe * 365 + yoe / 4 - yoe / 100 + (doe - (365 * yoe + yoe / 4 - yoe / 100)) = doe := by
    rw [Nat.mul_comm yoe 365]
    omega
  rw [hparts]
  omega

/-- The parts of a date that lies within the years of a `datetime`. -/
lemma civil_bounds {d : ℤ} (h : -719162 ≤ d) (h' : d ≤ 2932896) :
    (1 ≤ (civil d).year ∧ (civil d).year ≤ 9999) ∧ (civil d).month < 13 ∧ (civil d).dayOfMonth < 100 := by
  set doe := ((d + 719468) % 146097).toNat with hdoe
  have hlt : doe < 146097 := by omega
  set yoe := (doe - doe / 1460 + doe / 36524 - doe / 146096) / 365 with hyoe
  obtain ⟨hle, hrest⟩ := yearOfEra_spec hlt hyoe
  have hyear : yoe < 400 := by omega
  have hciv : civil d = marchDate (yoe + (d + 719468) / 146097 * 400) (doe - (365 * yoe + yoe / 4 - yoe / 100)) := rfl
  obtain ⟨n, hn⟩ : ∃ n, n = doe - (365 * yoe + yoe / 4 - yoe / 100) := ⟨_, rfl⟩
  obtain ⟨mp, hmp⟩ : ∃ mp, mp = (5 * n + 2) / 153 := ⟨_, rfl⟩
  have hn367 : n < 367 := by omega
  have hday : n - (153 * mp + 2) / 5 + 1 < 100 := by omega
  obtain ⟨era, hera⟩ : ∃ era, era = (d + 719468) / 146097 := ⟨_, rfl⟩
  have hsplit : d + 719468 = era * 146097 + doe := by omega
  have hera0 : 0 ≤ era := by omega
  have hera24 : era ≤ 24 := by omega
  rw [hciv, ← hn, ← hera]
  simp only [marchDate, ← hmp]
  clear_value yoe
  by_cases hm : mp < 10
  · rw [if_pos hm, if_neg (by omega : ¬ mp + 3 ≤ 2)]
    refine ⟨⟨?_, by omega⟩, by omega, hday⟩
    by_contra hlow
    have hyoe0 : yoe = 0 := by omega
    subst hyoe0
    omega
  · rw [if_neg hm, if_pos (by omega : mp - 9 ≤ 2)]
    refine ⟨⟨by omega, ?_⟩, by omega, hday⟩
    by_contra hhigh
    have hyoe399 : yoe = 399 := by omega
    subst hyoe399
    omega

lemma number_append {n : ℕ} {cs rest : List Char} (hl : cs.length = n) (hd : cs.all PyText.isAsciiDigit) :
    number n (cs ++ rest) = some (Nat.ofDigitChars 10 cs 0, rest) := by
  subst hl
  simp [number, List.take_left', List.drop_left', hd]

lemma padded_digits (w n : ℕ) : (padded w n).toList.all PyText.isAsciiDigit := by
  rw [padded, String.toList_append, String.toList_ofList, List.all_append, Bool.and_eq_true]
  refine ⟨List.all_eq_true.mpr fun c hc => ?_, List.all_eq_true.mpr fun c hc => ?_⟩
  · rw [List.eq_of_mem_replicate hc]
    rfl
  · rw [Nat.toString_eq_repr, Nat.toList_repr] at hc
    have hdigit := Nat.isDigit_of_mem_toDigits (by decide) (by decide) hc
    simpa [PyText.isAsciiDigit, Char.isDigit, Char.le_def] using hdigit

lemma padded_length {w n : ℕ} (hw : 0 < w) (h : n < 10 ^ w) : (padded w n).toList.length = w := by
  have hl := (Nat.length_repr_le_iff hw).mpr h
  simp only [padded, String.toList_append, String.toList_ofList, List.length_append, List.length_replicate,
    Nat.toString_eq_repr, String.length_toList]
  omega

lemma padded_value (w n : ℕ) : Nat.ofDigitChars 10 (padded w n).toList 0 = n := by
  rw [padded, String.toList_append, String.toList_ofList, Nat.ofDigitChars_append, Nat.ofDigitChars_replicate_zero,
    Nat.mul_zero, Nat.toString_eq_repr, Nat.toList_repr, Nat.ofDigitChars_ten_toDigits]

lemma number_padded {w n : ℕ} (hw : 0 < w) (h : n < 10 ^ w) (rest : List Char) :
    number w ((padded w n).toList ++ rest) = some (n, rest) := by
  rw [number_append (padded_length hw h) (padded_digits w n), padded_value]

lemma lstripChars_cons {c : Char} (hc : PyText.isspace c = false) (cs : List Char) :
    PyText.lstripChars (c :: cs) = c :: cs := by
  rw [PyText.lstripChars, List.dropWhile_cons_of_neg (by simp [hc])]

lemma strip_of_ends {c d : Char} (hc : PyText.isspace c = false) (hd : PyText.isspace d = false) (cs : List Char) :
    PyText.strip (String.ofList (c :: (cs ++ [d]))) = String.ofList (c :: (cs ++ [d])) := by
  have hrev : (c :: (cs ++ [d])).reverse = d :: (cs.reverse ++ [c]) := by simp
  rw [PyText.strip, String.toList_ofList, lstripChars_cons hc, hrev, lstripChars_cons hd, ← hrev, List.reverse_reverse]

lemma isspace_of_digit {c : Char} (h : PyText.isAsciiDigit c = true) : PyText.isspace c = false := by
  simp only [PyText.isAsciiDigit, Bool.and_eq_true, decide_eq_true_eq, Char.le_def, UInt32.le_iff_toNat_le] at h
  have hn : 48 ≤ c.toNat ∧ c.toNat ≤ 57 := h
  obtain ⟨hl, hu⟩ := hn
  rw [PyText.isspace]
  generalize c.toNat = n at hl hu
  interval_cases n <;> rfl

lemma startsOffset_of_digit {c : Char} (h : PyText.isAsciiDigit c = true) : startsOffset c = false := by
  by_contra hc
  rw [Bool.not_eq_false] at hc
  simp only [startsOffset, Bool.or_eq_true, decide_eq_true_eq] at hc
  rcases hc with (rfl | rfl) | rfl <;> simp [PyText.isAsciiDigit] at h

/-- The date and the clock of a `datetime`, as numbers that fit their fields. -/
lemma day_bounds {t : Instant} (h : InRange t) : -719162 ≤ day t ∧ day t ≤ 2932896 := by
  have hl : (-62135596800000000 : ℤ) ≤ t := h.1
  have hu : (253402300799999999 : ℤ) ≥ t := h.2
  rw [day, microsPerDay]
  omega

def dateChars (d : ℤ) : List Char := (dateText "-" d).toList

lemma dateChars_eq (d : ℤ) : dateChars d =
    (padded 4 (civil d).year.toNat).toList ++ ('-' :: ((padded 2 (civil d).month).toList ++
      ('-' :: (padded 2 (civil d).dayOfMonth).toList))) := by
  simp [dateChars, dateText]

lemma dateChars_length {t : Instant} (h : InRange t) : (dateChars (day t)).length = 10 := by
  obtain ⟨hl, hu⟩ := day_bounds h
  obtain ⟨⟨-, hy⟩, hm, hd⟩ := civil_bounds hl hu
  rw [dateChars_eq]
  simp only [List.length_append, List.length_cons]
  rw [padded_length (by decide) (by omega), padded_length (by decide) (by omega), padded_length (by decide) (by omega)]

lemma padded_cons {w n : ℕ} (hw : 0 < w) (h : n < 10 ^ w) :
    ∃ c cs, (padded w n).toList = c :: cs ∧ PyText.isAsciiDigit c = true := by
  obtain ⟨c, cs, hcs⟩ := List.exists_cons_of_length_pos (by rw [padded_length hw h]; exact hw : 0 < (padded w n).toList.length)
  have hall := padded_digits w n
  rw [hcs] at hall
  exact ⟨c, cs, hcs, List.all_eq_true.mp hall c List.mem_cons_self⟩

lemma dateChars_cons {t : Instant} (h : InRange t) :
    ∃ c cs, dateChars (day t) = c :: cs ∧ PyText.isAsciiDigit c = true := by
  obtain ⟨hl, hu⟩ := day_bounds h
  obtain ⟨⟨-, hy⟩, -⟩ := civil_bounds hl hu
  obtain ⟨c, cs, hcs, hdigit⟩ := padded_cons (w := 4) (by decide) (by omega : (civil (day t)).year.toNat < 10 ^ 4)
  exact ⟨c, _, by rw [dateChars_eq, hcs, List.cons_append], hdigit⟩

lemma isoDate_dateChars {t : Instant} (h : InRange t) : isoDate (dateChars (day t)) = some (day t) := by
  obtain ⟨hl, hu⟩ := day_bounds h
  obtain ⟨⟨hy0, hy⟩, hm, hd⟩ := civil_bounds hl hu
  have hexisting : existing ⟨((civil (day t)).year.toNat : ℤ), (civil (day t)).month, (civil (day t)).dayOfMonth⟩ =
      some (day t) := by
    rw [Int.toNat_of_nonneg (by omega), existing, dayNumber_civil, if_pos ⟨hy0, hy, rfl⟩]
  obtain ⟨c, cs, hcs, hdigit⟩ := padded_cons (w := 2) (by decide) (by omega : (civil (day t)).month < 10 ^ 2)
  have hmonth := number_padded (w := 2) (by decide) (by omega : (civil (day t)).month < 10 ^ 2)
  have hlast : number 2 (padded 2 (civil (day t)).dayOfMonth).toList = some ((civil (day t)).dayOfMonth, []) := by
    simpa using number_padded (w := 2) (by decide) (by omega : (civil (day t)).dayOfMonth < 10 ^ 2) []
  have hW : c ≠ 'W' := by
    rintro rfl
    simp [PyText.isAsciiDigit] at hdigit
  rw [dateChars_eq, isoDate, number_padded (by decide) (by omega)]
  simp only [Option.bind_eq_bind, Option.bind_some]
  rw [hcs, List.cons_append]
  split
  · next heq => simp_all
  · next heq => simp_all
  · next rest _ heq =>
    simp only [List.cons.injEq, true_and] at heq
    rw [← heq, ← List.cons_append, ← hcs, hmonth]
    simp only [Option.bind_some]
    rw [hlast]
    simpa using hexisting
  · next heq => simp_all

/-- The clock of an instant, without the fraction of its second. -/
def clockChars (t : Instant) : List Char :=
  (padded 2 (microOfDay t / 60000000 / 60)).toList ++ (':' :: ((padded 2 (microOfDay t / 60000000 % 60)).toList ++
    (':' :: (padded 2 (microOfDay t % 60000000 / 1000000)).toList)))

lemma microOfDay_lt (t : Instant) : microOfDay t < 86400000000 := by
  rw [microOfDay, microsPerDay]
  omega

lemma clockTime_clockChars (t : Instant) {frac : List Char} {micro : ℕ} (h : fraction frac = some micro) :
    clockTime (clockChars t ++ frac) =
      some ⟨microOfDay t / 60000000 / 60, microOfDay t / 60000000 % 60, microOfDay t % 60000000 / 1000000, micro⟩ := by
  have hlt := microOfDay_lt t
  rw [clockChars, List.append_assoc, clockTime, number_padded (by decide) (by omega)]
  simp only [Option.bind_eq_bind, Option.bind_some, List.cons_append, List.append_assoc]
  rw [number_padded (by decide) (by omega)]
  simp only [Option.bind_some]
  rw [number_padded (by decide) (by omega)]
  simp [h]

lemma clockChars_length (t : Instant) : (clockChars t).length = 8 := by
  have hlt := microOfDay_lt t
  simp only [clockChars, List.length_append, List.length_cons]
  rw [padded_length (by decide) (by omega), padded_length (by decide) (by omega), padded_length (by decide) (by omega)]

lemma padded_plain (w n : ℕ) : (padded w n).toList.all (!startsOffset ·) := by
  refine List.all_eq_true.mpr fun c hc => ?_
  rw [startsOffset_of_digit (List.all_eq_true.mp (padded_digits w n) c hc)]
  rfl

lemma clockChars_plain (t : Instant) : (clockChars t).all (!startsOffset ·) := by
  simp only [clockChars, List.all_append, List.all_cons, padded_plain, Bool.and_true, Bool.and_eq_true]
  decide

lemma isoTime_clockChars (t : Instant) {frac : List Char} (h : fraction frac = some (microOfDay t % 1000000))
    (hplain : frac.all (!startsOffset ·)) :
    isoTime (clockChars t ++ frac ++ "+00:00".toList) = some (microOfDay t, some 0) := by
  have hlt := microOfDay_lt t
  have hclean : ∀ c ∈ clockChars t ++ frac, (!startsOffset c) = true := by
    rw [← List.all_eq_true, List.all_append, clockChars_plain, hplain]
    rfl
  have htake : (clockChars t ++ frac ++ "+00:00".toList).takeWhile (!startsOffset ·) = clockChars t ++ frac := by
    rw [List.takeWhile_append_of_pos hclean]
    simp [startsOffset]
  have hdrop : (clockChars t ++ frac ++ "+00:00".toList).dropWhile (!startsOffset ·) = "+00:00".toList := by
    rw [List.dropWhile_append_of_pos hclean]
    simp [startsOffset]
  have hoffset : offset "+00:00".toList = some (some 0) := by decide
  rw [isoTime, htake, hdrop, clockTime_clockChars t h, hoffset]
  simp only [Option.bind_eq_bind, Option.bind_some]
  have hmicros : ((microOfDay t / 60000000 / 60 * 60 + microOfDay t / 60000000 % 60) * 60 +
      microOfDay t % 60000000 / 1000000) * 1000000 + microOfDay t % 1000000 = microOfDay t := by omega
  rw [if_pos ⟨by omega, by omega, by omega⟩, ClockTime.micros, hmicros]

lemma separatorAt_dateChars {t : Instant} (h : InRange t) (rest : List Char) :
    separatorAt (dateChars (day t) ++ 'T' :: rest) = 10 := by
  obtain ⟨hl, hu⟩ := day_bounds h
  obtain ⟨⟨hy0, hy⟩, hm, hd⟩ := civil_bounds hl hu
  have hlen := dateChars_length h
  have hyear := padded_length (w := 4) (by decide) (by omega : (civil (day t)).year.toNat < 10 ^ 4)
  obtain ⟨c, cs, hcs, hdigit⟩ := padded_cons (w := 2) (by decide) (by omega : (civil (day t)).month < 10 ^ 2)
  have hW : c ≠ 'W' := by
    rintro rfl
    simp [PyText.isAsciiDigit] at hdigit
  have h4 : (dateChars (day t) ++ 'T' :: rest)[4]? = some '-' := by
    rw [dateChars_eq, List.append_assoc, List.getElem?_append_right (by omega), hyear]
    rfl
  have h5 : (dateChars (day t) ++ 'T' :: rest)[5]? = some c := by
    rw [dateChars_eq, List.append_assoc, List.getElem?_append_right (by omega), hyear, hcs]
    rfl
  have h7 : (dateChars (day t) ++ 'T' :: rest).length ≠ 7 := by
    rw [List.length_append, hlen]
    omega
  rw [separatorAt, if_neg h7, if_pos h4, h5, if_neg (by simpa using hW)]

/-- What is written as a date, a clock and the offset zero is read as its instant. -/
lemma fromisoformat_chars {t : Instant} (h : InRange t) {frac : List Char}
    (hfrac : fraction frac = some (microOfDay t % 1000000)) (hplain : frac.all (!startsOffset ·)) :
    fromisoformat (String.ofList (dateChars (day t) ++ 'T' :: (clockChars t ++ frac ++ "+00:00".toList))) =
      some (t, some 0) := by
  have hlen := dateChars_length h
  have htake : (dateChars (day t) ++ 'T' :: (clockChars t ++ frac ++ "+00:00".toList)).take 10 = dateChars (day t) :=
    List.take_left' hlen
  have hdrop : (dateChars (day t) ++ 'T' :: (clockChars t ++ frac ++ "+00:00".toList)).drop 11 =
      clockChars t ++ frac ++ "+00:00".toList := by
    rw [show 11 = (dateChars (day t)).length + 1 by rw [hlen], List.drop_length_add_append, List.drop_succ_cons,
      List.drop_zero]
  have hne : clockChars t ++ frac ++ "+00:00".toList ≠ [] := by simp
  have hday : day t * microsPerDay + (microOfDay t : ℤ) = t := by
    rw [day, microOfDay, microsPerDay]
    omega
  rw [fromisoformat, String.toList_ofList, separatorAt_dateChars h, htake, hdrop, isoDate_dateChars h]
  dsimp only
  rw [if_neg (by rw [List.length_append]; omega), if_neg hne, isoTime_clockChars t hfrac hplain, Option.map_some, hday]

/-- The fraction of an instant's second in six digits. -/
def microChars (t : Instant) : List Char := '.' :: (padded 6 (microOfDay t % 60000000 % 1000000)).toList

lemma fraction_microChars (t : Instant) : fraction (microChars t) = some (microOfDay t % 1000000) := by
  have hlt := microOfDay_lt t
  have hmod : microOfDay t % 60000000 % 1000000 = microOfDay t % 1000000 := by omega
  have hlen := padded_length (w := 6) (n := microOfDay t % 60000000 % 1000000) (by decide) (by omega)
  have hne : (padded 6 (microOfDay t % 60000000 % 1000000)).toList ≠ [] := by
    intro hnil
    rw [hnil] at hlen
    exact absurd hlen (by decide)
  rw [microChars, fraction, if_pos ⟨.inl rfl, hne, padded_digits _ _⟩, List.take_of_length_le hlen.le, padded_value, hlen,
    hmod]
  simp

lemma microChars_plain (t : Instant) : (microChars t).all (!startsOffset ·) := by
  rw [microChars, List.all_cons, padded_plain, Bool.and_true]
  decide

lemma text_chars (t : Instant) : (text t).toList = dateChars (day t) ++ 'T' :: (clockChars t ++ microChars t) := by
  simp [text, minuteText, dateChars, clockChars, microChars]

/-- A text that starts and ends as a timestamp does loses nothing to `strip`. -/
lemma strip_dateChars {t : Instant} (h : InRange t) {last : Char} (hlast : PyText.isspace last = false)
    (rest : List Char) :
    PyText.strip (String.ofList (dateChars (day t) ++ (rest ++ [last]))) =
      String.ofList (dateChars (day t) ++ (rest ++ [last])) := by
  obtain ⟨c, cs, hcs, hdigit⟩ := dateChars_cons h
  rw [hcs, List.cons_append, ← List.append_assoc]
  exact strip_of_ends (isspace_of_digit hdigit) hlast (cs ++ rest)

lemma parseUtc_offset {t : Instant} (h : InRange t) {frac : List Char}
    (hfrac : fraction frac = some (microOfDay t % 1000000)) (hplain : frac.all (!startsOffset ·)) :
    parseUtc (String.ofList (dateChars (day t) ++ 'T' :: (clockChars t ++ frac ++ "+00:00".toList))) = some t := by
  have hends : dateChars (day t) ++ 'T' :: (clockChars t ++ frac ++ "+00:00".toList) =
      dateChars (day t) ++ ('T' :: (clockChars t ++ frac ++ "+00:0".toList) ++ ['0']) := by simp
  have hstrip := strip_dateChars h (isspace_of_digit (c := '0') rfl) ('T' :: (clockChars t ++ frac ++ "+00:0".toList))
  rw [← hends] at hstrip
  have hzulu : zulu (String.ofList (dateChars (day t) ++ 'T' :: (clockChars t ++ frac ++ "+00:00".toList))) =
      String.ofList (dateChars (day t) ++ 'T' :: (clockChars t ++ frac ++ "+00:00".toList)) := by
    rw [zulu, String.toList_ofList, hends, ← List.append_assoc, List.getLast?_concat, if_neg (by decide)]
  rw [parseUtc, hstrip, hzulu, fromisoformat_chars h hfrac hplain]
  simp [h]

lemma parseUtc_zulu {t : Instant} (h : InRange t) {frac : List Char}
    (hfrac : fraction frac = some (microOfDay t % 1000000)) (hplain : frac.all (!startsOffset ·)) :
    parseUtc (String.ofList (dateChars (day t) ++ ('T' :: (clockChars t ++ frac) ++ ['Z']))) = some t := by
  have hstrip := strip_dateChars h (by decide : PyText.isspace 'Z' = false) ('T' :: (clockChars t ++ frac))
  have hzulu : zulu (String.ofList (dateChars (day t) ++ ('T' :: (clockChars t ++ frac) ++ ['Z']))) =
      String.ofList (dateChars (day t) ++ 'T' :: (clockChars t ++ frac ++ "+00:00".toList)) := by
    rw [zulu, String.toList_ofList, ← List.append_assoc, List.getLast?_concat, if_pos (by decide), List.dropLast_concat]
    apply String.toList_injective
    simp
  rw [parseUtc, hstrip, hzulu, fromisoformat_chars h hfrac hplain]
  simp [h]

lemma yearText_eq {pads : Bool} {t : Instant} (h : InRange t) (hy : pads = true ∨ 1000 ≤ (civil (day t)).year) :
    yearText pads t = padded 4 (civil (day t)).year.toNat := by
  rcases hy with rfl | hy
  · rfl
  · obtain ⟨hl, hu⟩ := day_bounds h
    obtain ⟨⟨-, hyear⟩, -⟩ := civil_bounds hl hu
    have hlong : ¬ (Nat.repr (civil (day t)).year.toNat).length ≤ 3 := by
      rw [Nat.length_repr_le_iff (by decide)]
      omega
    have hwidth : 4 - (toString (civil (day t)).year.toNat).length = 0 := by
      rw [Nat.toString_eq_repr]
      omega
    cases pads with
    | true => rfl
    | false => simp only [yearText, padded, hwidth, List.replicate_zero, Bool.false_eq_true, if_false]; rfl

/-- A timestamp in the service's own form is read as the instant it was made from. -/
lemma parseUtc_normTs {pads : Bool} {t : Instant} (h : InRange t) (hy : pads = true ∨ 1000 ≤ (civil (day t)).year) :
    parseUtc (normTs pads t) = some t := by
  obtain ⟨hl, hu⟩ := day_bounds h
  obtain ⟨⟨hy0, hyear⟩, -⟩ := civil_bounds hl hu
  have hlen := padded_length (w := 4) (by decide) (by omega : (civil (day t)).year.toNat < 10 ^ 4)
  have hdrop : (text t).toList.drop 4 = '-' :: ((padded 2 (civil (day t)).month).toList ++
      '-' :: (padded 2 (civil (day t)).dayOfMonth).toList) ++ 'T' :: (clockChars t ++ microChars t) := by
    rw [text_chars, dateChars_eq, List.append_assoc, List.drop_left' hlen]
  have heq : normTs pads t =
      String.ofList (dateChars (day t) ++ ('T' :: (clockChars t ++ microChars t) ++ ['Z'])) := by
    apply String.toList_injective
    rw [normTs, yearText_eq h hy, hdrop, dateChars_eq]
    simp
  rw [heq, parseUtc_zulu h (fraction_microChars t) (microChars_plain t)]

lemma parseUtc_text {t : Instant} (h : InRange t) : parseUtc (text t ++ "+00:00") = some t := by
  have heq : text t ++ "+00:00" =
      String.ofList (dateChars (day t) ++ 'T' :: (clockChars t ++ microChars t ++ "+00:00".toList)) := by
    apply String.toList_injective
    rw [String.toList_append, text_chars]
    simp
  rw [heq, parseUtc_offset h (fraction_microChars t) (microChars_plain t)]

lemma parseUtc_wholeSecond {t : Instant} (h : InRange t) (hmicro : microOfDay t % 1000000 = 0) :
    parseUtc (String.ofList ((text t).toList.take 19) ++ "+00:00") = some t := by
  have hlen : (dateChars (day t) ++ 'T' :: clockChars t).length = 19 := by
    rw [List.length_append, List.length_cons, dateChars_length h, clockChars_length]
  have hfrac : fraction [] = some (microOfDay t % 1000000) := by rw [hmicro]; rfl
  have heq : String.ofList ((text t).toList.take 19) ++ "+00:00" =
      String.ofList (dateChars (day t) ++ 'T' :: (clockChars t ++ [] ++ "+00:00".toList)) := by
    apply String.toList_injective
    rw [text_chars, ← List.cons_append, ← List.append_assoc, List.take_left' hlen]
    simp
  rw [heq, parseUtc_offset h hfrac rfl]

end ContinuityLedger.Foundations.Timestamps
