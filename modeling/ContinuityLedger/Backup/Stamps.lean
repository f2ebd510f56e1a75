import ContinuityLedger.Foundations.CalendarOrder

/-! The UTC stamps in the names of backup sets. The names are in the order of the times, and a name gives its time back. -/

namespace ContinuityLedger.Backup

open Foundations Foundations.Calendar Foundations.Timestamps

/-- Whole seconds, in the years from 1 to 9999. -/
abbrev Stamp := {s : ℤ // InRange (s * 1000000)}

def Stamp.instant (s : Stamp) : Instant := s.val * 1000000

def Stamp.day (s : Stamp) : ℤ := s.val / 86400

/-- `date -u +%H%M%S`. -/
def clockDigits (t : Instant) : List Char :=
  (padded 2 (microOfDay t / 60000000 / 60)).toList ++ (padded 2 (microOfDay t / 60000000 % 60)).toList ++
    (padded 2 (microOfDay t % 60000000 / 1000000)).toList

/-- `date -u +%Y%m%dT%H%M%SZ`. -/
def stampUtc (s : Stamp) : List Char := dayChars s.instant ++ 'T' :: (clockDigits s.instant ++ ['Z'])

def base (s : Stamp) : List Char := "jarvis-".toList ++ stampUtc s

/-- A date of a year in four digits, as `date -d` reads it. -/
def dayOf (stamp : List Char) : Option ℤ := do
  let (year, cs) ← number 4 stamp
  let (month, cs) ← number 2 cs
  let (day, _) ← number 2 cs
  let date : Date := ⟨year, month, day⟩
  if civil (dayNumber date) = date then some (dayNumber date) else none

/-- `20261005T010203Z -> epoch`. -/
def toEpoch (stamp : List Char) : Option ℤ := do
  let day ← dayOf (stamp.take 8)
  let (hour, cs) ← number 2 (stamp.drop 9)
  let (minute, cs) ← number 2 cs
  let (second, _) ← number 2 cs
  if hour < 24 ∧ minute < 60 ∧ second < 60 then some (day * 86400 + ((hour * 60 + minute) * 60 + second : ℕ)) else none

/-- `+%G-%V`: the ISO year, in which the week's Thursday lies, and the week's number there. -/
def isoWeek (day : ℤ) : ℤ × ℤ :=
  let monday := day - (day + 3) % 7
  let year := (civil (monday + 3)).year
  (year, (monday - firstMonday year) / 7 + 1)

example : isoWeek (dayNumber ⟨2027, 1, 3⟩) = (2026, 53) := by decide

/-- `jarvis-[0-9]\{8\}T[0-9]\{6\}Z`. -/
def isBase (cs : List Char) : Bool :=
  cs.length = 23 && cs.take 7 = "jarvis-".toList && ((cs.drop 7).take 8).all PyText.isAsciiDigit && (cs.drop 15).take 1 = ['T'] &&
    ((cs.drop 16).take 6).all PyText.isAsciiDigit && cs.drop 22 = ['Z']

lemma Stamp.inRange (s : Stamp) : InRange s.instant := s.property

lemma Stamp.day_instant (s : Stamp) : Calendar.day s.instant = s.day := by
  rw [Calendar.day, Stamp.instant, Stamp.day, microsPerDay]
  omega

lemma clockDigits_spec (t : Instant) : (clockDigits t).length = 6 ∧ Digits (clockDigits t) ∧
    Nat.ofDigitChars 10 (clockDigits t) 0 =
      microOfDay t / 60000000 / 60 * 10000 + microOfDay t / 60000000 % 60 * 100 + microOfDay t % 60000000 / 1000000 := by
  have hlt := microOfDay_lt t
  have hhour := padded_length (w := 2) (by decide) (by omega : microOfDay t / 60000000 / 60 < 10 ^ 2)
  have hminute := padded_length (w := 2) (by decide) (by omega : microOfDay t / 60000000 % 60 < 10 ^ 2)
  have hsecond := padded_length (w := 2) (by decide) (by omega : microOfDay t % 60000000 / 1000000 < 10 ^ 2)
  refine ⟨?_, ?_, ?_⟩
  · rw [clockDigits, List.length_append, List.length_append, hhour, hminute, hsecond]
  · simp only [Digits, clockDigits, List.all_append, padded_digits, Bool.and_self]
  · rw [clockDigits, Nat.ofDigitChars_append, Nat.ofDigitChars_append, padded_value, Nat.ofDigitChars_eq_ofDigitChars_zero,
      padded_value, hsecond, Nat.ofDigitChars_eq_ofDigitChars_zero, padded_value, hminute]
    omega

lemma stampUtc_take (s : Stamp) : (stampUtc s).take 8 = dayChars s.instant :=
  List.take_left' (dayChars_spec s.inRange).1

lemma stampUtc_drop (s : Stamp) : (stampUtc s).drop 8 = 'T' :: (clockDigits s.instant ++ ['Z']) :=
  List.drop_left' (dayChars_spec s.inRange).1

lemma stampUtc_clock (s : Stamp) : (stampUtc s).drop 9 = clockDigits s.instant ++ ['Z'] := by
  have h : (stampUtc s).drop (8 + 1) = ((stampUtc s).drop 8).drop 1 := (List.drop_drop ..).symm
  rw [h, stampUtc_drop]
  rfl

lemma base_drop (s : Stamp) : (base s).drop 7 = stampUtc s := List.drop_left' rfl

lemma stampUtc_length (s : Stamp) : (stampUtc s).length = 16 := by
  rw [stampUtc, List.length_append, (dayChars_spec s.inRange).1, List.length_cons, List.length_append,
    (clockDigits_spec s.instant).1, List.length_singleton]

lemma base_length (s : Stamp) : (base s).length = 23 := by
  have hfront : "jarvis-".toList.length = 7 := rfl
  have hparts : (base s).length = "jarvis-".toList.length + (stampUtc s).length := List.length_append
  rw [hparts, hfront, stampUtc_length]

lemma isBase_base (s : Stamp) : isBase (base s) = true := by
  have hdrop : ∀ n, (base s).drop (7 + n) = (stampUtc s).drop n := fun n => by rw [← List.drop_drop, base_drop]
  have hclock : (base s).drop 16 = clockDigits s.instant ++ ['Z'] := (hdrop 9).trans (stampUtc_clock s)
  have hend : (base s).drop 22 = ['Z'] := by
    have h := congrArg (List.drop 6) hclock
    rwa [List.drop_drop, List.drop_left' (clockDigits_spec s.instant).1] at h
  have hdigits : (dayChars s.instant).all PyText.isAsciiDigit = true := (dayChars_spec s.inRange).2.1
  have hdigits' : (clockDigits s.instant).all PyText.isAsciiDigit = true := (clockDigits_spec s.instant).2.1
  have hfront : (base s).take 7 = "jarvis-".toList := List.take_left' rfl
  have hmiddle : ((base s).drop 15).take 1 = ['T'] := by
    rw [hdrop 8, stampUtc_drop]
    rfl
  rw [isBase, base_length, hfront, base_drop, stampUtc_take, hdigits, hmiddle, hclock, List.take_left' (clockDigits_spec s.instant).1,
    hdigits', hend]
  rfl

lemma dayOf_dayChars (s : Stamp) : dayOf (dayChars s.instant) = some s.day := by
  obtain ⟨hl, hu⟩ := day_bounds s.inRange
  obtain ⟨⟨hy0, hy⟩, hm, hd⟩ := civil_bounds hl hu
  rw [← Stamp.day_instant, dayChars]
  generalize hday : Calendar.day s.instant = d at *
  have hyear : (civil d).year.toNat < 10 ^ 4 := by omega
  have hmonth : (civil d).month < 10 ^ 2 := by omega
  have hdom : (civil d).dayOfMonth < 10 ^ 2 := by omega
  have hlast := number_padded (w := 2) (by decide) hdom []
  have hdate : (⟨((civil d).year.toNat : ℤ), (civil d).month, (civil d).dayOfMonth⟩ : Date) = civil d := by
    rw [Int.toNat_of_nonneg (by omega)]
  rw [List.append_nil] at hlast
  rw [dayOf, List.append_assoc, number_padded (by decide) hyear]
  simp only [Option.bind_eq_bind, Option.bind_some, number_padded (w := 2) (by decide) hmonth, hlast, hdate, dayNumber_civil,
    if_true]

lemma dayOf_stamp (s : Stamp) : dayOf ((stampUtc s).take 8) = some s.day := by rw [stampUtc_take, dayOf_dayChars]

lemma toEpoch_stamp (s : Stamp) : toEpoch (stampUtc s) = some s.val := by
  have hlt := microOfDay_lt s.instant
  have hmicro : microOfDay s.instant = (s.val % 86400).toNat * 1000000 := by
    rw [microOfDay, microsPerDay, Stamp.instant]
    omega
  have hvalue : s.day * 86400 + (s.val % 86400).toNat = s.val := by
    rw [Stamp.day]
    omega
  rw [toEpoch, dayOf_stamp, stampUtc_clock, clockDigits]
  generalize microOfDay s.instant = u at *
  have hhour := number_padded (w := 2) (n := u / 60000000 / 60) (by decide) (by omega)
  have hminute := number_padded (w := 2) (n := u / 60000000 % 60) (by decide) (by omega)
  have hsecond := number_padded (w := 2) (n := u % 60000000 / 1000000) (by decide) (by omega)
  have hclock : u / 60000000 / 60 < 24 ∧ u / 60000000 % 60 < 60 ∧ u % 60000000 / 1000000 < 60 := by omega
  have htime : (u / 60000000 / 60 * 60 + u / 60000000 % 60) * 60 + u % 60000000 / 1000000 = (s.val % 86400).toNat := by omega
  simp only [Option.bind_eq_bind, Option.bind_some, List.append_assoc, hhour, hminute, hsecond, if_pos hclock, htime, hvalue]

/-- A later stamp comes later. -/
lemma stampUtc_lt {s t : Stamp} (h : s < t) : stampUtc s < stampUtc t := by
  obtain ⟨hslen, hsd, hsv⟩ := dayChars_spec s.inRange
  obtain ⟨htlen, htd, htv⟩ := dayChars_spec t.inRange
  have hlt : s.val < t.val := h
  have hinstant : s.val * 1000000 ≤ t.val * 1000000 := by omega
  have hday : Calendar.day s.instant ≤ Calendar.day t.instant := day_mono hinstant
  rcases lt_or_eq_of_le hday with hday | hday
  · apply append_lt (digits_lt hsd htd (hslen.trans htlen.symm) ?_) (hslen.trans htlen.symm)
    have hnum := civil_lt hday
    rw [← hsv, ← htv] at hnum
    exact_mod_cast hnum
  · have hchars : dayChars s.instant = dayChars t.instant := by rw [dayChars, dayChars, hday]
    obtain ⟨hslen', hsd', hsv'⟩ := clockDigits_spec s.instant
    obtain ⟨htlen', htd', htv'⟩ := clockDigits_spec t.instant
    have hmicro : ∀ r : Stamp, microOfDay r.instant = (r.val % 86400).toNat * 1000000 := fun r => by
      rw [microOfDay, microsPerDay, Stamp.instant]
      omega
    have hclock : clockDigits s.instant < clockDigits t.instant := by
      apply digits_lt hsd' htd' (hslen'.trans htlen'.symm)
      rw [Stamp.day_instant, Stamp.day_instant, Stamp.day, Stamp.day] at hday
      rw [hsv', htv', hmicro, hmicro]
      omega
    rw [stampUtc, stampUtc, hchars]
    exact List.append_left_lt (List.cons_lt_cons_iff.mpr (Or.inr ⟨rfl, append_lt hclock (hslen'.trans htlen'.symm) _ _⟩))

lemma base_lt {s t : Stamp} (h : s < t) : base s < base t := List.append_left_lt (stampUtc_lt h)

lemma base_injective : Function.Injective base := by
  intro s t h
  rcases lt_trichotomy s t with hlt | heq | hgt
  · exact absurd h (base_lt hlt).ne
  · exact heq
  · exact absurd h (base_lt hgt).ne'

/-- A stamp's first eight characters tell its day. -/
lemma stampDay_eq_iff {s t : Stamp} : (stampUtc s).take 8 = (stampUtc t).take 8 ↔ s.day = t.day := by
  constructor
  · intro h
    have hday := dayOf_stamp s
    rw [h, dayOf_stamp] at hday
    exact (Option.some.inj hday).symm
  · intro h
    rw [← Stamp.day_instant, ← Stamp.day_instant] at h
    rw [stampUtc_take, stampUtc_take, dayChars, dayChars, h]

/-- The Monday of a day's week. -/
def monday (day : ℤ) : ℤ := day - (day + 3) % 7

lemma isoWeek_eq_iff {d e : ℤ} : isoWeek d = isoWeek e ↔ monday d = monday e := by
  constructor
  · intro h
    obtain ⟨hyear, hweek⟩ := Prod.ext_iff.mp h
    simp only [isoWeek] at hyear hweek
    rw [hyear] at hweek
    have hfirst : (firstMonday (civil (e - (e + 3) % 7 + 3)).year + 3) % 7 = 0 := by
      rw [firstMonday]
      omega
    generalize firstMonday (civil (e - (e + 3) % 7 + 3)).year = m at hweek hfirst
    rw [monday, monday]
    omega
  · intro h
    simp only [monday] at h
    rw [isoWeek, isoWeek, h]

end ContinuityLedger.Backup
