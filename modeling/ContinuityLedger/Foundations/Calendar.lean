import Mathlib.Algebra.Order.Ring.Int

/-! Instants as microseconds since 1970-01-01T00:00:00 UTC, and their UTC calendar text. -/

namespace ContinuityLedger.Foundations.Calendar

abbrev Instant := ℤ

def microsPerDay : ℤ := 86400000000

/-- The UTC day of an instant, counted from the epoch. -/
def day (t : Instant) : ℤ := t / microsPerDay

def microOfDay (t : Instant) : ℕ := (t % microsPerDay).toNat

lemma day_mono {s t : Instant} (h : s ≤ t) : day s ≤ day t :=
  Int.ediv_le_ediv (by decide) h

structure Date where
  year : ℤ
  month : ℕ
  dayOfMonth : ℕ
deriving DecidableEq

/-- The proleptic Gregorian date of a day, counted in eras of 400 years from 0000-03-01. -/
def civil (d : ℤ) : Date :=
  let z := d + 719468
  let era := z / 146097
  let doe := (z % 146097).toNat
  let yoe := (doe - doe / 1460 + doe / 36524 - doe / 146096) / 365
  let doy := doe - (365 * yoe + yoe / 4 - yoe / 100)
  let mp := (5 * doy + 2) / 153
  let month := if mp < 10 then mp + 3 else mp - 9
  ⟨yoe + era * 400 + (if month ≤ 2 then 1 else 0), month, doy - (153 * mp + 2) / 5 + 1⟩

/-- A number in at least `width` decimal digits. -/
def padded (width n : ℕ) : String :=
  String.ofList (List.replicate (width - (toString n).length) '0') ++ toString n

def dateText (sep : String) (d : ℤ) : String :=
  let c := civil d
  padded 4 c.year.toNat ++ sep ++ padded 2 c.month ++ sep ++ padded 2 c.dayOfMonth

def minuteText (t : Instant) : String :=
  let m := microOfDay t / 60000000
  dateText "-" (day t) ++ "T" ++ padded 2 (m / 60) ++ ":" ++ padded 2 (m % 60)

/-- `YYYY-MM-DDThh:mm:ss.uuuuuu`. -/
def text (t : Instant) : String :=
  let u := microOfDay t % 60000000
  minuteText t ++ ":" ++ padded 2 (u / 1000000) ++ "." ++ padded 6 (u % 1000000)

example : text 1791028245000123 = "2026-10-03T11:50:45.000123" := by decide

end ContinuityLedger.Foundations.Calendar
