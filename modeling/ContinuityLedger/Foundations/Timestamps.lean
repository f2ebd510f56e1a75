import ContinuityLedger.Foundations.Calendar
import ContinuityLedger.Foundations.PyText

/-! Timestamps as Python reads and writes them: `datetime.fromisoformat`, `isoformat` and the service's own fixed form.
An instant outside the years 1 to 9999 is no `datetime`. -/

namespace ContinuityLedger.Foundations.Timestamps

open Calendar

def earliest : Instant := -62135596800000000
def latest : Instant := 253402300799999999

def InRange (t : Instant) : Prop := earliest ≤ t ∧ t ≤ latest

instance (t : Instant) : Decidable (InRange t) := inferInstanceAs (Decidable (_ ∧ _))

/-- The day of a date, counted from the epoch. -/
def dayNumber (c : Date) : ℤ :=
  let y := if c.month ≤ 2 then c.year - 1 else c.year
  let yoe := (y % 400).toNat
  let mp := if c.month ≤ 2 then c.month + 9 else c.month - 3
  let doy := (153 * mp + 2) / 5 + c.dayOfMonth - 1
  y / 400 * 146097 + ((yoe * 365 + yoe / 4 - yoe / 100 + doy : ℕ) : ℤ) - 719468

/-- A number of exactly `n` digits, and what follows it. -/
def number (n : ℕ) (cs : List Char) : Option (ℕ × List Char) :=
  if (cs.take n).length = n ∧ (cs.take n).all PyText.isAsciiDigit then
    some (Nat.ofDigitChars 10 (cs.take n) 0, cs.drop n)
  else none

/-- The date exists in a year from 1 to 9999. -/
def existing (c : Date) : Option ℤ :=
  if 1 ≤ c.year ∧ c.year ≤ 9999 ∧ civil (dayNumber c) = c then some (dayNumber c) else none

/-- The Monday of the ISO year's first week: the week of 4 January. -/
def firstMonday (year : ℤ) : ℤ :=
  let fourth := dayNumber ⟨year, 1, 4⟩
  fourth - (fourth + 3) % 7

/-- A week exists where its Thursday lies in the year. -/
def weekDay (year week day : ℕ) : Option ℤ :=
  let monday := firstMonday year + 7 * ((week : ℤ) - 1)
  if 1 ≤ week ∧ 1 ≤ day ∧ day ≤ 7 ∧ (civil (monday + 3)).year = year then existing (civil (monday + day - 1)) else none

/-- Where the date ends: the forms differ in their fifth and sixth characters. -/
def separatorAt (cs : List Char) : ℕ :=
  if cs.length = 7 then 7
  else if cs[4]? = some '-' then
    if cs[5]? = some 'W' then
      if cs[8]? = some '-' ∧ ¬ (10 < cs.length ∧ (cs[10]?).any PyText.isAsciiDigit) then 10 else 8
    else 10
  else if cs[4]? = some 'W' then
    let pos := 7 + ((cs.drop 7).takeWhile PyText.isAsciiDigit).length
    if pos < 9 then pos else if pos % 2 = 0 then 7 else 8
  else 8

/-- `YYYY-MM-DD`, `YYYYMMDD`, `YYYY-Www`, `YYYYWww`, `YYYY-Www-D` and `YYYYWwwD`. -/
def isoDate (cs : List Char) : Option ℤ := do
  let (year, rest) ← number 4 cs
  match rest with
  | '-' :: 'W' :: rest => do
    let (week, rest) ← number 2 rest
    match rest with
    | [] => weekDay year week 1
    | '-' :: rest => do
      let (day, rest) ← number 1 rest
      if rest = [] then weekDay year week day else none
    | _ => none
  | 'W' :: rest => do
    let (week, rest) ← number 2 rest
    if rest = [] then weekDay year week 1 else
    let (day, rest) ← number 1 rest
    if rest = [] then weekDay year week day else none
  | '-' :: rest => do
    let (month, rest) ← number 2 rest
    match rest with
    | '-' :: rest => do
      let (day, rest) ← number 2 rest
      if rest = [] then existing ⟨year, month, day⟩ else none
    | _ => none
  | rest => do
    let (month, rest) ← number 2 rest
    let (day, rest) ← number 2 rest
    if rest = [] then existing ⟨year, month, day⟩ else none

/-- A fraction of a second in microseconds; digits behind the sixth are dropped. -/
def fraction (cs : List Char) : Option ℕ :=
  match cs with
  | [] => some 0
  | c :: ds =>
    if (c = '.' ∨ c = ',') ∧ ds ≠ [] ∧ ds.all PyText.isAsciiDigit then
      some (Nat.ofDigitChars 10 (ds.take 6) 0 * 10 ^ (6 - ds.length))
    else none

structure ClockTime where
  hour : ℕ
  minute : ℕ
  second : ℕ
  micro : ℕ

def ClockTime.micros (c : ClockTime) : ℕ := ((c.hour * 60 + c.minute) * 60 + c.second) * 1000000 + c.micro

/-- `HH`, `HH:MM`, `HH:MM:SS`, the same without colons, and a fraction behind the seconds. -/
def clockTime (cs : List Char) : Option ClockTime := do
  let (hour, rest) ← number 2 cs
  match rest with
  | [] => some ⟨hour, 0, 0, 0⟩
  | ':' :: rest => do
    let (minute, rest) ← number 2 rest
    match rest with
    | [] => some ⟨hour, minute, 0, 0⟩
    | ':' :: rest => do
      let (second, rest) ← number 2 rest
      (fraction rest).map fun micro => ⟨hour, minute, second, micro⟩
    | _ => none
  | rest => do
    let (minute, rest) ← number 2 rest
    if rest = [] then some ⟨hour, minute, 0, 0⟩ else
    let (second, rest) ← number 2 rest
    (fraction rest).map fun micro => ⟨hour, minute, second, micro⟩

/-- An offset from UTC, under a day; a text without one is naive. -/
def offset (cs : List Char) : Option (Option ℤ) :=
  match cs with
  | [] => some none
  | ['Z'] => some (some 0)
  | sign :: rest =>
    if sign = '+' ∨ sign = '-' then
      (clockTime rest).bind fun c =>
        if (c.micros : ℤ) < microsPerDay then some (some (if sign = '-' then -c.micros else c.micros)) else none
    else none

def startsOffset (c : Char) : Bool := c = '+' || c = '-' || c = 'Z'

/-- The microseconds since midnight, and the offset. -/
def isoTime (cs : List Char) : Option (ℕ × Option ℤ) := do
  let c ← clockTime (cs.takeWhile (!startsOffset ·))
  let off ← offset (cs.dropWhile (!startsOffset ·))
  if c.hour < 24 ∧ c.minute < 60 ∧ c.second < 60 then some (c.micros, off) else none

/-- `datetime.fromisoformat`: the local time, and its offset where it has one. -/
def fromisoformat (s : String) : Option (ℤ × Option ℤ) :=
  let cs := s.toList
  if cs.length < 7 then none else
  match isoDate (cs.take (separatorAt cs)) with
  | none => none
  | some d =>
    if cs.drop (separatorAt cs + 1) = [] then some (d * microsPerDay, none)
    else (isoTime (cs.drop (separatorAt cs + 1))).map fun r => (d * microsPerDay + r.1, r.2)

def zulu (s : String) : String :=
  if s.toList.getLast? = some 'Z' ∨ s.toList.getLast? = some 'z' then String.ofList s.toList.dropLast ++ "+00:00" else s

/-- `parse_utc`: a naive text is taken as UTC. -/
def parseUtc (s : String) : Option Instant :=
  (fromisoformat (zulu (PyText.strip s))).bind fun r =>
    let t := r.1 - r.2.getD 0
    if InRange t then some t else none

/-- `%Y` has four digits where the platform pads it. -/
def yearText (pads : Bool) (t : Instant) : String :=
  let year := (civil (day t)).year.toNat
  if pads then padded 4 year else toString year

/-- `norm_ts`: `YYYY-MM-DDTHH:MM:SS.ffffffZ`. -/
def normTs (pads : Bool) (t : Instant) : String :=
  yearText pads t ++ String.ofList ((text t).toList.drop 4) ++ "Z"

example : parseUtc "2026-10-03T11:50:45.000123Z" = some 1791028245000123 := by decide
example : parseUtc " 20261003T1350+0200" = parseUtc "2026-W40-6 11:50" := by decide

end ContinuityLedger.Foundations.Timestamps
