import SemanticMarkup.Text.Split

/-!
# The civil calendar

Dates of the proleptic Gregorian calendar from year 1 to year 9999, their number
in the sequence of days, and the week they belong to. Day 1 is the first of
January of year 1, a Monday.
-/

namespace SemanticMarkup.Calendar

open SemanticMarkup.Text

/-- A date of the proleptic Gregorian calendar. -/
structure Date where
  /-- The year. -/
  year : Nat
  /-- The month, from 1. -/
  month : Nat
  /-- The day of the month, from 1. -/
  day : Nat
  deriving DecidableEq, Repr

/-- Whether a year has 366 days. -/
def isLeap (year : Nat) : Bool :=
  year % 4 == 0 && (year % 100 != 0 || year % 400 == 0)

/-- The number of days of a month. -/
def daysInMonth (year month : Nat) : Nat :=
  if month = 2 then (if isLeap year then 29 else 28)
  else if month = 4 ∨ month = 6 ∨ month = 9 ∨ month = 11 then 30
  else 31

/-- The number of days of a year before a month. -/
def daysBeforeMonth (year : Nat) : Nat → Nat
  | 0 => 0
  | 1 => 0
  | month + 2 => daysBeforeMonth year (month + 1) + daysInMonth year (month + 1)

/-- The number of days before a year. -/
def daysBeforeYear (year : Nat) : Nat :=
  let past := year - 1
  past * 365 + past / 4 - past / 100 + past / 400

/-- The last year of the calendar. -/
def lastYear : Nat := 9999

namespace Date

/-- Whether the parts make a date of the calendar. -/
def isValid (d : Date) : Bool :=
  1 ≤ d.year && d.year ≤ lastYear && 1 ≤ d.month && d.month ≤ 12 && 1 ≤ d.day
    && d.day ≤ daysInMonth d.year d.month

/-- The number of the day in its year, from 1. -/
def dayOfYear (d : Date) : Nat :=
  daysBeforeMonth d.year d.month + d.day

/-- The number of the day in the sequence of days. -/
def ordinal (d : Date) : Nat :=
  daysBeforeYear d.year + d.dayOfYear

/-- The month and day of the day with a number, from 0, counted from the start of a month. -/
def monthDay (year : Nat) : Nat → Nat → Nat → Nat × Nat
  | 0, month, rest => (month, rest + 1)
  | k + 1, month, rest =>
      if rest < daysInMonth year month then (month, rest + 1)
      else monthDay year k (month + 1) (rest - daysInMonth year month)

/-- The date with a number in the sequence of days, which starts at 1. -/
def ofOrdinal (n : Nat) : Date :=
  let day := n - 1
  let rest400 := day % 146097
  let n100 := min (rest400 / 36524) 3
  let rest100 := rest400 - n100 * 36524
  let rest4 := rest100 % 1461
  let n1 := min (rest4 / 365) 3
  let year := day / 146097 * 400 + n100 * 100 + rest100 / 1461 * 4 + n1 + 1
  let md := monthDay year 11 1 (rest4 - n1 * 365)
  { year := year, month := md.1, day := md.2 }

/-- The day of the week, Monday being 0. -/
def weekday (d : Date) : Nat :=
  (d.ordinal + 6) % 7

/-- The number of the Monday that starts the first week of a year, which holds its fourth day. -/
def firstMonday (year : Nat) : Int :=
  let start : Int := daysBeforeYear year + 1
  let weekday := (start + 6) % 7
  if weekday ≤ 3 then start - weekday else start - weekday + 7

/-- The year and the number, from 1, of the week that a date belongs to. -/
def isoWeek (d : Date) : Nat × Nat :=
  let day : Int := d.ordinal
  let year :=
    if day < firstMonday d.year then d.year - 1
    else if firstMonday (d.year + 1) ≤ day then d.year + 1
    else d.year
  let start := if day < firstMonday d.year ∧ d.year = 1 then -363 else firstMonday year
  (year, ((day - start) / 7 + 1).toNat)

/-- The date of a weekday, from 1, in a week of a year. -/
def ofIsoWeek? (year week weekday : Nat) : Option Date :=
  let first := ({ year := year, month := 1, day := 1 } : Date).weekday
  let weeks := if first = 3 ∨ (first = 2 ∧ isLeap year) then 53 else 52
  if year < 1 ∨ lastYear < year ∨ week < 1 ∨ weeks < week ∨ weekday < 1 ∨ 7 < weekday then none
  else
    let day := firstMonday year + (week - 1) * 7 + (weekday - 1)
    if day < 1 then none
    else
      let d := ofOrdinal day.toNat
      if d.isValid then some d else none

/-- A date as year, month and day with hyphens. -/
def isoText (d : Date) : List Char :=
  zeroField 4 d.year ++ '-' :: zeroField 2 d.month ++ '-' :: zeroField 2 d.day

end Date

/-- A date with a time of day and, if known, its distance from universal time. -/
structure DateTime where
  /-- The date. -/
  date : Date
  /-- The hour. -/
  hour : Nat
  /-- The minute. -/
  minute : Nat
  /-- The second. -/
  second : Nat
  /-- The microsecond. -/
  microsecond : Nat
  /-- The distance from universal time in microseconds. -/
  offset : Option Int
  deriving DecidableEq, Repr

/-- The start of a date. -/
def Date.midnight (d : Date) : DateTime :=
  { date := d, hour := 0, minute := 0, second := 0, microsecond := 0, offset := none }

namespace DateTime

/-- Whether the parts make a time of the calendar. -/
def isValid (t : DateTime) : Bool :=
  t.date.isValid && t.hour < 24 && t.minute < 60 && t.second < 60 && t.microsecond < 1000000

/-- The number of the first day of 1970. -/
def epochOrdinal : Int := 719163

/-- The seconds since the start of 1970, offset and microseconds left out. -/
def wallSeconds (t : DateTime) : Int :=
  ((t.date.ordinal : Int) - epochOrdinal) * 86400
    + t.hour * 3600 + t.minute * 60 + t.second

/-- The microseconds since the start of 1970 in universal time, for a time with an offset. -/
def instant (t : DateTime) : Int :=
  t.wallSeconds * 1000000 + t.microsecond - t.offset.getD 0

/-- An offset as sign, hours, minutes and what else is not zero, with separators in between. -/
def offsetText (separator : List Char) (offset : Int) : List Char :=
  let size := offset.natAbs
  let seconds := size / 1000000
  let micros := size % 1000000
  let head := (if offset < 0 then '-' else '+') :: zeroField 2 (seconds / 3600)
    ++ separator ++ zeroField 2 (seconds / 60 % 60)
  if seconds % 60 = 0 ∧ micros = 0 then head
  else head ++ separator ++ zeroField 2 (seconds % 60)
    ++ (if micros = 0 then [] else '.' :: zeroField 6 micros)

/-- A time in the ISO form, with the given character between date and time of day. -/
def isoText (between : Char) (t : DateTime) : List Char :=
  t.date.isoText ++ between :: zeroField 2 t.hour ++ ':' :: zeroField 2 t.minute
    ++ ':' :: zeroField 2 t.second
    ++ (if t.microsecond = 0 then [] else '.' :: zeroField 6 t.microsecond)
    ++ (match t.offset with
      | none => []
      | some offset => offsetText [':'] offset)

end DateTime

end SemanticMarkup.Calendar
