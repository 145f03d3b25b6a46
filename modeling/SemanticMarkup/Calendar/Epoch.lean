import SemanticMarkup.Calendar.Civil
import SemanticMarkup.Number.Double

/-!
# Times from seconds

A number of seconds since the start of 1970 names a moment in universal time.
Fractions are rounded to microseconds, half-way cases to the even one.
-/

namespace SemanticMarkup.Calendar

open SemanticMarkup.Number

/-- Why a number of seconds names no moment of the calendar. -/
inductive EpochFault where
  /-- It is not a number. -/
  | undefined
  /-- Its year lies outside the calendar. -/
  | year
  /-- Its year cannot be counted in 32 bits. -/
  | distant
  /-- It exceeds 64 bits. -/
  | overflow
  deriving DecidableEq, Repr

/-- The first and last second whose year can be counted in 32 bits. -/
def countableSeconds : Int × Int := (-67768040609740800, 67768036191676799)

/-- The first second of the second day and the last second of the calendar. -/
def calendarSeconds : Int × Int := (-62135510400, 253402300799)

/-- The moment a number of seconds and microseconds after the start of 1970. -/
def DateTime.ofSeconds (seconds : Int) (microsecond : Nat) : Except EpochFault DateTime :=
  if seconds < -(Nat.pow 2 63 : Int) ∨ (Nat.pow 2 63 : Int) ≤ seconds then .error .overflow
  else if seconds < countableSeconds.1 ∨ countableSeconds.2 < seconds then .error .distant
  else if seconds < calendarSeconds.1 ∨ calendarSeconds.2 < seconds then .error .year
  else
    let day := seconds / 86400
    let clock := (seconds % 86400).toNat
    .ok {
      date := Date.ofOrdinal (day + epochOrdinal).toNat
      hour := clock / 3600
      minute := clock / 60 % 60
      second := clock % 60
      microsecond := microsecond
      offset := none }

/-- The moment a number of seconds, possibly with a fraction, after the start of 1970. -/
def DateTime.ofDouble : Double → Except EpochFault DateTime
  | .nan => .error .undefined
  | .infinite _ => .error .overflow
  | .finite negative units =>
      let whole := units / Double.one
      let scaled := Double.nearestUnits ((units % Double.one) * 1000000) 1
      let rounded := roundHalfEven scaled Double.one
      let total : Int := whole * 1000000 + rounded
      let signed := if negative then -total else total
      ofSeconds (signed / 1000000) (signed % 1000000).toNat

end SemanticMarkup.Calendar
