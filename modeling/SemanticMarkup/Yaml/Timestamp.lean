import SemanticMarkup.Calendar.Iso
import SemanticMarkup.Value.Basic

/-!
# Timestamps

A date as year, month and day with hyphens, alone or followed by a time of day
with an optional fraction and an optional zone. Where a time of day follows,
months and days below ten may be written with one digit.
-/

namespace SemanticMarkup.Yaml

open SemanticMarkup.Calendar

/-- The time of day of a timestamp. -/
structure Clock where
  /-- The hour. -/
  hour : Nat
  /-- The minute. -/
  minute : Nat
  /-- The second. -/
  second : Nat
  /-- The digits of the fraction of a second. -/
  fraction : List Char
  /-- The distance from universal time in minutes. -/
  zone : Option Int
  deriving Repr

/-- A timestamp as it is written. -/
structure Timestamp where
  /-- The date; it need not exist. -/
  date : Date
  /-- Whether month and day are written with two digits. -/
  isPadded : Bool
  /-- The time of day. -/
  clock : Option Clock
  deriving Repr

namespace Timestamp

/-- One or two digits in front of a text as a number, whether there are two, and the rest. -/
def readShort? (cs : List Char) : Option (Nat × Bool × List Char) :=
  match readField? 2 cs with
  | some (n, rest) => some (n, true, rest)
  | none => (readField? 1 cs).map fun (n, rest) => (n, false, rest)

/-- The rest of a text behind a character in front of it. -/
def behind? (c : Char) : List Char → Option (List Char)
  | [] => none
  | d :: rest => if d = c then some rest else none

/-- The distance from universal time that a text writes, in minutes. -/
def readZone? : List Char → Option Int
  | ['Z'] => some 0
  | sign :: rest => do
      let (hours, _, rest) ← readShort? rest
      let minutes ← match rest with
        | [] => some 0
        | ':' :: rest => match readField? 2 rest with
          | some (n, []) => some n
          | _ => none
        | _ => none
      let distance : Int := hours * 60 + minutes
      if sign = '+' then some distance else if sign = '-' then some (-distance) else none
  | [] => none

/-- The time of day that a text writes. -/
def readClock? (cs : List Char) : Option Clock := do
  let (hour, _, rest) ← readShort? cs
  let (minute, rest) ← (behind? ':' rest).bind (readField? 2)
  let (second, rest) ← (behind? ':' rest).bind (readField? 2)
  let pointed := behind? '.' rest
  let fraction := (pointed.getD []).takeWhile Char.isDigit
  let rest := (pointed.getD rest).drop fraction.length
  let clock (zone : Option Int) : Clock :=
    { hour := hour, minute := minute, second := second, fraction := fraction, zone := zone }
  if rest.isEmpty then some (clock none)
  else (readZone? (rest.dropWhile fun c => c == ' ' || c == '\t')).map fun z => clock (some z)

/-- The text behind what separates a date from its time of day. -/
def behindDate? : List Char → Option (List Char)
  | [] => none
  | c :: rest =>
      if c = 'T' ∨ c = 't' then some rest
      else if c = ' ' ∨ c = '\t' then some (rest.dropWhile fun c => c == ' ' || c == '\t')
      else none

/-- The timestamp that a text writes. -/
def read? (cs : List Char) : Option Timestamp := do
  let (year, rest) ← readField? 4 cs
  let (month, wideMonth, rest) ← (behind? '-' rest).bind readShort?
  let (day, wideDay, rest) ← (behind? '-' rest).bind readShort?
  let date : Date := { year := year, month := month, day := day }
  let stamp (clock : Option Clock) : Timestamp :=
    { date := date, isPadded := wideMonth && wideDay, clock := clock }
  if rest.isEmpty then some (stamp none)
  else ((behindDate? rest).bind readClock?).map fun c => stamp (some c)

/-- Whether a plain scalar that writes the timestamp is taken for one. -/
def isEvident (t : Timestamp) : Bool :=
  t.isPadded || t.clock.isSome

/-- The number of minutes in a day. -/
def dayMinutes : Nat := 1440

/-- The microseconds that the digits of a fraction write; digits beyond the sixth are cut off. -/
def microseconds (fraction : List Char) : Nat :=
  Number.digitsToNat 0 ((fraction ++ List.replicate 6 '0').take 6)

/-- The date, or date with a time, that a timestamp stands for, if it exists. -/
def value? (t : Timestamp) : Option Value :=
  match t.clock with
  | none => if t.date.isValid then some (.date t.date) else none
  | some c =>
      let time : DateTime :=
        { date := t.date, hour := c.hour, minute := c.minute, second := c.second,
          microsecond := microseconds c.fraction, offset := c.zone.map (· * 60000000) }
      if time.isValid && c.zone.all fun z => z.natAbs < dayMinutes then some (.datetime time)
      else none

end Timestamp

end SemanticMarkup.Yaml
