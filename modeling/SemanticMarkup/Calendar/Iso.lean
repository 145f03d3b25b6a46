import SemanticMarkup.Calendar.Civil

/-!
# Reading ISO dates

The forms of ISO 8601 for dates (`2015-03-07`, `20150307`, `2015-W10-6`,
`2015W106`, with the weekday left out for Monday), optionally followed by any one
character and a time of day in the extended or basic form, a decimal fraction
after point or comma, and `Z` or an offset.

## Implementation notes

Where a date ends is decided by its fifth and sixth character. The fraction is
cut after six digits.
-/

namespace SemanticMarkup.Calendar

open SemanticMarkup.Text

/-- A field of exactly `count` ASCII digits in front of a text, and the rest. -/
def readField? (count : Nat) (cs : List Char) : Option (Nat × List Char) :=
  let field := cs.take count
  if field.length = count ∧ field.all Char.isDigit then
    some (field.foldl (fun n c => 10 * n + (c.toNat - 48)) 0, cs.drop count)
  else none

/-- The date that a text in one of the forms spells. -/
def readDate? (cs : List Char) : Option Date := do
  let (year, rest) ← readField? 4 cs
  let hyphens := rest.head? == some '-'
  let rest := if hyphens then rest.drop 1 else rest
  if rest.head? == some 'W' then
    let (week, rest) ← readField? 2 (rest.drop 1)
    match rest with
    | [] => Date.ofIsoWeek? year week 1
    | c :: more =>
        if hyphens && c != '-' then none
        else
          let (weekday, _) ← readField? 1 (if hyphens then more else c :: more)
          Date.ofIsoWeek? year week weekday
  else
    let (month, rest) ← readField? 2 rest
    let rest ← match hyphens, rest with
      | true, '-' :: more => some more
      | true, _ => none
      | false, more => some more
    let (day, rest) ← readField? 2 rest
    let d : Date := { year := year, month := month, day := day }
    if rest.isEmpty && d.isValid then some d else none

/-- The length of the date in front of a text of at least seven characters. -/
def dateLength (cs : List Char) : Option Nat :=
  let isDigitAt (i : Nat) : Bool := cs[i]?.any Char.isDigit
  if cs.length = 7 then some 7
  else if cs[4]? = some '-' then
    if cs[5]? = some 'W' then
      if cs[8]? = some '-' then
        if cs.length = 9 then none else if isDigitAt 10 then some 8 else some 10
      else some 8
    else some 10
  else if cs[4]? = some 'W' then
    let digits := ((cs.drop 7).takeWhile Char.isDigit).length
    if digits < 2 then some (7 + digits) else if digits % 2 = 1 then some 7 else some 8
  else some 8

/-- A time of day as it is read: the parts, and whether something follows them. -/
structure ClockReading where
  /-- Hours, minutes, seconds, as many as were written. -/
  parts : List Nat
  /-- The fraction of a second in microseconds. -/
  microsecond : Nat
  /-- Whether characters are left over. -/
  more : Bool

/-- A fraction of a second in microseconds; digits beyond the sixth are skipped. -/
def readFraction? (cs : List Char) : Option (Nat × List Char) :=
  let count := min cs.length 6
  (readField? count cs).map fun (n, rest) =>
    (n * Nat.pow 10 (6 - count), rest.dropWhile Char.isDigit)

/-- Reads the parts of a time of day that are still missing. `colons` tells whether colons
separate them; `atEnd` whether the text ends here. -/
def readClock? (atEnd : Bool) : Nat → Bool → List Nat → List Char → Option ClockReading
  | 0, _, parts, cs =>
      (readFraction? cs).map fun (micros, rest) => ⟨parts, micros, !rest.isEmpty || !atEnd⟩
  | k + 1, colons, parts, cs =>
      match readField? 2 cs with
      | none => none
      | some (n, rest) =>
          let parts := parts ++ [n]
          match rest with
          | [] => some ⟨parts, 0, !atEnd⟩
          | [_] => some ⟨parts, 0, true⟩
          | c :: more =>
              let colons := if parts.length = 1 then c == ':' else colons
              if colons && c == ':' then readClock? atEnd k colons parts more
              else if c == '.' || c == ',' then
                (readFraction? more).map fun (micros, rest) =>
                  ⟨parts, micros, !rest.isEmpty || !atEnd⟩
              else if colons then none
              else readClock? atEnd k colons parts rest

/-- Whether a character starts an offset. -/
def startsOffset (c : Char) : Bool :=
  c == '+' || c == '-' || c == 'Z'

/-- The offset, in microseconds, that the text behind the time of day spells. -/
def readOffset? : List Char → Option Int
  | ['Z'] => some 0
  | 'Z' :: _ => none
  | sign :: rest =>
      (readClock? true 3 false [] rest).bind fun reading =>
        if reading.more then none
        else
          let part (i : Nat) : Nat := reading.parts[i]?.getD 0
          let seconds := part 0 * 3600 + part 1 * 60 + part 2
          let micros : Int := if seconds = 0 then 0 else seconds * 1000000 + reading.microsecond
          if micros < 86400000000 then some (if sign = '-' then -micros else micros) else none
  | [] => none

/-- The time of a date that a text behind the date spells. -/
def readTime? (date : Date) (cs : List Char) : Option DateTime :=
  let clock := cs.takeWhile (!startsOffset ·)
  let zone := cs.dropWhile (!startsOffset ·)
  (readClock? zone.isEmpty 3 false [] clock).bind fun reading =>
    let part (i : Nat) : Nat := reading.parts[i]?.getD 0
    let time (offset : Option Int) : Option DateTime :=
      let t : DateTime :=
        { date := date, hour := part 0, minute := part 1, second := part 2,
          microsecond := reading.microsecond, offset := offset }
      if t.isValid then some t else none
    if zone.isEmpty then (if reading.more then none else time none)
    else (readOffset? zone).bind fun offset => time (some offset)

/-- The time that a text in an ISO form spells; a date alone stands for its start. -/
def DateTime.ofIso? (s : String) : Option DateTime :=
  let cs := s.toList
  if cs.length < 7 then none
  else (dateLength cs).bind fun length =>
    (readDate? (cs.take length)).bind fun date =>
      match cs.drop length with
      | [] => some date.midnight
      | _ :: rest => readTime? date rest

end SemanticMarkup.Calendar
