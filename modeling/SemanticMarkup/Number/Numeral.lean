import SemanticMarkup.Number.Double
import SemanticMarkup.Text.Blank
import SemanticMarkup.Text.Digit

/-!
# Reading numerals

A decimal numeral is a row of digits with an optional point, an optional power
of ten after `e`, and an optional sign in front. Digits of every script count.
Single underscores may stand between two digits of a double or an integer.

## Implementation notes

The reader works on ASCII digits; `asciiDigits` brings the digits of other
scripts into that form first.
-/

namespace SemanticMarkup.Number

open SemanticMarkup.Text

/-- A text in which the decimal digits of every script are ASCII digits. -/
def asciiDigits (cs : List Char) : List Char :=
  cs.map fun c =>
    match digitValue? c with
    | some d => Char.ofNat (48 + d)
    | none => c

/-- The number written by ASCII digits, after a number already read. -/
def digitsToNat (acc : Nat) (cs : List Char) : Nat :=
  cs.foldl (fun n c => 10 * n + (c.toNat - 48)) acc

/-- A sign in front of a numeral, and the rest. -/
def readSign : List Char → Bool × List Char
  | '-' :: rest => (true, rest)
  | '+' :: rest => (false, rest)
  | cs => (false, cs)

/-- A row of ASCII digits in front of a text, and the rest. -/
def spanDigits (cs : List Char) : List Char × List Char :=
  (cs.takeWhile Char.isDigit, cs.dropWhile Char.isDigit)

/-- A power of ten behind a numeral: nothing, or `e` with a signed row of digits. -/
def readPower? : List Char → Option Int
  | [] => some 0
  | c :: rest =>
      if c = 'e' ∨ c = 'E' then
        let signed := readSign rest
        if signed.2.isEmpty || !signed.2.all Char.isDigit then none
        else
          let power : Int := digitsToNat 0 signed.2
          some (if signed.1 then -power else power)
      else none

/-- An unsigned decimal: its digits as a number and the power of ten of the last one. -/
structure Scientific where
  /-- The digits, read as one natural number. -/
  coefficient : Nat
  /-- The power of ten of the last digit. -/
  exponent : Int
  deriving DecidableEq, Repr

/-- The unsigned decimal that a text spells, if it spells one. -/
def readScientific? (cs : List Char) : Option Scientific :=
  let whole := spanDigits cs
  let fraction := match whole.2 with
    | '.' :: rest => spanDigits rest
    | rest => ([], rest)
  if whole.1.isEmpty && fraction.1.isEmpty then none
  else (readPower? fraction.2).map fun power =>
    ⟨digitsToNat 0 (whole.1 ++ fraction.1), power - fraction.1.length⟩

/-- The greatest number of decimal digits with which an integer is read or written. -/
def digitLimit : Nat := 4300

/-- A text with a row of digits that is too long for an integer. -/
def HasLongRow (cs : List Char) : Prop :=
  ∃ digits, digits <:+: cs ∧ digits.all Char.isDigit = true ∧ digitLimit < digits.length

/-- A text without underscores, if every underscore stood between two digits. -/
def dropUnderscores? (previousIsDigit : Bool) : List Char → Option (List Char)
  | [] => some []
  | '_' :: c :: rest =>
      if previousIsDigit && c.isDigit then (dropUnderscores? true rest).map (c :: ·) else none
  | '_' :: [] => none
  | c :: rest => (dropUnderscores? c.isDigit rest).map (c :: ·)

/-- The integer that a text spells: blanks around it are ignored, but not separators. -/
def readInt? (cs : List Char) : Option Int :=
  if cs.any fun c => 0x1C ≤ c.toNat && c.toNat ≤ 0x1F then none
  else
    let signed := readSign (asciiDigits (trim cs))
    (dropUnderscores? false signed.2).bind fun digits =>
      if digits.isEmpty || !digits.all Char.isDigit then none
      else
        let n : Int := digitsToNat 0 digits
        some (if signed.1 then -n else n)

/-- The double nearest to a decimal. Far outside the range of doubles the size alone decides. -/
def Scientific.toDouble (negative : Bool) (s : Scientific) : Double :=
  let leading := s.exponent + digitCount s.coefficient
  if s.coefficient = 0 ∨ leading < -400 then .finite negative 0
  else if 400 < leading then .infinite negative
  else if 0 ≤ s.exponent then
    Double.ofRatio negative (s.coefficient * Nat.pow 10 s.exponent.toNat) 1
  else Double.ofRatio negative s.coefficient (Nat.pow 10 (-s.exponent).toNat)

/-- A text with its ASCII capitals made small. -/
def lowered (cs : List Char) : List Char :=
  cs.map Char.toLower

/-- The double that a text without blanks around it spells. -/
def readDouble? (cs : List Char) : Option Double :=
  let signed := readSign (asciiDigits cs)
  let word := String.ofList (lowered signed.2)
  if word = "inf" ∨ word = "infinity" then some (.infinite signed.1)
  else if word = "nan" then some .nan
  else (dropUnderscores? false signed.2).bind fun digits =>
    (readScientific? digits).map (·.toDouble signed.1)

end SemanticMarkup.Number
