import SemanticMarkup.Number.Double
import SemanticMarkup.Text.Split

/-!
# The shortest decimal text of a double

Among the decimals that read back as a given double the written one has the
fewest digits, and among those it is the nearest to the exact value.

## Implementation notes

For one digit, two digits and so on, the two neighbours of the value on the
decimal grid with that many digits are tested against the interval of numbers
that round to the double. The ends of the interval belong to it exactly when the
last binary digit of the double is even.
-/

namespace SemanticMarkup.Number

namespace Double

open SemanticMarkup.Text

/-- A positive decimal `digits * 10 ^ exponent`. -/
structure Digits where
  /-- The digits, as a natural number. -/
  digits : Nat
  /-- The power of ten of the last digit. -/
  exponent : Int
  deriving DecidableEq, Repr

/-- The power of ten of the first digit of a positive number of units. -/
def leadingPower (units : Nat) : Int :=
  (digitCount (units * Nat.pow 10 400 / one) : Int) - 401

/-- The quotient that measures a number of units in steps of a power of ten. -/
def gridRatio (units : Nat) (exponent : Int) : Nat × Nat :=
  if 0 ≤ exponent then (units, one * Nat.pow 10 exponent.toNat)
  else (units * Nat.pow 10 (-exponent).toNat, one)

/-- Whether a multiple of a power of ten rounds to the given positive number of units. -/
def roundsTo (units : Nat) (exponent : Int) (digits : Nat) : Bool :=
  let step := spacing units
  let below := if units = Nat.pow 2 (bitLength units - 1) ∧ 1 < step then step / 2 else step
  let low := gridRatio (2 * units - below) exponent
  let high := gridRatio (2 * units + step) exponent
  let value := 2 * digits * low.2
  if units / step % 2 = 0 then low.1 ≤ value && value ≤ high.1
  else low.1 < value && value < high.1

/-- The nearest of the two grid neighbours that round to the number, if one does. -/
def neighbour? (units : Nat) (count : Nat) : Option Digits :=
  let exponent := leadingPower units - count + 1
  let ratio := gridRatio units exponent
  let low := ratio.1 / ratio.2
  let rest := ratio.1 % ratio.2
  match roundsTo units exponent low, roundsTo units exponent (low + 1) with
  | true, true =>
      if 2 * rest < ratio.2 ∨ (2 * rest = ratio.2 ∧ low % 2 = 0) then some ⟨low, exponent⟩
      else some ⟨low + 1, exponent⟩
  | true, false => some ⟨low, exponent⟩
  | false, true => some ⟨low + 1, exponent⟩
  | false, false => none

/-- The shortest decimal that reads back as a positive number of units. -/
def shortest (units : Nat) : Digits :=
  (((List.range 17).map (· + 1)).findSome? (neighbour? units)).getD ⟨0, 0⟩

/-- A decimal without zeros at the end. -/
def Digits.normalize : Nat → Digits → Digits
  | 0, d => d
  | k + 1, d =>
      if d.digits % 10 = 0 ∧ d.digits ≠ 0 then normalize k ⟨d.digits / 10, d.exponent + 1⟩ else d

/-- How doubles are written. -/
structure Layout where
  /-- The least power of ten of the first digit that is written without an exponent. -/
  positionalFrom : Int
  /-- The first power of ten of the first digit that needs an exponent. -/
  positionalBelow : Int
  /-- The word for infinity. -/
  infinity : String
  /-- The word for an undefined number. -/
  undefined : String

/-- The exponent of a number in scientific notation, with its sign and at least two digits. -/
def exponentText (exponent : Int) : List Char :=
  (if exponent < 0 then '-' else '+') :: zeroField 2 exponent.natAbs

/-- The digits of a positive decimal, with a point but without a sign. -/
def Digits.text (layout : Layout) (d : Digits) : List Char :=
  let digits := Nat.toDigits 10 d.digits
  let leading := d.exponent + digits.length - 1
  if layout.positionalFrom ≤ leading ∧ leading < layout.positionalBelow then
    if 0 ≤ d.exponent then
      digits ++ List.replicate d.exponent.toNat '0' ++ ['.', '0']
    else if 0 ≤ leading then
      digits.take (leading.toNat + 1) ++ '.' :: digits.drop (leading.toNat + 1)
    else
      '0' :: '.' :: List.replicate ((-leading).toNat - 1) '0' ++ digits
  else
    digits.take 1
      ++ (if digits.length = 1 then [] else '.' :: digits.drop 1)
      ++ 'e' :: exponentText leading

/-- The shortest text of a double that reads back as the same double. -/
def text (layout : Layout) : Double → String
  | .finite negative units =>
      let body := if units = 0 then ['0', '.', '0']
        else ((shortest units).normalize 20).text layout
      String.ofList (if negative then '-' :: body else body)
  | .infinite negative => if negative then "-" ++ layout.infinity else layout.infinity
  | .nan => layout.undefined

end Double

end SemanticMarkup.Number
