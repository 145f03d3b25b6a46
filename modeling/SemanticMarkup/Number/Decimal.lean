import SemanticMarkup.Number.Numeral
import SemanticMarkup.Text.Split

/-!
# Decimal numbers

An exact decimal is a signed coefficient times a power of ten; `1.5` and `1.50`
are different decimals of equal value. Infinities and quiet or signaling
undefined numbers complete the type. Arithmetic rounds to 28 significant digits,
half-way cases to the even digit.

## Implementation notes

Reading removes underscores wherever they stand. A finite decimal is within
range when the power of ten of its first digit is below `10 ^ 18` and that of
its last digit is above the smallest one that can be kept exactly.
-/

namespace SemanticMarkup.Number

open SemanticMarkup.Text

/-- A decimal number. -/
inductive Decimal where
  /-- A coefficient with a sign and a power of ten. -/
  | finite (negative : Bool) (coefficient : Nat) (exponent : Int)
  /-- One of the two infinities. -/
  | infinite (negative : Bool)
  /-- Not a number; `payload` are the digits that follow the word, if not all zero. -/
  | undefined (negative signaling : Bool) (payload : Nat)
  deriving DecidableEq, Repr

namespace Decimal

/-- The largest power of ten that the first digit of a decimal may have. -/
def maxLeading : Int := 999999999999999999

/-- The smallest power of ten that the last digit of a decimal may have. -/
def minExponent : Int := -1999999999999999997

/-- Whether a coefficient and a power of ten make a decimal within range. -/
def inRange (coefficient : Nat) (exponent : Int) : Bool :=
  minExponent ≤ exponent && exponent + digitCount coefficient - 1 ≤ maxLeading

/-- The payload behind the word for an undefined number. -/
def readPayload? (cs : List Char) : Option Nat :=
  if cs.all Char.isDigit then some (digitsToNat 0 cs) else none

/-- The decimal that a text spells, blanks around it and underscores in it ignored. -/
def read? (s : String) : Option Decimal :=
  let signed := readSign (asciiDigits ((trim s.toList).filter (· != '_')))
  let word := lowered signed.2
  if word = "inf".toList ∨ word = "infinity".toList then some (.infinite signed.1)
  else if word.take 3 = "nan".toList then
    (readPayload? (word.drop 3)).map (.undefined signed.1 false)
  else if word.take 4 = "snan".toList then
    (readPayload? (word.drop 4)).map (.undefined signed.1 true)
  else match readScientific? signed.2 with
    | some ⟨coefficient, exponent⟩ =>
        if inRange coefficient exponent then some (.finite signed.1 coefficient exponent) else none
    | none => none

/-- The decimal of an integer. -/
def ofInt (n : Int) : Decimal :=
  .finite (decide (n < 0)) n.natAbs 0

/-- A minus sign in front of the text of a negative number. -/
def withSign (negative : Bool) (cs : List Char) : List Char :=
  if negative then '-' :: cs else cs

/-- The text of a decimal: its digits as they are, with an exponent where the point would not
fall into or close before the digits. -/
def text : Decimal → String
  | .finite negative coefficient exponent =>
      let digits := Nat.toDigits 10 coefficient
      let leading := exponent + digits.length - 1
      let body :=
        if exponent ≤ 0 ∧ -6 ≤ leading then
          if exponent = 0 then digits
          else if 0 ≤ leading then
            digits.take (leading.toNat + 1) ++ '.' :: digits.drop (leading.toNat + 1)
          else '0' :: '.' :: List.replicate ((-leading).toNat - 1) '0' ++ digits
        else
          digits.take 1
            ++ (if digits.length = 1 then [] else '.' :: digits.drop 1)
            ++ 'E' :: (if leading < 0 then '-' else '+') :: Nat.toDigits 10 leading.natAbs
      String.ofList (withSign negative body)
  | .infinite negative => String.ofList (withSign negative "Infinity".toList)
  | .undefined negative signaling payload =>
      let digits := if payload = 0 then [] else Nat.toDigits 10 payload
      String.ofList (withSign negative
        ((if signaling then "sNaN".toList else "NaN".toList) ++ digits))

/-- The digits of a coefficient with a power of ten, rounded to multiples of `10 ^ -places`. -/
def rescaled (coefficient : Nat) (exponent : Int) (places : Nat) : Nat :=
  let shift := exponent + places
  if 0 ≤ shift then coefficient * Nat.pow 10 shift.toNat
  else if shift < -(digitCount coefficient : Int) - 1 then 0
  else roundHalfEven coefficient (Nat.pow 10 (-shift).toNat)

/-- A natural number of `10 ^ -places` written with a point before the last `places` digits. -/
def fixedPoint (n places : Nat) : List Char :=
  let digits := zeroField (places + 1) n
  let whole := digits.take (digits.length - places)
  if places = 0 then whole else whole ++ '.' :: digits.drop (digits.length - places)

/-- The text of a decimal with a fixed number of places after the point. -/
def fixedText (places : Nat) : Decimal → String
  | .finite negative coefficient exponent =>
      String.ofList (withSign negative (fixedPoint (rescaled coefficient exponent places) places))
  | d => d.text

/-- The integer part of a finite decimal. -/
def trunc? : Decimal → Option Int
  | .finite negative coefficient exponent =>
      let whole : Int :=
        if 0 ≤ exponent then (coefficient * Nat.pow 10 exponent.toNat : Nat)
        else if digitCount coefficient ≤ exponent.natAbs then 0
        else (coefficient / Nat.pow 10 exponent.natAbs : Nat)
      some (if negative then -whole else whole)
  | _ => none

/-- The number of digits of the integer part of a finite decimal. -/
def wholeDigits : Decimal → Int
  | .finite _ coefficient exponent =>
      if coefficient = 0 then 1 else max 1 (exponent + digitCount coefficient)
  | _ => 0

/-- Whether a decimal equals zero. -/
def isZero : Decimal → Bool
  | .finite _ coefficient _ => coefficient == 0
  | _ => false

/-- Whether a decimal is below zero; an undefined one is not. -/
def isNegative : Decimal → Bool
  | .finite negative coefficient _ => negative && coefficient != 0
  | .infinite negative => negative
  | .undefined _ _ _ => false

/-- The double nearest to a decimal that is not a signaling one. -/
def toDouble : Decimal → Double
  | .finite negative coefficient exponent => Scientific.toDouble negative ⟨coefficient, exponent⟩
  | .infinite negative => .infinite negative
  | .undefined _ _ _ => .nan

/-- The number of significant digits that arithmetic keeps. -/
def significantDigits : Nat := 28

/-- A coefficient rounded to the significant digits that arithmetic keeps. -/
def rounded (negative : Bool) (coefficient : Nat) (exponent : Int) : Decimal :=
  let excess := digitCount coefficient - significantDigits
  if excess = 0 then .finite negative coefficient exponent
  else
    let kept := roundHalfEven coefficient (Nat.pow 10 excess)
    if digitCount kept ≤ significantDigits then .finite negative kept (exponent + excess)
    else .finite negative (kept / 10) (exponent + excess + 1)

/-- The absolute value, rounded. -/
def abs : Decimal → Decimal
  | .finite _ coefficient exponent => rounded false coefficient exponent
  | .infinite _ => .infinite false
  | d => d

/-- A finite decimal minus an integer, rounded. -/
def subInt (d : Decimal) (n : Int) : Decimal :=
  match d with
  | .finite negative coefficient exponent =>
      let scale := min exponent 0
      let left : Int := (coefficient * Nat.pow 10 (exponent - scale).toNat : Nat)
      let right : Int := n * (Nat.pow 10 (-scale).toNat : Nat)
      let exact := (if negative then -left else left) - right
      rounded (decide (exact < 0)) exact.natAbs scale
  | d => d

/-- A decimal times a natural number, rounded. -/
def mulNat (k : Nat) : Decimal → Decimal
  | .finite negative coefficient exponent => rounded negative (coefficient * k) exponent
  | d => d

/-- The greatest integer that is not above a finite decimal. -/
def floor? : Decimal → Option Int
  | .finite negative coefficient exponent =>
      if 0 ≤ exponent then
        let whole : Int := (coefficient * Nat.pow 10 exponent.toNat : Nat)
        some (if negative then -whole else whole)
      else if digitCount coefficient ≤ exponent.natAbs then
        some (if negative ∧ coefficient ≠ 0 then -1 else 0)
      else
        let signed : Int := if negative then -(coefficient : Int) else coefficient
        some (signed / (Nat.pow 10 exponent.natAbs : Nat))
  | _ => none

/-- A decimal without places is written as an integer. -/
theorem fixedPoint_zero (n : Nat) : fixedPoint n 0 = (zeroField 1 n) := by
  simp [fixedPoint]

end Decimal

end SemanticMarkup.Number
