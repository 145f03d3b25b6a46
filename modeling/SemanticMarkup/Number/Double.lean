import SemanticMarkup.Number.Rounding

/-!
# Double-precision numbers

A finite double is a whole number of units of `2 ^ -1074`, the smallest positive
double, together with a sign (zero has two). Every operation is carried out
exactly on the units and then rounded to the nearest double, which is what the
standard for binary floating point prescribes.

## Implementation notes

A natural number of units is a double when it has at most 53 significant binary
digits and stays below `2 ^ 2098`. `nearestUnits` restores the first condition,
`Double.ofRatio` the second.
-/

namespace SemanticMarkup.Number

/-- A double: a signed number of units of `2 ^ -1074`, an infinity or not a number. -/
inductive Double where
  /-- A finite number of units with a sign. -/
  | finite (negative : Bool) (units : Nat)
  /-- One of the two infinities. -/
  | infinite (negative : Bool)
  /-- The result of an undefined operation. -/
  | nan
  deriving DecidableEq, Repr

namespace Double

/-- The number of units in one. -/
def one : Nat := Nat.pow 2 1074

/-- The first number of units beyond the largest double. -/
def limit : Nat := Nat.pow 2 2098

/-- The distance, in units, between the doubles of the size of `units`. -/
def spacing (units : Nat) : Nat :=
  Nat.pow 2 (bitLength units - 53)

/-- The representable number of units nearest to `num / den`; a tie goes to the even one. -/
def nearestUnits (num den : Nat) : Nat :=
  let step := spacing (num / den)
  roundHalfEven num (den * step) * step

/-- The double nearest to a number of units given as a quotient. -/
def ofUnitRatio (negative : Bool) (num den : Nat) : Double :=
  let units := nearestUnits num den
  if units < limit then .finite negative units else .infinite negative

/-- The double nearest to `num / den`. -/
def ofRatio (negative : Bool) (num den : Nat) : Double :=
  ofUnitRatio negative (num * one) den

/-- The double nearest to an integer. -/
def ofInt (n : Int) : Double :=
  ofRatio (decide (n < 0)) n.natAbs 1

/-- Zero. -/
def zero : Double := .finite false 0

/-- The signed number of units. -/
def signedUnits (negative : Bool) (units : Nat) : Int :=
  if negative then -(units : Int) else units

/-- Whether the number is neither infinite nor undefined. -/
def isFinite : Double → Bool
  | .finite _ _ => true
  | _ => false

/-- The absolute value. -/
def abs : Double → Double
  | .finite _ units => .finite false units
  | .infinite _ => .infinite false
  | .nan => .nan

/-- Whether the number is below zero; the negative zero is not. -/
def isNegative : Double → Bool
  | .finite negative units => negative && units != 0
  | .infinite negative => negative
  | .nan => false

/-- Whether the number equals zero, of either sign. -/
def isZero : Double → Bool
  | .finite _ units => units == 0
  | _ => false

/-- The difference of two numbers. -/
def sub : Double → Double → Double
  | .finite n₁ u₁, .finite n₂ u₂ =>
      let exact := signedUnits n₁ u₁ - signedUnits n₂ u₂
      if exact = 0 then .finite (n₁ && !n₂ && u₁ == 0) 0
      else ofUnitRatio (decide (exact < 0)) exact.natAbs 1
  | .nan, _ => .nan
  | _, .nan => .nan
  | .infinite n₁, .infinite n₂ => if n₁ = n₂ then .nan else .infinite n₁
  | .infinite n₁, .finite _ _ => .infinite n₁
  | .finite _ _, .infinite n₂ => .infinite !n₂

/-- The opposite number. -/
def neg : Double → Double
  | .finite negative units => .finite (!negative) units
  | .infinite negative => .infinite (!negative)
  | .nan => .nan

/-- The sum of two numbers. -/
def add (x y : Double) : Double :=
  x.sub y.neg

/-- The product of a number with a natural number. -/
def mulNat (k : Nat) : Double → Double
  | .finite negative units => ofUnitRatio negative (units * k) 1
  | x => x

/-- The greatest integer that is not above the number, if the number is finite. -/
def floor? : Double → Option Int
  | .finite negative units => some (signedUnits negative units / (one : Int))
  | _ => none

/-- The number without its fraction, if it is finite. -/
def trunc? : Double → Option Int
  | .finite negative units => some (signedUnits negative (units / one))
  | _ => none

/-- Whether a finite number is an integer. -/
def isIntegral : Double → Bool
  | .finite _ units => units % one == 0
  | _ => false

/-- Equality of values: both zeros are equal, an undefined number equals nothing. -/
def sameValue : Double → Double → Bool
  | .finite n₁ u₁, .finite n₂ u₂ => signedUnits n₁ u₁ == signedUnits n₂ u₂
  | .infinite n₁, .infinite n₂ => n₁ == n₂
  | _, _ => false

/-- Whether the first number is below the second. -/
def lt : Double → Double → Bool
  | .finite n₁ u₁, .finite n₂ u₂ => signedUnits n₁ u₁ < signedUnits n₂ u₂
  | .infinite true, .finite _ _ => true
  | .finite _ _, .infinite false => true
  | .infinite true, .infinite false => true
  | _, _ => false

/-- The absolute value does not depend on the sign. -/
theorem abs_finite (negative : Bool) (units : Nat) :
    (finite negative units).abs = finite false units := rfl

/-- The floor of a non-negative number is its whole part. -/
theorem floor?_finite_false (units : Nat) :
    (finite false units).floor? = some (units / one : Nat) :=
  congrArg some (Int.natCast_ediv units one).symm

end Double

end SemanticMarkup.Number
