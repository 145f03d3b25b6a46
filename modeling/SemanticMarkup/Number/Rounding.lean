/-!
# Rounding quotients

A quotient of natural numbers is rounded to the nearest integer; one that lies
halfway between two integers goes to the even one. All rounding in the library
(doubles, decimals, seconds) is this rounding.
-/

namespace SemanticMarkup.Number

/-- The integer nearest to `num / den`; a tie goes to the even neighbour. -/
def roundHalfEven (num den : Nat) : Nat :=
  let quotient := num / den
  let rest := num % den
  if 2 * rest < den then quotient
  else if den < 2 * rest then quotient + 1
  else if quotient % 2 = 0 then quotient
  else quotient + 1

/-- The rounded value is at most half a unit away from the quotient. -/
theorem roundHalfEven_near (num den : Nat) (h : 0 < den) :
    2 * den * roundHalfEven num den ≤ 2 * num + den ∧
      2 * num ≤ 2 * den * roundHalfEven num den + den := by
  have hd : den * (num / den) + num % den = num := Nat.div_add_mod num den
  have hr : num % den < den := Nat.mod_lt num h
  have hs : den * (num / den + 1) = den * (num / den) + den := by rw [Nat.mul_add, Nat.mul_one]
  simp only [roundHalfEven]
  generalize num / den = q at *
  generalize num % den = r at *
  have e : 2 * den * q = 2 * (den * q) := Nat.mul_assoc 2 den q
  have e' : 2 * den * (q + 1) = 2 * (den * (q + 1)) := Nat.mul_assoc 2 den (q + 1)
  split
  · omega
  · split
    · omega
    · split <;> omega

/-- A quotient halfway between two integers is rounded to an even one. -/
theorem roundHalfEven_tie (num den : Nat) (h : 2 * (num % den) = den) :
    roundHalfEven num den % 2 = 0 := by
  simp only [roundHalfEven]
  split
  · omega
  · split
    · omega
    · split <;> omega

/-- An exact quotient is kept. -/
theorem roundHalfEven_mul (k den : Nat) (h : 0 < den) : roundHalfEven (k * den) den = k := by
  simp [roundHalfEven, Nat.mul_div_cancel k h, h]

/-- The number of binary digits of a natural number. -/
def bitLength (n : Nat) : Nat :=
  if n = 0 then 0 else n.log2 + 1

/-- The number of decimal digits of a natural number; zero has one. -/
def digitCount (n : Nat) : Nat :=
  (Nat.toDigits 10 n).length

end SemanticMarkup.Number
