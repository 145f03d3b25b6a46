import Mathlib.Algebra.Order.Round
import SemanticMarkup.Proofs.Number.Spelling

/-!
# Decimals with fixed places

A finite decimal is written with a number of places as the nearest multiple of the last place, a
tie going to the even one. That text is a numeral with as many digits behind the point; it keeps
the order of the values, and it is written as itself again. Without its fraction a decimal is
rounded toward zero.
-/

namespace SemanticMarkup.Number

open SemanticMarkup.Text

theorem Scientific.value_nonneg (s : Scientific) : 0 ≤ s.value :=
  mul_nonneg (Nat.cast_nonneg _) (zpow_nonneg (by norm_num) _)

/-- An integer of either sign next to a number, which is even if two are. -/
structure IsNearest (x : ℚ) (k : ℤ) : Prop where
  near : |x - k| ≤ 1 / 2
  even : |x - k| = 1 / 2 → k % 2 = 0

namespace IsNearest

variable {x y : ℚ} {k l : ℤ}

/-- Rounding a number without its sign rounds it with the sign. -/
theorem of_roundsTo {n : Nat} (h : RoundsTo x n) (negative : Bool) :
    IsNearest (signed negative x) (signed negative (n : ℤ)) := by
  cases negative with
  | false =>
      refine ⟨h.near, fun htie => ?_⟩
      have heven : n % 2 = 0 := h.even htie
      change (n : ℤ) % 2 = 0
      omega
  | true =>
      have hsame : |-x - ((-(n : ℤ) : ℤ) : ℚ)| = |x - n| := by
        rw [Int.cast_neg, Int.cast_natCast, ← abs_neg]
        congr 1
        ring
      refine ⟨hsame.trans_le h.near, fun htie => ?_⟩
      have heven : n % 2 = 0 := h.even (hsame.symm.trans htie)
      change -(n : ℤ) % 2 = 0
      omega

/-- Rounding keeps the order: two numbers that are rounded the wrong way round lie halfway between
the same two integers, of which only one is even. -/
theorem le (h : IsNearest x k) (h' : IsNearest y l) (hxy : x ≤ y) : k ≤ l := by
  by_contra hlt
  obtain ⟨hlow, -⟩ := abs_le.mp h.near
  obtain ⟨-, hhigh⟩ := abs_le.mp h'.near
  have hstep : (l : ℚ) + 1 ≤ k := by exact_mod_cast Int.lt_of_not_ge hlt
  have hx : x - k = -(1 / 2) := by linarith
  have hy : y - l = 1 / 2 := by linarith
  have hk := h.even (by rw [hx]; norm_num)
  have hl := h'.even (by rw [hy]; norm_num)
  have hnext : (l : ℚ) + 1 = k := by linarith
  have hnext : l + 1 = k := by exact_mod_cast hnext
  omega

end IsNearest

/-- A number without its fraction. -/
def truncated (x : ℚ) : ℤ :=
  if 0 ≤ x then ⌊x⌋ else ⌈x⌉

/-- Without its fraction a number has the same sign. -/
theorem truncated_signed (negative : Bool) {x : ℚ} (hx : 0 ≤ x) :
    truncated (signed negative x) = signed negative ⌊x⌋ := by
  cases negative with
  | false => exact if_pos hx
  | true =>
      change truncated (-x) = -⌊x⌋
      rw [truncated]
      split
      · rename_i hnonneg
        have hzero : x = 0 := le_antisymm (neg_nonneg.mp hnonneg) hx
        rw [hzero, neg_zero, Int.floor_zero, neg_zero]
      · rw [Int.ceil_neg]

namespace Decimal

theorem lt_ten_pow_digitCount (n : Nat) : n < 10 ^ digitCount n :=
  (Nat.length_toDigits_le_iff (by decide) Nat.length_toDigits_pos).mp (Nat.le_refl _)

theorem digitCount_le_of_lt {n k : Nat} (hk : 0 < k) (h : n < 10 ^ k) : digitCount n ≤ k :=
  (Nat.length_toDigits_le_iff (by decide) hk).mpr h

/-- A power of ten shifts the digits. -/
theorem value_mul_ten_pow (coefficient : Nat) (exponent : Int) (places : Nat) :
    (⟨coefficient, exponent⟩ : Scientific).value * 10 ^ places =
      (⟨coefficient, exponent + places⟩ : Scientific).value := by
  rw [Scientific.value, Scientific.value, mul_assoc, zpow_add₀ (by norm_num), zpow_natCast]

theorem value_of_nonneg (coefficient : Nat) {exponent : Int} (h : 0 ≤ exponent) :
    (⟨coefficient, exponent⟩ : Scientific).value =
      (coefficient * 10 ^ exponent.toNat : Nat) := by
  rw [Scientific.value, Nat.cast_mul, Nat.cast_pow, Nat.cast_ofNat, ← zpow_natCast,
    Int.toNat_of_nonneg h]

theorem value_of_neg (coefficient : Nat) {exponent : Int} (h : exponent < 0) :
    (⟨coefficient, exponent⟩ : Scientific).value =
      (coefficient : ℚ) / (10 ^ exponent.natAbs : Nat) := by
  have hneg : exponent = -(exponent.natAbs : Int) := by omega
  rw [Scientific.value, Nat.cast_pow, Nat.cast_ofNat, div_eq_mul_inv, ← zpow_natCast, ← zpow_neg,
    ← hneg]

theorem roundsTo_natCast (n : Nat) : RoundsTo (n : ℚ) n where
  near := by
    rw [sub_self, abs_zero]
    norm_num
  even := by
    rw [sub_self, abs_zero]
    norm_num

theorem roundsTo_zero {x : ℚ} (hnonneg : 0 ≤ x) (hsmall : x < 1 / 2) : RoundsTo x 0 where
  near := by
    rw [Nat.cast_zero, sub_zero, abs_of_nonneg hnonneg]
    exact hsmall.le
  even := by
    rw [Nat.cast_zero, sub_zero, abs_of_nonneg hnonneg]
    exact fun htie => absurd htie hsmall.ne

/-- Digits that all lie two places and more behind the last one are less than half of it. -/
theorem value_lt_half {coefficient : Nat} {shift : Int}
    (h : shift < -(digitCount coefficient : Int) - 1) :
    (⟨coefficient, shift⟩ : Scientific).value < 1 / 2 := by
  have hdigits : coefficient < 10 ^ digitCount coefficient := lt_ten_pow_digitCount coefficient
  have hpower : 10 ^ (digitCount coefficient + 1) ≤ 10 ^ shift.natAbs :=
    Nat.pow_le_pow_right (by decide) (by omega)
  have hhalf : coefficient * 2 < 1 * 10 ^ shift.natAbs := by
    rw [Nat.pow_succ] at hpower
    omega
  have hpos : (0 : ℚ) < (10 ^ shift.natAbs : Nat) := by exact_mod_cast Nat.pow_pos (by decide)
  rw [value_of_neg coefficient (by omega), div_lt_div_iff₀ hpos (by norm_num)]
  exact_mod_cast hhalf

/-- The digits are rounded to the places. -/
theorem roundsTo_rescaled (coefficient : Nat) (exponent : Int) (places : Nat) :
    RoundsTo ((⟨coefficient, exponent⟩ : Scientific).value * 10 ^ places)
      (rescaled coefficient exponent places) := by
  rw [value_mul_ten_pow, rescaled]
  generalize exponent + (places : Int) = shift
  split
  · rename_i hshift
    rw [value_of_nonneg coefficient hshift, Nat.pow_eq]
    exact roundsTo_natCast _
  · rename_i hshift
    split
    · rename_i hsmall
      exact roundsTo_zero (Scientific.value_nonneg _) (value_lt_half hsmall)
    · have hneg : shift < 0 := Int.not_le.mp hshift
      have hsame : (-shift).toNat = shift.natAbs := by omega
      rw [value_of_neg coefficient hneg, hsame, Nat.pow_eq]
      exact roundsTo_roundHalfEven coefficient (Nat.pow_pos (by decide))

/-- Digits that end at the last place are kept. -/
theorem rescaled_neg (n places : Nat) : rescaled n (-places) places = n := by
  have hshift : -(places : Int) + places = 0 := by omega
  rw [rescaled, hshift, if_pos (le_refl 0)]
  exact Nat.mul_one n

/-- The digits in front of the point. -/
theorem floor_value (coefficient : Nat) (exponent : Int) :
    ⌊(⟨coefficient, exponent⟩ : Scientific).value⌋ =
      if 0 ≤ exponent then ((coefficient * Nat.pow 10 exponent.toNat : Nat) : Int)
      else if digitCount coefficient ≤ exponent.natAbs then 0
      else ((coefficient / Nat.pow 10 exponent.natAbs : Nat) : Int) := by
  split
  · rename_i hexponent
    rw [value_of_nonneg coefficient hexponent, Int.floor_natCast, Nat.pow_eq]
  · rename_i hexponent
    have hneg : exponent < 0 := Int.not_le.mp hexponent
    rw [value_of_neg coefficient hneg, Rat.floor_natCast_div_natCast, ← Int.natCast_ediv]
    split
    · rename_i hsmall
      have hlt : coefficient < 10 ^ exponent.natAbs :=
        (lt_ten_pow_digitCount coefficient).trans_le (Nat.pow_le_pow_right (by decide) hsmall)
      rw [Nat.div_eq_of_lt hlt]
      rfl
    · rw [Nat.pow_eq]

theorem trunc?_eq (negative : Bool) (coefficient : Nat) (exponent : Int) :
    (finite negative coefficient exponent).trunc? =
      some (truncated (signed negative (⟨coefficient, exponent⟩ : Scientific).value)) := by
  rw [truncated_signed negative (Scientific.value_nonneg _), floor_value]
  rfl

end Decimal

namespace Numeral

/-- A numeral with a number of places: perhaps a minus sign, digits without zeros in front of them,
and a point with as many digits behind it, or no point if there are none. -/
structure IsFixed (p : Numeral) (places : Nat) : Prop where
  formed : p.Formed
  sign : p.sign ≠ .plus
  whole : p.whole ≠ []
  unpadded : p.whole = ['0'] ∨ p.whole.head? ≠ some '0'
  fraction : p.places.length = places
  point : p.fraction = none ↔ places = 0
  power : p.power = none

/-- The numeral of a number of units of the last of some places. -/
def ofUnits (negative : Bool) (units places : Nat) : Numeral :=
  let digits := zeroField (places + 1) units
  { sign := Sign.ofNegative negative
    whole := digits.take (digits.length - places)
    fraction := if places = 0 then none else some (digits.drop (digits.length - places))
    power := none }

variable (negative : Bool) (units places : Nat)

theorem head?_toDigits_ne_zero {n : Nat} (h : 0 < n) : (Nat.toDigits 10 n).head? ≠ some '0' := by
  induction n using Nat.strongRecOn with
  | ind n ih =>
      by_cases hsmall : n < 10
      · have hdigit : ∀ d < 10, 0 < d → [d.digitChar].head? ≠ some '0' := by decide
        rw [Nat.toDigits_of_lt_base hsmall]
        exact hdigit n hsmall h
      · have hlarge : 10 ≤ n := Nat.not_lt.mp hsmall
        rw [Nat.toDigits_of_base_le (by decide) hlarge,
          List.head?_append_of_ne_nil _ Nat.toDigits_ne_nil]
        exact ih (n / 10) (by omega) (by omega)

theorem places_ofUnits : (ofUnits negative units places).places.length = places := by
  have hlength := le_length_zeroField (places + 1) units
  rw [ofUnits, Numeral.places]
  dsimp only
  generalize zeroField (places + 1) units = digits at *
  split
  · rename_i hzero
    exact hzero.symm
  · rw [Option.getD_some, List.length_drop]
    omega

theorem whole_append_places : (ofUnits negative units places).whole ++
    (ofUnits negative units places).places = zeroField (places + 1) units := by
  rw [ofUnits, Numeral.places]
  dsimp only
  split
  · rename_i hzero
    rw [hzero, Nat.sub_zero, List.take_length]
    exact List.append_nil _
  · exact List.take_append_drop _ _

theorem scientific_ofUnits :
    (ofUnits negative units places).scientific = ⟨units, -places⟩ := by
  rw [scientific, whole_append_places, digitsToNat_zeroField, places_ofUnits, ofUnits, powerValue,
    zero_sub]

theorem decimal_ofUnits :
    (ofUnits negative units places).decimal = .finite negative units (-places) := by
  rw [decimal, scientific_ofUnits, ofUnits, Sign.negative_ofNegative]

theorem value_ofUnits : (ofUnits negative units places).value =
    (signed negative (units : ℤ) : ℤ) / 10 ^ places := by
  rw [value, scientific_ofUnits, Directive.value_places, ofUnits, Sign.negative_ofNegative]
  cases negative with
  | false => rfl
  | true =>
      change -((units : ℚ) / 10 ^ places) = ((-(units : ℤ) : ℤ) : ℚ) / 10 ^ places
      rw [Int.cast_neg, Int.cast_natCast, neg_div]

/-- Zeros are only filled in as far as the digit in front of the point. -/
theorem unpadded_ofUnits : (ofUnits negative units places).whole = ['0'] ∨
    (ofUnits negative units places).whole.head? ≠ some '0' := by
  rw [ofUnits, zeroField]
  dsimp only
  by_cases hlong : places + 1 < (Nat.toDigits 10 units).length
  · have hpos : 0 < units := by
      rw [Nat.pos_iff_ne_zero]
      rintro rfl
      rw [Nat.toDigits_zero, List.length_singleton] at hlong
      omega
    have hzeros : places + 1 - (Nat.toDigits 10 units).length = 0 := by omega
    rw [hzeros, List.replicate_zero, List.nil_append, List.head?_take, if_neg (by omega)]
    exact .inr (head?_toDigits_ne_zero hpos)
  · generalize hdigits : List.replicate (places + 1 - (Nat.toDigits 10 units).length) '0' ++
      Nat.toDigits 10 units = digits
    have hlength : digits.length = places + 1 := by
      rw [← hdigits, List.length_append, List.length_replicate]
      omega
    obtain ⟨c, rest, rfl⟩ := List.exists_cons_of_length_pos (by omega : 0 < digits.length)
    have hone : (c :: rest).length - places = 1 := by omega
    rw [hone, List.take_one, List.head?_cons]
    by_cases hc : c = '0'
    · exact .inl (by rw [hc]; rfl)
    · exact .inr (by simpa using hc)

theorem isFixed_ofUnits : (ofUnits negative units places).IsFixed places := by
  have hlength := le_length_zeroField (places + 1) units
  have hdigits := Directive.isDigit_zeroField (places + 1) units
  have hjoined := whole_append_places negative units places
  have hwhole : (ofUnits negative units places).whole ≠ [] := by
    rw [ofUnits, Ne, List.take_eq_nil_iff, not_or]
    constructor
    · omega
    · exact Directive.zeroField_ne_nil _ _
  refine {
    formed := ?_, sign := ?_, whole := hwhole, unpadded := unpadded_ofUnits negative units places
    fraction := places_ofUnits negative units places, point := ?_, power := rfl }
  · refine ⟨List.append_ne_nil_of_left_ne_nil hwhole _, ?_, ?_, nofun⟩
    · exact fun c hc => hdigits c (hjoined ▸ List.mem_append_left _ hc)
    · exact fun c hc => hdigits c (hjoined ▸ List.mem_append_right _ hc)
  · cases negative <;> exact nofun
  · rw [ofUnits]
    dsimp only
    split
    · rename_i hzero
      exact ⟨fun _ => hzero, fun _ => rfl⟩
    · rename_i hplaces
      exact ⟨nofun, fun hzero => absurd hzero hplaces⟩

theorem text_ofUnits :
    (ofUnits negative units places).text =
      Decimal.withSign negative (Decimal.fixedPoint units places) := by
  rw [text, body, ofUnits, Sign.text_ofNegative, Decimal.fixedPoint, fractionText, powerText]
  by_cases hzero : places = 0
  · simp only [if_pos hzero, List.append_nil]
  · simp only [if_neg hzero, List.append_nil]

end Numeral

namespace Decimal

variable (negative : Bool) (coefficient : Nat) (exponent : Int) (places : Nat)

theorem isNearest_units :
    IsNearest (signed negative (⟨coefficient, exponent⟩ : Scientific).value * 10 ^ places)
      (signed negative (rescaled coefficient exponent places : ℤ)) := by
  have hround := roundsTo_rescaled coefficient exponent places
  have hsigned : signed negative (⟨coefficient, exponent⟩ : Scientific).value * 10 ^ places =
      signed negative ((⟨coefficient, exponent⟩ : Scientific).value * 10 ^ places) := by
    cases negative with
    | false => rfl
    | true => exact neg_mul _ _
  rw [hsigned]
  exact .of_roundsTo hround negative

/-- Written again with the same places, the units of the last place stay as they are. -/
theorem fixedText_units (units : Nat) :
    (finite negative units (-places)).fixedText places =
      String.ofList (withSign negative (fixedPoint units places)) := by
  rw [fixedText, rescaled_neg]

end Decimal

end SemanticMarkup.Number
