import SemanticMarkup.Proofs.Number.Exact
import SemanticMarkup.Format.Coordinates

/-!
# Degrees, minutes and seconds

The minutes and the seconds of a number of degrees are computed by two multiplications of
its fraction, each of them rounded on its own.
-/

namespace SemanticMarkup.Number.Double

variable {a b k e m q s : Nat}

/-- The distance between doubles at a number with a known first digit. -/
theorem spacing_mul_two_pow (hlow : 2 ^ k ≤ a) (hhigh : a < 2 ^ (k + 1)) (hk : 52 ≤ k) :
    spacing (a * 2 ^ e) = 2 ^ (k - 52) * 2 ^ e := by
  have hupper : bitLength (a * 2 ^ e) ≤ k + 1 + e := by
    rw [bitLength_le_iff, pow_add]
    exact Nat.mul_lt_mul_of_pos_right hhigh (Nat.two_pow_pos e)
  have hlower : ¬ bitLength (a * 2 ^ e) ≤ k + e := by
    rw [bitLength_le_iff, pow_add, Nat.not_lt]
    exact Nat.mul_le_mul_right _ hlow
  have hlength : bitLength (a * 2 ^ e) = k + 1 + e := by omega
  rw [spacing_eq, hlength, ← pow_add]
  congr 1
  omega

/-- A number with a known first digit is rounded up to a rounder one from half the distance
below. -/
theorem le_nearestUnits_mul_two_pow_iff (hlow : 2 ^ k ≤ a) (hhigh : a < 2 ^ (k + 1))
    (hk : 53 ≤ k) (hb : 2 ^ (k - 51) ∣ b) :
    b * 2 ^ e ≤ nearestUnits (a * 2 ^ e) 1 ↔ b ≤ a + 2 ^ (k - 53) := by
  have hspacing : spacing (a * 2 ^ e) = 2 * 2 ^ (k - 53) * 2 ^ e := by
    rw [spacing_mul_two_pow hlow hhigh (by omega), ← pow_succ']
    congr 2
    omega
  have hdvd : 2 * spacing (a * 2 ^ e) ∣ b * 2 ^ e := by
    rw [spacing_mul_two_pow hlow hhigh (by omega), ← Nat.mul_assoc, ← pow_succ']
    have hpower : k - 52 + 1 = k - 51 := by omega
    rw [hpower]
    exact Nat.mul_dvd_mul_right hb _
  have hsum : 2 * (a * 2 ^ e) + 2 * 2 ^ (k - 53) * 2 ^ e = 2 * ((a + 2 ^ (k - 53)) * 2 ^ e) := by
    rw [Nat.add_mul, Nat.mul_add, Nat.mul_assoc 2 (2 ^ (k - 53))]
  rw [le_nearestUnits_iff hdvd, hspacing, hsum, Nat.mul_le_mul_left_iff (by decide),
    Nat.mul_le_mul_right_iff (Nat.two_pow_pos e)]

theorem le_minutes_units_iff (hlow : 2 ^ 52 ≤ q) (hhigh : q < 2 ^ 53) (hb : 2 ^ 7 ∣ b) :
    b * 2 ^ e ≤ nearestUnits (60 * q * 2 ^ e) 1 ↔
      b ≤ 60 * q + (if 60 * q < 2 ^ 58 then 16 else 32) := by
  split_ifs with hfirst
  · exact le_nearestUnits_mul_two_pow_iff (k := 57) (by omega) hfirst (by decide)
      ((pow_dvd_pow 2 (by decide)).trans hb)
  · exact le_nearestUnits_mul_two_pow_iff (k := 58) (by omega) (by omega) (by decide) hb

theorem le_seconds_units_iff (hlow : 2 ^ 52 ≤ q) (hhigh : q < 2 ^ 53) (hb : 2 ^ 13 ∣ b) :
    b * 2 ^ e ≤ nearestUnits (3600 * q * 2 ^ e) 1 ↔
      b ≤ 3600 * q + (if 3600 * q < 2 ^ 64 then 1024 else 2048) := by
  split_ifs with hfirst
  · exact le_nearestUnits_mul_two_pow_iff (k := 63) (by omega) hfirst (by decide)
      ((pow_dvd_pow 2 (by decide)).trans hb)
  · exact le_nearestUnits_mul_two_pow_iff (k := 64) (by omega) (by omega) (by decide) hb

/-- Sixty times a fraction is rounded up to whole minutes exactly when 3600 times the fraction is
rounded up to as many seconds. Half of the distance between doubles is not the same part of both
products, but no product lies in between. -/
theorem rounds_up_iff (hlow : 2 ^ 52 ≤ q) (hhigh : q < 2 ^ 53) (hs : 53 ≤ s) (hm : 1 ≤ m)
    (hm60 : m ≤ 60) :
    m * 2 ^ s ≤ 60 * q + (if 60 * q < 2 ^ 58 then 16 else 32) ↔
      60 * (m * 2 ^ s) ≤ 3600 * q + (if 3600 * q < 2 ^ 64 then 1024 else 2048) := by
  by_cases hfar : 60 ≤ s
  · have hlarge : 2 ^ 60 ≤ m * 2 ^ s :=
      (Nat.pow_le_pow_right (by decide) hfar).trans (Nat.le_mul_of_pos_left _ hm)
    split_ifs <;> omega
  · -- the first digits of the products are at different places only just above these minutes
    have hgap (hfirst : 2 ^ 58 ≤ 60 * q) (hsecond : 3600 * q < 2 ^ 64)
        (habove : 60 * q < m * 2 ^ s) (hnear : m * 2 ^ s ≤ 60 * q + 32) :
        s = 53 ∧ (m = 33 ∨ m = 34) ∨ s = 54 ∧ m = 17 := by
      interval_cases s <;> omega
    have hagree (hfirst : 2 ^ 58 ≤ 60 * q) (hsecond : 3600 * q < 2 ^ 64)
        (hnear : m * 2 ^ s ≤ 60 * q + 32) : m * 2 ^ s ≤ 60 * q + 16 := by
      by_cases habove : 60 * q < m * 2 ^ s
      · rcases hgap hfirst hsecond habove hnear with ⟨rfl, rfl | rfl⟩ | ⟨rfl, rfl⟩ <;> omega
      · omega
    interval_cases s <;> split_ifs <;> omega

theorem mul_one_units (h : e + s = onePower) (n : Nat) : n * one = n * 2 ^ s * 2 ^ e := by
  rw [one_eq, ← h, Nat.add_comm, pow_add, Nat.mul_assoc]

theorem units_mul (q e n : Nat) : q * 2 ^ e * n = n * q * 2 ^ e := by
  rw [Nat.mul_right_comm, Nat.mul_comm q]

theorem two_pow_le_one : 2 ^ 66 ≤ one := by
  rw [one_eq]
  exact Nat.pow_le_pow_right (by decide) (by decide)

/-- The fraction of a number of degrees: less than one degree, with at most 53 binary digits. -/
structure IsFraction (f : Nat) : Prop where
  lt_one : f < one
  dvd : spacing f ∣ f

namespace IsFraction

variable {f : Nat}

/-- A fraction has few units, or it is a multiple of a power of two with a factor of 53 digits. -/
theorem cases (hf : IsFraction f) :
    f < 2 ^ 53 ∨ ∃ q e s, 2 ^ 52 ≤ q ∧ q < 2 ^ s ∧ q < 2 ^ 53 ∧ 53 ≤ s ∧ e + s = onePower ∧
      f = q * 2 ^ e := by
  by_cases hfew : f < 2 ^ 53
  · exact .inl hfew
  obtain ⟨q, hq⟩ := hf.dvd
  have hlength : 53 < bitLength f := by
    rw [← Nat.not_le, bitLength_le_iff]
    exact hfew
  have hone : bitLength f ≤ onePower := by
    rw [bitLength_le_iff, ← one_eq]
    exact hf.lt_one
  obtain ⟨e, he⟩ : ∃ e, bitLength f = e + 53 := ⟨bitLength f - 53, by omega⟩
  have hspacing : spacing f = 2 ^ e := by rw [spacing_eq, he, Nat.add_sub_cancel]
  have hupper : q * 2 ^ e < 2 ^ 53 * 2 ^ e := by
    rw [← pow_add, Nat.add_comm 53, ← he, Nat.mul_comm q, ← hspacing, ← hq]
    exact lt_two_pow_bitLength f
  have hlower : 2 ^ 52 * 2 ^ e ≤ q * 2 ^ e := by
    rw [← pow_add, Nat.mul_comm q, ← hspacing, ← hq]
    refine le_trans (Nat.pow_le_pow_right (by decide) ?_) (two_pow_le_of_pos (by omega))
    omega
  have hpositive := Nat.two_pow_pos e
  refine .inr ⟨q, e, onePower - e, Nat.le_of_mul_le_mul_right hlower hpositive, ?_,
    Nat.lt_of_mul_lt_mul_right hupper, ?_, by omega, by rw [Nat.mul_comm, ← hspacing, ← hq]⟩
  · have hlt := hf.lt_one
    have hpower : onePower = onePower - e + e := by omega
    rw [one_eq, hq, hspacing, Nat.mul_comm, hpower, pow_add] at hlt
    exact Nat.lt_of_mul_lt_mul_right hlt
  · rw [he] at hone
    omega

/-- Whole minutes are reached by the rounded minutes and by the rounded seconds of a fraction at
once. -/
theorem le_minutes_iff (hf : IsFraction f) (hm : 1 ≤ m) (hm60 : m ≤ 60) :
    m * one ≤ nearestUnits (f * 60) 1 ↔ m * 60 * one ≤ nearestUnits (f * 3600) 1 := by
  rcases hf.cases with hfew | ⟨q, e, s, hlow, -, hhigh, hs, hes, rfl⟩
  · have hone := two_pow_le_one
    have hminutes := nearestUnits_le (f * 60)
    have hseconds := nearestUnits_le (f * 3600)
    have hm' : one ≤ m * one := Nat.le_mul_of_pos_left _ hm
    rw [Nat.mul_right_comm]
    omega
  · have hpower : 2 ^ 13 ∣ m * 2 ^ s := (pow_dvd_pow 2 (by omega)).mul_left m
    rw [units_mul q, units_mul q, mul_one_units hes, mul_one_units hes, Nat.mul_comm m 60,
      Nat.mul_assoc 60 m,
      le_minutes_units_iff hlow hhigh ((pow_dvd_pow 2 (by decide)).trans hpower),
      le_seconds_units_iff hlow hhigh (hpower.mul_left 60)]
    exact rounds_up_iff hlow hhigh hs hm hm60

/-- There are less than sixty minutes, also when they are rounded. -/
theorem minutes_lt (hf : IsFraction f) : nearestUnits (f * 60) 1 < 60 * one := by
  rcases hf.cases with hfew | ⟨q, e, s, hlow, hlt, hhigh, hs, hes, rfl⟩
  · have hone := two_pow_le_one
    have hminutes := nearestUnits_le (f * 60)
    omega
  · have hpower : 2 ^ 7 ∣ 60 * 2 ^ s := (pow_dvd_pow 2 (by omega)).mul_left 60
    rw [← Nat.not_le, mul_one_units hes, units_mul q, le_minutes_units_iff hlow hhigh hpower]
    split_ifs <;> omega

end IsFraction

/-- The units of the minutes of a number of degrees. -/
def minuteUnits (units : Nat) : Nat :=
  nearestUnits (units % one * 60) 1

/-- The whole minutes of a number of degrees. -/
def wholeMinutes (units : Nat) : Nat :=
  minuteUnits units / one

/-- The units of the seconds that all minutes of a number of degrees have. -/
def allSecondUnits (units : Nat) : Nat :=
  nearestUnits (units % one * 3600) 1

/-- The units of the seconds of a number of degrees. -/
def secondUnits (units : Nat) : Nat :=
  allSecondUnits units - wholeMinutes units * 60 * one

variable {units : Nat}

/-- A number of degrees has at most three binary digits more than it has in its fraction. -/
theorem isFraction_mod_one (hdvd : spacing units ∣ units) (hrange : units ≤ 180 * one) :
    IsFraction (units % one) := by
  refine ⟨Nat.mod_lt _ one_pos, ?_⟩
  have hlength : bitLength units ≤ 8 + onePower := by
    rw [bitLength_le_iff, pow_add, ← one_eq]
    have := one_pos
    omega
  have hone : spacing units ∣ one := by
    rw [one_eq]
    exact pow_dvd_pow 2 (by omega)
  have hmod : spacing units ∣ units % one := (Nat.dvd_mod_iff hone).mpr hdvd
  have hshorter : bitLength (units % one) ≤ bitLength units := by
    rw [bitLength_le_iff]
    exact (Nat.mod_le _ _).trans_lt (lt_two_pow_bitLength units)
  exact (pow_dvd_pow 2 (by omega)).trans hmod

variable (hf : IsFraction (units % one))
include hf

theorem minuteUnits_lt : minuteUnits units < 60 * one :=
  hf.minutes_lt

theorem wholeMinutes_lt : wholeMinutes units < 60 :=
  (Nat.div_lt_iff_lt_mul one_pos).mpr (minuteUnits_lt hf)

/-- The whole minutes are not more than the rounded seconds. -/
theorem wholeMinutes_le : wholeMinutes units * 60 * one ≤ allSecondUnits units := by
  have hlt := wholeMinutes_lt hf
  have hle : wholeMinutes units * one ≤ minuteUnits units := Nat.div_mul_le_self _ _
  obtain hzero | hpositive := Nat.eq_zero_or_pos (wholeMinutes units)
  · rw [hzero]
    omega
  · exact (hf.le_minutes_iff hpositive (by omega)).mp hle

/-- The rounded seconds are less than those of one more minute. -/
theorem allSecondUnits_lt : allSecondUnits units < (wholeMinutes units + 1) * 60 * one := by
  have hlt := wholeMinutes_lt hf
  have hbelow : minuteUnits units < (wholeMinutes units + 1) * one :=
    Nat.lt_mul_of_div_lt (Nat.lt_succ_self _) one_pos
  rw [← Nat.not_le] at hbelow ⊢
  exact fun h => hbelow ((hf.le_minutes_iff (by omega) (by omega)).mpr h)

theorem secondUnits_lt : secondUnits units < 60 * one := by
  have hlt := allSecondUnits_lt hf
  have hone := one_pos
  rw [Nat.add_mul, Nat.add_mul, Nat.one_mul] at hlt
  rw [secondUnits]
  omega

omit hf

/-- No digit of the seconds is lost when the whole minutes are taken away. -/
theorem spacing_dvd_secondUnits (units : Nat) :
    spacing (secondUnits units) ∣ secondUnits units := by
  obtain ⟨k, hk, hall⟩ := exists_nearestUnits_eq (units % one * 3600) Nat.one_pos
  have hlength : bitLength (units % one * 3600) ≤ onePower + 12 := by
    have hlt := Nat.mod_lt units one_pos
    rw [bitLength_le_iff, pow_add, ← one_eq]
    omega
  obtain ⟨e, he, hspacing⟩ : ∃ e ≤ onePower, spacing (units % one * 3600) = 2 ^ e :=
    ⟨_, by omega, spacing_eq _⟩
  have hone (n : Nat) : n * one = n * 2 ^ (onePower - e) * 2 ^ e := mul_one_units (by omega) n
  rw [secondUnits, allSecondUnits, hall, Nat.div_one, hspacing, hone, ← Nat.sub_mul]
  exact spacing_dvd_mul_two_pow (by omega) e

theorem lt_limit {n : Nat} (h : n ≤ 2 ^ 14 * one) : n < limit := by
  refine h.trans_lt ?_
  rw [one_eq, limit_eq, ← pow_add]
  exact Nat.pow_lt_pow_right (by decide) (by decide)

/-- What is rounded from at most twice the greatest product is a double. -/
theorem nearestUnits_lt_limit {n : Nat} (h : n ≤ 2 ^ 13 * one) : nearestUnits n 1 < limit :=
  lt_limit ((nearestUnits_le n).trans (by omega))

end SemanticMarkup.Number.Double

namespace SemanticMarkup.Coordinates

open SemanticMarkup.Number SemanticMarkup.Number.Double

/-- The numbers that are shown of a double, once its degrees and minutes have whole parts. -/
theorem components_eq {x fraction : Double} {whole full : Int} (hwhole : x.abs.floor? = some whole)
    (hfraction : x.abs.sub (.ofInt whole) = fraction)
    (hfull : (fraction.mulNat 60).floor? = some full) :
    components (.double x) = .ok [.double x.abs, .double (fraction.mulNat 60),
      .double ((fraction.mulNat 3600).sub (.ofInt (full * 60)))] := by
  subst hfraction
  simp only [components, hwhole, hfull]

/-- There are three numbers that are shown of a number of degrees in range, whatever its sign is. -/
theorem exists_components {units : Nat} (hrange : units ≤ 180 * one) :
    ∃ minutes seconds, ∀ negative, components (.double (.finite negative units)) =
      .ok [.double (.finite false units), .double minutes, .double seconds] := by
  have hwhole : units / one ≤ 180 := Nat.div_le_of_le_mul (by rwa [Nat.mul_comm])
  have hrest : units - units / one * one < one := by
    have hdiv := Nat.div_add_mod' units one
    have hlt := Nat.mod_lt units Double.one_pos
    omega
  have hfraction : (finite false units).sub (.ofInt ((units / one : Nat) : Int)) =
      .finite false (nearestUnits (units - units / one * one) 1) := by
    rw [ofInt_natCast (by omega), sub_of_le (Nat.div_mul_le_self units one)]
    exact ofUnitRatio_of_lt false (nearestUnits_lt_limit (by omega))
  have hbound := nearestUnits_le (units - units / one * one)
  obtain ⟨full, hfull⟩ : ∃ full, ((finite false (nearestUnits (units - units / one * one) 1)).mulNat
      60).floor? = some full :=
    ⟨_, by rw [mulNat_finite (nearestUnits_lt_limit (by omega)), floor?_units]⟩
  have habs (negative : Bool) : (finite negative units).abs.floor? =
      some ((units / one : Nat) : Int) := by
    rw [abs_finite, floor?_units]
  refine ⟨_, _, fun negative => ((components_eq (habs negative) ?_ hfull).trans
    (by rw [abs_finite]))⟩
  rw [abs_finite, hfraction]

/-- The numbers that are shown of a double in range: degrees, minutes and seconds without a sign. -/
theorem components_finite (negative : Bool) {units : Nat} (hdvd : spacing units ∣ units)
    (hrange : units ≤ 180 * one) :
    components (.double (.finite negative units)) =
      .ok [.double (.finite false units), .double (.finite false (minuteUnits units)),
        .double (.finite false (secondUnits units))] := by
  have hf := isFraction_mod_one hdvd hrange
  have hlt := hf.lt_one
  have hfraction : (finite false units).sub (.ofInt ((units / one : Nat) : Int)) =
      .finite false (units % one) := by
    have hwhole : units / one ≤ 180 := Nat.div_le_of_le_mul (by rwa [Nat.mul_comm])
    have hmod : units - units / one * one = units % one := by
      rw [Nat.mul_comm]
      exact Nat.sub_eq_of_eq_add (Nat.mod_add_div units one).symm
    rw [ofInt_natCast (by omega), sub_finite (hmod ▸ hf.dvd) (Nat.div_mul_le_self _ _)
      (lt_limit (by omega)), hmod]
  have hminutes : (finite false (units % one)).mulNat 60 = .finite false (minuteUnits units) :=
    mulNat_finite (nearestUnits_lt_limit (by omega))
  have hall : (finite false (units % one)).mulNat 3600 = .finite false (allSecondUnits units) :=
    mulNat_finite (nearestUnits_lt_limit (by omega))
  have hcast : ((minuteUnits units / one : Nat) : Int) * 60 =
      ((wholeMinutes units * 60 : Nat) : Int) := by
    rw [Nat.cast_mul, wholeMinutes, Nat.cast_ofNat]
  have hseconds : (finite false (allSecondUnits units)).sub
      (.ofInt ((wholeMinutes units * 60 : Nat) : Int)) = .finite false (secondUnits units) := by
    have hbelow := wholeMinutes_lt hf
    have hle : allSecondUnits units ≤ 2 * (units % one * 3600) := nearestUnits_le _
    rw [ofInt_natCast (by omega)]
    exact sub_finite (spacing_dvd_secondUnits units) (wholeMinutes_le hf) (lt_limit (by omega))
  have hwhole : (finite negative units).abs.floor? = some ((units / one : Nat) : Int) := by
    rw [abs_finite, floor?_units]
  have hfull : ((finite false (units % one)).mulNat 60).floor? =
      some ((minuteUnits units / one : Nat) : Int) := by
    rw [hminutes, floor?_units]
  rw [components_eq hwhole (by rw [abs_finite, hfraction]) hfull, hminutes, hall, hcast, hseconds,
    abs_finite]

end SemanticMarkup.Coordinates
