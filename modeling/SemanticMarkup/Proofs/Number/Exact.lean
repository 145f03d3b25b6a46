import Mathlib.Tactic.IntervalCases
import SemanticMarkup.Number.Double

/-!
# Exact operations on doubles

A number of units with at most 53 significant binary digits is a double, so it is not
changed by rounding. Rounding keeps the order, and where it reaches a multiple of twice
the distance between doubles is decided by half of that distance. Integers that are not
too large are doubles, and so are differences that need no more digits.
-/

namespace SemanticMarkup.Number

/-- An even number is reached by rounding if it is no more than half a unit away. -/
theorem le_roundHalfEven_iff {num den c : Nat} (hden : 0 < den) (heven : c % 2 = 0) :
    c ≤ roundHalfEven num den ↔ 2 * (den * c) ≤ 2 * num + den := by
  have hnum : den * (num / den) + num % den = num := Nat.div_add_mod num den
  have hrest : num % den < den := Nat.mod_lt num hden
  simp only [roundHalfEven]
  generalize num / den = quotient at *
  generalize num % den = rest at *
  obtain hlt | rfl | rfl | hgt : c < quotient ∨ c = quotient ∨ c = quotient + 1 ∨
      quotient + 2 ≤ c := by omega
  · have hstep : den * (c + 1) ≤ den * quotient := Nat.mul_le_mul_left den hlt
    rw [Nat.mul_add] at hstep
    split_ifs <;> omega
  · split_ifs <;> omega
  · rw [Nat.mul_add]
    split_ifs <;> omega
  · have hstep : den * (quotient + 2) ≤ den * c := Nat.mul_le_mul_left den hgt
    rw [Nat.mul_add] at hstep
    split_ifs <;> omega

/-- What is not above a whole number is not rounded above it. -/
theorem roundHalfEven_le {num den c : Nat} (hden : 0 < den) (h : num ≤ den * c) :
    roundHalfEven num den ≤ c := by
  have hnum : den * (num / den) + num % den = num := Nat.div_add_mod num den
  have hquotient : num / den ≤ c := by
    rw [← Nat.mul_div_cancel_left c hden]
    exact Nat.div_le_div_right h
  simp only [roundHalfEven]
  generalize num / den = quotient at *
  generalize num % den = rest at *
  obtain hlt | rfl := Nat.lt_or_eq_of_le hquotient
  · split_ifs <;> omega
  · rw [if_pos (by omega)]

namespace Double

theorem lt_two_pow_bitLength (n : Nat) : n < 2 ^ bitLength n := by
  rw [bitLength]
  split_ifs with h
  · omega
  · exact Nat.lt_log2_self

theorem bitLength_le_iff {n k : Nat} : bitLength n ≤ k ↔ n < 2 ^ k := by
  rw [bitLength]
  split_ifs with h
  · simp [h]
  · rw [Nat.succ_le_iff, Nat.log2_lt h]

theorem two_pow_le_of_pos {n : Nat} (h : 0 < n) : 2 ^ (bitLength n - 1) ≤ n := by
  rw [bitLength, if_neg (by omega), Nat.add_sub_cancel]
  exact Nat.log2_self_le (by omega)

theorem spacing_pos (n : Nat) : 0 < spacing n :=
  Nat.pow_pos (by decide)

theorem spacing_eq (n : Nat) : spacing n = 2 ^ (bitLength n - 53) := rfl

theorem spacing_le {n : Nat} (h : 0 < n) : spacing n ≤ n :=
  (Nat.pow_le_pow_right (by decide) (by omega)).trans (two_pow_le_of_pos h)

/-- One has this power of two units. -/
def onePower : Nat := 1074

/-- The largest double is below this power of two units. -/
def limitPower : Nat := 2098

theorem one_eq : one = 2 ^ onePower := by
  unfold one
  rw [← onePower, Nat.pow_eq]

theorem limit_eq : limit = 2 ^ limitPower := by
  unfold limit
  rw [← limitPower, Nat.pow_eq]

theorem one_pos : 0 < one := by
  rw [one_eq]
  exact Nat.two_pow_pos _

theorem limit_pos : 0 < limit := by
  rw [limit_eq]
  exact Nat.two_pow_pos _

/-- Rounding to whole units only changes the digits behind the first 53. -/
theorem nearestUnits_one (n : Nat) :
    nearestUnits n 1 = roundHalfEven n (spacing n) * spacing n := by
  simp only [nearestUnits, Nat.div_one, Nat.one_mul]

/-- A number of units without digits behind the first 53 is not rounded. -/
theorem nearestUnits_of_dvd {n : Nat} (h : spacing n ∣ n) : nearestUnits n 1 = n := by
  have hrounded := roundHalfEven_mul (n / spacing n) (spacing n) (spacing_pos n)
  rw [Nat.div_mul_cancel h] at hrounded
  rw [nearestUnits_one, hrounded, Nat.div_mul_cancel h]

/-- A multiple of a power of two has no more digits than its factor. -/
theorem spacing_dvd_mul_two_pow {k : Nat} (hk : k ≤ 2 ^ 53) (e : Nat) :
    spacing (k * 2 ^ e) ∣ k * 2 ^ e := by
  obtain hlt | rfl := Nat.lt_or_eq_of_le hk
  · have hlength : bitLength (k * 2 ^ e) ≤ 53 + e := by
      rw [bitLength_le_iff, pow_add]
      exact Nat.mul_lt_mul_of_pos_right hlt (Nat.pow_pos (by decide))
    exact (pow_dvd_pow 2 (by omega)).mul_left k
  · have hlength : bitLength (2 ^ 53 * 2 ^ e) ≤ 53 + e + 1 := by
      rw [bitLength_le_iff, ← pow_add]
      exact Nat.pow_lt_pow_right (by decide) (by omega)
    rw [← pow_add] at hlength ⊢
    exact pow_dvd_pow 2 (by omega)

/-- Rounding reaches an even multiple of the distance between doubles from half of it below. -/
theorem le_nearestUnits_iff {n m : Nat} (h : 2 * spacing n ∣ m) :
    m ≤ nearestUnits n 1 ↔ 2 * m ≤ 2 * n + spacing n := by
  obtain ⟨k, rfl⟩ := h
  have hmul : 2 * spacing n * k = spacing n * (2 * k) := by rw [Nat.mul_comm 2, Nat.mul_assoc]
  rw [nearestUnits_one, hmul, Nat.mul_comm (roundHalfEven n (spacing n)),
    Nat.mul_le_mul_left_iff (spacing_pos n), le_roundHalfEven_iff (spacing_pos n) (by omega)]

/-- Rounding at most doubles a number of units. -/
theorem nearestUnits_le (n : Nat) : nearestUnits n 1 ≤ 2 * n := by
  obtain rfl | hne := Nat.eq_zero_or_pos n
  · exact Nat.le_of_eq (nearestUnits_of_dvd (Nat.dvd_zero _))
  · have hspacing := spacing_le hne
    have hnear := (roundHalfEven_near n (spacing n) (spacing_pos n)).1
    rw [Nat.mul_assoc, Nat.mul_comm (spacing n)] at hnear
    rw [nearestUnits_one]
    omega

/-- Rounding at most halves a number of units. -/
theorem le_two_mul_nearestUnits (n : Nat) : n ≤ 2 * nearestUnits n 1 := by
  obtain rfl | hne := Nat.eq_zero_or_pos n
  · exact Nat.zero_le _
  · have hspacing := spacing_le hne
    have hnear := (roundHalfEven_near n (spacing n) (spacing_pos n)).2
    rw [Nat.mul_assoc, Nat.mul_comm (spacing n)] at hnear
    rw [nearestUnits_one]
    omega

/-- A rounded number of units is a multiple of the distance between doubles, with a factor of at
most 53 binary digits. -/
theorem exists_nearestUnits_eq (num : Nat) {den : Nat} (hden : 0 < den) :
    ∃ k ≤ 2 ^ 53, nearestUnits num den = k * spacing (num / den) := by
  have hbound : num ≤ den * spacing (num / den) * 2 ^ 53 := by
    have hle : 2 ^ bitLength (num / den) ≤ spacing (num / den) * 2 ^ 53 := by
      rw [spacing_eq, ← pow_add]
      exact Nat.pow_le_pow_right (by decide) (by omega)
    have hlt : num < (spacing (num / den) * 2 ^ 53) * den :=
      (Nat.div_lt_iff_lt_mul hden).mp ((lt_two_pow_bitLength (num / den)).trans_le hle)
    rw [Nat.mul_assoc, Nat.mul_comm den]
    exact hlt.le
  exact ⟨_, roundHalfEven_le (Nat.mul_pos hden (spacing_pos _)) hbound, rfl⟩

/-- A finite double has at most 53 significant binary digits. -/
def IsRounded (x : Double) : Prop :=
  ∀ negative units, x = .finite negative units → spacing units ∣ units

/-- What is made of a quotient is rounded. -/
theorem isRounded_ofUnitRatio (negative : Bool) (num : Nat) {den : Nat} (hden : 0 < den) :
    (ofUnitRatio negative num den).IsRounded := by
  intro sign units h
  rw [ofUnitRatio] at h
  split at h
  · obtain ⟨-, rfl⟩ := Double.finite.inj h
    obtain ⟨k, hk, hall⟩ := exists_nearestUnits_eq num hden
    rw [hall, spacing_eq]
    exact spacing_dvd_mul_two_pow hk _
  · cases h

theorem isRounded_of_not_isFinite {x : Double} (h : x.isFinite = false) : x.IsRounded := by
  rintro negative units rfl
  cases h

theorem isRounded_zero (negative : Bool) : (Double.finite negative 0).IsRounded := by
  intro sign units h
  obtain ⟨-, rfl⟩ := Double.finite.inj h
  exact Nat.dvd_zero _

theorem ofUnitRatio_of_dvd (negative : Bool) {n : Nat} (h : spacing n ∣ n) (hlimit : n < limit) :
    ofUnitRatio negative n 1 = .finite negative n := by
  rw [ofUnitRatio, nearestUnits_of_dvd h]
  exact if_pos hlimit

/-- An integer of at most 53 binary digits is a double. -/
theorem ofInt_natCast {n : Nat} (h : n ≤ 2 ^ 53) : ofInt n = .finite false (n * one) := by
  have hlimit : n * one < limit := by
    rw [one_eq, limit_eq]
    calc n * 2 ^ onePower ≤ 2 ^ 53 * 2 ^ onePower := Nat.mul_le_mul_right _ h
      _ = 2 ^ (53 + onePower) := (pow_add 2 53 onePower).symm
      _ < 2 ^ limitPower := Nat.pow_lt_pow_right (by decide) (by decide)
  have hsign : decide ((n : Int) < 0) = false := by simp
  rw [ofInt, ofRatio, Int.natAbs_natCast, hsign]
  rw [one_eq] at hlimit ⊢
  exact ofUnitRatio_of_dvd false (spacing_dvd_mul_two_pow h onePower) hlimit

/-- An integer with a finite double next to it has at most 1025 binary digits. -/
theorem natAbs_lt_of_isFinite {n : Int} (h : (ofInt n).isFinite = true) :
    n.natAbs < 2 ^ 1025 := by
  rw [ofInt, ofRatio, ofUnitRatio] at h
  split at h
  · rename_i hlimit
    have hround := le_two_mul_nearestUnits (n.natAbs * one)
    have hlt : n.natAbs * one < 2 * limit := by omega
    have hpower : 2 * limit = 2 ^ 1025 * one := by
      rw [limit_eq, one_eq, limitPower, onePower, ← pow_succ', ← pow_add]
    rw [hpower] at hlt
    exact Nat.lt_of_mul_lt_mul_right hlt
  · cases h

theorem ofUnitRatio_of_lt (negative : Bool) {n : Nat} (hlimit : nearestUnits n 1 < limit) :
    ofUnitRatio negative n 1 = .finite negative (nearestUnits n 1) := by
  rw [ofUnitRatio]
  exact if_pos hlimit

/-- The difference of two numbers that are not negative, if it is not negative. -/
theorem sub_of_le {u w : Nat} (hle : w ≤ u) :
    (finite false u).sub (finite false w) = ofUnitRatio false (u - w) 1 := by
  simp only [sub, signedUnits, Bool.false_eq_true, if_false]
  split_ifs with hzero
  · have huw : u - w = 0 := by omega
    rw [huw, ofUnitRatio_of_dvd false (Nat.dvd_zero _) limit_pos]
    rfl
  · have hsign : decide ((u : Int) - w < 0) = false := by
      simp only [decide_eq_false_iff_not]
      omega
    have habs : ((u : Int) - w).natAbs = u - w := by omega
    rw [hsign, habs]

/-- A difference that is a double is not rounded. -/
theorem sub_finite {u w : Nat} (h : spacing (u - w) ∣ u - w) (hle : w ≤ u) (hlimit : u < limit) :
    (finite false u).sub (finite false w) = .finite false (u - w) := by
  rw [sub_of_le hle, ofUnitRatio_of_dvd false h (by omega)]

/-- A product that is not too large is rounded to a double. -/
theorem mulNat_finite {n k : Nat} (hlimit : nearestUnits (n * k) 1 < limit) :
    (finite false n).mulNat k = .finite false (nearestUnits (n * k) 1) := by
  rw [mulNat, ofUnitRatio_of_lt false hlimit]

theorem floor?_units (n : Nat) : (finite false n).floor? = some ((n / one : Nat) : Int) :=
  floor?_finite_false n

end Double

end SemanticMarkup.Number
