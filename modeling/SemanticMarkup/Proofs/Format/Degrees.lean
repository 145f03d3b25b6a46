import Mathlib.Algebra.Order.Field.Basic
import Mathlib.Algebra.Order.Field.Rat
import Mathlib.Algebra.Order.Ring.Abs
import Mathlib.Tactic.Push
import SemanticMarkup.Proofs.Format.Components

/-!
# Values that are degrees

A number of any type, or a text that spells one, stands for a double. It is a possible
latitude or longitude if that double is a finite number of no more than 90 or 180 degrees
in size.
-/

namespace SemanticMarkup

open SemanticMarkup.Number SemanticMarkup.Text

/-- The rational number that a finite double is. -/
def Number.Double.value? : Double → Option ℚ
  | .finite negative units => some ((if negative then -(units : ℚ) else units) / Double.one)
  | _ => none

namespace Coordinates

/-- A value is a number, or a text that spells one, and a double is the one next to it. Integers
beyond the doubles and signaling decimals stand for none. -/
inductive StandsFor : Value → Double → Prop
  | int (n : Int) (h : (Double.ofInt n).isFinite = true) : StandsFor (.int n) (Double.ofInt n)
  | float (x : Double) : StandsFor (.float x) x
  | decimal (d : Decimal) (h : ∀ negative payload, d ≠ .undefined negative true payload) :
      StandsFor (.decimal d) d.toDouble
  | text (s : String) (x : Double) (h : readDouble? (trim s.toList) = some x) :
      StandsFor (.text s) x

/-- A value stands for a finite number of degrees that is not beyond the greatest one. -/
def Possible (axis : Axis) (v : Value) : Prop :=
  ∃ x q, StandsFor v x ∧ x.value? = some q ∧ |q| ≤ maxDegrees axis

theorem ofInt_ne_nan (n : Int) : Double.ofInt n ≠ .nan := by
  rw [Double.ofInt, Double.ofRatio, Double.ofUnitRatio]
  split
  · intro h
    cases h
  · intro h
    cases h

/-- An integer stands for the double next to it if that is finite. -/
theorem degrees?_int (n : Int) :
    degrees? (.int n) =
      if (Double.ofInt n).isFinite then .ok (some (Double.ofInt n))
      else Outcome.fault .overflow := by
  have hnan := ofInt_ne_nan n
  rw [degrees?.eq_def]
  -- where the cases are compared, the double would be computed unless it is a variable
  obtain ⟨toDouble, h⟩ : ∃ f, f = Double.ofInt := ⟨_, rfl⟩
  rw [← h] at hnan ⊢
  clear h
  dsimp only
  cases hx : toDouble n with
  | nan => exact absurd hx hnan
  | _ => rfl

theorem degrees?_decimal {d : Decimal}
    (h : ∀ negative payload, d ≠ .undefined negative true payload) :
    degrees? (.decimal d) = .ok (some d.toDouble) := by
  cases d with
  | undefined negative signaling payload =>
      cases signaling with
      | true => exact absurd rfl (h negative payload)
      | false => rfl
  | _ => rfl

theorem degrees?_eq_some_iff {v : Value} {x : Double} :
    degrees? v = .ok (some x) ↔ StandsFor v x := by
  constructor
  · intro h
    cases v with
    | int n =>
        rw [degrees?_int] at h
        split at h
        · rename_i hfinite
          obtain rfl := Option.some.inj (Except.ok.inj h)
          exact .int n hfinite
        · cases h
    | float y =>
        obtain rfl := Option.some.inj (Except.ok.inj h)
        exact .float y
    | decimal d =>
        have hquiet : ∀ negative payload, d ≠ .undefined negative true payload := by
          rintro negative payload rfl
          cases h
        rw [degrees?_decimal hquiet] at h
        obtain rfl := Option.some.inj (Except.ok.inj h)
        exact .decimal d hquiet
    | text s => exact .text s x (Except.ok.inj h)
    | _ => cases h
  · intro h
    cases h with
    | int n hfinite => rw [degrees?_int, if_pos hfinite]
    | float => rfl
    | decimal d hquiet => exact degrees?_decimal hquiet
    | text s _ hread => exact congrArg Except.ok hread

/-- The size of a finite double. -/
theorem abs_value (negative : Bool) (units : Nat) :
    |(if negative then -(units : ℚ) else units) / Double.one| = units / Double.one := by
  rw [abs_div, Nat.abs_cast]
  cases negative with
  | true => rw [if_pos rfl, abs_neg, Nat.abs_cast]
  | false => rw [if_neg (by decide), Nat.abs_cast]

theorem ofInt_maxDegrees (axis : Axis) :
    Double.ofInt (maxDegrees axis) = .finite false ((maxDegrees axis).toNat * Double.one) := by
  have hsmall : (maxDegrees axis).toNat ≤ 2 ^ 53 := by cases axis <;> decide
  have hpositive : 0 ≤ maxDegrees axis := by cases axis <;> decide
  rw [← Double.ofInt_natCast hsmall, Int.toNat_of_nonneg hpositive]

/-- The doubles in range, by their units. -/
theorem inRange_finite (axis : Axis) (negative : Bool) (units : Nat) :
    inRange axis (.finite negative units) = true ↔
      units ≤ (maxDegrees axis).toNat * Double.one := by
  rw [inRange, ofInt_maxDegrees, Double.abs_finite]
  generalize (maxDegrees axis).toNat * Double.one = greatest
  simp [Double.isFinite, Double.lt, Double.signedUnits]

/-- The doubles in range are the finite ones that are not beyond the greatest number of degrees. -/
theorem inRange_iff {axis : Axis} {x : Double} :
    inRange axis x = true ↔ ∃ q, x.value? = some q ∧ |q| ≤ maxDegrees axis := by
  have hpositive : 0 ≤ maxDegrees axis := by cases axis <;> decide
  have hone : (0 : ℚ) < Double.one := Nat.cast_pos.mpr Double.one_pos
  cases x with
  | finite negative units =>
      have hcast : ((maxDegrees axis : Int) : ℚ) = ((maxDegrees axis).toNat : ℚ) := by
        rw [← Int.cast_natCast, Int.toNat_of_nonneg hpositive]
      simp only [inRange_finite, Double.value?, Option.some.injEq, exists_eq_left', abs_value,
        hcast]
      rw [div_le_iff₀ hone]
      exact_mod_cast Iff.rfl
  | infinite negative => simp [inRange, Double.isFinite, Double.value?]
  | nan => simp [inRange, Double.isFinite, Double.value?]

theorem possible_iff {axis : Axis} {v : Value} :
    Possible axis v ↔ ∃ x, degrees? v = .ok (some x) ∧ inRange axis x = true := by
  simp only [Possible, degrees?_eq_some_iff, inRange_iff]
  constructor
  · intro ⟨x, q, hv, hq, hle⟩
    exact ⟨x, hv, q, hq, hle⟩
  · intro ⟨x, hv, q, hq, hle⟩
    exact ⟨x, q, hv, hq, hle⟩

/-- A double in range is finite and has no more than 180 degrees. -/
theorem exists_units_of_inRange {axis : Axis} {x : Double} (h : inRange axis x = true) :
    ∃ negative units, x = .finite negative units ∧ units ≤ 180 * Double.one := by
  cases x with
  | finite negative units =>
      have hmax : (maxDegrees axis).toNat ≤ 180 := by cases axis <;> decide
      refine ⟨negative, units, rfl, ((inRange_finite axis negative units).mp h).trans ?_⟩
      exact Nat.mul_le_mul_right _ hmax
  | infinite negative => cases h
  | nan => cases h

/-- A value in range is shown like the double that it stands for. -/
theorem renderValid_eq_render {axis : Axis} {v : Value} {x : Double}
    (hv : degrees? v = .ok (some x)) (hx : inRange axis x = true) (c : Coordinates)
    (format : Value) : c.renderValid axis v format = c.render axis (.float x) format := by
  rw [renderValid, hv]
  exact if_pos hx

end Coordinates

end SemanticMarkup
