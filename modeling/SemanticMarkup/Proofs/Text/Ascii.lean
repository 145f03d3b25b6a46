/-!
# Classes of ASCII characters

Digits, capitals and small letters are ranges of code points. What holds of all characters below a
code point is checked for each of them, so facts about single characters need no other argument.
-/

namespace SemanticMarkup.Text

variable {c : Char}

/-- A property of characters that holds for every code point below a bound. -/
theorem of_code_lt {P : Char → Prop} {bound : Nat} (h : ∀ code < bound, P (Char.ofNat code))
    (hc : c.toNat < bound) : P c := by
  have hcode := h c.toNat hc
  rwa [Char.ofNat_toNat] at hcode

theorem isDigit_iff : c.isDigit = true ↔ 48 ≤ c.toNat ∧ c.toNat ≤ 57 :=
  Char.isDigit_iff_toNat

theorem isUpper_iff : c.isUpper = true ↔ 65 ≤ c.toNat ∧ c.toNat ≤ 90 := by
  change decide (65 ≤ c.toNat ∧ c.toNat ≤ 90) = true ↔ _
  rw [decide_eq_true_eq]

theorem isLower_iff : c.isLower = true ↔ 97 ≤ c.toNat ∧ c.toNat ≤ 122 := by
  change (decide (97 ≤ c.toNat) && decide (c.toNat ≤ 122)) = true ↔ _
  rw [Bool.and_eq_true, decide_eq_true_eq, decide_eq_true_eq]

theorem isAlphanum_iff :
    c.isAlphanum = true ↔ c.isUpper = true ∨ c.isLower = true ∨ c.isDigit = true := by
  change ((c.isUpper || c.isLower) || c.isDigit) = true ↔ _
  rw [Bool.or_eq_true, Bool.or_eq_true, or_assoc]

theorem isUpper_of_isLower_or_isDigit (h : (c.isLower || c.isDigit) = true) :
    c.isUpper = false := by
  rw [Bool.eq_false_iff]
  intro hupper
  rw [isUpper_iff] at hupper
  rw [Bool.or_eq_true, isLower_iff, isDigit_iff] at h
  omega

theorem isUpper_toUpper (h : c.isLower = true) : c.toUpper.isUpper = true := by
  obtain ⟨-, hhigh⟩ := isLower_iff.mp h
  have hsmall : c.toNat < 123 := by omega
  exact of_code_lt (P := fun c => c.isLower = true → c.toUpper.isUpper = true)
    (by decide +kernel) hsmall h

theorem toLower_of_isDigit (h : c.isDigit = true) : c.toLower = c := by
  have hrange : ¬(65 ≤ c.toNat ∧ c.toNat ≤ 90) := by
    rw [isDigit_iff] at h
    omega
  exact dif_neg hrange

end SemanticMarkup.Text
