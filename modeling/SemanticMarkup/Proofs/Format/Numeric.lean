import SemanticMarkup.Proofs.Format.Faults
import SemanticMarkup.Proofs.Number.Fixed

/-!
# Numbers with fixed places

Integers, finite decimals and the texts of numerals are shown with fixed places through their text
and the decimal that it spells. What is shown is the value rounded to the last place, so it keeps
the order of the values, and shown again it stays as it is. Shown as an integer, a value loses its
fraction.
-/

namespace SemanticMarkup

open SemanticMarkup.Number SemanticMarkup.Text

/-- A value that is exactly a number, with fewer than a thousand digits and a power of ten below a
thousand. -/
inductive Value.Holds : Value → ℚ → Prop
  | int {n : Int} (hdigits : digitCount n.natAbs < 1000) : Value.Holds (.int n) n
  | decimal {negative : Bool} {coefficient : Nat} {exponent : Int}
      (hdigits : digitCount coefficient < 1000) (hexponent : exponent.natAbs < 1000) :
      Value.Holds (.decimal (.finite negative coefficient exponent))
        (signed negative (⟨coefficient, exponent⟩ : Scientific).value)
  | text {s : String} {p : Numeral} (hp : p.Formed) (hs : Decimal.plain s = p.text)
      (hdigits : (p.whole ++ p.places).length < 1000) (hpower : p.powerValue.natAbs < 1000) :
      Value.Holds (.text s) p.value

theorem ofList_intText (n : Int) : String.ofList (intText n) = toString n := by
  cases n with
  | ofNat k => rfl
  | negSucc k =>
      have hsign : toString (Int.negSucc k) = "-" ++ String.ofList (Nat.toDigits 10 (k + 1)) := rfl
      rw [hsign, intText]
      apply String.toList_inj.mp
      simp only [String.toList_append, String.toList_ofList]
      rfl

/-- The digits and the power of ten of a decimal are small enough for every format. -/
structure Number.Scientific.Moderate (s : Scientific) : Prop where
  digits : digitCount s.coefficient < 4000
  low : -4000 < s.exponent
  high : s.exponent < 3000

namespace Number.Scientific.Moderate

variable {s : Scientific}

theorem inRange (h : s.Moderate) : Decimal.inRange s.coefficient s.exponent = true := by
  obtain ⟨hdigits, hlow, hhigh⟩ := h
  rw [Decimal.inRange, Bool.and_eq_true, decide_eq_true_eq, decide_eq_true_eq,
    Decimal.minExponent, Decimal.maxLeading]
  omega

theorem wholeDigits_lt (h : s.Moderate) (negative : Bool) :
    (Decimal.finite negative s.coefficient s.exponent).wholeDigits < 7000 := by
  obtain ⟨hdigits, -, hhigh⟩ := h
  rw [Decimal.wholeDigits]
  split <;> omega

end Number.Scientific.Moderate

namespace Formatter

/-- The format that shows a number without its fraction. -/
def integerFormat : Value :=
  .text "integer"

/-- The format that shows a number with fixed places. -/
def decimalFormat (places : Nat) : Value :=
  .list [.text "decimal", .int places]

variable {f : Formatter} {v : Value}

theorem format_integer (h : v.isNull = false) :
    f.format v integerFormat = decimalOf v >>= integerText :=
  format_of_asks f (Format.asks_named .integer) (Nat.le_refl 0) h

theorem format_decimal (h : v.isNull = false) (n : Nat) :
    f.format v (decimalFormat n) = decimalOf v >>= fun d => decimalText d n :=
  format_of_asks f (Format.asks_applied .decimal [.int n]) (Nat.le_refl 1) h

theorem decimalOf_of_plain {p : Numeral} (hv : v.isWritable = true) (hp : p.Formed)
    (hs : Decimal.plain v.display = p.text) (hfits : p.fits = true) :
    decimalOf v = .ok p.decimal := by
  rw [decimalOf, Value.asText_of_isWritable hv, Outcome.ok_bind, Decimal.read?_of_plain hp hs,
    if_pos hfits]

theorem wholeDigits_nonneg (d : Decimal) : 0 ≤ d.wholeDigits := by
  cases d with
  | infinite | undefined => exact le_refl 0
  | finite negative coefficient exponent =>
      rw [Decimal.wholeDigits]
      split <;> omega

/-- A finite decimal is shown with places if all its digits are written. -/
theorem decimalText_finite {negative : Bool} {coefficient : Nat} {exponent : Int} {n : Nat}
    (h : n + (Decimal.finite negative coefficient exponent).wholeDigits ≤ placesLimit) :
    decimalText (.finite negative coefficient exponent) n =
      .ok ((Decimal.finite negative coefficient exponent).fixedText n) := by
  have hwhole := wholeDigits_nonneg (.finite negative coefficient exponent)
  have hsmall : (n : Int) ≤ 1000000000 := by
    rw [placesLimit] at h
    omega
  have hlong : ¬ ((Nat.pow 2 63 : Nat) : Int) ≤ n := by
    have hpower : Nat.pow 2 63 = 9223372036854775808 := by decide
    omega
  have hlarge : ¬ ((Nat.pow 10 18 : Nat) : Int) ≤ n := by
    have hpower : Nat.pow 10 18 = 1000000000000000000 := by decide
    omega
  rw [decimalText, if_neg (by omega), if_neg hlong, if_neg hlarge, if_neg (Int.not_lt.mpr h),
    Int.toNat_natCast]

theorem decimalText_of_moderate {s : Scientific} (hs : s.Moderate) (negative : Bool) {n : Nat}
    (hn : n < 1000) :
    decimalText (.finite negative s.coefficient s.exponent) n =
      .ok ((Decimal.finite negative s.coefficient s.exponent).fixedText n) := by
  have hwhole := hs.wholeDigits_lt negative
  apply decimalText_finite
  rw [placesLimit]
  omega

/-- A finite decimal is shown as an integer if all digits in front of the point are written. -/
theorem integerText_finite {negative : Bool} {coefficient : Nat} {exponent : Int}
    (h : (Decimal.finite negative coefficient exponent).wholeDigits ≤ digitLimit) :
    integerText (.finite negative coefficient exponent) =
      .ok (toString
        (truncated (signed negative (⟨coefficient, exponent⟩ : Scientific).value))) := by
  rw [integerText, if_neg (Int.not_lt.mpr h), Decimal.trunc?_eq, Option.getD_some, ofList_intText]

end Formatter

namespace Number.Numeral

variable {p : Numeral} {s : String} {q : ℚ}

/-- A numeral is what a text spells, has a value, and is far from the limits of every format. -/
structure Spells (p : Numeral) (s : String) (q : ℚ) : Prop where
  formed : p.Formed
  text : Decimal.plain s = p.text
  value : p.value = q
  digits : digitCount p.scientific.coefficient < 1000
  low : -2000 < p.scientific.exponent
  high : p.scientific.exponent < 1000

theorem Spells.moderate (h : p.Spells s q) : p.scientific.Moderate := by
  obtain ⟨-, -, -, hdigits, hlow, hhigh⟩ := h
  exact ⟨by omega, by omega, by omega⟩

theorem spells_ofFinite {negative : Bool} {coefficient : Nat} {exponent : Int}
    (hs : s.toList = (ofFinite negative coefficient exponent).text)
    (hdigits : digitCount coefficient < 1000) (hexponent : exponent.natAbs < 1000) :
    (ofFinite negative coefficient exponent).Spells s
      (signed negative (⟨coefficient, exponent⟩ : Scientific).value) := by
  have hformed := formed_ofFinite negative coefficient exponent
  have hscientific := scientific_ofFinite negative coefficient exponent
  refine { formed := hformed, text := plain_eq_text hformed hs, value := ?_, digits := ?_,
           low := ?_, high := ?_ }
  · rw [value, sign_ofFinite, hscientific, Sign.negative_ofNegative]
  · rw [hscientific]
    exact hdigits
  · rw [hscientific]
    change -2000 < exponent
    omega
  · rw [hscientific]
    change exponent < 1000
    omega

/-- A number has no more digits than its numeral, where zeros in front count too. -/
theorem spells_self (hp : p.Formed) (hs : Decimal.plain s = p.text)
    (hdigits : (p.whole ++ p.places).length < 1000) (hpower : p.powerValue.natAbs < 1000) :
    p.Spells s p.value := by
  refine { formed := hp, text := hs, value := rfl, digits := ?_, low := ?_, high := ?_ }
  · have hlength : 0 < (p.whole ++ p.places).length := List.length_pos_of_ne_nil hp.filled
    have hall : ∀ c ∈ p.whole ++ p.places, c.isDigit = true :=
      List.forall_mem_append.mpr ⟨hp.whole, hp.places⟩
    have hlt := Directive.digitsToNat_lt hall 0
    rw [Nat.zero_add, Nat.one_mul] at hlt
    exact (Decimal.digitCount_le_of_lt hlength hlt).trans_lt hdigits
  · rw [List.length_append] at hdigits
    change -2000 < p.powerValue - p.places.length
    omega
  · change p.powerValue - p.places.length < 1000
    omega

/-- A numeral is read in one way. -/
theorem value_eq_of_text_eq {p' : Numeral} (hp : p.Formed) (hp' : p'.Formed)
    (h : p.text = p'.text) : p.value = p'.value := by
  have hsign := Decimal.readSign_text hp
  rw [h, Decimal.readSign_text hp', Prod.mk.injEq] at hsign
  have hbody := readScientific?_body hp
  rw [← hsign.2, readScientific?_body hp', Option.some.injEq] at hbody
  rw [value, value, hsign.1, hbody]

end Number.Numeral

namespace Value

variable {v : Value} {q : ℚ}

/-- An integer is written as a decimal with the power of ten zero. -/
theorem toList_display_int (n : Int) : (Value.int n).display.toList =
    (Numeral.ofFinite (decide (n < 0)) n.natAbs 0).text := by
  have hdisplay : (Value.int n).display = String.ofList (intText n) := rfl
  have hlength : 0 < (Nat.toDigits 10 n.natAbs).length := Nat.length_toDigits_pos
  have hplain : (0 : Int) ≤ 0 ∧ -6 ≤ 0 + ((Nat.toDigits 10 n.natAbs).length : Int) - 1 := by omega
  rw [hdisplay, String.toList_ofList, ← Numeral.text_ofFinite, Decimal.text, String.toList_ofList,
    if_pos hplain, if_pos rfl]
  cases n with
  | ofNat k => rfl
  | negSucc k =>
      rw [decide_eq_true (Int.negSucc_lt_zero k)]
      rfl

theorem signed_natAbs (n : Int) :
    signed (decide (n < 0)) (⟨n.natAbs, 0⟩ : Scientific).value = n := by
  rw [Directive.value_whole, signed, Nat.cast_natAbs]
  by_cases hn : n < 0
  · rw [if_pos (decide_eq_true hn), abs_of_neg hn, Int.cast_neg, neg_neg]
  · rw [if_neg (by simpa using hn), abs_of_nonneg (Int.not_lt.mp hn)]

/-- The text of a value that is a number is a numeral. -/
theorem Holds.exists_numeral (h : v.Holds q) :
    v.isNull = false ∧ v.isWritable = true ∧ ∃ p : Numeral, p.Spells v.display q := by
  cases h with
  | @int n hdigits =>
      have hp := Numeral.spells_ofFinite (toList_display_int n) hdigits (by decide)
      rw [signed_natAbs] at hp
      refine ⟨rfl, ?_, _, hp⟩
      rw [isWritable, decide_eq_true_eq, digitLimit]
      omega
  | decimal hdigits hexponent =>
      exact ⟨rfl, rfl, _, Numeral.spells_ofFinite (Numeral.text_ofFinite _ _ _) hdigits hexponent⟩
  | text hp hs hdigits hpower =>
      exact ⟨rfl, rfl, _, Numeral.spells_self hp hs hdigits hpower⟩

end Value

namespace Number.Decimal

/-- Rounding to places adds no digits but zeros. -/
theorem rescaled_le (coefficient : Nat) (exponent : Int) (places : Nat) :
    rescaled coefficient exponent places ≤ coefficient * 10 ^ (exponent + places).toNat := by
  rw [rescaled]
  split
  · exact Nat.le_refl _
  · split
    · exact Nat.zero_le _
    · have hden : 0 < Nat.pow 10 (-(exponent + (places : Int))).toNat := Nat.pow_pos (by decide)
      have hround := roundHalfEven_le hden (Nat.le_mul_of_pos_left coefficient hden)
      exact hround.trans (Nat.le_mul_of_pos_right _ (Nat.pow_pos (by decide)))

/-- The units of the last of some places are again small enough. -/
theorem moderate_rescaled {s : Scientific} (hdigits : digitCount s.coefficient < 1000)
    (hhigh : s.exponent < 1000) {n : Nat} (hn : n < 1000) :
    (⟨rescaled s.coefficient s.exponent n, -n⟩ : Scientific).Moderate := by
  have hpositive : 0 < digitCount s.coefficient := Nat.length_toDigits_pos
  have hunits : rescaled s.coefficient s.exponent n <
      10 ^ (digitCount s.coefficient + (s.exponent + n).toNat) := by
    rw [Nat.pow_add]
    exact (rescaled_le _ _ _).trans_lt
      (Nat.mul_lt_mul_of_pos_right (lt_ten_pow_digitCount _) (Nat.pow_pos (by decide)))
  have hcount := digitCount_le_of_lt (by omega) hunits
  refine ⟨?_, ?_, ?_⟩
  · change digitCount (rescaled s.coefficient s.exponent n) < 4000
    omega
  · change (-4000 : Int) < -(n : Int)
    omega
  · change -(n : Int) < 3000
    omega

end Number.Decimal

namespace Formatter

variable {f : Formatter} {v v' : Value} {q q' : ℚ} {n : Nat}

/-- A number is shown with fixed places as the units of the last place next to it. -/
theorem exists_format_decimal (hv : v.Holds q) (hn : n < 1000) :
    ∃ (negative : Bool) (units : Nat),
      f.format v (decimalFormat n) =
        .ok (String.ofList (Decimal.withSign negative (Decimal.fixedPoint units n))) ∧
      IsNearest (q * 10 ^ n) (signed negative (units : ℤ)) ∧
      (⟨units, -n⟩ : Scientific).Moderate := by
  obtain ⟨hnull, hwritable, p, hp⟩ := hv.exists_numeral
  have hmoderate := hp.moderate
  refine ⟨p.sign.negative, Decimal.rescaled p.scientific.coefficient p.scientific.exponent n,
    ?_, ?_, Decimal.moderate_rescaled hp.digits hp.high hn⟩
  · rw [format_decimal hnull, decimalOf_of_plain hwritable hp.formed hp.text hmoderate.inRange,
      Outcome.ok_bind]
    exact decimalText_of_moderate hmoderate p.sign.negative hn
  · rw [← hp.value]
    exact Decimal.isNearest_units _ _ _ n

/-- The units of the last place are shown with as many places as they are. -/
theorem format_units (negative : Bool) {units : Nat}
    (h : (⟨units, -n⟩ : Scientific).Moderate) (hn : n < 1000) :
    f.format
        (.text (String.ofList (Decimal.withSign negative (Decimal.fixedPoint units n))))
        (decimalFormat n) =
      .ok (String.ofList (Decimal.withSign negative (Decimal.fixedPoint units n))) := by
  have hp := (Numeral.isFixed_ofUnits negative units n).formed
  have htext : (String.ofList (Decimal.withSign negative (Decimal.fixedPoint units n))).toList =
      (Numeral.ofUnits negative units n).text := by
    rw [String.toList_ofList, Numeral.text_ofUnits]
  have hfits : (Numeral.ofUnits negative units n).fits = true := by
    rw [Numeral.fits, Numeral.scientific_ofUnits]
    exact h.inRange
  have hs := Numeral.plain_eq_text hp htext
  have hagain := decimalText_of_moderate h negative hn
  dsimp only at hagain
  rw [Decimal.fixedText_units] at hagain
  generalize String.ofList (Decimal.withSign negative (Decimal.fixedPoint units n)) = text at *
  have hdecimal : decimalOf (.text text) = .ok (Numeral.ofUnits negative units n).decimal :=
    decimalOf_of_plain rfl hp hs hfits
  rw [format_decimal rfl, hdecimal, Outcome.ok_bind, Numeral.decimal_ofUnits, hagain]

/-- The value of what is shown is read off its units. -/
theorem value_of_shown {negative : Bool} {units : Nat} {text : String} {p : Numeral}
    (h : (.ok text : Outcome String) =
      .ok (String.ofList (Decimal.withSign negative (Decimal.fixedPoint units n))))
    (hp : text.toList = p.text) (hformed : p.Formed) :
    p.value = (signed negative (units : ℤ) : ℤ) / 10 ^ n := by
  rw [Except.ok.inj h, String.toList_ofList, ← Numeral.text_ofUnits] at hp
  rw [Numeral.value_eq_of_text_eq hformed (Numeral.isFixed_ofUnits negative units n).formed hp.symm,
    Numeral.value_ofUnits]

/-- Integers, finite decimals and the texts of numerals are shown with fixed places as the numeral
with these places next to the value, a tie going to the even digit. The numeral is shown as itself,
and the order of the values is kept. As an integer they are shown without their fraction. -/
theorem format_number (f : Formatter) :
    (∀ (v : Value) (q : ℚ) (n : Nat), v.Holds q → n < 1000 →
      ∃ (text : String) (p : Numeral) (k : ℤ),
        f.format v (decimalFormat n) = .ok text ∧ text.toList = p.text ∧ p.IsFixed n ∧
        p.value = k / 10 ^ n ∧ IsNearest (q * 10 ^ n) k ∧
        f.format (.text text) (decimalFormat n) = .ok text) ∧
    (∀ (v v' : Value) (q q' : ℚ) (n : Nat), v.Holds q → v'.Holds q' → n < 1000 → q ≤ q' →
      ∀ (text text' : String) (p p' : Numeral),
        f.format v (decimalFormat n) = .ok text → f.format v' (decimalFormat n) = .ok text' →
        text.toList = p.text → text'.toList = p'.text → p.Formed → p'.Formed →
        p.value ≤ p'.value) ∧
    (∀ (v : Value) (q : ℚ), v.Holds q →
      f.format v integerFormat = .ok (toString (truncated q))) := by
  refine ⟨fun v q n hv hn => ?_, ?_, fun v q hv => ?_⟩
  · obtain ⟨negative, units, htext, hnearest, hmoderate⟩ := exists_format_decimal (f := f) hv hn
    refine ⟨_, Numeral.ofUnits negative units n, signed negative (units : ℤ), htext, ?_,
      Numeral.isFixed_ofUnits negative units n, Numeral.value_ofUnits negative units n, hnearest,
      format_units negative hmoderate hn⟩
    rw [String.toList_ofList, Numeral.text_ofUnits]
  · intro v v' q q' n hv hv' hn hle text text' p p' htext htext' hp hp' hformed hformed'
    obtain ⟨negative, units, hunits, hnearest, -⟩ := exists_format_decimal (f := f) hv hn
    obtain ⟨negative', units', hunits', hnearest', -⟩ := exists_format_decimal (f := f) hv' hn
    rw [value_of_shown (htext.symm.trans hunits) hp hformed,
      value_of_shown (htext'.symm.trans hunits') hp' hformed']
    have hscale : (0 : ℚ) < 10 ^ n := pow_pos (by norm_num) n
    have hunits := hnearest.le hnearest' (mul_le_mul_of_nonneg_right hle hscale.le)
    exact div_le_div_of_nonneg_right (Int.cast_le.mpr hunits) hscale.le
  · obtain ⟨hnull, hwritable, p, hp⟩ := hv.exists_numeral
    have hdigits := hp.digits
    have hhigh := hp.high
    have hwhole : (Decimal.finite p.sign.negative p.scientific.coefficient
        p.scientific.exponent).wholeDigits ≤ digitLimit := by
      rw [Decimal.wholeDigits, digitLimit]
      split <;> omega
    rw [format_integer hnull, decimalOf_of_plain hwritable hp.formed hp.text hp.moderate.inRange,
      Outcome.ok_bind, ← hp.value]
    exact integerText_finite hwhole

/-- The numeral `-2.675`. -/
def halfway : Numeral where
  sign := .minus
  whole := ['2']
  fraction := some ['6', '7', '5']
  power := none

/-- A tie goes to the even digit, an integer below it is shown as a number below it, and without
its fraction the number is cut off. -/
theorem format_number_halfway :
    Value.Holds (.text "-2.675") (-107 / 40) ∧ Value.Holds (.int (-2)) (-2) ∧
    (ofComplete .standard).format (.text "-2.675") (decimalFormat 2) = .ok "-2.68" ∧
    (∃ (p : Numeral) (k : ℤ), "-2.68".toList = p.text ∧ p.IsFixed 2 ∧ p.value = k / 10 ^ 2 ∧
      IsNearest (-107 / 40 * 10 ^ 2) k ∧
      (ofComplete .standard).format (.text "-2.68") (decimalFormat 2) = .ok "-2.68") ∧
    (ofComplete .standard).format (.int (-2)) (decimalFormat 2) = .ok "-2.00" ∧
    (Numeral.ofUnits true 268 2).value ≤ (Numeral.ofUnits true 200 2).value ∧
    (ofComplete .standard).format (.text "-2.675") integerFormat = .ok "-2" := by
  have hvalue : halfway.value = -107 / 40 := by
    change -((2675 : Nat) * (10 : ℚ) ^ (-3 : Int)) = _
    norm_num
  have hformed : halfway.Formed :=
    ⟨List.cons_ne_nil _ _, List.all_eq_true.mp rfl, List.all_eq_true.mp rfl, nofun⟩
  have htext : Value.Holds (.text "-2.675") (-107 / 40) := by
    rw [← hvalue]
    exact .text hformed (by decide +kernel) (by decide) (by decide)
  have hint : Value.Holds (.int (-2)) ((-2 : Int) : ℚ) := .int (by decide)
  have hshown : (ofComplete .standard).format (.text "-2.675") (decimalFormat 2) =
      .ok "-2.68" := by
    decide +kernel
  have hwhole : (ofComplete .standard).format (.int (-2)) (decimalFormat 2) = .ok "-2.00" := by
    decide +kernel
  have htruncated : truncated (-107 / 40) = -2 := by
    rw [truncated, if_neg (by norm_num), Int.ceil_eq_iff]
    norm_num
  obtain ⟨hfixed, hmonotone, hinteger⟩ := format_number (ofComplete .standard)
  refine ⟨htext, by exact_mod_cast hint, hshown, ?_, hwhole, ?_, ?_⟩
  · obtain ⟨text, p, k, hok, hp, hform, hk, hnearest, hagain⟩ := hfixed _ _ 2 htext (by decide)
    obtain rfl : text = "-2.68" := Except.ok.inj (hok.symm.trans hshown)
    exact ⟨p, k, hp, hform, hk, hnearest, hagain⟩
  · apply hmonotone _ _ _ _ 2 htext hint (by decide) (by norm_num) _ _ _ _ hshown hwhole
    · rfl
    · rfl
    · exact (Numeral.isFixed_ofUnits true 268 2).formed
    · exact (Numeral.isFixed_ofUnits true 200 2).formed
  · rw [hinteger _ _ htext, htruncated]
    rfl

end Formatter

end SemanticMarkup
