import Mathlib.Algebra.Order.Field.Rat
import Mathlib.Algebra.Order.Floor.Ring
import Mathlib.Data.Nat.Digits.Defs
import Mathlib.Data.Rat.Floor
import Mathlib.Tactic.Linarith
import Mathlib.Tactic.LinearCombination
import Mathlib.Tactic.Push
import SemanticMarkup.Proofs.Number.Exact
import SemanticMarkup.Proofs.Number.Written
import SemanticMarkup.Text.Blank

/-!
# Printed numbers

A number that is not negative is printed with blanks around it, perhaps a plus sign, zeros in
front of its digits and perhaps a point. When it is read back, it is the number without its
fraction, or the number rounded to the places of its directive.
-/

namespace SemanticMarkup.Number

open SemanticMarkup.Text

/-- The rational number that an unsigned decimal is. -/
def Scientific.value (s : Scientific) : ℚ :=
  s.coefficient * 10 ^ s.exponent

/-- The rational number that a text spells, blanks around it ignored. -/
def spelled? (cs : List Char) : Option ℚ :=
  let signed := readSign (trim cs)
  (readScientific? signed.2).map fun s => if signed.1 then -s.value else s.value

/-- An integer next to a number, which is even if two are. -/
structure RoundsTo (x : ℚ) (n : Nat) : Prop where
  near : |x - n| ≤ 1 / 2
  even : |x - n| = 1 / 2 → n % 2 = 0

/-- A quotient lies halfway between two integers if it is one half away from the rounded one. -/
theorem two_mul_mod_of_tie {num den : Nat} (hden : 0 < den)
    (h : 2 * num = 2 * (den * roundHalfEven num den) + den ∨
      2 * num + den = 2 * (den * roundHalfEven num den)) : 2 * (num % den) = den := by
  have hnum : den * (num / den) + num % den = num := Nat.div_add_mod num den
  have hrest : num % den < den := Nat.mod_lt num hden
  simp only [roundHalfEven] at h
  generalize num / den = quotient at *
  generalize num % den = rest at *
  have hstep : den * (quotient + 1) = den * quotient + den := by rw [Nat.mul_add, Nat.mul_one]
  split_ifs at h <;> omega

theorem roundsTo_roundHalfEven (num : Nat) {den : Nat} (hden : 0 < den) :
    RoundsTo (num / den) (roundHalfEven num den) := by
  have hcast : (0 : ℚ) < den := Nat.cast_pos.mpr hden
  have hx : (num : ℚ) / den * den = num := div_mul_cancel₀ _ hcast.ne'
  obtain ⟨hlow, hhigh⟩ := roundHalfEven_near num den hden
  have hbelow : (2 * roundHalfEven num den : ℚ) ≤ 2 * (num / den) + 1 := by
    have h : (2 * den * roundHalfEven num den : ℚ) ≤ 2 * num + den := by exact_mod_cast hlow
    exact le_of_mul_le_mul_left (by linarith) hcast
  have habove : (2 * (num / den) : ℚ) ≤ 2 * roundHalfEven num den + 1 := by
    have h : (2 * num : ℚ) ≤ 2 * den * roundHalfEven num den + den := by exact_mod_cast hhigh
    exact le_of_mul_le_mul_left (by linarith) hcast
  refine ⟨abs_le.mpr ⟨by linarith, by linarith⟩, fun htie => ?_⟩
  refine roundHalfEven_tie num den (two_mul_mod_of_tie hden ?_)
  obtain htie | htie := (abs_eq (by norm_num)).mp htie
  · have h : (2 * num : ℚ) = 2 * (den * roundHalfEven num den) + den := by
      linear_combination 2 * den * htie - 2 * hx
    exact .inl (by exact_mod_cast h)
  · have h : (2 * num + den : ℚ) = 2 * (den * roundHalfEven num den) := by
      linear_combination 2 * den * htie - 2 * hx
    exact .inr (by exact_mod_cast h)

namespace RoundsTo

variable {x : ℚ} {n bound : Nat}

theorem le (h : RoundsTo x n) (hx : x ≤ bound) : n ≤ bound := by
  have hnear := (abs_le.mp h.near).1
  by_contra hlt
  have hcast : (bound : ℚ) + 1 ≤ n := by exact_mod_cast Nat.lt_of_not_le hlt
  linarith

/-- An even number is reached by rounding if it is no more than one half away. -/
theorem le_iff (h : RoundsTo x n) (heven : bound % 2 = 0) : bound ≤ n ↔ bound - 1 / 2 ≤ x := by
  obtain ⟨hlow, hhigh⟩ := abs_le.mp h.near
  constructor
  · intro hle
    have hcast : (bound : ℚ) ≤ n := by exact_mod_cast hle
    linarith
  · intro hle
    by_contra hlt
    have hcast : (n : ℚ) + 1 ≤ bound := by exact_mod_cast Nat.lt_of_not_le hlt
    have htie : x - n = 1 / 2 := by linarith
    have hn := h.even (by rw [htie]; norm_num)
    have hnext : (n : ℚ) + 1 = bound := by linarith
    have hnext : n + 1 = bound := by exact_mod_cast hnext
    omega

end RoundsTo

theorem digitsToNat_zeros (count : Nat) (cs : List Char) :
    digitsToNat 0 (List.replicate count '0' ++ cs) = digitsToNat 0 cs := by
  induction count with
  | zero => rfl
  | succ count ih => exact ih

/-- The digits of a number are read as it. -/
theorem digitsToNat_toDigits (n : Nat) : digitsToNat 0 (Nat.toDigits 10 n) = n :=
  Nat.ofDigitChars_ten_toDigits

theorem digitsToNat_zeroField (width n : Nat) : digitsToNat 0 (zeroField width n) = n := by
  rw [zeroField, digitsToNat_zeros, digitsToNat_toDigits]

theorem isDigit_zeros {count : Nat} {cs : List Char} (h : ∀ c ∈ cs, c.isDigit = true) :
    ∀ c ∈ List.replicate count '0' ++ cs, c.isDigit = true := by
  intro c hc
  obtain hc | hc := List.mem_append.mp hc
  · rw [List.eq_of_mem_replicate hc]
    rfl
  · exact h c hc

theorem isDigit_toDigits (n : Nat) : ∀ c ∈ Nat.toDigits 10 n, c.isDigit = true :=
  fun _ => Nat.isDigit_of_mem_toDigits (by decide) (by decide)

theorem le_length_zeroField (width n : Nat) : width ≤ (zeroField width n).length := by
  rw [zeroField, List.length_append, List.length_replicate]
  omega

/-- A text of digits, perhaps with a point, and the number that it is. -/
inductive IsNumeral : List Char → Scientific → Prop
  | whole {digits : List Char} (hne : digits ≠ []) (hdigits : ∀ c ∈ digits, c.isDigit = true) :
      IsNumeral digits ⟨digitsToNat 0 digits, 0⟩
  | pointed {whole fraction : List Char} (hne : whole ≠ [])
      (hwhole : ∀ c ∈ whole, c.isDigit = true) (hfraction : ∀ c ∈ fraction, c.isDigit = true) :
      IsNumeral (whole ++ '.' :: fraction) ⟨digitsToNat 0 (whole ++ fraction), -fraction.length⟩

namespace IsNumeral

open Directive

variable {cs : List Char} {s : Scientific}

theorem spanDigits_append {run rest : List Char} (hrun : ∀ c ∈ run, c.isDigit = true)
    (hrest : Stops Char.isDigit rest) : spanDigits (run ++ rest) = (run, rest) := by
  rw [spanDigits, takeWhile_run hrun hrest, dropWhile_run hrun hrest]

theorem spanDigits_eq {run : List Char} (hrun : ∀ c ∈ run, c.isDigit = true) :
    spanDigits run = (run, []) := by
  have h : spanDigits (run ++ []) = (run, []) := spanDigits_append hrun nofun
  rwa [List.append_nil] at h

theorem read (h : IsNumeral cs s) : readScientific? cs = some s := by
  cases h with
  | whole hne hdigits =>
      simp [readScientific?, spanDigits_eq hdigits, readPower?, hne]
  | pointed hne hwhole hfraction =>
      rw [readScientific?, spanDigits_append hwhole (by
        intro c hc
        rw [← Option.some.inj hc]
        rfl)]
      simp [spanDigits_eq hfraction, readPower?, hne]

theorem zeros (h : IsNumeral cs s) (count : Nat) :
    IsNumeral (List.replicate count '0' ++ cs) s := by
  cases h with
  | whole hne hdigits =>
      rw [← digitsToNat_zeros count]
      exact .whole (by simp [hne]) (isDigit_zeros hdigits)
  | pointed hne hwhole hfraction =>
      rw [← digitsToNat_zeros count, ← List.append_assoc, ← List.append_assoc]
      exact .pointed (by simp [hne]) (isDigit_zeros hwhole) hfraction

theorem isBlank_of_isDigit {c : Char} (h : c.isDigit = true) : isBlank c = false := by
  rw [isDigit_iff] at h
  exact isBlank_of_visible (by omega) (by omega)

theorem not_isBlank (h : IsNumeral cs s) : ∀ c ∈ cs, isBlank c = false := by
  cases h with
  | whole hne hdigits => exact fun c hc => isBlank_of_isDigit (hdigits c hc)
  | pointed hne hwhole hfraction =>
      intro c hc
      simp only [List.mem_append, List.mem_cons] at hc
      obtain hc | rfl | hc := hc
      · exact isBlank_of_isDigit (hwhole c hc)
      · rfl
      · exact isBlank_of_isDigit (hfraction c hc)

/-- A numeral starts with a digit. -/
theorem exists_cons (h : IsNumeral cs s) : ∃ c rest, cs = c :: rest ∧ c.isDigit = true := by
  cases h with
  | whole hne hdigits =>
      obtain ⟨c, rest, rfl⟩ := List.exists_cons_of_ne_nil hne
      exact ⟨c, rest, rfl, hdigits c List.mem_cons_self⟩
  | pointed hne hwhole hfraction =>
      obtain ⟨c, rest, rfl⟩ := List.exists_cons_of_ne_nil hne
      exact ⟨c, _, rfl, hwhole c List.mem_cons_self⟩

end IsNumeral

/-- Blanks around a text without blanks are ignored. -/
theorem trim_blanks {body : List Char} (hne : body ≠ [])
    (hbody : ∀ c ∈ body, isBlank c = false) (front back : Nat) :
    trim (List.replicate front ' ' ++ body ++ List.replicate back ' ') = body := by
  have hblanks (count : Nat) : ∀ c ∈ List.replicate count ' ', isBlank c = true := by
    intro c hc
    rw [List.eq_of_mem_replicate hc]
    rfl
  have hstops (cs : List Char) (hcs : ∀ c ∈ cs, c ∈ body) (hcs' : cs ≠ []) (rest : List Char) :
      Directive.Stops isBlank (cs ++ rest) := by
    obtain ⟨first, others, rfl⟩ := List.exists_cons_of_ne_nil hcs'
    intro c hc
    rw [← Option.some.inj hc]
    exact hbody first (hcs first List.mem_cons_self)
  have hreverse : Directive.Stops isBlank body.reverse := by
    have h := hstops body.reverse (by simp) (by simpa using hne) []
    rwa [List.append_nil] at h
  rw [trim, trimLeft, trimLeft, List.append_assoc,
    Directive.dropWhile_run (hblanks front) (hstops body (fun _ h => h) hne _), List.reverse_append,
    List.reverse_replicate, Directive.dropWhile_run (hblanks back) hreverse, List.reverse_reverse]

/-- A sign does not change the number that is read, if it is a plus sign. -/
theorem readSign_plus {plus cs : List Char} (hplus : plus = [] ∨ plus = ['+'])
    (hcs : ∃ c rest, cs = c :: rest ∧ c.isDigit = true) : readSign (plus ++ cs) = (false, cs) := by
  obtain rfl | rfl := hplus
  · obtain ⟨c, rest, rfl, hc⟩ := hcs
    rw [List.nil_append]
    unfold readSign
    split
    · rename_i heq
      obtain ⟨rfl, -⟩ := List.cons.inj heq
      cases hc
    · rename_i heq
      obtain ⟨rfl, -⟩ := List.cons.inj heq
      cases hc
    · rfl
  · rfl

namespace Directive

/-- The sign that a directive writes of a number that is not negative. -/
def flagSign (d : Directive) : List Char :=
  if d.plusSign then ['+'] else []

theorem flagSign_cases (d : Directive) : d.flagSign = [] ∨ d.flagSign = ['+'] := by
  rw [flagSign]
  split_ifs
  · exact .inr rfl
  · exact .inl rfl

/-- What is printed in front of and behind the digits of a number that is not negative. -/
theorem exists_layOut (d : Directive) (digits : List Char) :
    ∃ front zeros back, layOut d { negative := false, mark := [], digits := digits } =
      List.replicate front ' ' ++ (d.flagSign ++ (List.replicate zeros '0' ++ digits)) ++
        List.replicate back ' ' := by
  obtain ⟨blanks, hsign⟩ :
      ∃ blanks, signOf d false = List.replicate blanks ' ' ++ d.flagSign := by
    rw [signOf, if_neg (by decide), flagSign]
    split_ifs
    · exact ⟨0, rfl⟩
    · exact ⟨1, rfl⟩
    · exact ⟨0, rfl⟩
  simp only [layOut, List.append_nil, hsign]
  generalize d.width - _ = missing
  split_ifs
  · exact ⟨blanks, 0, missing, by simp⟩
  · exact ⟨blanks, missing, 0, by simp⟩
  · refine ⟨missing + blanks, 0, 0, ?_⟩
    rw [← List.append_assoc, List.replicate_append_replicate]
    simp

/-- A numeral is read back from what is printed. -/
theorem spelled?_layOut (d : Directive) {digits : List Char} {s : Scientific}
    (h : IsNumeral digits s) :
    spelled? (layOut d { negative := false, mark := [], digits := digits }) = some s.value := by
  obtain ⟨front, zeros, back, hlayOut⟩ := exists_layOut d digits
  have hplus := d.flagSign_cases
  have hnumeral := h.zeros zeros
  obtain ⟨c, rest, hcons, hdigit⟩ := hnumeral.exists_cons
  have hbody : ∀ c ∈ d.flagSign ++ (List.replicate zeros '0' ++ digits), isBlank c = false := by
    intro c hc
    obtain hc | hc := List.mem_append.mp hc
    · obtain hnone | hplus := hplus
      · rw [hnone] at hc
        cases hc
      · rw [hplus, List.mem_singleton] at hc
        rw [hc]
        rfl
    · exact hnumeral.not_isBlank c hc
  have hne : d.flagSign ++ (List.replicate zeros '0' ++ digits) ≠ [] := by simp [hcons]
  rw [spelled?, hlayOut, trim_blanks hne hbody, readSign_plus hplus ⟨c, rest, hcons, hdigit⟩]
  simp [hnumeral.read]

theorem isDigit_zeroField (width n : Nat) : ∀ c ∈ zeroField width n, c.isDigit = true :=
  isDigit_zeros (isDigit_toDigits n)

theorem zeroField_ne_nil (width n : Nat) : zeroField width n ≠ [] := by
  simp [zeroField, Nat.toDigits_ne_nil]

theorem isNumeral_fixedPoint (n places : Nat) :
    IsNumeral (Decimal.fixedPoint n places) ⟨n, -places⟩ := by
  obtain rfl | hplaces := Nat.eq_zero_or_pos places
  · rw [Decimal.fixedPoint_zero]
    have h := IsNumeral.whole (zeroField_ne_nil 1 n) (isDigit_zeroField 1 n)
    rwa [digitsToNat_zeroField] at h
  · have hlength := le_length_zeroField (places + 1) n
    have hdigits := isDigit_zeroField (places + 1) n
    have hvalue := digitsToNat_zeroField (places + 1) n
    simp only [Decimal.fixedPoint, if_neg hplaces.ne']
    generalize zeroField (places + 1) n = digits at *
    have hne : digits.take (digits.length - places) ≠ [] := by
      rw [Ne, List.take_eq_nil_iff, not_or, ← List.length_eq_zero_iff]
      omega
    have h := IsNumeral.pointed hne (fun c hc => hdigits c (List.mem_of_mem_take hc))
      (fun c hc => hdigits c (List.mem_of_mem_drop hc) :
        ∀ c ∈ digits.drop (digits.length - places), c.isDigit = true)
    have hcount : digits.length - (digits.length - places) = places := by omega
    rwa [List.take_append_drop, hvalue, List.length_drop, hcount] at h

theorem isNumeral_fixedDigits (units places : Nat) (alternative : Bool) :
    IsNumeral (fixedDigits units places alternative)
      ⟨roundHalfEven (units * 10 ^ places) Double.one, -places⟩ := by
  rw [fixedDigits, Nat.pow_eq]
  generalize roundHalfEven (units * 10 ^ places) Double.one = n
  split_ifs with h
  · obtain ⟨rfl, -⟩ := h
    have hpointed : IsNumeral (zeroField 1 n ++ ['.'])
        ⟨digitsToNat 0 (zeroField 1 n ++ []), -([] : List Char).length⟩ :=
      .pointed (zeroField_ne_nil 1 n) (isDigit_zeroField 1 n) nofun
    rwa [List.append_nil, digitsToNat_zeroField, ← Decimal.fixedPoint_zero] at hpointed
  · exact isNumeral_fixedPoint n places

/-- The places behind the point that a directive asks for, six if it says nothing. -/
def places (d : Directive) : Nat :=
  d.precision.getD 6

/-- How a directive prints a number that is not negative: without its fraction, or rounded to the
places. -/
inductive Prints (d : Directive) (value : ℚ) : ℚ → Prop
  | whole (h : d.conversion = .integer) : Prints d value ⌊value⌋
  | rounded {capital : Bool} (h : d.conversion = .fixed capital) {n : Nat}
      (hn : RoundsTo (value * 10 ^ d.places) n) : Prints d value (n / 10 ^ d.places)

/-- A directive writes numbers without an exponent. -/
def IsPlain (d : Directive) : Prop :=
  d.conversion = .integer ∨ ∃ capital, d.conversion = .fixed capital

theorem value_whole (n : Nat) : (⟨n, 0⟩ : Scientific).value = n := by
  rw [Scientific.value, zpow_zero, mul_one]

theorem value_places (n places : Nat) :
    (⟨n, -places⟩ : Scientific).value = (n : ℚ) / 10 ^ places := by
  rw [Scientific.value, zpow_neg, zpow_natCast, div_eq_mul_inv]

theorem trunc?_finite_false (units : Nat) :
    (Double.finite false units).trunc? = some ((units / Double.one : Nat) : Int) := rfl

theorem piecesOf_integer {d : Directive} (h : d.conversion = .integer) (units : Nat) :
    piecesOf d (.double (.finite false units)) = .ok {
      negative := false
      mark := []
      digits := List.replicate (d.precision.getD 0 - (Nat.toDigits 10 (units / Double.one)).length)
        '0' ++ Nat.toDigits 10 (units / Double.one) } := by
  simp only [piecesOf, h, Quantity.trunc, trunc?_finite_false]
  generalize units / Double.one = whole
  simp [integerPieces, h]

theorem toDouble?_double (x : Double) : (Quantity.double x).toDouble? = some x := rfl

theorem piecesOf_fixed {d : Directive} {capital : Bool} (h : d.conversion = .fixed capital)
    (units : Nat) : piecesOf d (.double (.finite false units)) = .ok {
      negative := false
      mark := []
      digits := fixedDigits units d.places d.alternative } := by
  simp only [piecesOf, h, toDouble?_double, doublePieces, places]

/-- A number that is printed is read back as its directive prints it. -/
theorem exists_spelled_of_apply {d : Directive} (hplain : d.IsPlain) {units : Nat} {cs : List Char}
    (h : d.apply (.double (.finite false units)) = .ok cs) :
    ∃ q, spelled? cs = some q ∧ d.Prints (units / Double.one) q := by
  obtain hconversion | ⟨capital, hconversion⟩ := hplain
  · rw [apply, piecesOf_integer hconversion] at h
    have hnumeral := (IsNumeral.whole Nat.toDigits_ne_nil
      (isDigit_toDigits (units / Double.one))).zeros
        (d.precision.getD 0 - (Nat.toDigits 10 (units / Double.one)).length)
    rw [← Except.ok.inj h, spelled?_layOut d hnumeral, digitsToNat_toDigits, value_whole]
    have hfloor : ⌊(units : ℚ) / Double.one⌋ = ((units / Double.one : Nat) : Int) := by
      rw [Rat.floor_natCast_div_natCast, Int.natCast_ediv]
    have hprints : d.Prints (units / Double.one) ⌊(units : ℚ) / Double.one⌋ := .whole hconversion
    rw [hfloor, Int.cast_natCast] at hprints
    exact ⟨_, rfl, hprints⟩
  · rw [apply, piecesOf_fixed hconversion] at h
    have hnumeral := isNumeral_fixedDigits units d.places d.alternative
    rw [← Except.ok.inj h, spelled?_layOut d hnumeral, value_places]
    have hround := roundsTo_roundHalfEven (units * 10 ^ d.places) Double.one_pos
    rw [Nat.cast_mul, Nat.cast_pow, Nat.cast_ofNat, mul_div_right_comm] at hround
    exact ⟨_, rfl, .rounded hconversion hround⟩

namespace Prints

variable {d : Directive} {value q : ℚ}

theorem nonneg (h : d.Prints value q) (hvalue : 0 ≤ value) : 0 ≤ q := by
  cases h with
  | whole => exact_mod_cast Int.floor_nonneg.mpr hvalue
  | rounded => exact div_nonneg (Nat.cast_nonneg _) (pow_nonneg (by norm_num) _)

variable {bound : Nat} (hvalue : value < bound)
include hvalue

theorem scaled_lt (places : Nat) : value * 10 ^ places < (bound * 10 ^ places : Nat) := by
  rw [Nat.cast_mul, Nat.cast_pow, Nat.cast_ofNat]
  exact mul_lt_mul_of_pos_right hvalue (pow_pos (by norm_num) _)

/-- What is printed of a number below a whole number is not above that. -/
theorem le (h : d.Prints value q) : q ≤ bound := by
  cases h with
  | whole => exact (Int.floor_le value).trans hvalue.le
  | rounded _ hn =>
      rw [div_le_iff₀ (pow_pos (by norm_num) _)]
      exact_mod_cast hn.le (scaled_lt hvalue d.places).le

/-- An even number is printed of a number below it if that is rounded and no more than half a unit
of the last place away. -/
theorem eq_iff (h : d.Prints value q) (heven : bound % 2 = 0) :
    q = bound ↔ (∃ capital, d.conversion = .fixed capital) ∧
      bound - 1 / (2 * 10 ^ d.places) ≤ value := by
  cases h with
  | whole hconversion =>
      have hfloor := (Int.floor_le value).trans_lt hvalue
      simp [hconversion, hfloor.ne]
  | @rounded capital hconversion n hn =>
      have hscale : (0 : ℚ) < 10 ^ d.places := pow_pos (by norm_num) _
      have hle := hn.le (scaled_lt hvalue d.places).le
      have hscaled : bound * 10 ^ d.places % 2 = 0 := by rw [Nat.mul_mod, heven]; simp
      have hreached := hn.le_iff hscaled
      have hhalf : 1 / (2 * 10 ^ d.places) * 10 ^ d.places = (1 / 2 : ℚ) := by field_simp
      rw [Nat.cast_mul, Nat.cast_pow, Nat.cast_ofNat] at hreached
      rw [← mul_le_mul_iff_left₀ hscale, sub_mul, hhalf, ← hreached, div_eq_iff hscale.ne']
      constructor
      · intro heq
        exact ⟨⟨capital, hconversion⟩, Nat.le_of_eq (by exact_mod_cast heq.symm)⟩
      · intro ⟨_, hreach⟩
        exact_mod_cast hle.antisymm hreach

end Prints

end Directive

end SemanticMarkup.Number
