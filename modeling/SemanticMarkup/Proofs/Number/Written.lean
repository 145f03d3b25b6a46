import Mathlib.Algebra.Ring.Nat
import Mathlib.Data.List.TakeWhile
import SemanticMarkup.Number.Directive
import SemanticMarkup.Proofs.Steps
import SemanticMarkup.Proofs.Text.Ascii

/-!
# Written directives

A directive is written as a percent sign, flags, a width, a point with digits behind it
and a letter; flags, width and point may be left out. What is read from a text is exactly
what such parts say, so a text is read if and only if it is made of them and the numbers
in it are not too large.

## Implementation notes

The form of a directive is checked with the digits of every script, but it is read with
ASCII digits only. The texts that pass the check and are not read have another digit
where the letter is expected.
-/

namespace SemanticMarkup.Number.Directive

open SemanticMarkup.Text

/-- A text does not start with a character of a class. -/
def Stops (member : Char → Bool) (cs : List Char) : Prop :=
  ∀ c ∈ cs.head?, member c = false

theorem stops_dropWhile (member : Char → Bool) (cs : List Char) :
    Stops member (cs.dropWhile member) := by
  intro c hc
  have h := List.head?_dropWhile_not member cs
  rw [Option.mem_def.mp hc] at h
  exact h

/-- A run of characters of a class ends where the class ends. -/
theorem dropWhile_run {member : Char → Bool} {run rest : List Char}
    (hrun : ∀ c ∈ run, member c = true) (hrest : Stops member rest) :
    (run ++ rest).dropWhile member = rest := by
  rw [List.dropWhile_append_of_pos hrun]
  cases rest with
  | nil => rfl
  | cons c rest => exact List.dropWhile_cons_of_neg (by simp [hrest c rfl])

theorem takeWhile_run {member : Char → Bool} {run rest : List Char}
    (hrun : ∀ c ∈ run, member c = true) (hrest : Stops member rest) :
    (run ++ rest).takeWhile member = run := by
  rw [List.takeWhile_append_of_pos hrun]
  cases rest with
  | nil => exact List.append_nil run
  | cons c rest => rw [List.takeWhile_cons_of_neg (by simp [hrest c rfl]), List.append_nil]

/-- The parts of a written directive. A zero in front of the width is one of the flags. -/
structure Parts where
  /-- The flags, in any order and number. -/
  flags : List Char
  /-- The digits of the width. -/
  width : List Char
  /-- The digits behind the point, if there is a point. -/
  places : Option (List Char)
  /-- The letter at the end. -/
  letter : Char

namespace Parts

/-- The point and the digits behind it. -/
def fraction (p : Parts) : List Char :=
  match p.places with
  | none => []
  | some digits => '.' :: digits

/-- The parts as they are written. -/
def text (p : Parts) : List Char :=
  '%' :: (p.flags ++ (p.width ++ (p.fraction ++ [p.letter])))

/-- The parts are those of `%[flags][width][.digits]letter`. -/
structure Formed (p : Parts) : Prop where
  flags : ∀ c ∈ p.flags, c ∈ ['-', '+', ' ', '0', '#']
  width : ∀ c ∈ p.width, c.isDigit = true
  unpadded : p.width.head? ≠ some '0'
  places : ∀ digits, p.places = some digits → digits ≠ [] ∧ ∀ c ∈ digits, c.isDigit = true
  letter : (Conversion.ofChar? p.letter).isSome = true

/-- The number that the width is. -/
def widthValue (p : Parts) : Nat :=
  digitsToNat 0 p.width

/-- The number behind the point. -/
def placesValue (p : Parts) : Option Nat :=
  p.places.map (digitsToNat 0)

/-- What the parts say. -/
def directive (p : Parts) (conversion : Conversion) : Directive where
  leftAligned := p.flags.contains '-'
  plusSign := p.flags.contains '+'
  blankSign := p.flags.contains ' '
  zeroFilled := p.flags.contains '0'
  alternative := p.flags.contains '#'
  width := p.widthValue
  precision := p.placesValue
  letter := p.letter
  conversion := conversion

end Parts

theorem isFlag_iff (c : Char) : isFlag c = true ↔ c ∈ ['-', '+', ' ', '0', '#'] := by
  simp [isFlag, or_assoc]

/-- No letter of a conversion is a flag, a point or a digit of any script. -/
theorem letter_cases {c : Char} (h : (Conversion.ofChar? c).isSome = true) :
    isFlag c = false ∧ c ≠ '.' ∧ isDecimalDigit c = false := by
  unfold Conversion.ofChar? at h
  split at h
  all_goals first | decide | cases h

theorem isDecimalDigit_of_isDigit {c : Char} (h : c.isDigit = true) : isDecimalDigit c = true := by
  have hc := isDigit_iff.mp h
  have hfirst : (digitZeros.find? fun z => z ≤ c.toNat && c.toNat < z + 10) = some 48 := by
    rw [digitZeros, List.find?_cons_of_pos]
    simp only [Bool.and_eq_true, decide_eq_true_eq]
    omega
  rw [isDecimalDigit, digitValue?, hfirst]
  rfl

theorem not_isDigit_of_isDecimalDigit {c : Char} (h : isDecimalDigit c = false) :
    c.isDigit = false := by
  cases hc : c.isDigit with
  | false => rfl
  | true => rw [isDecimalDigit_of_isDigit hc] at h; cases h

/-- Of the flags only the zero is a digit. -/
theorem eq_zero_of_isFlag {c : Char} (hflag : isFlag c = true) (hdigit : c.isDigit = true) :
    c = '0' := by
  rw [isFlag_iff] at hflag
  simp only [List.mem_cons, List.not_mem_nil, or_false] at hflag
  rcases hflag with rfl | rfl | rfl | rfl | rfl
  all_goals first | rfl | cases hdigit

/-- What is read never gets smaller. -/
theorem le_digitsToNat (acc : Nat) (digits : List Char) : acc ≤ digitsToNat acc digits := by
  induction digits generalizing acc with
  | nil => exact Nat.le_refl acc
  | cons c digits ih =>
      have hnext : 10 * acc + (c.toNat - 48) ≤ digitsToNat acc (c :: digits) := ih _
      omega

theorem toNat_le_nine_of_isDigit {c : Char} (h : c.isDigit = true) : c.toNat - 48 ≤ 9 := by
  rw [isDigit_iff] at h
  omega

/-- What is written by some digits is below the power of ten with as many zeros. -/
theorem digitsToNat_lt {digits : List Char} (hdigits : ∀ c ∈ digits, c.isDigit = true) (acc : Nat) :
    digitsToNat acc digits < (acc + 1) * 10 ^ digits.length := by
  induction digits generalizing acc with
  | nil => exact Nat.lt_of_lt_of_eq (Nat.lt_succ_self acc) (Nat.mul_one _).symm
  | cons c digits ih =>
      obtain ⟨hc, hdigits⟩ := List.forall_mem_cons.mp hdigits
      have hdigit := toNat_le_nine_of_isDigit hc
      calc digitsToNat acc (c :: digits)
          < (10 * acc + (c.toNat - 48) + 1) * 10 ^ digits.length := ih hdigits _
        _ ≤ (acc + 1) * 10 * 10 ^ digits.length := Nat.mul_le_mul_right _ (by omega)
        _ = (acc + 1) * 10 ^ (c :: digits).length := by
            rw [List.length_cons, Nat.pow_succ', Nat.mul_assoc]

/-- The digits are read to their number, unless that is above the limit. -/
theorem boundedNat?_eq {limit : Nat} (hlimit : 9 ≤ limit) {digits : List Char}
    (hdigits : ∀ c ∈ digits, c.isDigit = true) (acc : Nat) (hacc : acc ≤ limit) :
    boundedNat? limit acc digits =
      if digitsToNat acc digits ≤ limit then some (digitsToNat acc digits) else none := by
  induction digits generalizing acc with
  | nil => exact (if_pos hacc).symm
  | cons c digits ih =>
      obtain ⟨hc, hdigits⟩ := List.forall_mem_cons.mp hdigits
      have hdigit := toNat_le_nine_of_isDigit hc
      have hread : digitsToNat acc (c :: digits) =
          digitsToNat (10 * acc + (c.toNat - 48)) digits := rfl
      rw [hread, boundedNat?]
      by_cases hnext : 10 * acc + (c.toNat - 48) ≤ limit
      · rw [if_neg (by omega), ih hdigits _ hnext]
      · have hgrows := le_digitsToNat (10 * acc + (c.toNat - 48)) digits
        rw [if_pos (by omega), if_neg (by omega)]

/-- The part behind the width starts with the point or the letter. -/
theorem Parts.stops_fraction {p : Parts} {member : Char → Bool} (hpoint : member '.' = false)
    (hletter : member p.letter = false) : Stops member (p.fraction ++ [p.letter]) := by
  intro c hc
  rw [fraction] at hc
  split at hc
  · rw [← Option.some.inj hc]
    exact hletter
  · rw [← Option.some.inj hc]
    exact hpoint

namespace Parts.Formed

variable {p : Parts}

theorem stops_width (hp : p.Formed) : Stops isFlag (p.width ++ (p.fraction ++ [p.letter])) := by
  intro c hc
  cases hwidth : p.width with
  | nil =>
      rw [hwidth] at hc
      exact Parts.stops_fraction (by decide) (letter_cases hp.letter).1 c hc
  | cons first rest =>
      rw [hwidth] at hc
      obtain rfl := Option.some.inj hc
      have hdigit : first.isDigit = true := hp.width first (by simp [hwidth])
      have hne : first ≠ '0' := fun h => hp.unpadded (by rw [hwidth, h]; rfl)
      exact Bool.eq_false_iff.mpr fun hflag => hne (eq_zero_of_isFlag hflag hdigit)

theorem isFlag_flags (hp : p.Formed) : ∀ c ∈ p.flags, isFlag c = true :=
  fun c hc => (isFlag_iff c).mpr (hp.flags c hc)

theorem dropWhile_flags (hp : p.Formed) :
    (p.flags ++ (p.width ++ (p.fraction ++ [p.letter]))).dropWhile isFlag =
      p.width ++ (p.fraction ++ [p.letter]) :=
  dropWhile_run hp.isFlag_flags hp.stops_width

end Parts.Formed

/-- A text that is the letter of a conversion. -/
def isLetter (cs : List Char) : Bool :=
  match cs with
  | [c] => (Conversion.ofChar? c).isSome
  | _ => false

/-- What may stand behind the width: perhaps a point with digits, and a letter. -/
def isEnding (cs : List Char) : Bool :=
  isLetter (match cs with
    | '.' :: places =>
        if places.head?.any isDecimalDigit then places.dropWhile isDecimalDigit else cs
    | _ => cs)

theorem wellFormed_cons (rest : List Char) :
    wellFormed ('%' :: rest) =
      isEnding ((rest.dropWhile isFlag).dropWhile isDecimalDigit) := rfl

variable {c : Char} (hletter : (Conversion.ofChar? c).isSome = true)
include hletter

/-- Nothing may follow a letter. -/
theorem isEnding_letter (rest : List Char) : isEnding (c :: rest) = rest.isEmpty := by
  have hpoint : c ≠ '.' := (letter_cases hletter).2.1
  unfold isEnding
  split
  · rename_i heq
    exact absurd (List.cons.inj heq).1 hpoint
  · cases rest with
    | nil => exact hletter
    | cons _ _ => rfl

/-- Between a point and a letter there must be digits. -/
theorem isEnding_point {digits : List Char} (hdigits : ∀ d ∈ digits, d.isDigit = true)
    (rest : List Char) :
    isEnding ('.' :: (digits ++ c :: rest)) = (!digits.isEmpty && rest.isEmpty) := by
  have hnodigit : isDecimalDigit c = false := (letter_cases hletter).2.2
  have hstops : Stops isDecimalDigit (c :: rest) := by
    intro d hd
    rw [← Option.some.inj hd]
    exact hnodigit
  cases digits with
  | nil => simp [isEnding, isLetter, hnodigit]
  | cons first digits =>
      have hfirst : isDecimalDigit first = true :=
        isDecimalDigit_of_isDigit (hdigits first List.mem_cons_self)
      have hrun : (first :: digits ++ c :: rest).dropWhile isDecimalDigit = c :: rest :=
        dropWhile_run (fun d hd => isDecimalDigit_of_isDigit (hdigits d hd)) hstops
      simp only [isEnding, List.cons_append, List.head?_cons, Option.any_some, hfirst, if_true,
        List.isEmpty_cons, Bool.not_false, Bool.true_and]
      rw [← List.cons_append, hrun]
      cases rest with
      | nil => exact hletter
      | cons _ _ => rfl

omit hletter

/-- What parts are written as has the form of a directive. -/
theorem wellFormed_text {p : Parts} (hp : p.Formed) : wellFormed p.text = true := by
  obtain ⟨-, -, hnodigit⟩ := letter_cases hp.letter
  rw [Parts.text, wellFormed_cons, hp.dropWhile_flags,
    dropWhile_run (fun c hc => isDecimalDigit_of_isDigit (hp.width c hc))
      (Parts.stops_fraction (by decide +kernel) hnodigit), Parts.fraction]
  cases hplaces : p.places with
  | none => exact isEnding_letter hp.letter []
  | some digits =>
      obtain ⟨hne, hdigits⟩ := hp.places digits hplaces
      exact (isEnding_point hp.letter hdigits []).trans (by simpa using hne)

/-- Parts with numbers that are not too large are read as what they say. -/
theorem read_text {p : Parts} (hp : p.Formed) {conversion : Conversion}
    (hletter : Conversion.ofChar? p.letter = some conversion)
    (hwidth : p.widthValue ≤ widthLimit) (hplaces : ∀ n ∈ p.placesValue, n ≤ precisionLimit) :
    read p.text = .ok (p.directive conversion) := by
  have hnodigit : p.letter.isDigit = false :=
    not_isDigit_of_isDecimalDigit (letter_cases hp.letter).2.2
  have hflags : (p.text.drop 1).takeWhile isFlag = p.flags :=
    takeWhile_run hp.isFlag_flags hp.stops_width
  have hdrop : (p.text.drop 1).dropWhile isFlag = p.width ++ (p.fraction ++ [p.letter]) :=
    hp.dropWhile_flags
  have hstops : Stops Char.isDigit (p.fraction ++ [p.letter]) :=
    Parts.stops_fraction (by decide) hnodigit
  have hbounded : boundedNat? widthLimit 0 p.width = some p.widthValue := by
    rw [boundedNat?_eq (by decide) hp.width 0 (Nat.zero_le _)]
    exact if_pos hwidth
  rw [read, wellFormed_text hp]
  simp only [Bool.not_true, Bool.false_eq_true, if_false, hflags, hdrop,
    takeWhile_run hp.width hstops, dropWhile_run hp.width hstops, hbounded]
  cases hpoint : p.places with
  | none =>
      have hnopoint : p.letter ≠ '.' := (letter_cases hp.letter).2.1
      simp [Parts.fraction, Parts.directive, Parts.placesValue, hpoint, hnopoint, boundedNat?,
        hletter]
  | some digits =>
      have hdigits := (hp.places digits hpoint).2
      have hlast : Stops Char.isDigit [p.letter] := by
        intro c hc
        rw [← Option.some.inj hc]
        exact hnodigit
      have hprecision : boundedNat? precisionLimit 0 digits = some (digitsToNat 0 digits) := by
        rw [boundedNat?_eq (by decide) hdigits 0 (Nat.zero_le _)]
        exact if_pos (hplaces _ (by rw [Parts.placesValue, hpoint]; rfl))
      simp [Parts.fraction, Parts.directive, Parts.placesValue, hpoint, takeWhile_run hdigits hlast,
        dropWhile_run hdigits hlast, hprecision, hletter]

theorem eq_digitsToNat_of_boundedNat? {limit n : Nat} (hlimit : 9 ≤ limit) {digits : List Char}
    (hdigits : ∀ c ∈ digits, c.isDigit = true) (h : boundedNat? limit 0 digits = some n) :
    n = digitsToNat 0 digits := by
  rw [boundedNat?_eq hlimit hdigits 0 (Nat.zero_le _)] at h
  split at h
  · exact (Option.some.inj h).symm
  · cases h

/-- A directive starts with a percent sign, and its width is read in the same way with the digits of
every script as with ASCII digits if no other digit follows. -/
theorem isEnding_of_wellFormed {cs afterWidth : List Char} (h : wellFormed cs = true)
    (hafter : ((cs.drop 1).dropWhile isFlag).dropWhile Char.isDigit = afterWidth)
    (hstops : Stops isDecimalDigit afterWidth) :
    cs = '%' :: ((cs.drop 1).takeWhile isFlag ++
        (((cs.drop 1).dropWhile isFlag).takeWhile Char.isDigit ++ afterWidth)) ∧
      isEnding afterWidth = true := by
  have hpercent : ∃ rest, cs = '%' :: rest := by
    unfold wellFormed at h
    split at h
    · exact ⟨_, rfl⟩
    · cases h
  obtain ⟨rest, rfl⟩ := hpercent
  rw [List.drop_one, List.tail_cons] at hafter ⊢
  have hsplit : rest.dropWhile isFlag =
      (rest.dropWhile isFlag).takeWhile Char.isDigit ++ afterWidth := by
    rw [← hafter, List.takeWhile_append_dropWhile]
  constructor
  · rw [← hsplit, List.takeWhile_append_dropWhile]
  · rw [wellFormed_cons, hsplit, dropWhile_run
      (fun c hc => isDecimalDigit_of_isDigit (List.mem_takeWhile_imp hc)) hstops] at h
    exact h

/-- The digits behind the flags do not start with a zero, which would be a flag. -/
theorem head_width_ne_zero (cs : List Char) :
    ((cs.dropWhile isFlag).takeWhile Char.isDigit).head? ≠ some '0' := by
  intro hzero
  have hstops := stops_dropWhile isFlag cs '0'
  cases hrest : cs.dropWhile isFlag with
  | nil =>
      rw [hrest] at hzero
      cases hzero
  | cons first rest =>
      rw [hrest] at hzero hstops
      rw [List.takeWhile_cons] at hzero
      split at hzero
      · exact absurd (hstops hzero) (by decide)
      · cases hzero

/-- What is read is made of parts. -/
theorem exists_parts_of_read {cs : List Char} {d : Directive} (h : read cs = .ok d) :
    ∃ p : Parts, p.Formed ∧ cs = p.text ∧ Conversion.ofChar? p.letter = some d.conversion ∧
      d = p.directive d.conversion := by
  rw [read] at h
  split at h
  · cases h
  rename_i hform
  have hform : wellFormed cs = true := by simpa using hform
  obtain ⟨afterWidth, hafter⟩ :
    ∃ afterWidth, ((cs.drop 1).dropWhile isFlag).dropWhile Char.isDigit = afterWidth := ⟨_, rfl⟩
  have hflags : ∀ c ∈ (cs.drop 1).takeWhile isFlag, c ∈ ['-', '+', ' ', '0', '#'] :=
    fun c hc => (isFlag_iff c).mp (List.mem_takeWhile_imp hc)
  have hunpadded := head_width_ne_zero (cs.drop 1)
  simp only [hafter] at h
  split at h
  · cases h
  rename_i width hwidth
  obtain rfl := eq_digitsToNat_of_boundedNat? (by decide) (fun _ => List.mem_takeWhile_imp) hwidth
  split at h
  · cases h
  rename_i precision hprecision
  split at h
  · cases h
  rename_i c rest htail
  split at h
  · cases h
  rename_i conversion hletter
  have hsome : (Conversion.ofChar? c).isSome = true := by rw [hletter]; rfl
  -- with a point the letter stands behind its digits, and without one behind the width
  by_cases hpoint : (afterWidth.head? == some '.') = true
  · simp only [hpoint, if_true] at hprecision htail h
    obtain ⟨after, rfl⟩ := List.head?_eq_some_iff.mp (beq_iff_eq.mp hpoint)
    simp only [List.drop_one, List.tail_cons] at hprecision htail
    obtain rfl := eq_digitsToNat_of_boundedNat? (by decide) (fun _ => List.mem_takeWhile_imp)
      hprecision
    have hsplit : after = after.takeWhile Char.isDigit ++ c :: rest := by
      rw [← htail, List.takeWhile_append_dropWhile]
    obtain ⟨hcs, hending⟩ := isEnding_of_wellFormed hform hafter
      (fun d hd => by rw [← Option.some.inj hd]; decide +kernel)
    rw [hsplit, isEnding_point hsome (fun _ => List.mem_takeWhile_imp), Bool.and_eq_true,
      Bool.not_eq_true', List.isEmpty_eq_false_iff, List.isEmpty_iff] at hending
    obtain ⟨hne, rfl⟩ := hending
    obtain rfl := Except.ok.inj h
    have hplaces : ∀ digits, some (after.takeWhile Char.isDigit) = some digits →
        digits ≠ [] ∧ ∀ c ∈ digits, c.isDigit = true := by
      intro digits hdigits
      obtain rfl := Option.some.inj hdigits
      exact ⟨hne, fun _ => List.mem_takeWhile_imp⟩
    rw [hsplit] at hcs
    exact ⟨⟨_, _, some (after.takeWhile Char.isDigit), c⟩,
      ⟨hflags, fun _ => List.mem_takeWhile_imp, hunpadded, hplaces, hsome⟩, hcs, hletter, rfl⟩
  · simp only [hpoint, Bool.false_eq_true, if_false] at hprecision htail h
    subst htail
    obtain ⟨hcs, hending⟩ := isEnding_of_wellFormed hform hafter
      (fun d hd => by rw [← Option.some.inj hd]; exact (letter_cases hsome).2.2)
    rw [isEnding_letter hsome, List.isEmpty_iff] at hending
    subst hending
    obtain rfl := Except.ok.inj h
    exact ⟨⟨_, _, none, c⟩, ⟨hflags, fun _ => List.mem_takeWhile_imp, hunpadded, nofun, hsome⟩,
      hcs, hletter, rfl⟩

/-- Reading only fails because of the text. -/
theorem ne_tooLarge_of_read {cs : List Char} {fault : DirectiveFault}
    (h : read cs = .error fault) : fault ≠ .tooLarge := by
  rintro rfl
  rw [read] at h
  split at h
  · cases h
  dsimp only at h
  split at h
  · cases h
  split at h
  · cases h
  split at h
  · cases h
  split at h <;> cases h

/-- The letters of the conversions that write doubles. -/
def doubleLetters : List Char := ['d', 'i', 'u', 'e', 'E', 'f', 'F', 'g', 'G']

/-- A text is a directive for doubles: `%[flags][width][.digits]letter`. -/
def ForDouble (cs : List Char) : Prop :=
  ∃ p : Parts, p.Formed ∧ p.letter ∈ doubleLetters ∧ cs = p.text

/-- The width and the number behind the point of a directive are below a bound. -/
def Below (bound : Nat) (cs : List Char) : Prop :=
  ∀ p : Parts, p.Formed → cs = p.text → p.widthValue < bound ∧ ∀ n ∈ p.placesValue, n < bound

/-- The numbers of a short text are small. -/
theorem below_of_length {cs : List Char} {k : Nat} (h : cs.length ≤ k + 2) : Below (10 ^ k) cs := by
  rintro p hp rfl
  have hlength : p.width.length ≤ k ∧ p.fraction.length ≤ k := by
    simp only [Parts.text, List.length_cons, List.length_append, List.length_nil] at h
    omega
  have hsmall (digits : List Char) (hdigits : ∀ c ∈ digits, c.isDigit = true)
      (hshort : digits.length ≤ k) : digitsToNat 0 digits < 10 ^ k := by
    have hlt := digitsToNat_lt hdigits 0
    rw [Nat.zero_add, Nat.one_mul] at hlt
    exact Nat.lt_of_lt_of_le hlt (Nat.pow_le_pow_right (by decide) hshort)
  refine ⟨hsmall _ hp.width hlength.1, fun n hn => ?_⟩
  obtain ⟨digits, hplaces, rfl⟩ := Option.map_eq_some_iff.mp hn
  refine hsmall digits (hp.places digits hplaces).2 ?_
  rw [Parts.fraction, hplaces, List.length_cons] at hlength
  omega

theorem wellFormed_of_forDouble {cs : List Char} (h : ForDouble cs) : wellFormed cs = true := by
  obtain ⟨p, hp, -, rfl⟩ := h
  exact wellFormed_text hp

/-- A directive for doubles with small numbers is read. -/
theorem exists_read_of_forDouble {cs : List Char} (h : ForDouble cs) (hbelow : Below 1000 cs) :
    ∃ d, read cs = .ok d ∧ d.letter ∈ doubleLetters := by
  obtain ⟨p, hp, hdouble, rfl⟩ := h
  obtain ⟨conversion, hletter⟩ := Option.isSome_iff_exists.mp hp.letter
  obtain ⟨hwidth, hplaces⟩ := hbelow p hp rfl
  have hlimits : 1000 ≤ widthLimit ∧ 1000 ≤ precisionLimit := by decide
  exact ⟨_, read_text hp hletter (by omega) fun n hn => by have := hplaces n hn; omega, hdouble⟩

/-- A directive that is read is one for doubles if its letter is. -/
theorem forDouble_iff_of_read {cs : List Char} {d : Directive} (h : read cs = .ok d)
    (hbelow : Below 1000 cs) : ForDouble cs ↔ d.letter ∈ doubleLetters := by
  constructor
  · intro hdouble
    obtain ⟨other, hother, hletter⟩ := exists_read_of_forDouble hdouble hbelow
    obtain rfl := Except.ok.inj (h.symm.trans hother)
    exact hletter
  · intro hdouble
    obtain ⟨p, hp, rfl, -, hd⟩ := exists_parts_of_read h
    rw [hd] at hdouble
    exact ⟨p, hp, hdouble, rfl⟩

/-- Whether a text is read as a directive for doubles. -/
def readsForDouble (cs : List Char) : Bool :=
  match read cs with
  | .ok d => doubleLetters.contains d.letter
  | .error _ => false

/-- Directives for doubles with small numbers are found by reading. -/
theorem forDouble_iff_reads {cs : List Char} (hbelow : Below 1000 cs) :
    ForDouble cs ↔ readsForDouble cs = true := by
  rw [readsForDouble]
  cases hread : read cs with
  | ok d => rw [forDouble_iff_of_read hread hbelow, List.contains_iff_mem]
  | error fault =>
      refine ⟨fun hdouble => ?_, nofun⟩
      obtain ⟨d, hd, -⟩ := exists_read_of_forDouble hdouble hbelow
      rw [hd] at hread
      cases hread

/-- The numbers of a directive that is read are below the bound of its parts. -/
theorem numbers_lt_of_read {cs : List Char} {d : Directive} {bound : Nat} (h : read cs = .ok d)
    (hbelow : Below bound cs) : d.width < bound ∧ d.precision.getD 0 < bound := by
  obtain ⟨p, hp, rfl, -, hd⟩ := exists_parts_of_read h
  obtain ⟨hwidth, hplaces⟩ := hbelow p hp rfl
  rw [hd]
  refine ⟨hwidth, ?_⟩
  cases hvalue : p.placesValue with
  | none => exact Nat.lt_of_le_of_lt (by rw [Parts.directive, hvalue]; exact Nat.zero_le _) hwidth
  | some n =>
      rw [Parts.directive, hvalue]
      exact hplaces n hvalue

/-- The conversions for doubles are those that are neither octal nor hexadecimal. -/
theorem mem_doubleLetters_iff {c : Char} {conversion : Conversion}
    (h : Conversion.ofChar? c = some conversion) :
    c ∈ doubleLetters ↔ conversion ≠ .octal ∧ ∀ capital, conversion ≠ .hexadecimal capital := by
  unfold Conversion.ofChar? at h
  split at h
  all_goals cases h
  all_goals decide

theorem letter_of_read {cs : List Char} {d : Directive} (h : read cs = .ok d) :
    Conversion.ofChar? d.letter = some d.conversion := by
  obtain ⟨p, -, -, hletter, hd⟩ := exists_parts_of_read h
  rw [hd]
  exact hletter

/-- A conversion writes a double if its letter is one for doubles, and else it asks for an
integer. -/
theorem gives_apply {d : Directive} (h : Conversion.ofChar? d.letter = some d.conversion)
    (x : Double) :
    Gives (fun fault => fault ≠ .tooLarge ∧ d.letter ∉ doubleLetters)
      (fun _ => d.letter ∈ doubleLetters) (apply d (.double x)) := by
  rw [mem_doubleLetters_iff h]
  unfold apply piecesOf
  cases hconversion : d.conversion with
  | integer | exponent _ | fixed _ | general _ => exact ⟨nofun, nofun⟩
  | octal => exact ⟨nofun, fun hdouble => hdouble.1 rfl⟩
  | hexadecimal capital => exact ⟨nofun, fun hdouble => hdouble.2 capital rfl⟩

end SemanticMarkup.Number.Directive
