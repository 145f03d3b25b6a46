import SemanticMarkup.Proofs.Number.Printed
import SemanticMarkup.Proofs.Text.Ascii

/-!
# Spelled decimals

A numeral is a row of digits, perhaps with a point, a sign in front of it and a power of ten behind
it. Apart from blanks around it, underscores in it and the script of its digits, a text spells a
finite decimal if and only if it is a numeral and the decimal is within range; all other decimals
are spelled by names. What a finite decimal is written as is a numeral that spells it.
-/

namespace SemanticMarkup.Number

open SemanticMarkup.Text SemanticMarkup.Number.Directive

/-- A sign in front of digits, which may be left out. -/
inductive Sign where
  /-- No sign. -/
  | absent
  /-- A plus sign. -/
  | plus
  /-- A minus sign. -/
  | minus
  deriving DecidableEq, Repr

namespace Sign

/-- The sign as it is written. -/
def text : Sign → List Char
  | .absent => []
  | .plus => ['+']
  | .minus => ['-']

/-- Whether the sign makes a number negative. -/
def negative : Sign → Bool
  | .minus => true
  | _ => false

/-- The sign that is written of a number. -/
def ofNegative (negative : Bool) : Sign :=
  if negative then .minus else .absent

theorem negative_ofNegative (b : Bool) : (ofNegative b).negative = b := by
  cases b <;> rfl

theorem text_ofNegative (b : Bool) (cs : List Char) :
    (ofNegative b).text ++ cs = Decimal.withSign b cs := by
  cases b <;> rfl

/-- A written sign is read, if what follows does not start with another one. -/
theorem readSign_append (sign : Sign) {cs : List Char} (hcs : ∀ c ∈ cs.head?, c ≠ '-' ∧ c ≠ '+') :
    readSign (sign.text ++ cs) = (sign.negative, cs) := by
  cases sign with
  | plus | minus => rfl
  | absent =>
      rw [text, List.nil_append]
      unfold readSign
      split
      · exact absurd rfl (hcs '-' rfl).1
      · exact absurd rfl (hcs '+' rfl).2
      · rfl

end Sign

/-- A number with the sign that it has. -/
def signed {α : Type} [Neg α] (negative : Bool) (x : α) : α :=
  if negative then -x else x

/-- A power of ten behind a numeral. -/
structure WrittenPower where
  /-- Whether its letter is a capital. -/
  capital : Bool
  /-- The sign of the power. -/
  sign : Sign
  /-- The digits of the power. -/
  digits : List Char

namespace WrittenPower

/-- The letter in front of the power. -/
def letter (w : WrittenPower) : Char :=
  if w.capital then 'E' else 'e'

/-- The power as it is written. -/
def text (w : WrittenPower) : List Char :=
  w.letter :: (w.sign.text ++ w.digits)

/-- The power. -/
def value (w : WrittenPower) : Int :=
  signed w.sign.negative (digitsToNat 0 w.digits : Int)

/-- Digits are written of the power, and nothing else. -/
structure Formed (w : WrittenPower) : Prop where
  filled : w.digits ≠ []
  digits : ∀ c ∈ w.digits, c.isDigit = true

theorem letter_cases (w : WrittenPower) : w.letter = 'e' ∨ w.letter = 'E' := by
  rw [letter]
  split
  · exact .inr rfl
  · exact .inl rfl

/-- No sign stands in front of digits. -/
theorem unsigned_digits {digits : List Char} (h : ∀ c ∈ digits, c.isDigit = true) :
    ∀ c ∈ digits.head?, c ≠ '-' ∧ c ≠ '+' := by
  intro c hc
  have hdigit := h c (List.mem_of_mem_head? hc)
  constructor
  · rintro rfl
    cases hdigit
  · rintro rfl
    cases hdigit

theorem readPower?_text {w : WrittenPower} (h : w.Formed) : readPower? w.text = some w.value := by
  have hempty : w.digits.isEmpty = false := List.isEmpty_eq_false_iff.mpr h.filled
  have hall : w.digits.all Char.isDigit = true := List.all_eq_true.mpr h.digits
  rw [text, readPower?, if_pos w.letter_cases,
    w.sign.readSign_append (unsigned_digits h.digits)]
  simp only [hempty, hall, Bool.not_true, Bool.or_false, Bool.false_eq_true, if_false]
  rfl

end WrittenPower

/-- The parts of a numeral. -/
structure Numeral where
  /-- The sign. -/
  sign : Sign
  /-- The digits in front of the point. -/
  whole : List Char
  /-- The digits behind the point, if there is a point. -/
  fraction : Option (List Char)
  /-- The power of ten, if one is written. -/
  power : Option WrittenPower

namespace Numeral

/-- The digits behind the point. -/
def places (p : Numeral) : List Char :=
  p.fraction.getD []

/-- The point and the digits behind it. -/
def fractionText (p : Numeral) : List Char :=
  match p.fraction with
  | none => []
  | some digits => '.' :: digits

/-- The power as it is written. -/
def powerText (p : Numeral) : List Char :=
  match p.power with
  | none => []
  | some w => w.text

/-- The power of ten, which is zero if none is written. -/
def powerValue (p : Numeral) : Int :=
  match p.power with
  | none => 0
  | some w => w.value

/-- The numeral without its sign. -/
def body (p : Numeral) : List Char :=
  p.whole ++ (p.fractionText ++ p.powerText)

/-- The numeral as it is written. -/
def text (p : Numeral) : List Char :=
  p.sign.text ++ p.body

/-- The digits are digits, and there is one. -/
structure Formed (p : Numeral) : Prop where
  filled : p.whole ++ p.places ≠ []
  whole : ∀ c ∈ p.whole, c.isDigit = true
  places : ∀ c ∈ p.places, c.isDigit = true
  power : ∀ w ∈ p.power, w.Formed

/-- The number without its sign: all its digits, with the power of ten of the last one. -/
def scientific (p : Numeral) : Scientific :=
  ⟨digitsToNat 0 (p.whole ++ p.places), p.powerValue - p.places.length⟩

/-- The exact value. -/
def value (p : Numeral) : ℚ :=
  signed p.sign.negative p.scientific.value

/-- The decimal that the numeral spells. -/
def decimal (p : Numeral) : Decimal :=
  .finite p.sign.negative p.scientific.coefficient p.scientific.exponent

/-- Whether the decimal is within range. -/
def fits (p : Numeral) : Bool :=
  Decimal.inRange p.scientific.coefficient p.scientific.exponent

variable {p : Numeral}

theorem readPower?_powerText (h : p.Formed) : readPower? p.powerText = some p.powerValue := by
  rw [powerText, powerValue]
  cases hpower : p.power with
  | none => rfl
  | some w => exact WrittenPower.readPower?_text (h.power w hpower)

theorem stops_powerText (p : Numeral) : Stops Char.isDigit p.powerText := by
  rw [powerText]
  cases p.power with
  | none => exact nofun
  | some w =>
      intro c hc
      rw [← Option.some.inj hc]
      obtain hletter | hletter := w.letter_cases
      · rw [hletter]
        rfl
      · rw [hletter]
        rfl

/-- Behind the digits in front of the point no further digit follows. -/
theorem stops_fractionText (p : Numeral) : Stops Char.isDigit (p.fractionText ++ p.powerText) := by
  rw [fractionText]
  cases p.fraction with
  | none => exact p.stops_powerText
  | some digits =>
      intro c hc
      rw [← Option.some.inj hc]
      rfl

/-- The digits behind a point, and what follows them; nothing if there is no point. -/
def readPlaces (cs : List Char) : List Char × List Char :=
  match cs with
  | '.' :: rest => spanDigits rest
  | rest => ([], rest)

theorem readScientific?_eq (cs : List Char) : readScientific? cs =
    if (spanDigits cs).1.isEmpty && (readPlaces (spanDigits cs).2).1.isEmpty then none
    else (readPower? (readPlaces (spanDigits cs).2).2).map fun power =>
      ⟨digitsToNat 0 ((spanDigits cs).1 ++ (readPlaces (spanDigits cs).2).1),
        power - (readPlaces (spanDigits cs).2).1.length⟩ :=
  rfl

theorem readPlaces_fractionText (h : p.Formed) :
    readPlaces (p.fractionText ++ p.powerText) = (p.places, p.powerText) := by
  have hplaces := h.places
  cases hfraction : p.fraction with
  | some digits =>
      rw [places, hfraction, Option.getD_some] at hplaces
      rw [fractionText, places, hfraction, Option.getD_some]
      exact IsNumeral.spanDigits_append hplaces p.stops_powerText
  | none =>
      rw [fractionText, places, hfraction, Option.getD_none, List.nil_append, powerText]
      cases p.power with
      | none => rfl
      | some w =>
          obtain ⟨capital, sign, digits⟩ := w
          cases capital <;> rfl

theorem isEmpty_and_isEmpty (front back : List Char) :
    (front.isEmpty && back.isEmpty) = (front ++ back).isEmpty := by
  cases front <;> rfl

theorem readScientific?_body (h : p.Formed) : readScientific? p.body = some p.scientific := by
  have hfilled : (p.whole.isEmpty && p.places.isEmpty) = false := by
    rw [isEmpty_and_isEmpty, List.isEmpty_eq_false_iff]
    exact h.filled
  rw [readScientific?_eq, body, IsNumeral.spanDigits_append h.whole p.stops_fractionText]
  dsimp only
  rw [readPlaces_fractionText h, hfilled, if_neg Bool.false_ne_true, readPower?_powerText h]
  rfl

/-- A numeral starts with a digit or the point, but for its sign. -/
theorem exists_body_eq_cons (h : p.Formed) :
    ∃ c rest, p.body = c :: rest ∧ (c.isDigit = true ∨ c = '.') := by
  cases hwhole : p.whole with
  | cons c rest =>
      have hc := h.whole c (hwhole ▸ List.mem_cons_self)
      exact ⟨c, _, by rw [body, hwhole, List.cons_append], .inl hc⟩
  | nil =>
      have hne := h.filled
      rw [hwhole, List.nil_append, places] at hne
      cases hfraction : p.fraction with
      | none =>
          rw [hfraction] at hne
          exact absurd rfl hne
      | some digits =>
          refine ⟨'.', digits ++ p.powerText, ?_, .inr rfl⟩
          rw [body, hwhole, fractionText, hfraction]
          rfl

end Numeral

namespace Decimal

/-- A text in the form in which it is read: without the blanks around it and the underscores in it,
and with ASCII digits. -/
def plain (s : String) : List Char :=
  asciiDigits ((trim s.toList).filter (· != '_'))

/-- The decimal that a text without a sign spells. -/
def readUnsigned? (negative : Bool) (cs : List Char) : Option Decimal :=
  let word := lowered cs
  if word = "inf".toList ∨ word = "infinity".toList then some (.infinite negative)
  else if word.take 3 = "nan".toList then
    (readPayload? (word.drop 3)).map (.undefined negative false)
  else if word.take 4 = "snan".toList then
    (readPayload? (word.drop 4)).map (.undefined negative true)
  else match readScientific? cs with
    | some ⟨coefficient, exponent⟩ =>
        if inRange coefficient exponent then some (.finite negative coefficient exponent) else none
    | none => none

theorem read?_eq (s : String) :
    read? s = readUnsigned? (readSign (plain s)).1 (readSign (plain s)).2 := rfl

/-- The names of the decimals that are not finite, in small or capital letters. Digits may stand
behind those that are undefined. -/
inductive Names (negative : Bool) : List Char → Decimal → Prop
  | infinite {word : List Char}
      (h : lowered word = "inf".toList ∨ lowered word = "infinity".toList) :
      Names negative word (.infinite negative)
  | quiet {word digits : List Char} (h : lowered word = "nan".toList)
      (hdigits : ∀ c ∈ digits, c.isDigit = true) :
      Names negative (word ++ digits) (.undefined negative false (digitsToNat 0 digits))
  | signaling {word digits : List Char} (h : lowered word = "snan".toList)
      (hdigits : ∀ c ∈ digits, c.isDigit = true) :
      Names negative (word ++ digits) (.undefined negative true (digitsToNat 0 digits))

section Names

variable {negative : Bool} {word : List Char} {d : Decimal}

theorem lowered_of_isDigit {digits : List Char} (h : ∀ c ∈ digits, c.isDigit = true) :
    lowered digits = digits :=
  (List.map_congr_left fun c hc => toLower_of_isDigit (h c hc)).trans (List.map_id _)

theorem readPayload?_eq_some_iff {cs : List Char} {payload : Nat} :
    readPayload? cs = some payload ↔ (∀ c ∈ cs, c.isDigit = true) ∧ digitsToNat 0 cs = payload := by
  rw [readPayload?]
  split
  · rename_i hall
    rw [Option.some.injEq]
    exact ⟨fun h => ⟨List.all_eq_true.mp hall, h⟩, fun h => h.2⟩
  · rename_i hnone
    exact ⟨nofun, fun h => absurd (List.all_eq_true.mpr h.1) hnone⟩

/-- A name is read, with the digits behind it. -/
theorem Names.readUnsigned? (h : Names negative word d) :
    Decimal.readUnsigned? negative word = some d := by
  cases h with
  | infinite h => exact if_pos h
  | @quiet word digits h hdigits =>
      have hname : lowered (word ++ digits) = 'n' :: 'a' :: 'n' :: digits := by
        rw [lowered, List.map_append, ← lowered, ← lowered, h, lowered_of_isDigit hdigits]
        rfl
      have hpayload := readPayload?_eq_some_iff.mpr ⟨hdigits, rfl⟩
      rw [Decimal.readUnsigned?, hname]
      simp [hpayload]
  | @signaling word digits h hdigits =>
      have hname : lowered (word ++ digits) = 's' :: 'n' :: 'a' :: 'n' :: digits := by
        rw [lowered, List.map_append, ← lowered, ← lowered, h, lowered_of_isDigit hdigits]
        rfl
      have hpayload := readPayload?_eq_some_iff.mpr ⟨hdigits, rfl⟩
      rw [Decimal.readUnsigned?, hname]
      simp [hpayload]

/-- A numeral is no name. -/
theorem readUnsigned?_body {p : Numeral} (h : p.Formed) :
    readUnsigned? negative p.body =
      if p.fits then some (finite negative p.scientific.coefficient p.scientific.exponent)
      else none := by
  obtain ⟨c, rest, hbody, hc⟩ := Numeral.exists_body_eq_cons h
  have hlower : c.toLower = c := by
    obtain hdigit | rfl := hc
    · exact toLower_of_isDigit hdigit
    · rfl
  have hne : ∀ letter : Char, letter.isDigit = false → letter ≠ '.' → c ≠ letter := by
    rintro letter hletter hpoint rfl
    obtain hdigit | rfl := hc
    · rw [hletter] at hdigit
      cases hdigit
    · exact hpoint rfl
  have hname : lowered p.body = c :: lowered rest := by
    rw [hbody, lowered, List.map_cons, hlower]
    rfl
  have hinfinite :
      ¬ (c :: lowered rest = "inf".toList ∨ c :: lowered rest = "infinity".toList) := by
    rintro (heq | heq)
    · exact hne 'i' (by decide) (by decide) (List.cons.inj heq).1
    · exact hne 'i' (by decide) (by decide) (List.cons.inj heq).1
  have hquiet : (c :: lowered rest).take 3 ≠ "nan".toList :=
    fun heq => hne 'n' (by decide) (by decide) (List.cons.inj heq).1
  have hsignaling : (c :: lowered rest).take 4 ≠ "snan".toList :=
    fun heq => hne 's' (by decide) (by decide) (List.cons.inj heq).1
  rw [readUnsigned?, hname, Numeral.readScientific?_body h]
  exact (if_neg hinfinite).trans ((if_neg hquiet).trans (if_neg hsignaling))

end Names

section Reading

variable {s : String} {d : Decimal}

theorem readSign_text {p : Numeral} (h : p.Formed) :
    readSign p.text = (p.sign.negative, p.body) := by
  apply p.sign.readSign_append
  obtain ⟨c, rest, hbody, hc⟩ := Numeral.exists_body_eq_cons h
  intro d hd
  rw [hbody, List.head?_cons, Option.mem_some_iff] at hd
  subst hd
  constructor
  · rintro rfl
    obtain hdigit | hpoint := hc
    · cases hdigit
    · cases hpoint
  · rintro rfl
    obtain hdigit | hpoint := hc
    · cases hdigit
    · cases hpoint

theorem Names.readSign_append {sign : Sign} {word : List Char} (h : Names sign.negative word d) :
    readSign (sign.text ++ word) = (sign.negative, word) := by
  apply sign.readSign_append
  intro c hc
  have hletter : ∀ {cs name : List Char} {first : Char}, lowered cs = first :: name →
      first ≠ '-' → first ≠ '+' → ∀ digits : List Char, c ∈ (cs ++ digits).head? →
      c ≠ '-' ∧ c ≠ '+' := by
    intro cs name first hcs hminus hplus digits hc
    cases cs with
    | nil => cases hcs
    | cons letter rest =>
        rw [List.cons_append, List.head?_cons, Option.mem_some_iff] at hc
        subst hc
        have hfirst : letter.toLower = first := (List.cons.inj hcs).1
        constructor
        · rintro rfl
          exact hminus hfirst.symm
        · rintro rfl
          exact hplus hfirst.symm
  cases h with
  | infinite h =>
      rw [← List.append_nil word] at hc
      obtain h | h := h
      · exact hletter h (by decide) (by decide) [] hc
      · exact hletter h (by decide) (by decide) [] hc
  | quiet h hdigits => exact hletter h (by decide) (by decide) _ hc
  | signaling h hdigits => exact hletter h (by decide) (by decide) _ hc

/-- A numeral spells its decimal, if that is within range. -/
theorem read?_of_plain {p : Numeral} (h : p.Formed) (hs : plain s = p.text) :
    read? s = if p.fits then some p.decimal else none := by
  rw [read?_eq, hs, readSign_text h]
  exact readUnsigned?_body h

end Reading

end Decimal

namespace Numeral

variable {p : Numeral}

/-- Whether a character may stand in a numeral. -/
def isPart (c : Char) : Bool :=
  c.isDigit || ['+', '-', '.', 'e', 'E'].contains c

theorem isPart_of_isDigit {c : Char} (h : c.isDigit = true) : isPart c = true := by
  rw [isPart, h, Bool.true_or]

theorem isPart_of_mem_sign (sign : Sign) : ∀ c ∈ sign.text, isPart c = true := by
  cases sign with
  | absent => exact nofun
  | plus | minus => exact List.forall_mem_singleton.mpr rfl

theorem isPart_of_mem_power {w : WrittenPower} (h : w.Formed) : ∀ c ∈ w.text, isPart c = true := by
  intro c hc
  obtain rfl | hc := List.mem_cons.mp hc
  · obtain hletter | hletter := w.letter_cases
    · rw [hletter]
      decide
    · rw [hletter]
      decide
  · obtain hc | hc := List.mem_append.mp hc
    · exact isPart_of_mem_sign w.sign c hc
    · exact isPart_of_isDigit (h.digits c hc)

theorem isPart_of_mem_text (h : p.Formed) : ∀ c ∈ p.text, isPart c = true := by
  have hfraction : ∀ c ∈ p.fractionText, isPart c = true := by
    have hplaces := h.places
    rw [fractionText]
    cases hfraction : p.fraction with
    | none => exact nofun
    | some digits =>
        rw [places, hfraction, Option.getD_some] at hplaces
        exact List.forall_mem_cons.mpr ⟨by decide, fun c hc => isPart_of_isDigit (hplaces c hc)⟩
  have hpower : ∀ c ∈ p.powerText, isPart c = true := by
    rw [powerText]
    cases hpower : p.power with
    | none => exact nofun
    | some w => exact isPart_of_mem_power (h.power w hpower)
  rw [text, body, List.forall_mem_append, List.forall_mem_append, List.forall_mem_append]
  exact ⟨isPart_of_mem_sign p.sign, fun c hc => isPart_of_isDigit (h.whole c hc), hfraction, hpower⟩

/-- The characters of a numeral are visible ones of ASCII, and none is an underscore. -/
theorem plain_of_isPart {c : Char} (h : isPart c = true) :
    isBlank c = false ∧ (c != '_') = true ∧ asciiDigits [c] = [c] := by
  have hsmall : c.toNat < 102 := by
    rw [isPart, Bool.or_eq_true, isDigit_iff, List.contains_iff_mem] at h
    obtain hdigit | hmem := h
    · omega
    · have hall : ∀ d ∈ ['+', '-', '.', 'e', 'E'], d.toNat < 102 := by simp
      exact hall c hmem
  exact of_code_lt (P := fun c => isPart c = true →
      isBlank c = false ∧ (c != '_') = true ∧ asciiDigits [c] = [c])
    (by decide +kernel) hsmall h

/-- A numeral is read as it is written. -/
theorem plain_eq_text (h : p.Formed) {s : String} (hs : s.toList = p.text) :
    Decimal.plain s = p.text := by
  have hparts := fun c hc => plain_of_isPart (isPart_of_mem_text h c hc)
  have hne : p.text ≠ [] := by
    obtain ⟨c, rest, hbody, -⟩ := exists_body_eq_cons h
    rw [text, hbody]
    exact List.append_ne_nil_of_right_ne_nil _ (List.cons_ne_nil _ _)
  have htrim : trim p.text = p.text := by
    have hblanks := trim_blanks hne (fun c hc => (hparts c hc).1) 0 0
    rwa [List.replicate_zero, List.nil_append, List.append_nil] at hblanks
  have hfilter : p.text.filter (· != '_') = p.text :=
    List.filter_eq_self.mpr fun c hc => (hparts c hc).2.1
  rw [Decimal.plain, hs, htrim, hfilter]
  refine (List.map_congr_left fun c hc => ?_).trans (List.map_id _)
  exact (List.cons.inj (hparts c hc).2.2).1

section Written

/-- A power of ten as it is written behind the digits of a decimal. -/
def writtenPower (power : Int) : WrittenPower :=
  ⟨true, if power < 0 then .minus else .plus, Nat.toDigits 10 power.natAbs⟩

theorem formed_writtenPower (power : Int) : (writtenPower power).Formed :=
  ⟨Nat.toDigits_ne_nil, isDigit_toDigits _⟩

theorem value_writtenPower (power : Int) : (writtenPower power).value = power := by
  rw [WrittenPower.value, writtenPower]
  dsimp only
  rw [digitsToNat_toDigits]
  split
  · rename_i hnegative
    change -(power.natAbs : Int) = power
    omega
  · rename_i hpositive
    change (power.natAbs : Int) = power
    omega

theorem text_writtenPower (power : Int) : (writtenPower power).text =
    'E' :: (if power < 0 then '-' else '+') :: Nat.toDigits 10 power.natAbs := by
  rw [WrittenPower.text, writtenPower]
  split <;> rfl

variable (negative : Bool) (coefficient : Nat) (exponent : Int)

/-- The parts that a finite decimal is written with. -/
def ofFinite : Numeral :=
  let digits := Nat.toDigits 10 coefficient
  let leading := exponent + digits.length - 1
  let sign := Sign.ofNegative negative
  if exponent ≤ 0 ∧ -6 ≤ leading then
    if exponent = 0 then ⟨sign, digits, none, none⟩
    else if 0 ≤ leading then
      ⟨sign, digits.take (leading.toNat + 1), some (digits.drop (leading.toNat + 1)), none⟩
    else ⟨sign, ['0'], some (List.replicate ((-leading).toNat - 1) '0' ++ digits), none⟩
  else
    ⟨sign, digits.take 1, if digits.length = 1 then none else some (digits.drop 1),
      some (writtenPower leading)⟩

theorem text_ofFinite :
    (Decimal.finite negative coefficient exponent).text.toList =
      (ofFinite negative coefficient exponent).text := by
  rw [Decimal.text, String.toList_ofList, ← Sign.text_ofNegative, ofFinite]
  split
  · split
    · simp [text, body, fractionText, powerText]
    · split
      · simp [text, body, fractionText, powerText]
      · simp [text, body, fractionText, powerText]
  · simp only [text, body, fractionText, powerText, text_writtenPower]
    split
    · simp
    · simp

theorem formed_ofFinite : (ofFinite negative coefficient exponent).Formed := by
  have hdigits := isDigit_toDigits coefficient
  have hne : Nat.toDigits 10 coefficient ≠ [] := Nat.toDigits_ne_nil
  rw [ofFinite]
  generalize Nat.toDigits 10 coefficient = digits at *
  have htake : ∀ count, digits.take (count + 1) ≠ [] := by
    intro count hnil
    rw [List.take_eq_nil_iff] at hnil
    exact hnil.elim nofun hne
  have hfront : ∀ count, ∀ c ∈ digits.take count, c.isDigit = true :=
    fun count c hc => hdigits c (List.mem_of_mem_take hc)
  have hback : ∀ count, ∀ c ∈ digits.drop count, c.isDigit = true :=
    fun count c hc => hdigits c (List.mem_of_mem_drop hc)
  have hzero : ∀ c ∈ ['0'], c.isDigit = true := List.forall_mem_singleton.mpr rfl
  split
  · split
    · exact ⟨List.append_ne_nil_of_left_ne_nil hne _, hdigits, nofun, nofun⟩
    · split
      · exact ⟨List.append_ne_nil_of_left_ne_nil (htake _) _, hfront _, hback _, nofun⟩
      · exact ⟨List.cons_ne_nil _ _, hzero, isDigit_zeros hdigits, nofun⟩
  · refine ⟨List.append_ne_nil_of_left_ne_nil (htake 0) _, hfront 1, ?_, ?_⟩
    · rw [places]
      split
      · exact nofun
      · exact hback 1
    · rintro _ ⟨⟩
      exact formed_writtenPower _

theorem sign_ofFinite :
    (ofFinite negative coefficient exponent).sign = Sign.ofNegative negative := by
  rw [ofFinite]
  split
  · split
    · rfl
    · split <;> rfl
  · rfl

theorem scientific_ofFinite :
    (ofFinite negative coefficient exponent).scientific = ⟨coefficient, exponent⟩ := by
  have hvalue := digitsToNat_toDigits coefficient
  have hpositive : 0 < (Nat.toDigits 10 coefficient).length :=
    List.length_pos_of_ne_nil Nat.toDigits_ne_nil
  rw [ofFinite, scientific, Scientific.mk.injEq]
  generalize Nat.toDigits 10 coefficient = digits at *
  split
  · split
    · rename_i hzero
      simp [places, powerValue, hvalue, hzero]
    · split
      · rename_i hleading
        simp only [places, powerValue, Option.getD_some, List.take_append_drop, List.length_drop]
        exact ⟨hvalue, by omega⟩
      · simp only [places, powerValue, Option.getD_some, List.length_append, List.length_replicate]
        exact ⟨(digitsToNat_zeros _ _).trans hvalue, by omega⟩
  · simp only [places, powerValue, value_writtenPower]
    split
    · rename_i hone
      simp only [Option.getD_none, List.append_nil, List.length_nil]
      rw [List.take_of_length_le hone.le]
      exact ⟨hvalue, by omega⟩
    · simp only [Option.getD_some, List.take_append_drop, List.length_drop]
      exact ⟨hvalue, by omega⟩

theorem decimal_ofFinite :
    (ofFinite negative coefficient exponent).decimal = .finite negative coefficient exponent := by
  rw [decimal, scientific_ofFinite, sign_ofFinite, Sign.negative_ofNegative]

/-- A finite decimal within range is read from what it is written as. -/
theorem read?_text (h : Decimal.inRange coefficient exponent = true) :
    Decimal.read? (Decimal.finite negative coefficient exponent).text =
      some (.finite negative coefficient exponent) := by
  have hformed := formed_ofFinite negative coefficient exponent
  have hplain := plain_eq_text hformed (text_ofFinite negative coefficient exponent)
  have hfits : (ofFinite negative coefficient exponent).fits = true := by
    rw [fits, scientific_ofFinite]
    exact h
  rw [Decimal.read?_of_plain hformed hplain, if_pos hfits, decimal_ofFinite]

end Written

end Numeral

end SemanticMarkup.Number
