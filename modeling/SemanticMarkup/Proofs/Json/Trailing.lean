import Mathlib.Data.List.Find
import SemanticMarkup.Proofs.Document.Detection
import SemanticMarkup.Proofs.Json.Inversion
import SemanticMarkup.Proofs.Number.Written

/-!
# Spaces behind a JSON text

Nothing that is read ends with a space, so spaces behind a text do not matter: what is
read with them is read without them. The proof is by induction on the steps of the
readers. It also shows that the fuel is never used up: each step reads a character.
-/

namespace SemanticMarkup.Json

open SemanticMarkup.Number SemanticMarkup.Text

variable {α : Type} {cs tail rest after : List Char} {v : Value} {fuel start : Nat}

/-- There are only spaces. -/
def IsSpaces (tail : List Char) : Prop :=
  ∀ c ∈ tail, isSpace c = true

theorem skipSpaces_eq_nil_iff : skipSpaces tail = [] ↔ IsSpaces tail := by
  induction tail with
  | nil => exact iff_of_true rfl nofun
  | cons c more ih =>
      rw [skipSpaces, List.dropWhile_cons, IsSpaces, List.forall_mem_cons]
      split
      · rename_i hc
        rw [← skipSpaces, ih]
        exact (and_iff_right hc).symm
      · rename_i hc
        exact iff_of_false (List.cons_ne_nil _ _) fun h => hc h.1

/-- No character of a class that has no spaces comes first. -/
theorem IsSpaces.stops (h : IsSpaces tail) {member : Char → Bool}
    (hmember : ∀ c ∈ [' ', '\t', '\n', '\r'], member c = false) : Directive.Stops member tail := by
  intro c hc
  have hspace := h c (List.mem_of_mem_head? hc)
  exact hmember c (by simpa [isSpace, or_assoc] using hspace)

/-- No single character that is no space comes first. -/
theorem IsSpaces.ne_cons (h : IsSpaces tail) {c : Char} (hc : isSpace c = false)
    (more : List Char) : tail ≠ c :: more := by
  rintro rfl
  rw [h c List.mem_cons_self] at hc
  cases hc

/-- Spaces behind a text that is not blank stay behind it. -/
theorem IsSpaces.skipSpaces_append (h : IsSpaces tail) (hne : Json.skipSpaces (cs ++ tail) ≠ []) :
    Json.skipSpaces (cs ++ tail) = Json.skipSpaces cs ++ tail := by
  rw [Json.skipSpaces, List.dropWhile_append] at hne ⊢
  split at hne
  · exact absurd (skipSpaces_eq_nil_iff.mpr h) hne
  · rename_i hcs
    rw [if_neg hcs, Json.skipSpaces]

theorem skipSpaces_append_of_cons {c : Char} (h : skipSpaces cs = c :: rest)
    (tail : List Char) : skipSpaces (cs ++ tail) = c :: (rest ++ tail) := by
  rw [skipSpaces] at h ⊢
  rw [List.dropWhile_append, h, List.isEmpty_cons, if_neg Bool.false_ne_true, List.cons_append]

theorem IsSpaces.skipSpaces_cons (h : IsSpaces tail) {c : Char} {more : List Char}
    (hc : isSpace c = false) (heq : Json.skipSpaces (cs ++ tail) = c :: more) :
    ∃ rest, Json.skipSpaces cs = c :: rest ∧ more = rest ++ tail := by
  rw [h.skipSpaces_append (by rw [heq]; exact List.cons_ne_nil _ _)] at heq
  obtain ⟨hnil, htail⟩ | ⟨rest, hcs, hmore⟩ := List.append_eq_cons_iff.mp heq
  · exact absurd htail (h.ne_cons hc more)
  · exact ⟨rest, hcs, hmore⟩

/-! ## Strings -/

theorem suffix_of_joinUnit {unit code : Nat} (h : joinUnit unit cs = .ok (code, after)) :
    after <:+ cs :=
  (within_joinUnit (List.suffix_refl cs)).of_ok h

theorem suffix_of_readUnits {code : Nat} (h : readUnits cs = .ok (code, after)) : after <:+ cs :=
  (within_readUnits (List.suffix_refl cs)).of_ok h

theorem CodeStep.suffix {code : Nat} (h : CodeStep cs code after) :
    after <:+ cs ∧ after.length < cs.length := by
  cases h with
  | @unit rest _ _ h =>
      have hafter := suffix_of_readUnits h
      have hlength := hafter.length_le
      exact ⟨hafter.trans (List.suffix_cons _ _), by simpa using Nat.lt_succ_of_le hlength⟩
  | @letter c _ rest hc h =>
      refine ⟨(List.suffix_cons _ _).trans (List.suffix_cons _ _), ?_⟩
      rw [List.length_cons, List.length_cons]
      omega
  | plain rest hquote hback h =>
      exact ⟨List.suffix_cons _ _, Nat.lt_succ_self _⟩

/-- A string ends with a quote, and what comes behind it is left. -/
theorem suffix_of_readCodes {codes : List Nat} (h : readCodes start fuel cs = .ok (codes, rest)) :
    '\x22' :: rest <:+ cs := by
  induction fuel generalizing cs codes with
  | zero => cases h
  | succ fuel ih =>
      obtain ⟨rfl, -⟩ | ⟨code, after, others, hstep, hothers, -⟩ := readCodes_succ_iff.mp h
      · exact List.suffix_refl _
      · exact (ih hothers).trans hstep.suffix.1

theorem suffix_of_readString (h : readString cs = .ok (v, rest)) : '\x22' :: rest <:+ cs := by
  obtain ⟨codes, hcodes, -⟩ := readString_eq_ok_iff.mp h
  exact suffix_of_readCodes hcodes

/-- A text starts with the two characters that it starts with in front of a tail. -/
theorem exists_of_append_eq_cons_cons {c d : Char} (hlong : 2 ≤ cs.length)
    (h : cs ++ tail = c :: d :: rest) : ∃ more, cs = c :: d :: more ∧ rest = more ++ tail := by
  match cs, hlong with
  | a :: b :: more, _ =>
      simp only [List.cons_append, List.cons.injEq] at h
      obtain ⟨rfl, rfl, rfl⟩ := h
      exact ⟨more, rfl, rfl⟩

/-- What comes behind a long enough text does not matter for a pair of halves. -/
theorem joinUnit_append_of_lt {unit code : Nat} (hlong : 6 < cs.length)
    (h : joinUnit unit (cs ++ tail) = .ok (code, after)) :
    ∃ back, after = back ++ tail ∧ joinUnit unit cs = .ok (code, back) := by
  unfold joinUnit at h
  split at h
  · rename_i hhigh
    have hpair : 0xD800 ≤ unit ∧ unit < 0xDC00 ∧ 6 < cs.length := ⟨hhigh.1, hhigh.2.1, hlong⟩
    split at h
    · rename_i second hsecond
      obtain ⟨more, rfl, rfl⟩ := exists_of_append_eq_cons_cons (by omega) hsecond
      have hmore : 4 ≤ more.length := by
        rw [List.length_cons, List.length_cons] at hlong
        omega
      rw [List.take_append_of_le_length hmore, List.drop_append_of_le_length hmore] at h
      rw [joinUnit, if_pos hpair]
      split at h
      · cases h
      · split at h
        · rename_i hlow
          rw [Except.ok.injEq, Prod.mk.injEq] at h
          obtain ⟨rfl, rfl⟩ := h
          exact ⟨more.drop 4, rfl, if_pos hlow⟩
        · rename_i hlow
          rw [Except.ok.injEq, Prod.mk.injEq] at h
          obtain ⟨rfl, rfl⟩ := h
          exact ⟨_, rfl, if_neg hlow⟩
    · rename_i hother
      rw [Except.ok.injEq, Prod.mk.injEq] at h
      obtain ⟨rfl, rfl⟩ := h
      refine ⟨cs, rfl, ?_⟩
      rw [joinUnit, if_pos hpair]
      rintro second rfl
      exact hother _ rfl
  · rename_i hhigh
    rw [Except.ok.injEq, Prod.mk.injEq] at h
    obtain ⟨rfl, rfl⟩ := h
    refine ⟨cs, rfl, if_neg fun hcond => hhigh ⟨hcond.1, hcond.2.1, ?_⟩⟩
    rw [List.length_append]
    omega

theorem joinUnit_append {unit code : Nat} (htail : '\x22' ∉ tail) (hafter : '\x22' ∈ after)
    (h : joinUnit unit (cs ++ tail) = .ok (code, after)) :
    ∃ back, after = back ++ tail ∧ joinUnit unit cs = .ok (code, back) := by
  by_cases hlong : 6 < cs.length
  · exact joinUnit_append_of_lt hlong h
  · -- a second half would leave nothing but an end of the tail, where no string ends
    have hshort : joinUnit unit cs = .ok (unit, cs) := if_neg fun hcond => hlong hcond.2.2
    have hsingle : (code, after) = (unit, cs ++ tail) := by
      unfold joinUnit at h
      split at h
      · split at h
        · rename_i second hsecond
          split at h
          · cases h
          · split at h
            · rw [Except.ok.injEq, Prod.mk.injEq] at h
              obtain ⟨-, rfl⟩ := h
              have hdrop : second.drop 4 = (cs ++ tail).drop 6 := by
                rw [hsecond, List.drop_succ_cons, List.drop_succ_cons]
              rw [hdrop, List.drop_append, List.drop_eq_nil_of_le (Nat.le_of_not_lt hlong),
                List.nil_append] at hafter
              exact absurd (List.mem_of_mem_drop hafter) htail
            · exact (Except.ok.inj h).symm
        · exact (Except.ok.inj h).symm
      · exact (Except.ok.inj h).symm
    obtain ⟨rfl, rfl⟩ := Prod.mk.inj hsingle
    exact ⟨cs, rfl, hshort⟩

/-- The escape behind `u` stays the same without what comes behind a string. -/
theorem readUnits_append {code : Nat} (htail : '\x22' ∉ tail) (hafter : '\x22' ∈ after)
    (h : readUnits ('u' :: (cs ++ tail)) = .ok (code, after)) :
    ∃ back, after = back ++ tail ∧ readUnits ('u' :: cs) = .ok (code, back) := by
  simp only [readUnits, List.drop_succ_cons, List.drop_zero] at h ⊢
  split at h
  · cases h
  · split at h
    · cases h
    · rename_i unit hunit
      have hlong : 4 < cs.length := by
        have hmem := (suffix_of_joinUnit h).subset hafter
        rw [List.drop_append, List.mem_append] at hmem
        have hdrop := hmem.resolve_right fun hmem => htail (List.mem_of_mem_drop hmem)
        have hpos := List.length_pos_of_mem hdrop
        rw [List.length_drop] at hpos
        omega
      rw [List.take_append_of_le_length (Nat.le_of_lt hlong)] at hunit
      rw [List.drop_append_of_le_length (Nat.le_of_lt hlong)] at h
      rw [if_neg (Nat.not_le_of_lt hlong), hunit]
      exact joinUnit_append htail hafter h

/-- One step inside a string is the same without what comes behind the string. -/
theorem CodeStep.of_append {code : Nat} (htail : '\x22' ∉ tail) (hafter : '\x22' ∈ after)
    (h : CodeStep (cs ++ tail) code after) :
    ∃ back, after = back ++ tail ∧ CodeStep cs code back := by
  cases cs with
  | nil => exact absurd (h.suffix.1.subset hafter) htail
  | cons c cs =>
      rw [List.cons_append] at h
      generalize htext : cs ++ tail = text at h
      cases h with
      | @unit more _ _ hunit =>
          obtain ⟨rfl, rfl⟩ | ⟨cs, rfl, rfl⟩ := List.append_eq_cons_iff.mp htext
          · exact absurd ((suffix_of_readUnits hunit).subset hafter) htail
          · obtain ⟨back, rfl, hback⟩ := readUnits_append htail hafter hunit
            exact ⟨back, rfl, .unit hback⟩
      | letter more hc hcode =>
          obtain ⟨rfl, rfl⟩ | ⟨cs, rfl, rfl⟩ := List.append_eq_cons_iff.mp htext
          · exact absurd (List.mem_cons_of_mem _ hafter) htail
          · exact ⟨cs, rfl, .letter cs hc hcode⟩
      | plain more hquote hback hlow =>
          exact ⟨cs, htext.symm, .plain cs hquote hback hlow⟩

/-- A string is read in the same way without what comes behind it. -/
theorem readCodes_append {codes : List Nat} (htail : '\x22' ∉ tail)
    (h : readCodes start fuel (cs ++ tail) = .ok (codes, after)) :
    ∃ back, after = back ++ tail ∧ ∀ start' fuel', cs.length < fuel' →
      readCodes start' fuel' cs = .ok (codes, back) := by
  induction fuel generalizing cs codes with
  | zero => cases h
  | succ fuel ih =>
      obtain ⟨hquote, rfl⟩ | ⟨code, rest, others, hstep, hothers, rfl⟩ := readCodes_succ_iff.mp h
      · obtain ⟨rfl, htail'⟩ | ⟨more, rfl, rfl⟩ := List.append_eq_cons_iff.mp hquote
        · exact absurd (htail' ▸ List.mem_cons_self) htail
        · refine ⟨more, rfl, fun start' fuel' hfuel => ?_⟩
          obtain ⟨fuel', rfl⟩ := Nat.exists_eq_add_one_of_ne_zero (Nat.ne_zero_of_lt hfuel)
          exact readCodes_succ_iff.mpr (.inl ⟨rfl, rfl⟩)
      · obtain ⟨front, rfl, hfront⟩ := hstep.of_append htail
          ((suffix_of_readCodes hothers).subset List.mem_cons_self)
        obtain ⟨back, rfl, hread⟩ := ih hothers
        refine ⟨back, rfl, fun start' fuel' hfuel => ?_⟩
        have hlength := hfront.suffix.2
        obtain ⟨fuel', rfl⟩ := Nat.exists_eq_add_one_of_ne_zero (Nat.ne_zero_of_lt hfuel)
        have hback := hread start' fuel' (by omega)
        exact readCodes_succ_iff.mpr (.inr ⟨code, front, others, hfront, hback, rfl⟩)

theorem readString_append (htail : '\x22' ∉ tail) (h : readString (cs ++ tail) = .ok (v, after)) :
    ∃ back, after = back ++ tail ∧ readString cs = .ok (v, back) := by
  obtain ⟨codes, hcodes, rfl⟩ := readString_eq_ok_iff.mp h
  obtain ⟨back, rfl, hread⟩ := readCodes_append htail hcodes
  exact ⟨back, rfl, readString_eq_ok_iff.mpr ⟨codes, hread _ _ (Nat.lt_succ_self _), rfl⟩⟩

/-! ## Words and numbers -/

/-- What is found and left without a tail, with the tail behind what is left. -/
def withTail (tail : List Char) (found : α × List Char) : α × List Char :=
  (found.1, found.2 ++ tail)

theorem isPrefixOf_append {word : List Char} (hword : ∀ c ∈ word, isSpace c = false)
    (htail : IsSpaces tail) : word.isPrefixOf (cs ++ tail) = word.isPrefixOf cs := by
  induction word generalizing cs with
  | nil => rw [List.isPrefixOf_nil_left, List.isPrefixOf_nil_left]
  | cons c word ih =>
      obtain ⟨hc, hword⟩ := List.forall_mem_cons.mp hword
      cases cs with
      | nil =>
          cases tail with
          | nil => rfl
          | cons d tail =>
              have hne : c ≠ d := by
                rintro rfl
                exact htail.ne_cons hc _ rfl
              rw [List.nil_append, List.isPrefixOf_cons_cons, beq_eq_false_iff_ne.mpr hne]
              rfl
      | cons d cs =>
          rw [List.cons_append, List.isPrefixOf_cons_cons, List.isPrefixOf_cons_cons, ih hword]

theorem readWord?_append (htail : IsSpaces tail) :
    readWord? (cs ++ tail) = (readWord? cs).map (withTail tail) := by
  have hfind : (wordValues.find? fun w => w.1.toList.isPrefixOf (cs ++ tail)) =
      wordValues.find? fun w => w.1.toList.isPrefixOf cs := by
    have hwords : ∀ w ∈ wordValues, ∀ c ∈ w.1.toList, isSpace c = false := by
      simp [wordValues, isSpace]
    exact List.find?_congr fun w hw => isPrefixOf_append (hwords w hw) htail
  rw [readWord?, readWord?, hfind, Option.map_map]
  cases hw : wordValues.find? fun w => w.1.toList.isPrefixOf cs with
  | none => rfl
  | some w =>
      have hfound := List.find?_some hw
      have hprefix : w.1.toList <+: cs := List.isPrefixOf_iff_prefix.mp hfound
      have hlength : w.1.length ≤ cs.length := hprefix.length_le
      simp [withTail, List.drop_append_of_le_length hlength]

theorem IsSpaces.takeWhile_append (htail : IsSpaces tail) {member : Char → Bool}
    (hmember : ∀ c ∈ [' ', '\t', '\n', '\r'], member c = false) (cs : List Char) :
    (cs ++ tail).takeWhile member = cs.takeWhile member ∧
      (cs ++ tail).dropWhile member = cs.dropWhile member ++ tail := by
  have hstops := htail.stops hmember
  induction cs with
  | nil => exact ⟨Directive.takeWhile_run nofun hstops, Directive.dropWhile_run nofun hstops⟩
  | cons c cs ih =>
      by_cases hc : member c = true
      · simp [hc, ih]
      · simp [hc]

theorem spanDigits_append (htail : IsSpaces tail) (cs : List Char) :
    spanDigits (cs ++ tail) = withTail tail (spanDigits cs) := by
  have hdigit : ∀ c ∈ [' ', '\t', '\n', '\r'], c.isDigit = false := by simp
  obtain ⟨htake, hdrop⟩ := htail.takeWhile_append hdigit cs
  rw [spanDigits, spanDigits, htake, hdrop, withTail]

theorem spanFraction_point (rest : List Char) : spanFraction ('.' :: rest) =
    if (spanDigits rest).1.isEmpty then ([], '.' :: rest) else spanDigits rest :=
  rfl

theorem spanFraction_append (htail : IsSpaces tail) (cs : List Char) :
    spanFraction (cs ++ tail) = withTail tail (spanFraction cs) := by
  have hother {cs : List Char} (h : ∀ rest, cs ≠ '.' :: rest) : spanFraction cs = ([], cs) := by
    rw [spanFraction]
    exact h
  cases cs with
  | nil => exact hother (htail.ne_cons (by decide))
  | cons c cs =>
      by_cases hc : c = '.'
      · subst hc
        rw [List.cons_append, spanFraction_point, spanFraction_point, spanDigits_append htail,
          withTail]
        split <;> rfl
      · have hsame {cs : List Char} : spanFraction (c :: cs) = ([], c :: cs) :=
          hother fun rest heq => hc (List.cons.inj heq).1
        rw [List.cons_append, hsame, hsame, withTail, List.cons_append]

theorem readSign_append (htail : IsSpaces tail) (cs : List Char) :
    readSign (cs ++ tail) = withTail tail (readSign cs) := by
  have hother {cs : List Char} (hminus : ∀ rest, cs ≠ '-' :: rest)
      (hplus : ∀ rest, cs ≠ '+' :: rest) : readSign cs = (false, cs) := by
    rw [readSign]
    · exact hminus
    · exact hplus
  cases cs with
  | nil => exact hother (htail.ne_cons (by decide)) (htail.ne_cons (by decide))
  | cons c cs =>
      by_cases hminus : c = '-'
      · subst hminus
        rfl
      · by_cases hplus : c = '+'
        · subst hplus
          rfl
        · have hsame {cs : List Char} : readSign (c :: cs) = (false, c :: cs) :=
            hother (fun rest heq => hminus (List.cons.inj heq).1)
              fun rest heq => hplus (List.cons.inj heq).1
          rw [List.cons_append, hsame, hsame, withTail, List.cons_append]

theorem spanPower_append (htail : IsSpaces tail) (cs : List Char) :
    spanPower (cs ++ tail) = withTail tail (spanPower cs) := by
  cases cs with
  | nil =>
      cases tail with
      | nil => rfl
      | cons c tail =>
          rw [List.nil_append, spanPower, if_neg]
          · rfl
          · rintro (rfl | rfl)
            · exact htail.ne_cons (by decide) _ rfl
            · exact htail.ne_cons (by decide) _ rfl
  | cons c cs =>
      rw [List.cons_append, spanPower, spanPower]
      simp only [readSign_append htail, spanDigits_append htail, withTail]
      by_cases hletter : c = 'e' ∨ c = 'E'
      · rw [if_pos hletter, if_pos hletter]
        by_cases hdigits : (spanDigits (readSign cs).2).1.isEmpty = true
        · rw [if_pos hdigits, if_pos hdigits, List.cons_append]
        · rw [if_neg hdigits, if_neg hdigits]
      · rw [if_neg hletter, if_neg hletter, List.cons_append]

theorem IsSpaces.head?_append (htail : IsSpaces tail) {c : Char} (hc : isSpace c = false)
    (cs : List Char) : ((cs ++ tail).head? == some c) = (cs.head? == some c) := by
  cases cs with
  | nil =>
      rw [List.nil_append, List.head?_nil, Bool.eq_iff_iff, beq_iff_eq, beq_iff_eq]
      refine iff_of_false (fun hhead => ?_) nofun
      obtain ⟨more, hmore⟩ := List.head?_eq_some_iff.mp hhead
      exact htail.ne_cons hc more hmore
  | cons d cs => rfl

/-- A sign or a zero in front is left out in the same way with spaces behind the text. -/
theorem drop_append_of_head? {c : Char} (h : (cs.head? == some c) = true) (tail : List Char) :
    (cs ++ tail).drop 1 = cs.drop 1 ++ tail := by
  obtain ⟨rest, rfl⟩ := List.head?_eq_some_iff.mp (beq_iff_eq.mp h)
  rfl

/-- A number does not end with a space. -/
theorem readNumber_append (htail : IsSpaces tail) (h : readNumber (cs ++ tail) = .ok (v, after)) :
    ∃ back, after = back ++ tail ∧ readNumber cs = .ok (v, back) := by
  unfold readNumber at h ⊢
  rw [htail.head?_append (by decide)] at h
  dsimp only at h ⊢
  have hunsigned : (if (cs.head? == some '-') = true then (cs ++ tail).drop 1 else cs ++ tail) =
      (if (cs.head? == some '-') = true then cs.drop 1 else cs) ++ tail := by
    split
    · rw [drop_append_of_head? ‹_›]
    · rfl
  rw [hunsigned] at h
  generalize (if (cs.head? == some '-') = true then cs.drop 1 else cs) = unsigned at h ⊢
  have hwhole : (if ((unsigned ++ tail).head? == some '0') = true
      then (['0'], (unsigned ++ tail).drop 1) else spanDigits (unsigned ++ tail)) =
      withTail tail (if (unsigned.head? == some '0') = true then (['0'], unsigned.drop 1)
        else spanDigits unsigned) := by
    rw [htail.head?_append (by decide)]
    split
    · rw [drop_append_of_head? ‹_›, withTail]
    · exact spanDigits_append htail unsigned
  rw [hwhole] at h
  generalize (if (unsigned.head? == some '0') = true then (['0'], unsigned.drop 1)
    else spanDigits unsigned) = parts at h ⊢
  simp only [withTail, spanFraction_append htail, spanPower_append htail] at h
  split at h
  · cases h
  · rename_i hdigits
    rw [if_neg hdigits]
    split at h
    · rename_i hwhole
      rw [if_pos hwhole]
      split at h
      · cases h
      · rename_i hsize
        cases h
        exact ⟨_, rfl, if_neg hsize⟩
    · rename_i hpart
      cases h
      exact ⟨_, rfl, if_neg hpart⟩

/-! ## Values -/

theorem suffix_of_readValue (h : readValue fuel cs = .ok (v, rest)) : rest <:+ cs :=
  ((within_readers cs fuel).1 (List.suffix_refl cs)).of_ok h

theorem length_skipSpaces_le (cs : List Char) : (skipSpaces cs).length ≤ cs.length :=
  (List.dropWhile_suffix _).length_le

theorem StartsPlain.of_append (h : StartsPlain (cs ++ tail)) : StartsPlain cs := by
  intro c hc
  obtain ⟨more, rfl⟩ := List.head?_eq_some_iff.mp hc
  exact h c rfl

/-- Without the spaces behind a text a reader finds the same, with fuel for the length of the
text. -/
def Trims (bound : Nat) (reader : Nat → List Char → Except Refusal (α × List Char)) (fuel : Nat)
    (tail : List Char) : Prop :=
  ∀ cs a after, reader fuel (cs ++ tail) = .ok (a, after) →
    ∃ back, after = back ++ tail ∧
      ∀ fuel', 2 * cs.length + bound ≤ fuel' → reader fuel' cs = .ok (a, back)

section Readers

variable (htail : IsSpaces tail)
include htail

/-- Spaces in front of the text change nothing about those behind it. -/
theorem Trims.skipSpaces {bound : Nat}
    {reader : Nat → List Char → Except Refusal (α × List Char)} (h : Trims bound reader fuel tail)
    (hnil : ∀ found, reader fuel [] ≠ .ok found) {cs : List Char} {a : α} {after : List Char}
    (hread : reader fuel (skipSpaces (cs ++ tail)) = .ok (a, after)) :
    ∃ back, after = back ++ tail ∧
      ∀ fuel', 2 * cs.length + bound ≤ fuel' →
        reader fuel' (Json.skipSpaces cs) = .ok (a, back) := by
  have hne : Json.skipSpaces (cs ++ tail) ≠ [] := fun hempty => hnil _ (hempty ▸ hread)
  rw [htail.skipSpaces_append hne] at hread
  obtain ⟨back, rfl, hback⟩ := h _ _ _ hread
  refine ⟨back, rfl, fun fuel' hfuel => hback fuel' ?_⟩
  have hlength := length_skipSpaces_le cs
  omega

omit htail in
theorem readValue_nil_ne (fuel : Nat) (found : Value × List Char) :
    readValue fuel [] ≠ .ok found := by
  intro h
  cases fuel <;> cases h

omit htail in
theorem readMembers_nil_ne (fuel : Nat) (found : Entries × List Char) :
    readMembers fuel [] ≠ .ok found := by
  intro h
  cases fuel <;> cases h

omit htail in
theorem readElements_nil_ne (fuel : Nat) (found : List Value × List Char) :
    readElements fuel [] ≠ .ok found := by
  intro h
  cases fuel with
  | zero => cases h
  | succ fuel =>
      obtain ⟨value, rest, others, hvalue, -⟩ := readElements_succ_iff.mp h
      exact readValue_nil_ne fuel _ hvalue

theorem trims_readValue_succ (hmembers : Trims 2 readMembers fuel tail)
    (helements : Trims 3 readElements fuel tail) : Trims 2 readValue (fuel + 1) tail := by
  intro cs v after h
  have hquote : '\x22' ∉ tail := fun hmem => absurd (htail _ hmem) (by decide)
  -- it is enough to find the step without the tail, for as much fuel as there may be
  suffices hstep : ∃ back, after = back ++ tail ∧
      ∀ fuel', 2 * cs.length + 1 ≤ fuel' → ValueStep fuel' cs v back by
    obtain ⟨back, hafter, hstep⟩ := hstep
    refine ⟨back, hafter, fun fuel' hfuel => ?_⟩
    obtain ⟨fuel', rfl⟩ := Nat.exists_eq_add_one_of_ne_zero (show fuel' ≠ 0 by omega)
    exact readValue_succ_iff.mpr (hstep fuel' (by omega))
  have hfront {c : Char} (hc : isSpace c = false) {more : List Char}
      (htext : cs ++ tail = c :: more) : ∃ rest, cs = c :: rest ∧ more = rest ++ tail := by
    obtain ⟨-, hnil⟩ | hcs := List.append_eq_cons_iff.mp htext
    · exact absurd hnil (htail.ne_cons hc more)
    · exact hcs
  have h := readValue_succ_iff.mp h
  generalize htext : cs ++ tail = text at h
  cases h with
  | string h =>
      obtain ⟨rest, rfl, rfl⟩ := hfront (by decide) htext
      obtain ⟨back, rfl, hback⟩ := readString_append hquote h
      exact ⟨back, rfl, fun fuel' _ => .string hback⟩
  | noMembers h =>
      obtain ⟨rest, rfl, rfl⟩ := hfront (by decide) htext
      obtain ⟨back, hback, rfl⟩ := htail.skipSpaces_cons (by decide) h
      exact ⟨back, rfl, fun fuel' _ => .noMembers hback⟩
  | members hopen h =>
      obtain ⟨rest, rfl, rfl⟩ := hfront (by decide) htext
      obtain ⟨back, rfl, hback⟩ := hmembers.skipSpaces htail (readMembers_nil_ne fuel) h
      refine ⟨back, rfl, fun fuel' hfuel => .members (fun after hclosed => ?_) (hback fuel' ?_)⟩
      · exact hopen _ (skipSpaces_append_of_cons hclosed tail)
      · rw [List.length_cons] at hfuel
        omega
  | noElements h =>
      obtain ⟨rest, rfl, rfl⟩ := hfront (by decide) htext
      obtain ⟨back, hback, rfl⟩ := htail.skipSpaces_cons (by decide) h
      exact ⟨back, rfl, fun fuel' _ => .noElements hback⟩
  | elements hopen h =>
      obtain ⟨rest, rfl, rfl⟩ := hfront (by decide) htext
      obtain ⟨back, rfl, hback⟩ := helements.skipSpaces htail (readElements_nil_ne fuel) h
      refine ⟨back, rfl, fun fuel' hfuel => .elements (fun after hclosed => ?_) (hback fuel' ?_)⟩
      · exact hopen _ (skipSpaces_append_of_cons hclosed tail)
      · rw [List.length_cons] at hfuel
        omega
  | word hstart h =>
      subst htext
      rw [readWord?_append htail] at h
      obtain ⟨found, hfound, heq⟩ := Option.map_eq_some_iff.mp h
      cases heq
      exact ⟨found.2, rfl, fun fuel' _ => .word hstart.of_append hfound⟩
  | number hstart hword h =>
      subst htext
      rw [readWord?_append htail] at hword
      obtain ⟨back, rfl, hback⟩ := readNumber_append htail h
      have hnone := Option.map_eq_none_iff.mp hword
      exact ⟨back, rfl, fun fuel' _ => .number hstart.of_append hnone hback⟩

theorem trims_readMembers_succ (hvalue : Trims 2 readValue fuel tail)
    (hmembers : Trims 2 readMembers fuel tail) : Trims 2 readMembers (fuel + 1) tail := by
  intro cs entries after h
  have hquote : '\x22' ∉ tail := fun hmem => absurd (htail _ hmem) (by decide)
  obtain ⟨more, name, named, colon, value, rest, others, htext, hname, hcolon, hread, hstep, rfl⟩ :=
    readMembers_succ_iff.mp h
  obtain ⟨-, hnil⟩ | ⟨more, rfl, rfl⟩ := List.append_eq_cons_iff.mp htext
  · exact absurd hnil (htail.ne_cons (by decide) _)
  obtain ⟨named, rfl, hstring⟩ := readString_append hquote hname
  obtain ⟨colon, hfound, rfl⟩ := htail.skipSpaces_cons (by decide) hcolon
  obtain ⟨rest, rfl, hshort⟩ := hvalue.skipSpaces htail (readValue_nil_ne fuel) hread
  have hnamed := (suffix_of_readString hstring).length_le
  have hcolons := length_skipSpaces_le named
  have hrest := (suffix_of_readValue (hshort _ (Nat.le_refl _))).length_le
  have hvalues := length_skipSpaces_le colon
  rw [List.length_cons] at hnamed
  rw [hfound, List.length_cons] at hcolons
  -- whatever is left behind the value is shorter than the text
  have hbuild {back : List Char} (hstep : ∀ fuel', 2 * rest.length + 2 ≤ fuel' →
      MembersStep fuel' rest others back) (fuel' : Nat)
      (hfuel : 2 * ('\x22' :: more).length + 2 ≤ fuel') :
      readMembers fuel' ('\x22' :: more) = .ok ((name, value) :: others, back) := by
    rw [List.length_cons] at hfuel
    obtain ⟨fuel', rfl⟩ := Nat.exists_eq_add_one_of_ne_zero (show fuel' ≠ 0 by omega)
    exact readMembers_succ_iff.mpr ⟨more, name, named, colon, value, rest, others, rfl, hstring,
      hfound, hshort fuel' (by omega), hstep fuel' (by omega), rfl⟩
  cases hstep with
  | last h =>
      obtain ⟨back, hback, rfl⟩ := htail.skipSpaces_cons (by decide) h
      exact ⟨back, rfl, hbuild fun fuel' _ => .last hback⟩
  | next hcomma h =>
      obtain ⟨next, hnext, rfl⟩ := htail.skipSpaces_cons (by decide) hcomma
      obtain ⟨back, rfl, hback⟩ := hmembers.skipSpaces htail (readMembers_nil_ne fuel) h
      have hlength := length_skipSpaces_le rest
      rw [hnext, List.length_cons] at hlength
      exact ⟨back, rfl, hbuild fun fuel' hfuel => .next hnext (hback fuel' (by omega))⟩

theorem trims_readElements_succ (hvalue : Trims 2 readValue fuel tail)
    (helements : Trims 3 readElements fuel tail) : Trims 3 readElements (fuel + 1) tail := by
  intro cs items after h
  obtain ⟨value, rest, others, hread, hstep, rfl⟩ := readElements_succ_iff.mp h
  obtain ⟨rest, rfl, hshort⟩ := hvalue _ _ _ hread
  have hrest := (suffix_of_readValue (hshort _ (Nat.le_refl _))).length_le
  cases hstep with
  | last h =>
      obtain ⟨back, hback, rfl⟩ := htail.skipSpaces_cons (by decide) h
      refine ⟨back, rfl, fun fuel' hfuel => ?_⟩
      obtain ⟨fuel', rfl⟩ := Nat.exists_eq_add_one_of_ne_zero (show fuel' ≠ 0 by omega)
      exact readElements_succ_iff.mpr ⟨value, rest, [], hshort fuel' (by omega), .last hback, rfl⟩
  | next hcomma h =>
      obtain ⟨more, hmore, rfl⟩ := htail.skipSpaces_cons (by decide) hcomma
      obtain ⟨back, rfl, hback⟩ := helements.skipSpaces htail (readElements_nil_ne fuel) h
      have hlength := length_skipSpaces_le rest
      rw [hmore, List.length_cons] at hlength
      refine ⟨back, rfl, fun fuel' hfuel => ?_⟩
      obtain ⟨fuel', rfl⟩ := Nat.exists_eq_add_one_of_ne_zero (show fuel' ≠ 0 by omega)
      exact readElements_succ_iff.mpr ⟨value, rest, others, hshort fuel' (by omega),
        .next hmore (hback fuel' (by omega)), rfl⟩

/-- By induction on the number of calls none of the readers needs the spaces behind its text. -/
theorem trims_readers (fuel : Nat) : Trims 2 readValue fuel tail ∧
    Trims 2 readMembers fuel tail ∧ Trims 3 readElements fuel tail := by
  induction fuel with
  | zero => refine ⟨?_, ?_, ?_⟩ <;> intro cs found after h <;> cases h
  | succ fuel ih =>
      obtain ⟨hvalue, hmembers, helements⟩ := ih
      exact ⟨trims_readValue_succ htail hmembers helements,
        trims_readMembers_succ htail hvalue hmembers,
        trims_readElements_succ htail hvalue helements⟩

end Readers

/-! ## Whole texts -/

/-- A whole text is a value with spaces around it. -/
theorem read_eq_ok_iff : read cs = .ok v ↔ cs.head? ≠ some byteOrderMark ∧
    ∃ rest, readValue (2 * cs.length + 2) (skipSpaces cs) = .ok (v, rest) ∧ IsSpaces rest := by
  rw [read]
  by_cases hmark : (cs.head? == some byteOrderMark) = true
  · rw [if_pos hmark]
    exact iff_of_false (fun h => by cases h) fun h => h.1 (beq_iff_eq.mp hmark)
  · rw [if_neg hmark, Outcome.bind_eq_ok_iff,
      and_iff_right fun hhead => hmark (beq_iff_eq.mpr hhead)]
    constructor
    · rintro ⟨⟨found, rest⟩, hread, h⟩
      dsimp only at h
      split at h
      · rename_i hrest
        cases h
        exact ⟨rest, hread, skipSpaces_eq_nil_iff.mp (List.isEmpty_iff.mp hrest)⟩
      · cases h
    · rintro ⟨rest, hread, hrest⟩
      refine ⟨(v, rest), hread, if_pos ?_⟩
      rw [skipSpaces_eq_nil_iff.mpr hrest, List.isEmpty_nil]

/-- Elements end with the closing bracket, and what comes behind it is left. -/
theorem suffix_of_readElements {items : List Value}
    (h : readElements fuel cs = .ok (items, after)) : ']' :: after <:+ cs := by
  induction fuel generalizing cs items with
  | zero => cases h
  | succ fuel ih =>
      obtain ⟨value, rest, others, hvalue, hstep, -⟩ := readElements_succ_iff.mp h
      have hrest := skipSpaces_suffix (suffix_of_readValue hvalue)
      cases hstep with
      | last h => exact h ▸ hrest
      | next hcomma h => exact (ih h).trans (skipSpaces_suffix (tail_suffix (hcomma ▸ hrest)))

/-- A list is written between brackets. -/
theorem exists_of_readValue_list {items : List Value}
    (h : readValue fuel cs = .ok (.list items, rest)) :
    ∃ inner, cs = '[' :: (inner ++ ']' :: rest) := by
  cases fuel with
  | zero => cases h
  | succ fuel =>
      obtain ⟨more, rfl, ⟨-, hclosed⟩ | helements⟩ := exists_elements_of_readValue h
      · obtain ⟨front, hfront⟩ := skipSpaces_suffix (List.suffix_refl more)
        exact ⟨front, by rw [← hfront, hclosed]⟩
      · obtain ⟨front, hfront⟩ :=
          (suffix_of_readElements helements).trans (skipSpaces_suffix (List.suffix_refl more))
        exact ⟨front, by rw [hfront]⟩

/-- A list with blanks around its brackets is trimmed to the brackets. -/
theorem trim_brackets {inner : List Char} (hcs : skipSpaces cs = '[' :: (inner ++ ']' :: tail))
    (htail : IsSpaces tail) : trim cs = '[' :: (inner ++ [']']) := by
  have hblank : ∀ c ∈ tail.reverse, isBlank c = true := fun c hc =>
    isBlank_of_isSpace (htail c (List.mem_reverse.mp hc))
  have hleft : trimLeft cs = '[' :: (inner ++ ']' :: tail) := by
    rw [← trimLeft_skipSpaces, hcs]
    exact List.dropWhile_cons_of_neg (by decide)
  have hreverse : ('[' :: (inner ++ ']' :: tail)).reverse =
      tail.reverse ++ ']' :: ('[' :: inner).reverse := by simp
  rw [trim, hleft, hreverse, trimLeft, List.dropWhile_append_of_pos hblank,
    List.dropWhile_cons_of_neg (by decide), List.reverse_cons, List.reverse_reverse,
    List.cons_append]

/-- A text that is read as a list is one between brackets, with blanks around them that do not
matter. -/
theorem read_trim_of_list {items : List Value} (h : read cs = .ok (.list items)) :
    (∃ inner, trim cs = '[' :: (inner ++ [']'])) ∧ read (trim cs) = .ok (.list items) := by
  obtain ⟨-, rest, hread, hrest⟩ := read_eq_ok_iff.mp h
  obtain ⟨inner, hcs⟩ := exists_of_readValue_list hread
  have htrim := trim_brackets hcs hrest
  refine ⟨⟨inner, htrim⟩, ?_⟩
  have happend : skipSpaces cs = trim cs ++ rest := by rw [hcs, htrim]; simp
  rw [happend] at hread
  obtain ⟨back, hback, hshort⟩ := (trims_readers hrest _).1 _ _ _ hread
  have hnil : back = [] := List.append_left_eq_self.mp hback.symm
  subst hnil
  have hskip : skipSpaces (trim cs) = trim cs := by
    rw [htrim, skipSpaces, List.dropWhile_cons_of_neg (by decide)]
  refine read_eq_ok_iff.mpr ⟨?_, [], ?_, List.forall_mem_nil _⟩
  · rw [htrim, List.head?_cons]
    decide
  · rw [hskip]
    exact hshort _ (Nat.le_refl _)

end SemanticMarkup.Json
