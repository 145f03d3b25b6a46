import Mathlib.Data.Nat.Bitwise
import SemanticMarkup.Proofs.Text.Ascii
import SemanticMarkup.Text.Blank
import SemanticMarkup.Text.Uppercase

/-!
# Capitals

What the upper-case table gives as a capital is not a small letter of the table,
so the upper-case form of a text is its own upper-case form. The letters and the
capitals are some thousand code points; a set of them is one number here, with
the bits of its members, and two such sets are compared in one step.
-/

namespace SemanticMarkup.Text

/-- The number that has the bits of the given code points. -/
def marks (codes : List Nat) : Nat :=
  codes.foldr (fun code set => set ||| 1 <<< code) 0

theorem testBit_marks {codes : List Nat} {code : Nat} :
    (marks codes).testBit code = true ↔ code ∈ codes := by
  induction codes with
  | nil => simp [marks]
  | cons first rest ih =>
      have hcons : marks (first :: rest) = marks rest ||| 1 <<< first := rfl
      rw [hcons, Nat.testBit_or, Bool.or_eq_true, ih, Nat.one_shiftLeft, Nat.testBit_two_pow,
        decide_eq_true_eq, List.mem_cons, or_comm, eq_comm]

/-- Sets of code points without a common bit have no common member. -/
theorem not_mem_of_marks {codes others : List Nat} (h : marks codes &&& marks others = 0)
    {code : Nat} (hcode : code ∈ codes) : code ∉ others := by
  intro hother
  have hbit : (marks codes &&& marks others).testBit code = true := by
    rw [Nat.testBit_and, testBit_marks.mpr hcode, testBit_marks.mpr hother, Bool.and_true]
  rw [h, Nat.zero_testBit] at hbit
  cases hbit

namespace CaseRun

/-- The letters of a run. -/
def codes (r : CaseRun) : List Nat :=
  List.range' r.first ((r.last - r.first) / r.step + 1) r.step

/-- The capitals of the letters of a run. -/
def capitals (r : CaseRun) : List Nat :=
  r.codes.map fun code : Nat => Int.toNat (code + r.shift)

theorem mem_codes {r : CaseRun} {code : Nat} (h : r.covers code = true) : code ∈ r.codes := by
  simp only [covers, Bool.and_eq_true, decide_eq_true_eq, beq_iff_eq] at h
  obtain ⟨⟨hfirst, hlast⟩, hstep⟩ := h
  rw [codes, List.mem_range']
  refine ⟨(code - r.first) / r.step, ?_, ?_⟩
  · exact Nat.lt_succ_of_le (Nat.div_le_div_right (by omega))
  · have hmul := Nat.mul_div_cancel' (Nat.dvd_of_mod_eq_zero hstep)
    omega

end CaseRun

/-- The letters beyond ASCII that have capitals. -/
def smallCodes : List Nat :=
  caseExpansions.map Prod.fst ++ caseRuns.flatMap CaseRun.codes

/-- The capitals of the letters beyond ASCII. -/
def capitalCodes : List Nat :=
  caseExpansions.flatMap Prod.snd ++ caseRuns.flatMap CaseRun.capitals

/-- Whether a code point is an ASCII capital, or a character beyond ASCII that is no blank. -/
def isCapitalCode (code : Nat) : Bool :=
  code.isValidChar && (65 ≤ code && code ≤ 90 || 128 ≤ code && !inRanges blankRanges code)

/-- What the upper-case table gives as a capital is not one of its small letters. -/
theorem not_mem_smallCodes : ∀ code ∈ capitalCodes, code ∉ smallCodes := by
  have hmarks : marks capitalCodes &&& marks smallCodes = 0 := by decide +kernel
  exact fun code hcode => not_mem_of_marks hmarks hcode

theorem isCapitalCode_of_mem : ∀ code ∈ capitalCodes, isCapitalCode code = true := by
  decide +kernel

theorem toNat_ofNat {code : Nat} (h : isCapitalCode code = true) :
    (Char.ofNat code).toNat = code := by
  rw [isCapitalCode, Bool.and_eq_true, decide_eq_true_eq] at h
  rw [Char.ofNat, dif_pos h.1]
  rfl

/-- A character beyond ASCII that is no small letter of the table is its own capital. -/
theorem upper_of_not_mem {c : Char} (hlarge : 128 ≤ c.toNat) (h : c.toNat ∉ smallCodes) :
    upper c = [c] := by
  rw [smallCodes, List.mem_append, not_or] at h
  obtain ⟨hexpansion, hrun⟩ := h
  have hlookup : caseExpansions.lookup c.toNat = none := by
    rw [List.lookup_eq_none_iff]
    intro e he
    rw [bne_iff_ne]
    intro heq
    exact hexpansion (heq ▸ List.mem_map_of_mem he)
  have hfind : caseRuns.find? (·.covers c.toNat) = none := by
    rw [List.find?_eq_none]
    intro r hr hcovers
    exact hrun (List.mem_flatMap.mpr ⟨r, hr, CaseRun.mem_codes hcovers⟩)
  rw [upper, if_neg (Nat.not_lt.mpr hlarge), hlookup, hfind]

theorem upper_ofNat {code : Nat} (h : code ∈ capitalCodes) :
    upper (Char.ofNat code) = [Char.ofNat code] := by
  have hascii : ∀ n < 91, 65 ≤ n → upper (Char.ofNat n) = [Char.ofNat n] := by decide +kernel
  have hcapital := isCapitalCode_of_mem code h
  have hcode := toNat_ofNat hcapital
  simp only [isCapitalCode, Bool.and_eq_true, Bool.or_eq_true, decide_eq_true_eq] at hcapital
  obtain ⟨-, ⟨hlow, hhigh⟩ | ⟨hlarge, -⟩⟩ := hcapital
  · exact hascii code (Nat.lt_succ_of_le hhigh) hlow
  · apply upper_of_not_mem
    · rwa [hcode]
    · rw [hcode]
      exact not_mem_smallCodes code h

/-- The upper-case form of a character beyond ASCII is the character or consists of capitals of the
table. -/
theorem upper_of_large {c : Char} (h : 128 ≤ c.toNat) :
    upper c = [c] ∨ ∃ codes, codes ≠ [] ∧ (∀ code ∈ codes, code ∈ capitalCodes) ∧
      upper c = codes.map Char.ofNat := by
  have hfilled : ∀ e ∈ caseExpansions, e.2 ≠ [] := by decide
  rw [upper, if_neg (Nat.not_lt.mpr h)]
  split
  · rename_i codes hcodes
    obtain ⟨front, back, heq, -⟩ := List.lookup_eq_some_iff.mp hcodes
    have hmem : (c.toNat, codes) ∈ caseExpansions := by
      rw [heq]
      exact List.mem_append_right _ List.mem_cons_self
    refine .inr ⟨codes, hfilled _ hmem, fun code hcode => ?_, rfl⟩
    exact List.mem_append_left _ (List.mem_flatMap.mpr ⟨_, hmem, hcode⟩)
  · split
    · rename_i r hr
      refine .inr ⟨[Int.toNat (c.toNat + r.shift)], List.cons_ne_nil _ _, ?_, rfl⟩
      rw [List.forall_mem_singleton]
      apply List.mem_append_right
      have hcovers := List.find?_some hr
      rw [List.mem_flatMap]
      exact ⟨r, List.mem_of_find?_eq_some hr, List.mem_map_of_mem (CaseRun.mem_codes hcovers)⟩
    · exact .inl rfl

/-- The upper-case form of a character is the character, or consists of capitals that are their own
upper-case forms. -/
theorem upper_cases (c : Char) :
    upper c = [c] ∨
      upper c ≠ [] ∧ ∀ d ∈ upper c, isCapitalCode d.toNat = true ∧ upper d = [d] := by
  by_cases hsmall : c.toNat < 128
  · have hc : c.toUpper = c ∨
        isCapitalCode c.toUpper.toNat = true ∧ upper c.toUpper = [c.toUpper] :=
      of_code_lt (P := fun c => c.toUpper = c ∨
          isCapitalCode c.toUpper.toNat = true ∧ upper c.toUpper = [c.toUpper])
        (by decide +kernel) hsmall
    rw [upper_ascii hsmall]
    obtain hsame | hcapital := hc
    · exact .inl (by rw [hsame])
    · exact .inr ⟨List.cons_ne_nil _ _, List.forall_mem_singleton.mpr hcapital⟩
  · obtain hsame | ⟨codes, hne, hcodes, hupper⟩ := upper_of_large (Nat.not_lt.mp hsmall)
    · exact .inl hsame
    · refine .inr ⟨?_, ?_⟩
      · rw [hupper, Ne, List.map_eq_nil_iff]
        exact hne
      · rw [hupper, List.forall_mem_map]
        intro code hcode
        have hcapital := isCapitalCode_of_mem code (hcodes code hcode)
        rw [toNat_ofNat hcapital]
        exact ⟨hcapital, upper_ofNat (hcodes code hcode)⟩

theorem upper_ne_nil (c : Char) : upper c ≠ [] := by
  obtain hsame | ⟨hne, -⟩ := upper_cases c
  · rw [hsame]
    exact List.cons_ne_nil _ _
  · exact hne

/-- A capital is its own upper-case form. -/
theorem upper_of_mem_upper {c d : Char} (h : d ∈ upper c) : upper d = [d] := by
  obtain hsame | ⟨-, hcapital⟩ := upper_cases c
  · rw [hsame, List.mem_singleton] at h
    rw [h, hsame]
  · exact (hcapital d h).2

/-- An ASCII letter with a capital of its own is not its own upper-case form. -/
theorem isLower_of_upper {c : Char} (h : upper c = [c]) : c.isLower = false := by
  rw [Bool.eq_false_iff]
  intro hlower
  have hsmall : c.toNat < 123 := by
    rw [isLower_iff] at hlower
    omega
  exact of_code_lt (P := fun c => c.isLower = true → upper c ≠ [c])
    (by decide +kernel) hsmall hlower h

theorem isDigit_of_isCapitalCode {c : Char} (h : isCapitalCode c.toNat = true) :
    c.isDigit = false := by
  simp only [isCapitalCode, Bool.and_eq_true, Bool.or_eq_true, decide_eq_true_eq] at h
  rw [Bool.eq_false_iff]
  intro hdigit
  have hhigh := (isDigit_iff.mp hdigit).2
  omega

end SemanticMarkup.Text
