import SemanticMarkup.Text.Ranges

/-!
# Blank characters

The characters that separate words: the ASCII blanks, the four information
separators and the Unicode spaces and line ends.
-/

namespace SemanticMarkup.Text

/-- The ranges of blank characters. -/
def blankRanges : List CodeRange :=
  [(0x09, 0x0D), (0x1C, 0x20), (0x85, 0x85), (0xA0, 0xA0), (0x1680, 0x1680),
    (0x2000, 0x200A), (0x2028, 0x2029), (0x202F, 0x202F), (0x205F, 0x205F),
    (0x3000, 0x3000)]

/-- Whether a character separates words. -/
def isBlank (c : Char) : Bool :=
  inRanges blankRanges c.toNat

/-- No visible ASCII character is blank. -/
theorem isBlank_of_visible {c : Char} (hlow : 33 ≤ c.toNat) (hhigh : c.toNat ≤ 126) :
    isBlank c = false := by
  have hapart : ∀ r ∈ blankRanges, r.2 < 33 ∨ 126 < r.1 := by decide
  rw [Bool.eq_false_iff]
  intro hblank
  obtain ⟨r, hr, hrange⟩ := (inRanges_iff _ _).mp hblank
  have houtside := hapart r hr
  omega

/-- The characters left after the blanks at the front. -/
def trimLeft (cs : List Char) : List Char :=
  cs.dropWhile isBlank

/-- The characters left after the blanks at both ends. -/
def trim (cs : List Char) : List Char :=
  (trimLeft (trimLeft cs).reverse).reverse

/-- The words of a text, given the letters of the word being read, last letter first. -/
def wordsFrom (word : List Char) : List Char → List (List Char)
  | [] => if word.isEmpty then [] else [word.reverse]
  | c :: rest =>
      if isBlank c then
        if word.isEmpty then wordsFrom [] rest else word.reverse :: wordsFrom [] rest
      else wordsFrom (c :: word) rest

/-- The maximal runs of non-blank characters, in order. -/
def wordsOf (cs : List Char) : List (List Char) :=
  wordsFrom [] cs

/-- The words of a text. -/
def words (s : String) : List String :=
  (wordsOf s.toList).map String.ofList

/-- A text without the blanks at both ends. -/
def strip (s : String) : String :=
  String.ofList (trim s.toList)

/-- Every word has at least one character. -/
theorem ne_nil_of_mem_wordsFrom {word cs w : List Char} (h : w ∈ wordsFrom word cs) : w ≠ [] := by
  induction cs generalizing word with
  | nil =>
      cases word with
      | nil => simp [wordsFrom] at h
      | cons a as => simp [wordsFrom] at h; simp [h]
  | cons c rest ih =>
      by_cases hc : isBlank c = true
      · cases word with
        | nil => simp [wordsFrom, hc] at h; exact ih h
        | cons a as =>
            simp only [wordsFrom, hc, List.isEmpty_cons, if_true, Bool.false_eq_true, if_false,
              List.mem_cons] at h
            rcases h with rfl | h
            · simp
            · exact ih h
      · simp only [wordsFrom, hc, Bool.false_eq_true, if_false] at h
        exact ih h

end SemanticMarkup.Text
