/-!
# Cutting texts

Cuts at the first occurrence of a separator, the replacement of single
characters, and numbers in fields of a given width.
-/

namespace SemanticMarkup.Text

/-- The characters before the first separator, and those after it if there is one. -/
def cutAt (sep : Char) : List Char → List Char × Option (List Char)
  | [] => ([], none)
  | c :: rest =>
      if c = sep then ([], some rest)
      else let cut := cutAt sep rest
        (c :: cut.1, cut.2)

/-- Putting the separator back restores the text. -/
theorem cutAt_join (sep : Char) (cs : List Char) :
    (match cutAt sep cs with
      | (before, none) => before
      | (before, some after) => before ++ sep :: after) = cs := by
  induction cs with
  | nil => rfl
  | cons c rest ih =>
      by_cases hc : c = sep
      · simp [cutAt, hc]
      · simp only [cutAt, hc, if_false]
        cases h : cutAt sep rest with
        | mk before after =>
            rw [h] at ih
            cases after with
            | none => simpa using ih
            | some after => simpa using ih

theorem cutAt_of_not_mem {sep : Char} {cs : List Char} (h : sep ∉ cs) :
    cutAt sep cs = (cs, none) := by
  induction cs with
  | nil => rfl
  | cons c rest ih =>
      obtain ⟨hc, hrest⟩ := not_or.mp (mt List.mem_cons.mpr h)
      simp only [cutAt, if_neg (Ne.symm hc), ih hrest]

theorem cutAt_append {sep : Char} {cs : List Char} (h : sep ∉ cs) (rest : List Char) :
    cutAt sep (cs ++ sep :: rest) = (cs, some rest) := by
  induction cs with
  | nil => simp [cutAt]
  | cons c cs ih =>
      obtain ⟨hc, hcs⟩ := not_or.mp (mt List.mem_cons.mpr h)
      simp only [List.cons_append, cutAt, if_neg (Ne.symm hc), ih hcs]

/-- A text with every occurrence of one character replaced by some characters. -/
def replaceChar (old : Char) (new : List Char) (cs : List Char) : List Char :=
  cs.flatMap fun c => if c = old then new else [c]

/-- Whether one text occurs inside another. -/
def occursIn (part : List Char) : List Char → Bool
  | [] => part.isEmpty
  | c :: rest => part.isPrefixOf (c :: rest) || occursIn part rest

/-- The first upper hexadecimal digits, as small letters, of a number in a field of given width. -/
def hexField (width n : Nat) : List Char :=
  let digits := Nat.toDigits 16 n
  List.replicate (width - digits.length) '0' ++ digits

/-- A decimal numeral filled up with zeros on the left. -/
def zeroField (width n : Nat) : List Char :=
  let digits := Nat.toDigits 10 n
  List.replicate (width - digits.length) '0' ++ digits

/-- The written form of an integer. -/
def intText (n : Int) : List Char :=
  match n with
  | .ofNat k => Nat.toDigits 10 k
  | .negSucc k => '-' :: Nat.toDigits 10 (k + 1)

end SemanticMarkup.Text
