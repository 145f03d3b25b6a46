import SemanticMarkup.Markup.Escape
import SemanticMarkup.Proofs.Text.Pieces

/-!
# Escaping, character by character

The replacements one after the other amount to one entity for each of the five
characters, because no entity is replaced again. So escaped text has no
character of the markup in it, and reading the entities gives the text back.
-/

namespace SemanticMarkup.Markup

open SemanticMarkup.Text

/-- What a character is written as. -/
def escapedChar (quotes : QuoteEntities) (c : Char) : List Char :=
  if c = '&' then "&amp;".toList
  else if c = '<' then "&lt;".toList
  else if c = '>' then "&gt;".toList
  else if c = doubleQuote then quotes.double.toList
  else if c = singleQuote then quotes.single.toList
  else [c]

/-- Whether a character stands for markup between texts or in tags. -/
def isMarkupChar (c : Char) : Bool :=
  c == '<' || c == '>' || c == doubleQuote || c == singleQuote

/-- A character is one of the five that are replaced, or stays. -/
theorem escapedChar_cases (quotes : QuoteEntities) (c : Char) :
    c = '&' ∧ escapedChar quotes c = "&amp;".toList ∨
      c = '<' ∧ escapedChar quotes c = "&lt;".toList ∨
      c = '>' ∧ escapedChar quotes c = "&gt;".toList ∨
      c = doubleQuote ∧ escapedChar quotes c = quotes.double.toList ∨
      c = singleQuote ∧ escapedChar quotes c = quotes.single.toList ∨
      c ≠ '&' ∧ isMarkupChar c = false ∧ escapedChar quotes c = [c] := by
  by_cases hamp : c = '&'
  · exact .inl ⟨hamp, if_pos hamp⟩
  refine .inr ?_
  rw [escapedChar, if_neg hamp]
  by_cases hlt : c = '<'
  · exact .inl ⟨hlt, if_pos hlt⟩
  refine .inr ?_
  rw [if_neg hlt]
  by_cases hgt : c = '>'
  · exact .inl ⟨hgt, if_pos hgt⟩
  refine .inr ?_
  rw [if_neg hgt]
  by_cases hdouble : c = doubleQuote
  · exact .inl ⟨hdouble, if_pos hdouble⟩
  refine .inr ?_
  rw [if_neg hdouble]
  by_cases hsingle : c = singleQuote
  · exact .inl ⟨hsingle, if_pos hsingle⟩
  · exact .inr ⟨hamp, by simp [isMarkupChar, hlt, hgt, hdouble, hsingle], if_neg hsingle⟩

theorem escapeWith_append (quotes : QuoteEntities) (front back : List Char) :
    escapeWith quotes (front ++ back) = escapeWith quotes front ++ escapeWith quotes back := by
  simp only [escapeWith, replaceChar_append]

/-- A single character is replaced once. -/
theorem escapeWith_singleton {quotes : QuoteEntities} (h : singleQuote ∉ quotes.double.toList)
    (c : Char) : escapeWith quotes [c] = escapedChar quotes c := by
  have hone (old : Char) (new : List Char) :
      replaceChar old new [c] = if c = old then new else [c] := by
    rw [replaceChar, List.flatMap_singleton]
  obtain ⟨rfl, hc⟩ | ⟨rfl, hc⟩ | ⟨rfl, hc⟩ | ⟨rfl, hc⟩ | ⟨rfl, hc⟩ | ⟨hamp, hmarkup, hc⟩ :=
    escapedChar_cases quotes c
  · rfl
  · rfl
  · rfl
  · have hinner := hone doubleQuote quotes.double.toList
    rw [if_pos rfl] at hinner
    change replaceChar singleQuote _ (replaceChar doubleQuote _ [doubleQuote]) = _
    rw [hinner, hc]
    exact replaceChar_of_not_mem _ h
  · have hinner := hone singleQuote quotes.single.toList
    rw [if_pos rfl] at hinner
    rw [hc]
    exact hinner
  · simp only [isMarkupChar, Bool.or_eq_false_iff, beq_eq_false_iff_ne] at hmarkup
    obtain ⟨⟨⟨hlt, hgt⟩, hdouble⟩, hsingle⟩ := hmarkup
    rw [hc]
    simp only [escapeWith, hone, if_neg hamp, if_neg hlt, if_neg hgt, if_neg hdouble,
      if_neg hsingle]

/-- Text is escaped character by character. -/
theorem escapeWith_eq_flatMap {quotes : QuoteEntities} (h : singleQuote ∉ quotes.double.toList)
    (cs : List Char) : escapeWith quotes cs = cs.flatMap (escapedChar quotes) := by
  induction cs with
  | nil => rfl
  | cons c rest ih =>
      rw [List.flatMap_cons, ← ih, ← escapeWith_singleton h, ← escapeWith_append]
      rfl

theorem toList_escape (s : String) :
    (escape s).toList = s.toList.flatMap (escapedChar valueQuotes) := by
  rw [escape, String.toList_ofList, escapeWith_eq_flatMap (by decide)]

/-- Whether no character of a text stands for markup. -/
def isMarkupFree (cs : List Char) : Bool :=
  cs.all fun c => !isMarkupChar c

theorem isMarkupChar_of_isMarkupFree {cs : List Char} (h : isMarkupFree cs = true) {c : Char}
    (hc : c ∈ cs) : isMarkupChar c = false := by
  rw [isMarkupFree, List.all_eq_true] at h
  simpa using h c hc

/-- Escaped text has no character of the markup. -/
theorem isMarkupChar_of_mem_escapeWith {quotes : QuoteEntities}
    (hdouble : isMarkupFree quotes.double.toList = true)
    (hsingle : isMarkupFree quotes.single.toList = true) {cs : List Char} {c : Char}
    (h : c ∈ escapeWith quotes cs) : isMarkupChar c = false := by
  have hquote : singleQuote ∉ quotes.double.toList := by
    intro hq
    exact absurd (isMarkupChar_of_isMarkupFree hdouble hq) (by decide)
  rw [escapeWith_eq_flatMap hquote, List.mem_flatMap] at h
  obtain ⟨d, -, hd⟩ := h
  obtain ⟨-, hc⟩ | ⟨-, hc⟩ | ⟨-, hc⟩ | ⟨-, hc⟩ | ⟨-, hc⟩ | ⟨-, hmarkup, hc⟩ :=
    escapedChar_cases quotes d
  all_goals rw [hc] at hd
  · exact isMarkupChar_of_isMarkupFree (by decide) hd
  · exact isMarkupChar_of_isMarkupFree (by decide) hd
  · exact isMarkupChar_of_isMarkupFree (by decide) hd
  · exact isMarkupChar_of_isMarkupFree hdouble hd
  · exact isMarkupChar_of_isMarkupFree hsingle hd
  · rw [List.mem_singleton.mp hd]
    exact hmarkup

theorem isMarkupChar_of_mem_escape {s : String} {c : Char} (h : c ∈ (escape s).toList) :
    isMarkupChar c = false := by
  rw [escape, String.toList_ofList] at h
  exact isMarkupChar_of_mem_escapeWith (by decide) (by decide) h

theorem not_mem_escape {s : String} {c : Char} (hc : isMarkupChar c = true) :
    c ∉ (escape s).toList := by
  intro hmem
  rw [isMarkupChar_of_mem_escape hmem] at hc
  cases hc

/-- Text with its entities read as what they stand for, from left to right. -/
def unescape : List Char → List Char
  | '&' :: 'a' :: 'm' :: 'p' :: ';' :: rest => '&' :: unescape rest
  | '&' :: 'l' :: 't' :: ';' :: rest => '<' :: unescape rest
  | '&' :: 'g' :: 't' :: ';' :: rest => '>' :: unescape rest
  | '&' :: 'q' :: 'u' :: 'o' :: 't' :: ';' :: rest => doubleQuote :: unescape rest
  | '&' :: '#' :: 'x' :: '2' :: '7' :: ';' :: rest => singleQuote :: unescape rest
  | c :: rest => c :: unescape rest
  | [] => []

theorem unescape_cons_of_ne {c : Char} (h : c ≠ '&') (rest : List Char) :
    unescape (c :: rest) = c :: unescape rest := by
  rw [unescape]
  all_goals
    intro more heq
    exact absurd heq h

/-- What a character is written as is read as the character. -/
theorem unescape_escapedChar (c : Char) (rest : List Char) :
    unescape (escapedChar valueQuotes c ++ rest) = c :: unescape rest := by
  obtain ⟨rfl, hc⟩ | ⟨rfl, hc⟩ | ⟨rfl, hc⟩ | ⟨rfl, hc⟩ | ⟨rfl, hc⟩ | ⟨hamp, -, hc⟩ :=
    escapedChar_cases valueQuotes c
  · rfl
  · rfl
  · rfl
  · rfl
  · rfl
  · rw [hc, List.singleton_append]
    exact unescape_cons_of_ne hamp rest

/-- Reading the entities of escaped text gives the text back. -/
theorem unescape_escape (s : String) : unescape (escape s).toList = s.toList := by
  rw [toList_escape]
  induction s.toList with
  | nil => rfl
  | cons c rest ih => rw [List.flatMap_cons, unescape_escapedChar, ih]

end SemanticMarkup.Markup
