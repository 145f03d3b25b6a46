import SemanticMarkup.Proofs.Format.Faults
import SemanticMarkup.Proofs.Markup.Escape

/-!
# Escaped texts and their lines

The replacements one after the other write every character on its own, one of five as its entity
and all others as themselves. So a text may be escaped part by part, every ampersand of the result
begins an entity, and reading the entities gives the text back. The format with line breaks shows
the same lines as the format of texts, with `<br>` at the end of all but the last.

## Implementation notes

What is shown for no value is markup of the settings. It is no text of a value, and neither format
escapes it or adds breaks to it.
-/

namespace SemanticMarkup

namespace Markup

open SemanticMarkup.Text

variable {cs front back : List Char} {e : Char × List Char}

/-! ## Entities -/

/-- The characters that are escaped in values, each with its entity. -/
def entities : List (Char × List Char) :=
  [('&', "&amp;".toList), ('<', "&lt;".toList), ('>', "&gt;".toList),
    (doubleQuote, "&quot;".toList), (singleQuote, "&#x27;".toList)]

/-- An entity has one ampersand, at its front. -/
theorem ampersand_of_mem_entities :
    ∀ e ∈ entities, e.2 = '&' :: e.2.tail ∧ '&' ∉ e.2.tail := by
  decide

/-- A character is written as its entity, or as itself if it has none. -/
theorem escapedChar_eq_lookup (c : Char) :
    escapedChar valueQuotes c = (entities.lookup c).getD [c] := by
  obtain ⟨rfl, -⟩ | ⟨rfl, -⟩ | ⟨rfl, -⟩ | ⟨rfl, -⟩ | ⟨rfl, -⟩ | ⟨hamp, hmarkup, hkept⟩ :=
    escapedChar_cases valueQuotes c
  · rfl
  · rfl
  · rfl
  · rfl
  · rfl
  · simp only [isMarkupChar, Bool.or_eq_false_iff, beq_eq_false_iff_ne] at hmarkup
    obtain ⟨⟨⟨hlt, hgt⟩, hdouble⟩, hsingle⟩ := hmarkup
    have hnone : entities.lookup c = none := by
      rw [List.lookup_eq_none_iff]
      simpa [entities] using ⟨hamp, hlt, hgt, hdouble, hsingle⟩
    rw [hkept, hnone, Option.getD_none]

/-! ## Ampersands -/

/-- Every ampersand of a text begins an entity. -/
def NoBareAmpersand (cs : List Char) : Prop :=
  ∀ back, '&' :: back <:+ cs → ∃ e ∈ entities, e.2 <+: '&' :: back

theorem noBareAmpersand_of_not_mem (h : '&' ∉ cs) : NoBareAmpersand cs := by
  intro back hback
  exact absurd (hback.subset List.mem_cons_self) h

theorem noBareAmpersand_of_mem_entities (h : e ∈ entities) : NoBareAmpersand e.2 := by
  obtain ⟨hfirst, htail⟩ := ampersand_of_mem_entities e h
  intro back hback
  rw [hfirst, List.suffix_cons_iff] at hback
  obtain hwhole | hinside := hback
  · rw [hwhole, ← hfirst]
    exact ⟨e, h, List.prefix_rfl⟩
  · exact absurd (hinside.subset List.mem_cons_self) htail

/-- An ampersand of two texts in a row is one of the first, which holds the whole entity, or one
of the second. -/
theorem NoBareAmpersand.append (hfront : NoBareAmpersand front) (hback : NoBareAmpersand back) :
    NoBareAmpersand (front ++ back) := by
  rintro rest ⟨before, hbefore⟩
  obtain ⟨more, hmore, hrest⟩ | ⟨more, -, hmore⟩ := List.append_eq_append_iff.mp hbefore
  -- If the first text goes on to the ampersand only, the ampersand is the front of the second.
  · cases more with
    | nil => exact hback rest ⟨[], hrest⟩
    | cons d more =>
        obtain ⟨rfl, rfl⟩ := List.cons.inj hrest
        obtain ⟨e, he, hprefix⟩ := hfront more ⟨before, hmore.symm⟩
        exact ⟨e, he, hprefix.trans (List.prefix_append _ back)⟩
  · exact hback rest ⟨more, hmore.symm⟩

theorem noBareAmpersand_escapedChar (c : Char) : NoBareAmpersand (escapedChar valueQuotes c) := by
  rw [escapedChar_eq_lookup]
  cases hlookup : entities.lookup c with
  | none =>
      apply noBareAmpersand_of_not_mem
      rw [Option.getD_none, List.mem_singleton]
      rintro rfl
      cases hlookup
  | some entity =>
      obtain ⟨before, behind, htable, -⟩ := List.lookup_eq_some_iff.mp hlookup
      have hmem : (c, entity) ∈ entities := by
        rw [htable]
        exact List.mem_append_right before List.mem_cons_self
      exact noBareAmpersand_of_mem_entities hmem

theorem noBareAmpersand_escape (s : String) : NoBareAmpersand (escape s).toList := by
  rw [toList_escape]
  induction s.toList with
  | nil => exact noBareAmpersand_of_not_mem List.not_mem_nil
  | cons c rest ih =>
      rw [List.flatMap_cons]
      exact (noBareAmpersand_escapedChar c).append ih

theorem escape_append (s t : String) : escape (s ++ t) = escape s ++ escape t := by
  rw [escape, String.toList_append, escapeWith_append, String.ofList_append]
  rfl

end Markup

namespace Formatter

open SemanticMarkup.Text SemanticMarkup.Markup

/-! ## Lines -/

/-- What stands between two lines. -/
def lineBreak : List Char :=
  "<br>\n".toList

/-- One text is the other with a break in front of every line feed: they have the same lines. -/
def BreaksAdded (plain broken : String) : Prop :=
  ∃ lines : List (List Char), (∀ line ∈ lines, '\n' ∉ line) ∧
    plain.toList = ['\n'].intercalate lines ∧ broken.toList = lineBreak.intercalate lines

theorem breaksAdded_iff {plain broken : String} :
    BreaksAdded plain broken ↔ broken = breakLines plain := by
  have hjoined {lines : List (List Char)} (hlines : ∀ line ∈ lines, '\n' ∉ line)
      (hplain : plain.toList = ['\n'].intercalate lines) :
      (breakLines plain).toList = lineBreak.intercalate lines := by
    rw [breakLines, String.toList_ofList, hplain, replaceChar_intercalate hlines]
    rfl
  constructor
  · rintro ⟨lines, hlines, hplain, hbroken⟩
    apply String.toList_injective
    rw [hbroken, hjoined hlines hplain]
  · rintro rfl
    have hlines : ∀ line ∈ plain.toList.splitOn '\n', '\n' ∉ line :=
      fun _ => not_mem_of_mem_splitOn
    have hplain : plain.toList = ['\n'].intercalate (plain.toList.splitOn '\n') :=
      (List.intercalate_splitOn '\n').symm
    exact ⟨_, hlines, hplain, hjoined hlines hplain⟩

instance (plain broken : String) : Decidable (BreaksAdded plain broken) :=
  decidable_of_iff _ breaksAdded_iff.symm

/-- A break that replaces a line feed does not stand in front of one. -/
example : ¬ BreaksAdded "a\nb" "a<br>b" := by
  decide +kernel

/-! ## Formats -/

/-- The format of texts. -/
def textFormat : Value :=
  .text "text"

/-- The format of texts with line breaks. -/
def linesFormat : Value :=
  .text "ntext"

variable {v : Value}

theorem format_text (f : Formatter) (h : v.isNull = false) :
    f.format v textFormat = do return escape (← v.asText) :=
  format_of_asks f (Format.asks_named .text) (Nat.le_refl 0) h

theorem format_lines (f : Formatter) (h : v.isNull = false) :
    f.format v linesFormat = do return breakLines (escape (← v.asText)) :=
  format_of_asks f (Format.asks_named .ntext) (Nat.le_refl 0) h

/-- A text is shown with every character as its entity or as itself. So it may be shown part by
part, it has no bracket, no quote and no ampersand but those of entities, and reading the entities
gives the text back. With line breaks, a value is shown as without them but for the breaks. -/
theorem format_escaped (f : Formatter) (s t : String) :
    f.format (.text s) textFormat = .ok (escape s) ∧
    (escape s).toList = s.toList.flatMap (fun c => (entities.lookup c).getD [c]) ∧
    escape (s ++ t) = escape s ++ escape t ∧
    (∀ c ∈ ['<', '>', doubleQuote, singleQuote], c ∉ (escape s).toList) ∧
    NoBareAmpersand (escape s).toList ∧
    unescape (escape s).toList = s.toList ∧
    (∀ v : Value, v.isNull = false → ∀ plain, f.format v textFormat = .ok plain →
      ∃ broken, f.format v linesFormat = .ok broken ∧ BreaksAdded plain broken) := by
  have hchars : (escape s).toList = s.toList.flatMap fun c => (entities.lookup c).getD [c] := by
    rw [toList_escape, funext escapedChar_eq_lookup]
  have hmarkup : ∀ c ∈ ['<', '>', doubleQuote, singleQuote], c ∉ (escape s).toList := by
    intro c hc
    have hall : ∀ c ∈ ['<', '>', doubleQuote, singleQuote], isMarkupChar c = true :=
      List.all_eq_true.mp rfl
    exact not_mem_escape (hall c hc)
  refine ⟨format_text f rfl, hchars, escape_append s t, hmarkup, noBareAmpersand_escape s,
    unescape_escape s, ?_⟩
  intro v hnull plain hplain
  rw [format_text f hnull] at hplain
  obtain ⟨shown, hshown, hplain⟩ := Outcome.bind_eq_ok_iff.mp hplain
  obtain rfl := Except.ok.inj hplain
  refine ⟨_, ?_, breaksAdded_iff.mpr rfl⟩
  rw [format_lines f hnull, hshown]
  rfl

/-- A text with all five characters, an entity and two line feeds. -/
def markedText : String :=
  "<b>\"R&amp;D\"</b>\nit's\n"

/-- What this text is shown as. -/
def shownMarkedText : String :=
  "&lt;b&gt;&quot;R&amp;amp;D&quot;&lt;/b&gt;\nit&#x27;s\n"

/-- What this text is shown as with line breaks. -/
def shownMarkedLines : String :=
  "&lt;b&gt;&quot;R&amp;amp;D&quot;&lt;/b&gt;<br>\nit&#x27;s<br>\n"

theorem format_escaped_markedText :
    Value.isNull (.text markedText) = false ∧
    (ofComplete .standard).format (.text markedText) textFormat = .ok shownMarkedText ∧
    '<' ∉ shownMarkedText.toList ∧ NoBareAmpersand shownMarkedText.toList ∧
    unescape shownMarkedText.toList = markedText.toList ∧
    (ofComplete .standard).format (.text markedText) linesFormat = .ok shownMarkedLines ∧
    BreaksAdded shownMarkedText shownMarkedLines := by
  have hshown : (ofComplete .standard).format (.text markedText) textFormat =
      .ok shownMarkedText := by
    decide +kernel
  have hlines : (ofComplete .standard).format (.text markedText) linesFormat =
      .ok shownMarkedLines := by
    decide +kernel
  obtain ⟨hescape, -, -, hmarkup, hampersand, hread, hbreaks⟩ :=
    format_escaped (ofComplete .standard) markedText ""
  have htext : escape markedText = shownMarkedText := Except.ok.inj (hescape.symm.trans hshown)
  obtain ⟨broken, hbroken, hadded⟩ := hbreaks (.text markedText) rfl shownMarkedText hshown
  obtain rfl := Except.ok.inj (hbroken.symm.trans hlines)
  rw [htext] at hmarkup hampersand hread
  exact ⟨rfl, hshown, hmarkup '<' List.mem_cons_self, hampersand, hread, hlines, hadded⟩

end Formatter

end SemanticMarkup
