import SemanticMarkup.Markup.Container
import SemanticMarkup.Proofs.Entry.Names
import SemanticMarkup.Proofs.Markup.Classes
import SemanticMarkup.Proofs.Markup.Escape

/-!
# Reading markup back

A forest is a row of texts and of elements with classes, the content of an
element being a forest again. It is written as nested tags with escaped text. The
reader splits markup into tags and the texts between them, and builds the forest
from right to left: a closing tag starts a new content, an opening one ends it.
Whatever is written of a proper forest is read as that forest.

## Implementation notes

The reader knows nothing of how markup is written: it takes every `<` for the
start of a tag and reads all entities, wherever they come from.
-/

namespace SemanticMarkup.Markup

open SemanticMarkup.Text

/-- A row of texts and elements. -/
inductive Forest where
  /-- Nothing. -/
  | nil
  /-- A text and what follows. -/
  | text (s : String) (rest : Forest)
  /-- An element with its classes and its content, and what follows. -/
  | element (name : String) (classes : List String) (inner rest : Forest)
  deriving DecidableEq, Repr

namespace Forest

/-- One row behind another. -/
def append : Forest → Forest → Forest
  | nil, back => back
  | text s rest, back => text s (append rest back)
  | element name classes inner rest, back => element name classes inner (append rest back)

theorem append_nil (forest : Forest) : forest.append nil = forest := by
  induction forest with
  | nil => rfl
  | text s rest ih => rw [append, ih]
  | element name classes inner rest _ ih => rw [append, ih]

/-- The markup of a row. -/
def write : Forest → String
  | nil => ""
  | text s rest => escape s ++ write rest
  | element name classes inner rest =>
      Markup.element name (classAttribute classes) (write inner) ++ write rest

/-- Whether a row starts with a text. -/
def startsWithText : Forest → Bool
  | text _ _ => true
  | _ => false

/-- Whether a name of a tag consists of small letters. -/
def IsTagName (name : String) : Prop :=
  name.toList.all isSmallLetter = true

instance decidableIsTagName (name : String) : Decidable (IsTagName name) :=
  inferInstanceAs (Decidable (name.toList.all isSmallLetter = true))

/-- Texts are not empty and do not meet, tags are named by letters, and classes are words. -/
def Proper : Forest → Prop
  | nil => True
  | text s rest => s ≠ "" ∧ rest.startsWithText = false ∧ Proper rest
  | element name classes inner rest =>
      IsTagName name ∧ (∀ word ∈ classes, words word = [word]) ∧ Proper inner ∧ Proper rest

end Forest

/-- A part of markup. -/
inductive Lexeme where
  /-- A text between tags. -/
  | text (cs : List Char)
  /-- What stands between the brackets of a tag. -/
  | tag (body : List Char)
  /-- A tag without an end. -/
  | broken

namespace Lexeme

/-- The parts of markup, given whether a tag is being read, and what was read of it or of the text,
last character first. -/
def split (inTag : Bool) (seen : List Char) : List Char → List Lexeme
  | [] => if inTag then [.broken] else if seen.isEmpty then [] else [.text seen.reverse]
  | c :: rest =>
      if inTag then
        if c = '>' then .tag seen.reverse :: split false [] rest else split true (c :: seen) rest
      else if c = '<' then
        if seen.isEmpty then split true [] rest else .text seen.reverse :: split true [] rest
      else split false (c :: seen) rest

/-- The classes that an attribute sets. -/
def readClasses (written : List Char) : Option (List String) :=
  if "class=\"".toList.isPrefixOf written then
    match cutAt doubleQuote (written.drop 7) with
    | (value, some []) => some (words (String.ofList (unescape value)))
    | _ => none
  else none

/-- The name and the classes that an opening tag sets. -/
def readOpening (body : List Char) : Option (List Char × List String) :=
  match cutAt ' ' body with
  | (name, none) => some (name, [])
  | (name, some written) => (readClasses written).map fun classes => (name, classes)

/-- Contents that are being read, from right to left, each with the name of its closing tag. -/
abbrev Frames := List (List Char × Forest)

/-- Puts one more part in front of what was read. -/
def enter : Lexeme → Option Frames → Option Frames
  | .text cs, some ((name, content) :: frames) =>
      some ((name, .text (String.ofList (unescape cs)) content) :: frames)
  | .tag ('/' :: name), some frames => some ((name, .nil) :: frames)
  | .tag body, some ((closed, inner) :: (name, rest) :: frames) =>
      match readOpening body with
      | some (opened, classes) =>
          if opened = closed then
            some ((name, .element (String.ofList opened) classes inner rest) :: frames)
          else none
      | none => none
  | _, _ => none

/-- What parts of markup are read as. -/
def readAll (parts : List Lexeme) : Option Frames :=
  parts.foldr enter (some [([], .nil)])

end Lexeme

/-- The row that markup writes. -/
def Forest.read (markup : String) : Option Forest :=
  match Lexeme.readAll (Lexeme.split false [] markup.toList) with
  | some [(_, forest)] => some forest
  | _ => none

namespace Lexeme

/-- A text without brackets goes on to the next tag. -/
theorem split_text {cs : List Char} (h : '<' ∉ cs) (seen rest : List Char) :
    split false seen (cs ++ rest) = split false (cs.reverse ++ seen) rest := by
  induction cs generalizing seen with
  | nil => rfl
  | cons c cs ih =>
      obtain ⟨hc, hcs⟩ := not_or.mp (mt List.mem_cons.mpr h)
      rw [List.cons_append, split, if_neg Bool.false_ne_true, if_neg (Ne.symm hc), ih hcs,
        List.reverse_cons, List.append_assoc, List.singleton_append]

/-- A tag without brackets inside goes on to its end. -/
theorem split_tag {body : List Char} (h : '>' ∉ body) (seen rest : List Char) :
    split true seen (body ++ '>' :: rest) =
      .tag ((body.reverse ++ seen).reverse) :: split false [] rest := by
  induction body generalizing seen with
  | nil =>
      rw [List.nil_append, split, if_pos rfl, if_pos rfl]
      rfl
  | cons c body ih =>
      obtain ⟨hc, hbody⟩ := not_or.mp (mt List.mem_cons.mpr h)
      rw [List.cons_append, split, if_pos rfl, if_neg (Ne.symm hc), ih hbody, List.reverse_cons,
        List.append_assoc, List.singleton_append]

theorem split_opening {body : List Char} (h : '>' ∉ body) (rest : List Char) :
    split false [] ('<' :: (body ++ '>' :: rest)) = .tag body :: split false [] rest := by
  change split true [] (body ++ '>' :: rest) = _
  rw [split_tag h, List.append_nil, List.reverse_reverse]

/-- A text that is not empty ends where a tag starts or where the markup ends. -/
theorem split_text_of_edge {cs rest : List Char} (h : '<' ∉ cs) (hne : cs ≠ [])
    (hedge : rest = [] ∨ ∃ more, rest = '<' :: more) :
    split false [] (cs ++ rest) = .text cs :: split false [] rest := by
  have hempty : cs.reverse.isEmpty = false := by
    cases hr : cs.reverse with
    | nil => exact absurd (List.reverse_eq_nil_iff.mp hr) hne
    | cons c rest => rfl
  rw [split_text h, List.append_nil]
  obtain rfl | ⟨more, rfl⟩ := hedge
  · simp only [split, hempty, Bool.false_eq_true, if_false, List.reverse_reverse]
    rfl
  · simp only [split, hempty, Bool.false_eq_true, if_false, if_true, List.reverse_reverse]
    rfl

theorem readAll_cons (part : Lexeme) (parts : List Lexeme) :
    readAll (part :: parts) = enter part (readAll parts) := rfl

end Lexeme

namespace Forest

open Lexeme

theorem not_mem_of_isTagName {name : String} (h : IsTagName name) {c : Char}
    (hc : isSmallLetter c = false) : c ∉ name.toList := by
  intro hmem
  rw [List.all_eq_true.mp h c hmem] at hc
  cases hc

/-- What stands between the brackets of an opening tag. -/
def opening (name : String) (classes : List String) : List Char :=
  name.toList ++
    ' ' :: ("class=\"".toList ++ (escape (" ".intercalate classes)).toList ++ [doubleQuote])

theorem toList_classAttribute (classes : List String) :
    (classAttribute classes).toList =
      ' ' :: ("class=\"".toList ++ (escape (" ".intercalate classes)).toList ++ [doubleQuote]) := by
  simp only [classAttribute, quotedAttribute, String.toList_append, List.append_assoc]
  rfl

theorem escapeWith_of_isTagName {name : String} (h : IsTagName name) :
    escapeWith tagQuotes name.toList = name.toList := by
  have hnone {c : Char} (hc : isSmallLetter c = false) := not_mem_of_isTagName h hc
  rw [escapeWith, replaceChar_of_not_mem _ (hnone (by decide)),
    replaceChar_of_not_mem _ (hnone (by decide)), replaceChar_of_not_mem _ (hnone (by decide)),
    replaceChar_of_not_mem _ (hnone (by decide)), replaceChar_of_not_mem _ (hnone (by decide))]

/-- The characters of an element: its opening tag, its content and its closing tag. -/
theorem toList_element {name : String} (h : IsTagName name) (classes : List String)
    (content : String) :
    (Markup.element name (classAttribute classes) content).toList =
      '<' :: (opening name classes ++ '>' :: (content.toList ++
        '<' :: ('/' :: name.toList ++ ['>']))) := by
  simp only [Markup.element, escapeWith_of_isTagName h, String.ofList_toList, String.toList_append,
    toList_classAttribute, opening, List.append_assoc]
  rfl

/-- The classes that are written are read. -/
theorem readClasses_written {classes : List String} (h : ∀ word ∈ classes, words word = [word]) :
    readClasses ("class=\"".toList ++ (escape (" ".intercalate classes)).toList ++ [doubleQuote]) =
      some classes := by
  have hstart : "class=\"".toList.isPrefixOf
      ("class=\"".toList ++ (escape (" ".intercalate classes)).toList ++ [doubleQuote]) = true := by
    rw [List.isPrefixOf_iff_prefix, List.append_assoc]
    exact List.prefix_append _ _
  have hdrop :
      ("class=\"".toList ++ (escape (" ".intercalate classes)).toList ++ [doubleQuote]).drop 7 =
        (escape (" ".intercalate classes)).toList ++ [doubleQuote] := by
    rw [List.append_assoc]
    exact List.drop_left' rfl
  rw [readClasses, if_pos hstart, hdrop, cutAt_append (not_mem_escape (by decide))]
  simp only [unescape_escape, String.ofList_toList, words_joined_of_forall h]

theorem readOpening_opening {name : String} {classes : List String} (hname : IsTagName name)
    (h : ∀ word ∈ classes, words word = [word]) :
    readOpening (opening name classes) = some (name.toList, classes) := by
  rw [readOpening, opening, cutAt_append (not_mem_of_isTagName hname (by decide))]
  simp only [readClasses_written h, Option.map_some]

theorem not_mem_opening {name : String} {classes : List String} (h : '>' ∉ name.toList) :
    '>' ∉ opening name classes := by
  simp only [opening, List.mem_append, List.mem_cons, not_or]
  exact ⟨h, by decide, ⟨by decide, not_mem_escape (by decide)⟩, by decide, by decide⟩

/-- An opening tag ends the content that was started by its closing tag. -/
theorem enter_opening {name : String} {classes : List String} (hname : IsTagName name)
    (h : ∀ word ∈ classes, words word = [word]) {closed : List Char} {inner rest : Forest}
    {frames : Frames} :
    enter (.tag (opening name classes)) (some ((name.toList, inner) :: (closed, rest) :: frames)) =
      some ((closed, .element name classes inner rest) :: frames) := by
  have hslash : ∀ more, opening name classes ≠ '/' :: more := by
    intro more heq
    rw [opening] at heq
    cases hchars : name.toList with
    | nil =>
        rw [hchars] at heq
        exact absurd (List.cons.inj heq).1 (by decide)
    | cons c cs =>
        rw [hchars] at heq
        have hsmall := List.all_eq_true.mp hname c (hchars ▸ List.mem_cons_self)
        rw [(List.cons.inj heq).1] at hsmall
        exact absurd hsmall (by decide)
  rw [enter]
  · simp only [readOpening_opening hname h, if_true, String.ofList_toList]
  · exact fun more heq => hslash more heq

/-- A row without a text at its front starts with a tag, or is empty. -/
theorem edge_write {forest : Forest} (hmeet : forest.startsWithText = false) (h : forest.Proper)
    {rest : List Char} (hedge : rest = [] ∨ ∃ more, rest = '<' :: more) :
    forest.write.toList ++ rest = [] ∨ ∃ more, forest.write.toList ++ rest = '<' :: more := by
  cases forest with
  | nil => exact hedge
  | text s tail => cases hmeet
  | element name classes inner tail =>
      rw [write, String.toList_append, toList_element h.1]
      exact .inr ⟨_, rfl⟩

/-- What is written of a row, in front of a tag or of the end, is read as the row. -/
theorem readAll_write {forest : Forest} (h : forest.Proper) {rest : List Char}
    (hedge : rest = [] ∨ ∃ more, rest = '<' :: more) {closed : List Char} {content : Forest}
    {frames : Frames} (hrest : readAll (split false [] rest) = some ((closed, content) :: frames)) :
    readAll (split false [] (forest.write.toList ++ rest)) =
      some ((closed, forest.append content) :: frames) := by
  induction forest generalizing rest closed content frames with
  | nil => exact hrest
  | text s tail ih =>
      obtain ⟨hne, hmeet, htail⟩ := h
      have hshown : (escape s).toList ≠ [] := by
        intro hnil
        have hs := unescape_escape s
        rw [hnil] at hs
        exact hne (String.toList_eq_nil_iff.mp hs.symm)
      rw [write, String.toList_append, List.append_assoc,
        split_text_of_edge (not_mem_escape (by decide)) hshown (edge_write hmeet htail hedge),
        readAll_cons, ih htail hedge hrest, enter, unescape_escape, String.ofList_toList, append]
  | element name classes inner tail ihInner ihTail =>
      obtain ⟨hname, hclasses, hinner, htail⟩ := h
      have hend : '>' ∉ name.toList := not_mem_of_isTagName hname (by decide)
      have hclosing : '>' ∉ '/' :: name.toList := by
        rw [List.mem_cons, not_or]
        exact ⟨by decide, hend⟩
      have hbehind := ihTail htail hedge hrest
      have hclosed : readAll (split false []
          ('<' :: ('/' :: name.toList ++ '>' :: (tail.write.toList ++ rest)))) =
            some ((name.toList, .nil) :: (closed, tail.append content) :: frames) := by
        rw [split_opening hclosing, readAll_cons, hbehind]
        rfl
      have hwithin := ihInner hinner (.inr ⟨_, rfl⟩) hclosed
      have hchars : (write (element name classes inner tail)).toList ++ rest =
          '<' :: (opening name classes ++ '>' :: (inner.write.toList ++
            '<' :: ('/' :: name.toList ++ '>' :: (tail.write.toList ++ rest)))) := by
        rw [write, String.toList_append, toList_element hname]
        simp only [List.cons_append, List.append_assoc, List.nil_append]
      rw [hchars, split_opening (not_mem_opening hend), readAll_cons, hwithin, append_nil,
        enter_opening hname hclasses, append]

/-- What is written of a proper row is read as this row. -/
theorem read_write {forest : Forest} (h : forest.Proper) : read forest.write = some forest := by
  have hall := readAll_write h (.inl rfl) (show readAll (split false [] []) = _ from rfl)
  rw [List.append_nil, append_nil] at hall
  rw [read, hall]

end Forest

end SemanticMarkup.Markup
