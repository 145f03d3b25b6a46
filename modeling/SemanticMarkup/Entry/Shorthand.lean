import SemanticMarkup.Failure
import SemanticMarkup.Text.Blank
import SemanticMarkup.Text.Word

/-!
# Shorthand entries

A text of the form `property[:attribute[:format[:label]]]` is a short entry. The
property is a hyphenated name, the attribute a dotted path, the format a word
and the label any text in one line. What is not written follows from the rest.

## Implementation notes

The parts are read from left to right, each as long as it can be. A part that
does not fit is taken to be left out, so all that follows is the label.
-/

namespace SemanticMarkup

open SemanticMarkup.Text

/-- Whether a character is a small letter of the alphabet. -/
def isSmallLetter (c : Char) : Bool :=
  'a' ≤ c && c ≤ 'z'

/-- Whether a text consists of at least two words of small letters with hyphens between. -/
def isHyphenated (cs : List Char) : Bool :=
  let words := cs.splitOn '-'
  2 ≤ words.length && words.all fun w => !w.isEmpty && w.all isSmallLetter

/-- Whether a text is a word. -/
def isWord (cs : List Char) : Bool :=
  !cs.isEmpty && cs.all isWordChar

/-- Whether a text consists of words with points between. -/
def isPath (cs : List Char) : Bool :=
  (cs.splitOn '.').all isWord

/-- The attribute that a property shows: what follows its first hyphen, with underscores. -/
def attributeOfProperty? (property : String) : Option String :=
  (cutAt '-' property.toList).2.map fun rest =>
    String.ofList (replaceChar '-' ['_'] rest)

/-- A short entry. -/
structure Shorthand where
  /-- The property. -/
  property : String
  /-- The path of the attribute, if it is written. -/
  path : Option String
  /-- The format, if it is written. -/
  format : Option String
  /-- The label, if it is written. -/
  label : Option String
  deriving DecidableEq, Repr

namespace Shorthand

/-- Takes a part off the front if it satisfies a condition. -/
def takePart (fits : List Char → Bool) (rest : Option (List Char)) :
    Option (List Char) × Option (List Char) :=
  match rest with
  | none => (none, none)
  | some cs =>
      let cut := cutAt ':' cs
      if fits cut.1 then (some cut.1, cut.2) else (none, some cs)

/-- The short entry that a text is. -/
def read? (s : String) : Option Shorthand :=
  let (property, rest) := cutAt ':' s.toList
  if !isHyphenated property || rest.any fun cs => cs.contains '\n' then none
  else
    let (path, afterPath) := takePart isPath rest
    let (format, label) :=
      if path.isSome then takePart isWord afterPath else (none, afterPath)
    some {
      property := String.ofList property
      path := path.map String.ofList
      format := format.map String.ofList
      label := label.map String.ofList }

/-- The path that is written, or that of the property. -/
def resolvedPath (s : Shorthand) : String :=
  s.path.getD ((attributeOfProperty? s.property).getD "")

/-- The format that is written, or the plain text. -/
def resolvedFormat (s : Shorthand) : String :=
  s.format.getD "text"

/-- The written form of a short entry. -/
def written (s : Shorthand) : String :=
  ":".intercalate (s.property :: [s.path, s.format, s.label].filterMap id)

end Shorthand

end SemanticMarkup
