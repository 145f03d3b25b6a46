import SemanticMarkup.Failure

/-!
# Places in a YAML text

A YAML text is read from the front; where a character stands in its line matters
for the meaning of the text. A `Source` is the rest of a text together with its
place. A text that holds a character which is not allowed is no YAML at all.

Line breaks are the line feed, the carriage return, both together, the next-line
character and the two separators; all but the separators are read as a line
feed.
-/

namespace SemanticMarkup.Yaml

/-- Why a text is not read as YAML. -/
inductive Refusal where
  /-- It is no YAML. -/
  | malformed
  /-- A value in it cannot be made from what is written. -/
  | fault (f : Fault)
  deriving DecidableEq, Repr

/-- The failure that a refusal is for a document. -/
def Refusal.failure : Refusal → Failure
  | .malformed => .config .yaml
  | .fault f => .fault f

/-- Refuses a text that is no YAML. -/
def malformed {α : Type} : Except Refusal α :=
  .error .malformed

/-- The rest of a text and where it starts. -/
structure Source where
  /-- The characters from here on. -/
  rest : List Char
  /-- The number of characters before this place. -/
  index : Nat
  /-- The number of lines before the line of this place. -/
  line : Nat
  /-- The number of characters of the line before this place. -/
  column : Nat
  deriving Repr

/-- The mark that some editors put in front of a text; it takes no room in its line. -/
def byteOrderMark : Char := '\ufeff'

/-- Whether a character ends a line. -/
def isBreak (c : Char) : Bool :=
  c == '\n' || c == '\r' || c == '\u0085' || c == '\u2028' || c == '\u2029'

/-- Whether a character is a space or a tab. -/
def isGap (c : Char) : Bool :=
  c == ' ' || c == '\t'

/-- Whether a line ends before what comes next. -/
def endsLine (next : Option Char) : Bool :=
  next.all isBreak

/-- Whether a space or the end of the line comes next. -/
def endsName (next : Option Char) : Bool :=
  next.all fun c => c == ' ' || isBreak c

/-- Whether a space, a tab or the end of the line comes next. -/
def endsWord (next : Option Char) : Bool :=
  next.all fun c => isGap c || isBreak c

/-- Whether a character may occur in a YAML text. -/
def isAllowed (c : Char) : Bool :=
  c == '\t' || c == '\n' || c == '\r' || c == '\u0085'
    || (0x20 ≤ c.toNat && c.toNat ≤ 0x7E) || (0xA0 ≤ c.toNat && c.toNat ≤ 0xFFFD)
    || 0x10000 ≤ c.toNat

namespace Source

/-- The start of a text; a byte order mark there is skipped. -/
def ofText (cs : List Char) : Source :=
  match cs with
  | c :: rest =>
      if c = byteOrderMark then { rest := rest, index := 1, line := 0, column := 0 }
      else { rest := cs, index := 0, line := 0, column := 0 }
  | [] => { rest := [], index := 0, line := 0, column := 0 }

/-- The next character. -/
def peek (s : Source) : Option Char :=
  s.rest.head?

/-- Whether a character comes next. -/
def startsWith (s : Source) (c : Char) : Bool :=
  s.peek == some c

/-- Whether one of the characters in a class comes next. -/
def startsIn (s : Source) (kind : Char → Bool) : Bool :=
  s.peek.any kind

/-- The place behind the next character. -/
def next (s : Source) : Source :=
  match s.rest with
  | [] => s
  | c :: rest =>
      let half := c == '\r' && rest.head? == some '\n'
      if isBreak c && !half then
        { rest := rest, index := s.index + 1, line := s.line + 1, column := 0 }
      else
        let width := if c = byteOrderMark then 0 else 1
        { s with rest := rest, index := s.index + 1, column := s.column + width }

/-- The place behind a number of characters. -/
def skip : Nat → Source → Source
  | 0, s => s
  | k + 1, s => skip k s.next

/-- The longest row of characters of a class, and the place behind it. -/
def span (kind : Char → Bool) (s : Source) : List Char × Source :=
  let taken := s.rest.takeWhile kind
  (taken, s.skip taken.length)

/-- The place behind the longest row of characters of a class. -/
def skipWhile (kind : Char → Bool) (s : Source) : Source :=
  (s.span kind).2

/-- The line break that comes next as it is read, or nothing, and the place behind it. -/
def takeBreak (s : Source) : List Char × Source :=
  match s.rest with
  | '\r' :: '\n' :: _ => (['\n'], s.skip 2)
  | c :: _ =>
      if isBreak c then ([if c = '\u2028' ∨ c = '\u2029' then c else '\n'], s.next)
      else ([], s)
  | [] => ([], s)

/-- Whether three characters that stand for themselves come next. -/
def atMark (s : Source) (mark : List Char) : Bool :=
  mark.isPrefixOf s.rest && endsWord (s.rest.drop mark.length).head?

/-- The mark at the start of a document. -/
def startMark : List Char := ['-', '-', '-']

/-- The mark at the end of a document. -/
def endMark : List Char := ['.', '.', '.']

/-- Whether a mark between documents comes next. -/
def atDocumentMark (s : Source) : Bool :=
  s.atMark startMark || s.atMark endMark

/-- What was read, with the place behind spaces, a comment and the line break after them. Nothing
else may be in the rest of the line. -/
def endLine {α : Type} (read : α) (s : Source) : Except Refusal (α × Source) :=
  let s := s.skipWhile (· == ' ')
  let s := if s.startsWith '#' then s.skipWhile (!isBreak ·) else s
  if endsLine s.peek then .ok (read, s.takeBreak.2) else malformed

end Source

end SemanticMarkup.Yaml
