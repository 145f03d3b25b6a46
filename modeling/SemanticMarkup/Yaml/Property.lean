import SemanticMarkup.Text.Utf8
import SemanticMarkup.Yaml.Source

/-!
# Anchors, tags and directives

The names by which nodes refer to each other, the tags that say what kind of
value a node is, and the directives in front of a document.
-/

namespace SemanticMarkup.Yaml

/-- Whether a character may occur in the names of anchors, directives and tag handles. -/
def isNameChar (c : Char) : Bool :=
  c.isAlphanum || c == '-' || c == '_'

/-- The characters that may stand behind the name of an anchor besides gaps and line breaks. -/
def anchorEnds : List Char :=
  ['?', ':', ',', ']', '\x7d', '%', '@', '\x60']

/-- Reads the name of an anchor. -/
def readAnchor (s : Source) : Except Refusal (String × Source) :=
  let (name, s) := s.span isNameChar
  if name.isEmpty then malformed
  else if endsWord s.peek || s.startsIn anchorEnds.contains then .ok (String.ofList name, s)
  else malformed

/-! ## Tags -/

/-- A tag as it is written: with a handle that stands for the start of its name, or without. -/
structure WrittenTag where
  /-- The handle. -/
  handle : Option String
  /-- What follows the handle. -/
  suffix : String
  deriving DecidableEq, Repr

/-- The characters of a tag that stand for themselves, besides letters and digits. -/
def uriMarks : List Char :=
  ['-', ';', '/', '?', ':', '@', '&', '=', '+', '$', ',', '_', '.', '!', '~', '*', '\x27', '(',
    ')', '[', ']']

/-- Whether a character of a tag stands for itself. -/
def isUriChar (c : Char) : Bool :=
  c.isAlphanum || uriMarks.contains c

/-- The bytes that come next in a tag, each written as two hexadecimal digits after a percent
sign. -/
def uriBytes : Nat → Source → Except Refusal (List Nat × Source)
  | 0, s => .ok ([], s)
  | fuel + 1, s =>
      match s.rest with
      | '%' :: a :: b :: _ =>
          match Text.hexDigit? a, Text.hexDigit? b with
          | some a, some b => do
              let (bytes, after) ← uriBytes fuel (s.skip 3)
              return ((16 * a + b) :: bytes, after)
          | _, _ => malformed
      | '%' :: _ => malformed
      | _ => .ok ([], s)

/-- The characters that come next in a tag. -/
def uriChars : Nat → Source → Except Refusal (List Char × Source)
  | 0, s => .ok ([], s)
  | fuel + 1, s => do
      let (plain, s) := s.span isUriChar
      let (bytes, after) ← uriBytes fuel s
      if bytes.isEmpty then return (plain, s)
      else match Text.decodeUtf8? bytes with
        | none => malformed
        | some decoded =>
            let (others, after) ← uriChars fuel after
            return (plain ++ decoded.toList ++ others, after)

/-- Reads the name of a tag or the start of one. -/
def readUri (s : Source) : Except Refusal (String × Source) := do
  let (cs, after) ← uriChars (s.rest.length + 1) s
  if cs.isEmpty then malformed else return (String.ofList cs, after)

/-- Reads a handle: an exclamation mark, or a name between two of them. -/
def readHandle (s : Source) : Except Refusal (String × Source) :=
  let (name, after) := s.next.span isNameChar
  if !s.startsWith '!' then malformed
  else if s.next.startsWith ' ' then .ok ("!", s.next)
  else if after.startsWith '!' then
    .ok (String.ofList ('!' :: name ++ ['!']), after.next)
  else malformed

/-- Reads a tag from its exclamation mark on. -/
def readTag (s : Source) : Except Refusal (WrittenTag × Source) := do
  let behind := s.next
  let (tag, after) ←
    if behind.startsWith '<' then do
      let (name, after) ← readUri behind.next
      if after.startsWith '>' then pure (⟨none, name⟩, after.next) else malformed
    else if endsWord behind.peek then pure (⟨none, "!"⟩, behind)
    else do
      let word := (behind.span fun c => c != ' ' && !isBreak c).1
      let (handle, start) ← if word.contains '!' then readHandle s else pure ("!", behind)
      let (suffix, after) ← readUri start
      pure ((⟨some handle, suffix⟩ : WrittenTag), after)
  if endsName after.peek then return (tag, after) else malformed

/-! ## Directives -/

/-- A directive. -/
inductive Directive where
  /-- The version of the language. -/
  | version (major minor : Nat)
  /-- What the tags with a handle start with. -/
  | handle (name start : String)
  /-- A directive without a meaning. -/
  | other
  deriving DecidableEq, Repr

/-- Reads a row of decimal digits; a row that is too long is no number. -/
def readCount (s : Source) : Except Refusal (Nat × Source) :=
  let (digits, after) := s.span Char.isDigit
  if digits.isEmpty then malformed
  else if Number.digitLimit < digits.length then .error (.fault .wrongValue)
  else .ok (Number.digitsToNat 0 digits, after)

/-- Reads what a version directive says behind its name. -/
def readVersion (s : Source) : Except Refusal (Directive × Source) := do
  let (major, s) ← readCount (s.skipWhile (· == ' '))
  if !s.startsWith '.' then malformed
  else
    let (minor, s) ← readCount s.next
    if endsName s.peek then return (.version major minor, s) else malformed

/-- Reads what a handle directive says behind its name. -/
def readHandleStart (s : Source) : Except Refusal (Directive × Source) := do
  let (name, s) ← readHandle (s.skipWhile (· == ' '))
  if !s.startsWith ' ' then malformed
  else
    let (start, s) ← readUri (s.skipWhile (· == ' '))
    if endsName s.peek then return (.handle name start, s) else malformed

/-- Reads a directive from its percent sign to the end of its line. -/
def readDirective (s : Source) : Except Refusal (Directive × Source) := do
  let (name, s) := s.next.span isNameChar
  if name.isEmpty || !endsName s.peek then malformed
  else
    let (directive, s) ←
      if String.ofList name = "YAML" then readVersion s
      else if String.ofList name = "TAG" then readHandleStart s
      else pure (.other, s.skipWhile (!isBreak ·))
    s.endLine directive

end SemanticMarkup.Yaml
