import SemanticMarkup.Number.Numeral
import SemanticMarkup.Value.Basic

/-!
# Reading JSON

A JSON text is read as a value. Besides the standard the words `NaN`, `Infinity`
and `-Infinity` are numbers, and of members with the same name the last one
counts. A text that is no JSON is refused with what was expected and where.

## Implementation notes

A fault is placed by the number of characters that remained to be read. The
readers for values, members and elements call each other; `fuel` bounds the
number of calls and is chosen so large that it is never used up: between two
calls at least one character is read.
-/

namespace SemanticMarkup.Json

open SemanticMarkup.Number SemanticMarkup.Text

/-- What is wrong with a JSON text, and how much of it remained to be read there. -/
structure ReadFault where
  /-- What was expected or found. -/
  problem : String
  /-- The number of characters from the place of the fault on. -/
  remaining : Nat
  deriving DecidableEq, Repr

/-- Why a JSON text is not read. -/
inductive Refusal where
  /-- It is no JSON. -/
  | malformed (fault : ReadFault)
  /-- It holds an integer with more digits than are read. -/
  | hugeInteger
  deriving DecidableEq, Repr

/-- Refuses a text at the place where `rest` is left. -/
def refuse {α : Type} (problem : String) (rest : List Char) : Except Refusal α :=
  .error (.malformed ⟨problem, rest.length⟩)

/-- Whether a character may stand between the parts of a JSON text. -/
def isSpace (c : Char) : Bool :=
  c == ' ' || c == '\t' || c == '\n' || c == '\r'

/-- A text without the spaces at its front. -/
def skipSpaces (cs : List Char) : List Char :=
  cs.dropWhile isSpace

/-- The number written by four hexadecimal digits. -/
def hexUnit? : List Char → Option Nat
  | [a, b, c, d] => do
      let a ← hexDigit? a
      let b ← hexDigit? b
      let c ← hexDigit? c
      let d ← hexDigit? d
      return ((a * 16 + b) * 16 + c) * 16 + d
  | _ => none

/-- The character an escape of one letter stands for. -/
def letterEscape? (c : Char) : Option Nat :=
  match c with
  | '\x22' => some 0x22
  | '\x5c' => some 0x5C
  | '/' => some 0x2F
  | 'b' => some 0x08
  | 'f' => some 0x0C
  | 'n' => some 0x0A
  | 'r' => some 0x0D
  | 't' => some 0x09
  | _ => none

/-- The code point of a unit: a first half of a pair takes the escape of the second half with it,
if there is one in front of `after`. -/
def joinUnit (unit : Nat) (after : List Char) : Except Refusal (Nat × List Char) :=
  if 0xD800 ≤ unit ∧ unit < 0xDC00 ∧ 6 < after.length then
    match after with
    | '\x5c' :: 'u' :: second =>
        match hexUnit? (second.take 4) with
        | none => refuse "Invalid \\uXXXX escape" ('u' :: second)
        | some low =>
            if 0xDC00 ≤ low ∧ low < 0xE000 then
              .ok (0x10000 + (unit - 0xD800) * 0x400 + (low - 0xDC00), second.drop 4)
            else .ok (unit, after)
    | _ => .ok (unit, after)
  else .ok (unit, after)

/-- Reads the escape behind `u`, together with the escape of the second half of a pair. `rest`
starts with the letter. -/
def readUnits (rest : List Char) : Except Refusal (Nat × List Char) :=
  let digits := rest.drop 1
  if digits.length ≤ 4 then refuse "Invalid \\uXXXX escape" rest
  else match hexUnit? (digits.take 4) with
    | none => refuse "Invalid \\uXXXX escape" rest
    | some unit => joinUnit unit (digits.drop 4)

/-- Reads a string behind its opening quote. `start` is the length of the text from that quote
on. -/
def readCodes (start : Nat) : Nat → List Char → Except Refusal (List Nat × List Char)
  | 0, _ => .error (.malformed ⟨"Unterminated string starting at", start⟩)
  | fuel + 1, cs =>
      match cs with
      | [] => .error (.malformed ⟨"Unterminated string starting at", start⟩)
      | '\x22' :: rest => .ok ([], rest)
      | '\x5c' :: [] => .error (.malformed ⟨"Unterminated string starting at", start⟩)
      | '\x5c' :: 'u' :: rest => do
          let (code, rest) ← readUnits ('u' :: rest)
          let (codes, rest) ← readCodes start fuel rest
          return (code :: codes, rest)
      | '\x5c' :: c :: rest =>
          match letterEscape? c with
          | none => refuse "Invalid \\escape" cs
          | some code => do
              let (codes, rest) ← readCodes start fuel rest
              return (code :: codes, rest)
      | c :: rest =>
          if c.toNat < 0x20 then refuse "Invalid control character at" cs
          else do
            let (codes, rest) ← readCodes start fuel rest
            return (c.toNat :: codes, rest)

/-- Reads a string behind its opening quote. -/
def readString (cs : List Char) : Except Refusal (Value × List Char) := do
  let (codes, rest) ← readCodes (cs.length + 1) (cs.length + 1) cs
  return (Value.ofCodes codes, rest)

/-- The words that are values. -/
def wordValues : List (String × Value) :=
  [("null", .null), ("true", .bool true), ("false", .bool false), ("NaN", .float .nan),
    ("Infinity", .float (.infinite false)), ("-Infinity", .float (.infinite true))]

/-- Reads a word that is a value. -/
def readWord? (cs : List Char) : Option (Value × List Char) :=
  (wordValues.find? fun w => w.1.toList.isPrefixOf cs).map fun w =>
    (w.2, cs.drop w.1.length)

/-- The fraction in front of a text: a point and at least one digit. -/
def spanFraction (cs : List Char) : List Char × List Char :=
  match cs with
  | '.' :: rest =>
      let digits := spanDigits rest
      if digits.1.isEmpty then ([], cs) else digits
  | _ => ([], cs)

/-- The power of ten in front of a text: the letter, a sign and at least one digit. -/
def spanPower (cs : List Char) : Option Int × List Char :=
  match cs with
  | c :: rest =>
      if c = 'e' ∨ c = 'E' then
        let signed := readSign rest
        let digits := spanDigits signed.2
        if digits.1.isEmpty then (none, cs)
        else
          let power : Int := digitsToNat 0 digits.1
          (some (if signed.1 then -power else power), digits.2)
      else (none, cs)
  | [] => (none, [])

/-- Reads a number. -/
def readNumber (cs : List Char) : Except Refusal (Value × List Char) :=
  let negative := cs.head? == some '-'
  let unsigned := if negative then cs.drop 1 else cs
  let whole := if unsigned.head? == some '0' then (['0'], unsigned.drop 1) else spanDigits unsigned
  if whole.1.isEmpty then refuse "Expecting value" cs
  else
    let fraction := spanFraction whole.2
    let power := spanPower fraction.2
    if fraction.1.isEmpty && power.1.isNone then
      if digitLimit < whole.1.length then .error .hugeInteger
      else
        let n : Int := digitsToNat 0 whole.1
        .ok (.int (if negative then -n else n), power.2)
    else
      let decimal : Scientific :=
        ⟨digitsToNat 0 (whole.1 ++ fraction.1), power.1.getD 0 - fraction.1.length⟩
      .ok (.float (decimal.toDouble negative), power.2)

mutual

/-- Reads a value. -/
def readValue : Nat → List Char → Except Refusal (Value × List Char)
  | 0, cs => refuse "Expecting value" cs
  | fuel + 1, cs =>
      match cs with
      | '\x22' :: rest => readString rest
      | '\x7b' :: rest =>
          match skipSpaces rest with
          | '\x7d' :: after => .ok (.dict [], after)
          | members => do
              let (entries, after) ← readMembers fuel members
              return (.dict (Entries.ofPairs entries), after)
      | '[' :: rest =>
          match skipSpaces rest with
          | ']' :: after => .ok (.list [], after)
          | elements => do
              let (items, after) ← readElements fuel elements
              return (.list items, after)
      | _ =>
          match readWord? cs with
          | some word => .ok word
          | none => readNumber cs

/-- Reads the members of an object, of which there is at least one, and the closing brace. -/
def readMembers : Nat → List Char → Except Refusal (Entries × List Char)
  | 0, cs => refuse "Expecting value" cs
  | fuel + 1, cs =>
      match cs with
      | '\x22' :: rest => do
          let (name, rest) ← readString rest
          match skipSpaces rest with
          | ':' :: rest =>
              let (value, rest) ← readValue fuel (skipSpaces rest)
              match skipSpaces rest with
              | '\x7d' :: after => return ([(name, value)], after)
              | ',' :: rest =>
                  let (entries, after) ← readMembers fuel (skipSpaces rest)
                  return ((name, value) :: entries, after)
              | rest => refuse "Expecting ',' delimiter" rest
          | rest => refuse "Expecting ':' delimiter" rest
      | _ => refuse "Expecting property name enclosed in double quotes" cs

/-- Reads the elements of an array, of which there is at least one, and the closing bracket. -/
def readElements : Nat → List Char → Except Refusal (List Value × List Char)
  | 0, cs => refuse "Expecting value" cs
  | fuel + 1, cs => do
      let (value, rest) ← readValue fuel cs
      match skipSpaces rest with
      | ']' :: after => return ([value], after)
      | ',' :: rest =>
          let (values, after) ← readElements fuel (skipSpaces rest)
          return (value :: values, after)
      | rest => refuse "Expecting ',' delimiter" rest

end

/-- The mark that some editors put in front of a text. -/
def byteOrderMark : Char := '\ufeff'

/-- Reads a whole text as one value. -/
def read (cs : List Char) : Except Refusal Value :=
  if cs.head? == some byteOrderMark then
    refuse "Unexpected UTF-8 BOM (decode using utf-8-sig)" cs
  else do
    let (value, rest) ← readValue (2 * cs.length + 2) (skipSpaces cs)
    let rest := skipSpaces rest
    if rest.isEmpty then return value else refuse "Extra data" rest

/-- The line and the column, both from 1, of the place in a text where so much of it remains. -/
def position (cs : List Char) (remaining : Nat) : Nat × Nat :=
  let before := cs.take (cs.length - remaining)
  (before.count '\n' + 1, (before.reverse.takeWhile (· != '\n')).length + 1)

end SemanticMarkup.Json
