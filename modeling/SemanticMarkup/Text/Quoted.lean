import SemanticMarkup.Text.Printable
import SemanticMarkup.Text.Split

/-!
# Quoted text

The form in which a text is shown inside a list or a mapping: in single quotes
unless it has single quotes and no double ones, with a backslash before the
quote and the backslash and with escapes for what is not printable.
-/

namespace SemanticMarkup.Text

/-- The single quote. -/
def singleQuote : Char := '\x27'

/-- The double quote. -/
def doubleQuote : Char := '\x22'

/-- The backslash. -/
def backslash : Char := '\x5c'

/-- The escape of an unprintable character, as short as its code point allows. -/
def codeEscape (code : Nat) : List Char :=
  if code < 0x100 then backslash :: 'x' :: hexField 2 code
  else if code < 0x10000 then backslash :: 'u' :: hexField 4 code
  else backslash :: 'U' :: hexField 8 code

/-- The written form of one character between the given quotes. -/
def quotedChar (quote c : Char) : List Char :=
  if c = quote ∨ c = backslash then [backslash, c]
  else if c = '\t' then [backslash, 't']
  else if c = '\n' then [backslash, 'n']
  else if c = '\r' then [backslash, 'r']
  else if isPrintable c then [c]
  else codeEscape c.toNat

/-- The quote that surrounds a text: the double one only where it avoids escapes. -/
def quoteFor (cs : List Char) : Char :=
  if cs.contains singleQuote && !cs.contains doubleQuote then doubleQuote else singleQuote

/-- A text in quotes. -/
def quoted (s : String) : String :=
  let quote := quoteFor s.toList
  String.ofList (quote :: s.toList.flatMap (quotedChar quote) ++ [quote])

/-- The written form of one byte between the given quotes. -/
def quotedByte (quote : Char) (b : Nat) : List Char :=
  let c := Char.ofNat b
  if c = quote ∨ c = backslash then [backslash, c]
  else if c = '\t' then [backslash, 't']
  else if c = '\n' then [backslash, 'n']
  else if c = '\r' then [backslash, 'r']
  else if 32 ≤ b ∧ b < 127 then [c]
  else backslash :: 'x' :: hexField 2 b

/-- A row of bytes in quotes, marked as bytes. -/
def quotedBytes (bs : List Nat) : String :=
  let quote := quoteFor (bs.map Char.ofNat)
  String.ofList ('b' :: quote :: bs.flatMap (quotedByte quote) ++ [quote])

end SemanticMarkup.Text
