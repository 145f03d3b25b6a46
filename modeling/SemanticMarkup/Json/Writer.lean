import SemanticMarkup.Value.Text

/-!
# Writing JSON

Values made of nothing, truth values, numbers, texts, sequences and mappings are
written as JSON in ASCII, with a blank behind commas and colons. Values of other
types cannot be written, nor can integers with too many digits.
-/

namespace SemanticMarkup.Json

open SemanticMarkup.Number SemanticMarkup.Text

/-- Doubles are written as elsewhere, apart from the words for infinity and undefined numbers. -/
def doubleLayout : Double.Layout :=
  { positionalFrom := -4, positionalBelow := 16, infinity := "Infinity", undefined := "NaN" }

/-- The escape of a 16-bit unit. -/
def unitEscape (unit : Nat) : List Char :=
  backslash :: 'u' :: hexField 4 unit

/-- The form of one code point between the quotes. -/
def writeCode (code : Nat) : List Char :=
  if code = 0x22 then [backslash, doubleQuote]
  else if code = 0x5C then [backslash, backslash]
  else if code = 0x0A then [backslash, 'n']
  else if code = 0x0D then [backslash, 'r']
  else if code = 0x09 then [backslash, 't']
  else if code = 0x0C then [backslash, 'f']
  else if code = 0x08 then [backslash, 'b']
  else if 0x20 ≤ code ∧ code ≤ 0x7E then [Char.ofNat code]
  else if code < 0x10000 then unitEscape code
  else unitEscape (0xD800 + (code - 0x10000) / 0x400) ++ unitEscape (0xDC00 + code % 0x400)

/-- A row of code points in quotes. -/
def writeCodes (codes : List Nat) : List Char :=
  doubleQuote :: codes.flatMap writeCode ++ [doubleQuote]

/-- A text in quotes. -/
def writeText (s : String) : List Char :=
  writeCodes (s.toList.map Char.toNat)

/-- Parts in brackets with commas between them. -/
def enclose (left right : Char) (parts : List (List Char)) : List Char :=
  left :: [',', ' '].intercalate parts ++ [right]

/-- An integer, unless it has too many digits. -/
def writeInt (n : Int) : Outcome (List Char) :=
  if (Value.int n).isWritable then .ok (intText n) else Outcome.fault .wrongValue

/-- The name of a member: numbers, truth values and nothing stand as the text that they are
written as. -/
def writeKey : Value → Outcome (List Char)
  | .text s => .ok (writeText s)
  | .garbled codes => .ok (writeCodes codes)
  | .int n => do return doubleQuote :: (← writeInt n) ++ [doubleQuote]
  | .float x => .ok (doubleQuote :: (x.text doubleLayout).toList ++ [doubleQuote])
  | .bool true => .ok (writeText "true")
  | .bool false => .ok (writeText "false")
  | .null => .ok (writeText "null")
  | _ => Outcome.fault .wrongType

mutual

/-- A value as JSON. -/
def write : Value → Outcome (List Char)
  | .null => .ok "null".toList
  | .bool true => .ok "true".toList
  | .bool false => .ok "false".toList
  | .int n => writeInt n
  | .float x => .ok (x.text doubleLayout).toList
  | .text s => .ok (writeText s)
  | .garbled codes => .ok (writeCodes codes)
  | .list items => do return enclose '[' ']' (← writeItems items)
  | .tuple items => do return enclose '[' ']' (← writeItems items)
  | .dict entries => do return enclose '\x7b' '\x7d' (← writeEntries entries)
  | _ => Outcome.fault .wrongType

/-- The items of a sequence as JSON. -/
def writeItems : List Value → Outcome (List (List Char))
  | [] => .ok []
  | v :: vs => do
      let item ← write v
      let rest ← writeItems vs
      return item :: rest

/-- The members of a mapping as JSON. -/
def writeEntries : List (Value × Value) → Outcome (List (List Char))
  | [] => .ok []
  | (k, v) :: entries => do
      let key ← writeKey k
      let item ← write v
      let rest ← writeEntries entries
      return (key ++ ':' :: ' ' :: item) :: rest

end

end SemanticMarkup.Json
