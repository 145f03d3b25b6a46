import SemanticMarkup.Yaml.Timestamp

/-!
# Tags of YAML

The tag of a node says what kind of value it is. A scalar that is written
plainly and has no tag gets one by its form: words for truth values and for no
value, integers in several bases, decimals, dates with an optional time, and two
marks that are only meaningful as keys.
-/

namespace SemanticMarkup.Yaml

open SemanticMarkup.Text

/-- The tag of a node. -/
inductive Tag where
  /-- No value. -/
  | null
  /-- A truth value. -/
  | bool
  /-- An integer. -/
  | int
  /-- A double. -/
  | float
  /-- A date or a date with a time. -/
  | timestamp
  /-- A row of bytes. -/
  | binary
  /-- A text. -/
  | str
  /-- A list. -/
  | seq
  /-- A mapping. -/
  | map
  /-- A set. -/
  | set
  /-- A row of pairs with different keys. -/
  | omap
  /-- A row of pairs. -/
  | pairs
  /-- The key of mappings whose entries are taken over. -/
  | merge
  /-- The key of the value that stands for a mapping. -/
  | value
  /-- A tag without a meaning. -/
  | other
  deriving DecidableEq, Repr

namespace Tag

/-- The start of the names of all tags with a meaning. -/
def family : String := "tag:yaml.org,2002:"

/-- The tags with a meaning, under the ends of their names. -/
def named : List (String × Tag) :=
  [("null", .null), ("bool", .bool), ("int", .int), ("float", .float), ("timestamp", .timestamp),
    ("binary", .binary), ("str", .str), ("seq", .seq), ("map", .map), ("set", .set),
    ("omap", .omap), ("pairs", .pairs), ("merge", .merge), ("value", .value)]

/-- The tag with a name. -/
def ofName (name : String) : Tag :=
  ((named.find? fun t => family ++ t.1 == name).map Prod.snd).getD .other

/-- Whether the values of a tag are collections. -/
def isCollection : Tag → Bool
  | .seq => true
  | .map => true
  | .set => true
  | .omap => true
  | .pairs => true
  | _ => false

end Tag

/-! ## Forms of plain scalars -/

/-- Whether a text is a row, at least one long, of characters of a class and underscores. -/
def isRow (kind : Char → Bool) (cs : List Char) : Bool :=
  !cs.isEmpty && cs.all fun c => kind c || c == '_'

/-- Whether a text starts with a decimal digit and goes on with digits and underscores. -/
def isDecimal (cs : List Char) : Bool :=
  cs.head?.any Char.isDigit && isRow Char.isDigit cs

/-- Whether a text is a decimal number from 0 to 59, written with at most two digits. -/
def isSixtieth : List Char → Bool
  | [d] => d.isDigit
  | [t, d] => '0' ≤ t && t ≤ '5' && d.isDigit
  | _ => false

/-- Whether a text is a number, and, behind colons, at least one number from 0 to 59. -/
def isSexagesimal (cs : List Char) : Bool :=
  match cs.splitOn ':' with
  | first :: second :: others => isDecimal first && (second :: others).all isSixtieth
  | _ => false

/-- A text without a sign in front. -/
def unsigned : List Char → List Char
  | '-' :: rest => rest
  | '+' :: rest => rest
  | cs => cs

/-- Whether a text has the form of an integer. -/
def isInteger (cs : List Char) : Bool :=
  match unsigned cs with
  | ['0'] => true
  | '0' :: 'b' :: digits => isRow (fun c => c == '0' || c == '1') digits
  | '0' :: 'x' :: digits => isRow (fun c => (hexDigit? c).isSome) digits
  | '0' :: digits => isRow (fun c => '0' ≤ c && c ≤ '7') digits
  | digits => isDecimal digits || isSexagesimal digits

/-- Whether a text has the form of a power of ten: nothing, or a letter, a sign and digits. -/
def isPower : List Char → Bool
  | [] => true
  | e :: sign :: digits =>
      (e == 'e' || e == 'E') && (sign == '-' || sign == '+') && !digits.isEmpty
        && digits.all Char.isDigit
  | _ => false

/-- Whether a text has the form of a double. -/
def isDouble (cs : List Char) : Bool :=
  let body := unsigned cs
  let (whole, fraction) := cutAt '.' body
  let word := fraction.map String.ofList
  let digits := (fraction.getD []).takeWhile fun c => c.isDigit || c == '_'
  let power := (fraction.getD []).drop digits.length
  if fraction.isNone then false
  else if whole.isEmpty then
    [some "inf", some "Inf", some "INF"].contains word
      || (cs.length == body.length
        && ([some "nan", some "NaN", some "NAN"].contains word
          || (isDecimal digits && isPower power)))
  else if isDecimal whole then isPower power
  else isSexagesimal whole && power.isEmpty

/-- The words for truth values. -/
def boolWords : List String :=
  ["yes", "Yes", "YES", "no", "No", "NO", "true", "True", "TRUE", "false", "False", "FALSE",
    "on", "On", "ON", "off", "Off", "OFF"]

/-- The words for no value. -/
def nullWords : List String := ["~", "null", "Null", "NULL"]

/-- A text without one line break at its end. -/
def withoutFinalBreak (cs : List Char) : List Char :=
  if cs.getLast? = some '\n' then cs.dropLast else cs

/-- The marks that could only be the starts of other nodes. -/
def reservedMarks : List String := ["!", "&", "*"]

/-- The tag of a plain scalar without one. -/
def Tag.ofPlain (cs : List Char) : Tag :=
  let body := withoutFinalBreak cs
  let word := String.ofList body
  if cs.isEmpty then .null
  else if boolWords.contains word then .bool
  else if isDouble body then .float
  else if isInteger body then .int
  else if word = "<<" then .merge
  else if nullWords.contains word then .null
  else if (Timestamp.read? body).any Timestamp.isEvident then .timestamp
  else if word = "=" then .value
  else if reservedMarks.contains word then .other
  else .str

end SemanticMarkup.Yaml
