import SemanticMarkup.Failure
import SemanticMarkup.Text.Uppercase
import SemanticMarkup.Text.Utf8
import SemanticMarkup.Value.Text

/-!
# Reading typed fields

Records, settings and documents have fields of fixed types. A value that is
given for such a field is read as that type where this is safe (`"yes"` is a
truth value, `2.0` an integer) and refused otherwise. All problems of a value
are reported together, each with the path to its place.
-/

namespace SemanticMarkup

open SemanticMarkup.Number SemanticMarkup.Text

/-- What a value is read as, or all that is wrong with it. -/
abbrev Reading (α : Type) := Except (List Issue) α

namespace Reading

/-- Refuses a value at a place. -/
def refuse {α : Type} (path : List String) (kind : IssueKind) : Reading α :=
  .error [⟨path, kind⟩]

/-- The problems of a reading. -/
def issues {α : Type} : Reading α → List Issue
  | .ok _ => []
  | .error problems => problems

/-- All values, or the problems of all of them. -/
def all {α : Type} (readings : List (Reading α)) : Reading (List α) :=
  let problems := readings.flatMap issues
  if problems.isEmpty then readings.mapM id else .error problems

/-- The outcome that a reading is. -/
def outcome {α : Type} : Reading α → Outcome α
  | .ok a => .ok a
  | .error problems => .error (.invalid problems)

/-- Reads a text; bytes count as the text that they encode. -/
def text (path : List String) : Value → Reading String
  | .text s => .ok s
  | .garbled _ => refuse path .garbledText
  | .bytes bs =>
      match decodeUtf8? bs with
      | some s => .ok s
      | none => refuse path .garbledText
  | _ => refuse path .text

/-- Reads a value that may be missing. -/
def optional {α : Type} (read : Value → Reading α) : Value → Reading (Option α)
  | .null => .ok none
  | v => (read v).map some

/-- The number of an item as a step of a path. -/
def indexName (i : Nat) : String :=
  String.ofList (numeral i)

/-- Reads a list: lists, tuples and sets count as one. -/
def list {α : Type} (path : List String) (read : List String → Value → Reading α)
    (v : Value) : Reading (List α) :=
  let readAll (items : List Value) : Reading (List α) :=
    all (items.mapIdx fun i item => read (path ++ [indexName i]) item)
  match v with
  | .list items => readAll items
  | .tuple items => readAll items
  | .set items => readAll items
  | _ => refuse path .list

/-- The key of an entry as a step of a path. A key without a text is named by its type. -/
def keyName : Value → String
  | .bool b => if b then "1" else "0"
  | .text s => s
  | v =>
      if v.isWritable then String.ofList v.shown
      else "<unprintable " ++ v.typeName ++ " object>"

/-- Reads an entry of a mapping from texts. -/
def dictEntry {α : Type} (path : List String) (read : List String → Value → Reading α)
    (e : Value × Value) : Reading (String × α) :=
  let place := path ++ [keyName e.1]
  match text (place ++ ["[key]"]) e.1, read place e.2 with
  | .ok key, .ok value => .ok (key, value)
  | key, value => .error (issues key ++ issues value)

/-- A named value in the place of the one with the same name, or else at the end. -/
def assign {α : Type} (named : List (String × α)) (f : String × α) : List (String × α) :=
  if named.any fun g => g.1 == f.1 then named.map fun g => if g.1 == f.1 then f else g
  else named ++ [f]

/-- Named values of which the last one of each name counts, in the place of the first. -/
def lastNamed {α : Type} (named : List (String × α)) : List (String × α) :=
  named.foldl assign []

/-- Reads a mapping from texts; keys that are read as the same text are one key. -/
def dict {α : Type} (path : List String) (read : List String → Value → Reading α)
    (v : Value) : Reading (List (String × α)) :=
  match v with
  | .dict entries => (all (entries.map (dictEntry path read))).map lastNamed
  | _ => refuse path .dict

/-- Reads any value. -/
def any (_ : List String) (v : Value) : Reading Value :=
  .ok v

/-- The texts that stand for true. -/
def trueWords : List String := ["1", "on", "t", "true", "y", "yes"]

/-- The texts that stand for false. -/
def falseWords : List String := ["0", "off", "f", "false", "n", "no"]

/-- The truth value an integer stands for. -/
def boolOfInt (path : List String) (n : Int) : Reading Bool :=
  if n = 0 then .ok false else if n = 1 then .ok true else refuse path .boolParsing

/-- The truth value a text stands for. -/
def boolOfText (path : List String) (s : String) : Reading Bool :=
  let word := lowerAscii s
  if trueWords.contains word then .ok true
  else if falseWords.contains word then .ok false
  else refuse path .boolParsing

/-- The integer that a number is, unless it has a fraction or is not finite. -/
def integral? : Value → Option Int
  | .int n => some n
  | .float x => if x.isIntegral then x.trunc? else none
  | .decimal d =>
      if Value.reduced? (.decimal d) = (d.trunc?).bind (fun n => Value.reduced? (.int n))
      then d.trunc? else none
  | _ => none

/-- The range of integers that doubles are read as. -/
def sixtyFourBits (n : Int) : Bool :=
  -(Nat.pow 2 63 : Int) ≤ n && n < (Nat.pow 2 63 : Int)

/-- Reads a truth value. -/
def bool (path : List String) (v : Value) : Reading Bool :=
  match v with
  | .bool b => .ok b
  | .text s => boolOfText path s
  | .bytes bs =>
      match decodeUtf8? bs with
      | some s => boolOfText path s
      | none => refuse path .boolParsing
  | .int n => if sixtyFourBits n then boolOfInt path n else refuse path .bool
  | _ =>
      match integral? v with
      | some n => if sixtyFourBits n then boolOfInt path n else refuse path .bool
      | none => refuse path .bool

/-- The integer that a text spells: digits with a sign and single underscores, perhaps followed by
a point and zeros. -/
def integerOfText? (s : String) : Option Int :=
  let cs := trim s.toList
  let signed := readSign cs
  let whole := signed.2.takeWhile (· != '.')
  let fraction := signed.2.dropWhile (· != '.')
  let plain := (fraction.drop 1).all (· == '0')
  let digits := (dropUnderscores? false whole).getD []
  if plain && !digits.isEmpty && digits.all Char.isDigit then
    let n : Int := digitsToNat 0 digits
    some (if signed.1 then -n else n)
  else none

/-- Reads the integer that a text spells, unless it has more digits than are read. -/
def intOfText (path : List String) (s : String) : Reading Int :=
  match integerOfText? s with
  | none => refuse path .intParsing
  | some n => if digitLimit < digitCount n.natAbs then refuse path .intSize else .ok n

/-- Reads a number that need not be whole as an integer. -/
def intOfNumber (path : List String) (v : Value) (finite : Bool) : Reading Int :=
  if !finite then refuse path .unbounded
  else match integral? v with
    | none => refuse path .intFraction
    | some n => if sixtyFourBits n then .ok n else refuse path .intSize

/-- Reads an integer. -/
def int (path : List String) (v : Value) : Reading Int :=
  match v with
  | .bool b => .ok (if b then 1 else 0)
  | .int n => .ok n
  | .float x => intOfNumber path v x.isFinite
  | .decimal (.finite _ _ _) => intOfNumber path v true
  | .decimal _ => intOfNumber path v false
  | .text s => intOfText path s
  | .bytes bs =>
      match decodeUtf8? bs with
      | some s => intOfText path s
      | none => refuse path .intParsing
  | .garbled _ => refuse path .intParsing
  | _ => refuse path .int

end Reading

end SemanticMarkup
