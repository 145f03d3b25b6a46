import SemanticMarkup.Number.Numeral
import SemanticMarkup.Yaml.Source

/-!
# Numbers of YAML

Integers are written in the bases 2, 8, 10 and 16 or in groups of the base 60,
doubles with a point or in such groups. Underscores are ignored. A scalar whose
tag asks for a number need not have the form of one: then its value cannot be
made.
-/

namespace SemanticMarkup.Yaml

open SemanticMarkup.Number SemanticMarkup.Text

/-- A value that cannot be made. -/
def impossible {α : Type} (f : Fault) : Except Refusal α :=
  .error (.fault f)

/-- A text without underscores. -/
def dense (cs : List Char) : List Char :=
  cs.filter (· != '_')

/-- The sign in front of a number and the rest; an empty text has no place for one. -/
def takeSign (cs : List Char) : Except Refusal (Bool × List Char) :=
  if cs.isEmpty then impossible .missingIndex else .ok (readSign cs)

/-- Whether a text holds a separator character; none is ignored around a number. -/
def hasSeparator (cs : List Char) : Bool :=
  cs.any fun c => 0x1C ≤ c.toNat && c.toNat ≤ 0x1F

/-- The value of a digit of the bases up to 36. -/
def digitOf? (c : Char) : Option Nat :=
  if c.isDigit then some (c.toNat - 48)
  else if c.isLower then some (c.toNat - 87)
  else if c.isUpper then some (c.toNat - 55)
  else none

/-- The number that digits of a base write. -/
def radixNumber? (base : Nat) (digits : List Char) : Option Nat :=
  if digits.isEmpty then none
  else digits.foldlM (fun n c => (digitOf? c).bind fun d =>
    if d < base then some (base * n + d) else none) 0

/-- The integer that a text writes in a base, where it may have a sign and the mark of the base
in front. -/
def readRadix? (base : Nat) (mark : Char) (cs : List Char) : Option Int :=
  if hasSeparator cs then none
  else
    let (negative, body) := readSign (asciiDigits (trim cs))
    let digits := match body with
      | '0' :: m :: digits => if m.toLower = mark then digits else body
      | _ => body
    (radixNumber? base digits).map fun n => if negative then -(n : Int) else n

/-- The integer that a text writes in the base 10. -/
def readDecimal? (cs : List Char) : Option Int :=
  if digitLimit < (cs.filter isDecimalDigit).length then none else readInt? cs

/-- The value of groups of the base 60, the last one first. -/
def ofSixties (groups : List Int) : Int :=
  groups.foldr (fun g n => 60 * n + g) 0

/-- A number that a reader finds, or one that cannot be made. -/
def found {α : Type} : Option α → Except Refusal α
  | some a => .ok a
  | none => impossible .wrongValue

/-- The integer without its sign that a text writes. -/
def readMagnitude (cs : List Char) : Except Refusal Int :=
  match cs with
  | [] => impossible .missingIndex
  | ['0'] => .ok 0
  | '0' :: 'b' :: digits => found (readRadix? 2 'b' digits)
  | '0' :: 'x' :: digits => found (readRadix? 16 'x' digits)
  | '0' :: _ => found (readRadix? 8 'o' cs)
  | _ =>
      if cs.contains ':' then
        found (((cs.splitOn ':').mapM readDecimal?).map fun groups => ofSixties groups.reverse)
      else found (readDecimal? cs)

/-- The integer that the text of a scalar writes. -/
def readInteger (cs : List Char) : Except Refusal Int := do
  let (negative, body) ← takeSign (dense cs)
  let n ← readMagnitude body
  return if negative then -n else n

/-- The double that a text writes; blanks around it are ignored. -/
def readPart? (cs : List Char) : Option Double :=
  if hasSeparator cs then none else readDouble? (trim cs)

/-- The product of a double with a whole one that is not negative. -/
def timesWhole (x : Double) : Double → Except Refusal Double
  | .finite _ units => .ok (x.mulNat (units / Double.one))
  | _ => impossible .overflow

/-- The product of a double with a natural number that is first rounded to a double. -/
def timesRounded (x : Double) (n : Nat) : Except Refusal Double :=
  timesWhole x (Double.ofInt n)

/-- The sum of doubles, the last group first, each times its power of 60. -/
def sumSixties (sum : Double) (unit : Nat) : List Double → Except Refusal Double
  | [] => .ok sum
  | group :: groups => do
      let part ← timesRounded group unit
      sumSixties (sum.add part) (60 * unit) groups

/-- The double that the text of a scalar writes. -/
def readFloat (cs : List Char) : Except Refusal Double := do
  let (negative, body) ← takeSign (lowered (dense cs))
  let x ←
    if body = ['.', 'i', 'n', 'f'] then pure (.infinite false)
    else if body = ['.', 'n', 'a', 'n'] then pure .nan
    else if body.contains ':' then do
      let groups ← found ((body.splitOn ':').mapM readPart?)
      sumSixties .zero 1 groups.reverse
    else found (readPart? body)
  return if negative then x.neg else x

end SemanticMarkup.Yaml
