import SemanticMarkup.Number.Double.Shortest
import SemanticMarkup.Number.Decimal

/-!
# Number directives

A directive such as `%02.4f` says how one number is written: flags, a width, a
precision and a conversion. The grammar admits the digits of every script, but
only ASCII digits can be used; that and the sizes of width and precision are
checked when the directive is applied.
-/

namespace SemanticMarkup.Number

open SemanticMarkup.Text

/-- How a directive writes a number. -/
inductive Conversion where
  /-- Decimal, without a fraction. -/
  | integer
  /-- Octal. -/
  | octal
  /-- Hexadecimal, with small or capital digits. -/
  | hexadecimal (capital : Bool)
  /-- One digit before the point and an exponent. -/
  | exponent (capital : Bool)
  /-- A fixed number of places. -/
  | fixed (capital : Bool)
  /-- Fixed places or an exponent, whichever is shorter, without zeros at the end. -/
  | general (capital : Bool)
  deriving DecidableEq, Repr

/-- The conversion that a letter stands for. -/
def Conversion.ofChar? : Char → Option Conversion
  | 'd' | 'i' | 'u' => some .integer
  | 'o' => some .octal
  | 'x' => some (.hexadecimal false)
  | 'X' => some (.hexadecimal true)
  | 'e' => some (.exponent false)
  | 'E' => some (.exponent true)
  | 'f' => some (.fixed false)
  | 'F' => some (.fixed true)
  | 'g' => some (.general false)
  | 'G' => some (.general true)
  | _ => none

/-- A directive for one number. -/
structure Directive where
  /-- Filled up with blanks on the right (`-`). -/
  leftAligned : Bool
  /-- A plus sign before numbers that are not negative (`+`). -/
  plusSign : Bool
  /-- A blank before numbers that are not negative (` `). -/
  blankSign : Bool
  /-- Filled up with zeros after the sign (`0`). -/
  zeroFilled : Bool
  /-- The alternative form of the conversion (`#`). -/
  alternative : Bool
  /-- The least number of characters. -/
  width : Nat
  /-- The number after the point, if there is one. -/
  precision : Option Nat
  /-- The letter at the end. -/
  letter : Char
  /-- How the number is written. -/
  conversion : Conversion
  deriving DecidableEq, Repr

/-- Why a directive cannot be used. -/
inductive DirectiveFault where
  /-- It does not have the form of a directive. -/
  | malformed
  /-- At the given position stands a character that is no letter of a conversion. -/
  | letter (c : Char) (position : Nat)
  /-- The width is too large. -/
  | width
  /-- The precision is too large. -/
  | precision
  /-- The conversion writes integers only, and the number is of the named type. -/
  | notInteger (letter : Char) (typeName : String)
  /-- The integer is too large for a double. -/
  | tooLarge
  deriving DecidableEq, Repr

/-- What is reported about a directive beyond its text; nothing if its form is wrong. -/
def DirectiveFault.detail : DirectiveFault → String
  | .malformed => ""
  | .letter c position =>
      let shown := if 31 < c.toNat ∧ c.toNat < 128 then c else '?'
      "unsupported format character '" ++ String.ofList [shown] ++ "' (0x"
        ++ String.ofList (Nat.toDigits 16 c.toNat) ++ ") at index "
        ++ String.ofList (Nat.toDigits 10 position)
  | .width => "width too big"
  | .precision => "precision too big"
  | .notInteger c typeName =>
      "%" ++ String.ofList [c] ++ " format: an integer is required, not " ++ typeName
  | .tooLarge => "int too large to convert to float"

namespace Directive

/-- Whether a character is a flag. -/
def isFlag (c : Char) : Bool :=
  c == '-' || c == '+' || c == ' ' || c == '0' || c == '#'

/-- Whether a text has the form of a directive, digits of every script admitted. -/
def wellFormed : List Char → Bool
  | '%' :: rest =>
      let afterWidth := (rest.dropWhile isFlag).dropWhile isDecimalDigit
      let tail := match afterWidth with
        | '.' :: places =>
            if places.head?.any isDecimalDigit then places.dropWhile isDecimalDigit else afterWidth
        | _ => afterWidth
      match tail with
      | [c] => (Conversion.ofChar? c).isSome
      | _ => false
  | _ => false

/-- The number written by ASCII digits, unless a digit no longer fits below the limit. -/
def boundedNat? (limit acc : Nat) : List Char → Option Nat
  | [] => some acc
  | c :: rest =>
      let d := c.toNat - 48
      if (limit - d) / 10 < acc then none else boundedNat? limit (10 * acc + d) rest

/-- The limit of a width. -/
def widthLimit : Nat := Nat.pow 2 63 - 1

/-- The limit of a precision. -/
def precisionLimit : Nat := Nat.pow 2 31 - 1

/-- The directive that a text spells. -/
def read (cs : List Char) : Except DirectiveFault Directive :=
  if !wellFormed cs then .error .malformed
  else
    let flags := (cs.drop 1).takeWhile isFlag
    let afterFlags := (cs.drop 1).dropWhile isFlag
    let widthDigits := afterFlags.takeWhile Char.isDigit
    let afterWidth := afterFlags.dropWhile Char.isDigit
    match boundedNat? widthLimit 0 widthDigits with
    | none => .error .width
    | some width =>
        let point := afterWidth.head? == some '.'
        let places := if point then (afterWidth.drop 1).takeWhile Char.isDigit else []
        let tail := if point then (afterWidth.drop 1).dropWhile Char.isDigit else afterWidth
        match boundedNat? precisionLimit 0 places with
        | none => .error .precision
        | some precision =>
            match tail with
            | [] => .error .malformed
            | c :: _ =>
                match Conversion.ofChar? c with
                | none => .error (.letter c (cs.length - tail.length))
                | some conversion =>
                    .ok {
                      leftAligned := flags.contains '-'
                      plusSign := flags.contains '+'
                      blankSign := flags.contains ' '
                      zeroFilled := flags.contains '0'
                      alternative := flags.contains '#'
                      width := width
                      precision := if point then some precision else none
                      letter := c
                      conversion := conversion }

end Directive

/-- A number to be written by a directive. -/
inductive Quantity where
  /-- An integer. -/
  | integer (n : Int)
  /-- A double. -/
  | double (x : Double)
  /-- A decimal. -/
  | decimal (d : Decimal)
  deriving DecidableEq, Repr

namespace Quantity

/-- The name of the type of a number. -/
def typeName : Quantity → String
  | .integer _ => "int"
  | .double _ => "float"
  | .decimal _ => "decimal.Decimal"

/-- The number without its fraction. -/
def trunc : Quantity → Int
  | .integer n => n
  | .double x => x.trunc?.getD 0
  | .decimal d => d.trunc?.getD 0

/-- The number as a double; integers beyond the largest double have none. -/
def toDouble? : Quantity → Option Double
  | .integer n => match Double.ofInt n with
      | .infinite _ => none
      | x => some x
  | .double x => some x
  | .decimal d => some d.toDouble

end Quantity

namespace Directive

/-- The digits of a number of units with the given places after the point. -/
def fixedDigits (units places : Nat) (alternative : Bool) : List Char :=
  let text := Decimal.fixedPoint (roundHalfEven (units * Nat.pow 10 places) Double.one) places
  if places = 0 ∧ alternative then text ++ ['.'] else text

/-- The first `count + 1` digits of a number of units and the power of ten of the first. -/
def leadingDigits (units count : Nat) : List Char × Int :=
  if units = 0 then (List.replicate (count + 1) '0', 0)
  else
    let leading := Double.leadingPower units
    let ratio := Double.gridRatio units (leading - count)
    let digits := Nat.toDigits 10 (roundHalfEven ratio.1 ratio.2)
    if digits.length = count + 1 then (digits, leading) else (digits.take (count + 1), leading + 1)

/-- Digits with a point after the first one. -/
def pointed (digits : List Char) (alternative : Bool) : List Char :=
  match digits with
  | [] => []
  | [d] => if alternative then [d, '.'] else [d]
  | d :: rest => d :: '.' :: rest

/-- A row of digits without zeros at its end. -/
def dropZeros (digits : List Char) : List Char :=
  (digits.reverse.dropWhile (· == '0')).reverse

/-- A number of units in scientific notation. -/
def exponentDigits (units places : Nat) (capital alternative : Bool) : List Char :=
  let leading := leadingDigits units places
  pointed leading.1 alternative
    ++ (if capital then 'E' else 'e') :: Double.exponentText leading.2

/-- A number of units with a number of significant digits, in the shorter notation. -/
def generalDigits (units significant : Nat) (capital alternative : Bool) : List Char :=
  let count := max significant 1
  let leading := leadingDigits units (count - 1)
  if -4 ≤ leading.2 ∧ leading.2 < count then
    let places := ((count : Int) - 1 - leading.2).toNat
    let text := fixedDigits units places alternative
    if alternative ∨ places = 0 then text
    else
      let whole := text.takeWhile (· != '.')
      let fraction := dropZeros (text.drop (whole.length + 1))
      if fraction.isEmpty then whole else whole ++ '.' :: fraction
  else
    let digits := if alternative then leading.1
      else leading.1.take 1 ++ dropZeros (leading.1.drop 1)
    pointed digits alternative
      ++ (if capital then 'E' else 'e') :: Double.exponentText leading.2

/-- The sign, the mark of the base and the digits of a number. -/
structure Pieces where
  /-- Whether the number carries a minus sign. -/
  negative : Bool
  /-- The mark of the base. -/
  mark : List Char
  /-- The digits. -/
  digits : List Char

/-- An integer in some base, filled up with zeros to the precision. -/
def integerPieces (d : Directive) (base : Nat) (n : Int) : Pieces :=
  let digits := Nat.toDigits base n.natAbs
  let filled := List.replicate (d.precision.getD 0 - digits.length) '0' ++ digits
  let capital := d.conversion == .hexadecimal true
  { negative := decide (n < 0)
    mark := if d.alternative ∧ base ≠ 10 then ['0', d.letter] else []
    digits := if capital then filled.map Char.toUpper else filled }

/-- A double in one of the notations with a fraction. -/
def doublePieces (d : Directive) (x : Double) : Pieces :=
  match x with
  | .finite negative units =>
      let precision := d.precision.getD 6
      { negative := negative
        mark := []
        digits := match d.conversion with
          | .exponent capital => exponentDigits units precision capital d.alternative
          | .general capital => generalDigits units precision capital d.alternative
          | _ => fixedDigits units precision d.alternative }
  | .infinite negative => { negative := negative, mark := [], digits := "inf".toList }
  | .nan => { negative := false, mark := [], digits := "nan".toList }

/-- The pieces of a number, if the conversion can write it. -/
def piecesOf (d : Directive) (q : Quantity) : Except DirectiveFault Pieces :=
  match d.conversion with
  | .integer => .ok (integerPieces d 10 q.trunc)
  | .octal => match q with
      | .integer n => .ok (integerPieces d 8 n)
      | _ => .error (.notInteger d.letter q.typeName)
  | .hexadecimal _ => match q with
      | .integer n => .ok (integerPieces d 16 n)
      | _ => .error (.notInteger d.letter q.typeName)
  | _ => match q.toDouble? with
      | some x => .ok (doublePieces d x)
      | none => .error .tooLarge

/-- The sign that is written in front of a number. -/
def signOf (d : Directive) (negative : Bool) : List Char :=
  if negative then ['-'] else if d.plusSign then ['+'] else if d.blankSign then [' '] else []

/-- The pieces put together and filled up to the width. -/
def layOut (d : Directive) (p : Pieces) : List Char :=
  let head := signOf d p.negative ++ p.mark
  let missing := d.width - (head.length + p.digits.length)
  if d.leftAligned then head ++ p.digits ++ List.replicate missing ' '
  else if d.zeroFilled then head ++ List.replicate missing '0' ++ p.digits
  else List.replicate missing ' ' ++ head ++ p.digits

/-- A number as the directive writes it. -/
def apply (d : Directive) (q : Quantity) : Except DirectiveFault (List Char) :=
  (piecesOf d q).map (layOut d)

end Directive

end SemanticMarkup.Number
