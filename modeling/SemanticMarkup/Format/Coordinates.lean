import SemanticMarkup.Number.Directive
import SemanticMarkup.Settings.Globals
import SemanticMarkup.Value.Access

/-!
# Coordinates

A latitude or longitude is shown in degrees, minutes and seconds. A format has
one to three directives for numbers, separated by blanks, and perhaps the final
word `h`, which shows the hemisphere by name instead of by sign:
`%02d %02d %02.2f h`. What no directive is left for is dropped.
-/

namespace SemanticMarkup

open SemanticMarkup.Number SemanticMarkup.Text

/-- How coordinates are shown. -/
structure Coordinates where
  /-- The format of coordinates that are given none. -/
  defaultFormat : Value
  /-- The signs behind degrees, minutes and seconds. -/
  symbols : List Value
  /-- The names of the hemispheres by their letters. -/
  hemispheres : Entries

namespace Coordinates

/-- A list of texts as a value. -/
def textList (texts : List String) : Value :=
  .list (texts.map Value.text)

/-- A mapping of texts as a value. -/
def textDict (texts : List (String × String)) : Value :=
  .dict (texts.map fun e => (.text e.1, .text e.2))

/-- The first value, if it counts as true, or else the second. -/
def orElse (v absent : Value) : Value :=
  if v.isTrue then v else absent

/-- How coordinates are shown with a given format, symbols and hemispheres. What is missing comes
from the global settings. -/
def make (format symbols hemispheres : Value) : Globals.Use Coordinates := do
  let complete := format.isTrue && symbols.isTrue && hemispheres.isTrue
  let (format, symbols, hemispheres) ←
    if complete then pure (format, symbols, hemispheres)
    else do
      let s ← Globals.obtain
      pure (orElse format (.text s.coordinateFormat),
        orElse symbols (textList s.coordinateSymbols),
        orElse hemispheres (textDict s.hemispheres))
  let symbols ← (symbols.items : Outcome (List Value))
  let hemispheres ← (hemispheres.toEntries : Outcome Entries)
  return { defaultFormat := format, symbols := symbols, hemispheres := hemispheres }

/-- How coordinates are shown under some settings. -/
def ofSettings (s : Settings) : Globals.Use Coordinates :=
  make (.text s.coordinateFormat) (textList s.coordinateSymbols) (textDict s.hemispheres)

/-- How coordinates are shown under settings that leave nothing out. -/
def ofComplete (s : Settings) : Coordinates :=
  { defaultFormat := .text s.coordinateFormat, symbols := s.coordinateSymbols.map Value.text,
    hemispheres := s.hemispheres.map fun e => (.text e.1, .text e.2) }

/-- Settings that leave nothing out do not need the global ones. -/
theorem ofSettings_eq_pure {s : Settings} (hformat : s.coordinateFormat ≠ "")
    (hsymbols : s.coordinateSymbols ≠ []) (hhemispheres : s.hemispheres ≠ []) :
    ofSettings s = pure (ofComplete s) := by
  have hcomplete : ((Value.text s.coordinateFormat).isTrue && (textList s.coordinateSymbols).isTrue
      && (textDict s.hemispheres).isTrue) = true := by
    simp [Value.isTrue, textList, textDict, hformat, hsymbols, hhemispheres]
  rw [ofSettings, make, hcomplete]
  rfl

/-- The word that asks for the hemisphere. -/
def hemisphereWord : List Char := ['h']

/-- A coordinate format: its directives and whether the hemisphere is shown. -/
structure Plan where
  /-- The directives for degrees, minutes and seconds. -/
  directives : List (List Char)
  /-- Whether the hemisphere is shown by name. -/
  hemisphere : Bool
  deriving DecidableEq, Repr

/-- Reads a coordinate format. -/
def Plan.read (format : String) : Outcome Plan :=
  let sections := wordsOf format.toList
  let hemisphere := sections.getLast? == some hemisphereWord
  let directives := if hemisphere then sections.dropLast else sections
  if directives.isEmpty || 3 < directives.length then .error (.format (.count format))
  else match directives.find? fun d => !Directive.wellFormed d with
    | some d => .error (.format (.directive (String.ofList d) .malformed))
    | none => .ok { directives := directives, hemisphere := hemisphere }

/-- Reads the format that a value is. -/
def planOf (format : Value) : Outcome Plan :=
  match format with
  | .text s => Plan.read s
  | .garbled _ => Plan.read format.display
  | .bytes bs =>
      let count := (wordsOf (bs.map Char.ofNat)).length
      if count = 0 ∨ 3 < count then .error (.format (.count format.display))
      else Outcome.fault .wrongType
  | _ => Outcome.fault .missingAttribute

/-- The number a value is. -/
def quantity? : Value → Option Quantity
  | .bool b => some (.integer (if b then 1 else 0))
  | .int n => some (.integer n)
  | .float x => some (.double x)
  | .decimal d => some (.decimal d)
  | _ => none

/-- Whether a number is below zero; an undefined decimal cannot be compared. -/
def isNegative : Quantity → Outcome Bool
  | .integer n => .ok (decide (n < 0))
  | .double x => .ok x.isNegative
  | .decimal (.undefined _ _ _) => Outcome.fault .undefined
  | .decimal d => .ok d.isNegative

/-- The fault of a number without a greatest integer below it. -/
def boundless (undefined : Bool) : Fault :=
  if undefined then .wrongValue else .overflow

/-- The numbers of degrees, minutes and seconds: the absolute value, sixty times its fraction,
and what the whole minutes leave of 3600 times its fraction. -/
def components : Quantity → Outcome (List Quantity)
  | .integer n => .ok [.integer n.natAbs, .integer 0, .integer 0]
  | .double x =>
      let size := x.abs
      match size.floor? with
      | none => Outcome.fault (boundless (x == .nan))
      | some whole =>
          let fraction := size.sub (Double.ofInt whole)
          let minutes := fraction.mulNat 60
          match minutes.floor? with
          | none => Outcome.fault .overflow
          | some full =>
              let seconds := (fraction.mulNat 3600).sub (Double.ofInt (full * 60))
              .ok [.double size, .double minutes, .double seconds]
  | .decimal d =>
      let size := d.abs
      match size.floor? with
      | none => Outcome.fault .overflow
      | some whole =>
          let fraction := size.subInt whole
          let minutes := fraction.mulNat 60
          match minutes.floor? with
          | none => Outcome.fault .overflow
          | some full =>
              .ok [.decimal size, .decimal minutes,
                .decimal ((fraction.mulNat 3600).subInt (full * 60))]

/-- The greatest width or precision that is written out. -/
def writtenLimit : Nat := 1000000000

/-- A number as a directive writes it. -/
def applyDirective (written : List Char) (q : Quantity) : Outcome String :=
  let problem (fault : DirectiveFault) : Outcome String :=
    match fault with
    | .tooLarge => Outcome.fault .overflow
    | fault => .error (.format (.directive (String.ofList written) fault))
  match Directive.read written with
  | .error fault => problem fault
  | .ok directive =>
      if writtenLimit < max directive.width (directive.precision.getD 0) then
        Outcome.fault .memory
      else match directive.apply q with
        | .error fault => problem fault
        | .ok cs => .ok (String.ofList cs)

/-- A text behind another one. -/
def followedBy (s : String) : Value → Outcome String
  | .text t => .ok (s ++ t)
  | .garbled codes => .ok (s ++ (Value.garbled codes).display)
  | _ => Outcome.fault .wrongType

/-- The groups of a coordinate: each number as its directive writes it, with its symbol behind. -/
def groups : List (List Char) → List Quantity → List Value → Outcome (List String)
  | directive :: directives, q :: qs, symbol :: symbols => do
      let number ← applyDirective directive q
      let group ← followedBy number symbol
      let rest ← groups directives qs symbols
      return group :: rest
  | _, _, _ => .ok []

/-- The letter of the hemisphere on one side of the zero line. -/
def hemisphereLetter : Axis → Bool → String
  | .latitude, true => "s"
  | .latitude, false => "n"
  | .longitude, true => "w"
  | .longitude, false => "e"

/-- The name of the hemisphere, with a blank in front. -/
def hemisphereName (c : Coordinates) (axis : Axis) (negative : Bool) : Outcome String :=
  match Entries.named? c.hemispheres (hemisphereLetter axis negative) with
  | none => Outcome.fault .missingKey
  | some name => followedBy " " name

/-- A number of degrees as a format shows it. -/
def render (c : Coordinates) (axis : Axis) (value format : Value) : Outcome String := do
  let plan ← planOf (if format.isNull then c.defaultFormat else format)
  match quantity? value with
  | none => Outcome.fault .wrongType
  | some q => do
      let negative ← isNegative q
      let hemisphere ← if plan.hemisphere then hemisphereName c axis negative else pure ""
      let numbers ← components q
      let shown ← groups plan.directives numbers c.symbols
      let sign := if negative && hemisphere == "" then "-" else ""
      return sign ++ " ".intercalate shown ++ hemisphere

/-- The number of degrees that a value stands for, if it is a number or spells one. -/
def degrees? : Value → Outcome (Option Double)
  | .int n =>
      match Double.ofInt n with
      | .infinite _ => Outcome.fault .overflow
      | x => .ok (some x)
  | .float x => .ok (some x)
  | .decimal (.undefined _ true _) => Outcome.fault .wrongValue
  | .decimal d => .ok (some d.toDouble)
  | .text s => .ok (readDouble? (trim s.toList))
  | _ => .ok none

/-- The greatest number of degrees. -/
def maxDegrees : Axis → Int
  | .latitude => 90
  | .longitude => 180

/-- Whether a number of degrees is possible. -/
def inRange (axis : Axis) (x : Double) : Bool :=
  x.isFinite && !(Double.ofInt (maxDegrees axis)).lt x.abs

/-- The refusal of a value that is no possible coordinate. It tells the value, which may itself be
too long to be written. -/
def refuse (axis : Axis) (value : Value) : Outcome String :=
  if value.isWritable then .error (.coordinate axis value.display)
  else Outcome.fault .wrongValue

/-- A latitude or longitude as a format shows it. -/
def renderValid (c : Coordinates) (axis : Axis) (value format : Value) : Outcome String := do
  let number ← degrees? value
  match number with
  | some x => if inRange axis x then c.render axis (.float x) format else refuse axis value
  | none => refuse axis value

end Coordinates

end SemanticMarkup
