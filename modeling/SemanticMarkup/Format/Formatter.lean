import SemanticMarkup.Calendar.Epoch
import SemanticMarkup.Calendar.Iso
import SemanticMarkup.Calendar.Pattern
import SemanticMarkup.Format.Coordinates
import SemanticMarkup.Markup.Escape

/-!
# Formats

A format turns a value into a text: as it is, escaped, as a link, as a number
with fixed places, as a date and so on. It is given by its name, or by a list of
the name and arguments. No value is shown by a text of the settings, whatever
the format.
-/

namespace SemanticMarkup

open SemanticMarkup.Number SemanticMarkup.Calendar SemanticMarkup.Text SemanticMarkup.Markup

/-- The names of the formats. -/
inductive FormatName where
  /-- The text of the value. -/
  | raw
  /-- The escaped text. -/
  | text
  /-- The escaped text with line breaks. -/
  | ntext
  /-- The text of the value, which is markup. -/
  | html
  /-- A link to a mail address. -/
  | email
  /-- A link. -/
  | url
  /-- One of two texts. -/
  | boolean
  /-- A number without its fraction. -/
  | integer
  /-- A number with fixed places. -/
  | decimal
  /-- A date. -/
  | date
  /-- A date with a time. -/
  | datetime
  /-- Degrees north or south. -/
  | latitude
  /-- Degrees east or west. -/
  | longitude
  deriving DecidableEq, Repr

namespace FormatName

/-- All names. -/
def all : List FormatName :=
  [.raw, .text, .ntext, .html, .email, .url, .boolean, .integer, .decimal, .date, .datetime,
    .latitude, .longitude]

/-- The written form of a name. -/
def written : FormatName → String
  | .raw => "raw"
  | .text => "text"
  | .ntext => "ntext"
  | .html => "html"
  | .email => "email"
  | .url => "url"
  | .boolean => "boolean"
  | .integer => "integer"
  | .decimal => "decimal"
  | .date => "date"
  | .datetime => "datetime"
  | .latitude => "latitude"
  | .longitude => "longitude"

/-- The name that a text is, capitals or not. -/
def ofText? (s : String) : Option FormatName :=
  all.find? fun n => n.written == lowerAscii s

/-- Every name is found by its written form. -/
theorem ofText?_written (n : FormatName) : ofText? n.written = some n := by
  cases n <;> decide +kernel

/-- The greatest number of arguments of a format. -/
def maxArguments : FormatName → Nat
  | .decimal => 1
  | .date => 1
  | .datetime => 1
  | .latitude => 1
  | .longitude => 1
  | _ => 0

end FormatName

/-- A format as it is given for an entry. -/
inductive Format where
  /-- By its name. -/
  | named (name : String)
  /-- By a list of its name and arguments. -/
  | applied (parts : List Value)

namespace Format

/-- The format as a value. -/
def toValue : Format → Value
  | .named name => .text name
  | .applied parts => .list parts

/-- The name and the arguments that a value gives. -/
def split (format : Value) : Outcome (String × List Value) :=
  let ofParts : List Value → Outcome (String × List Value)
    | [] => Outcome.configError .emptyFormat
    | name :: arguments => do return (← name.asText, arguments)
  match format with
  | .list parts => ofParts parts
  | .tuple parts => ofParts parts
  | v => do return (← v.asText, [])

end Format

/-- What values are shown with. -/
structure Formatter where
  /-- The settings. -/
  settings : Settings
  /-- How coordinates are shown. -/
  coordinates : Coordinates

namespace Formatter

/-- The formatter for some settings. -/
def make (s : Settings) : Globals.Use Formatter := do
  let coordinates ← Coordinates.ofSettings s
  return { settings := s, coordinates := coordinates }

/-- The formatter for settings that leave nothing out. -/
def ofComplete (s : Settings) : Formatter :=
  { settings := s, coordinates := Coordinates.ofComplete s }

/-- The formatter made for settings that leave nothing out. -/
theorem make_eq_pure {s : Settings} (hformat : s.coordinateFormat ≠ "")
    (hsymbols : s.coordinateSymbols ≠ []) (hhemispheres : s.hemispheres ≠ []) :
    make s = pure (ofComplete s) := by
  rw [make, Coordinates.ofSettings_eq_pure hformat hsymbols hhemispheres]
  rfl

/-- A text with `<br>` in front of every line end. -/
def breakLines (s : String) : String :=
  String.ofList (replaceChar '\n' "<br>\n".toList s.toList)

/-- A link to a mail address. -/
def mailLink (s : String) : String :=
  "<a href=\"mailto:" ++ escape s ++ "\">" ++ escape s ++ "</a>"

/-- What separates the scheme from the rest of a link. -/
def schemeMark : List Char := "://".toList

/-- A link; without a scheme it leads to the web. -/
def webLink (s : String) : String :=
  let target := if occursIn schemeMark s.toList then s else "http://" ++ s
  "<a href=\"" ++ escape target ++ "\">" ++ escape s ++ "</a>"

/-- The text for a truth value. -/
def truthText (s : Settings) (b : Bool) : Outcome String :=
  match s.booleanFormat[if b then 1 else 0]? with
  | some text => .ok text
  | none => Outcome.fault .missingIndex

/-- The decimal that the text of a value spells. -/
def decimalOf (v : Value) : Outcome Decimal := do
  let shown ← v.asText
  match Decimal.read? shown with
  | some d => .ok d
  | none => .error (.notNumeric shown)

/-- A decimal without its fraction. -/
def integerText (d : Decimal) : Outcome String :=
  match d with
  | .undefined _ _ _ => Outcome.fault .wrongValue
  | .infinite _ => Outcome.fault .overflow
  | .finite _ _ _ =>
      if (digitLimit : Int) < d.wholeDigits then Outcome.fault .wrongValue
      else .ok (String.ofList (intText (d.trunc?.getD 0)))

/-- The number of places that a value asks for. -/
def placesOf (v : Value) : Outcome Int :=
  let ofText (s : String) : Outcome Int :=
    match readInt? s.toList with
    | some n => .ok n
    | none => Outcome.fault .wrongValue
  match v with
  | .bool b => .ok (if b then 1 else 0)
  | .int n => .ok n
  | .float x =>
      match x.trunc? with
      | some n => .ok n
      | none => Outcome.fault (Coordinates.boundless (x == .nan))
  | .decimal (.undefined _ _ _) => Outcome.fault .wrongValue
  | .decimal d =>
      match d.trunc? with
      | some n => .ok n
      | none => Outcome.fault .overflow
  | .text s => ofText s
  | .garbled _ => Outcome.fault .wrongValue
  | .bytes bs => ofText (String.ofList (bs.map Char.ofNat))
  | _ => Outcome.fault .wrongType

/-- The number of places that are written out. -/
def placesLimit : Int := 1000000000

/-- A decimal with a number of places. -/
def decimalText (d : Decimal) (places : Int) : Outcome String :=
  if places < 0 then Outcome.fault .wrongValue
  else match d with
    | .finite _ _ _ =>
        if Nat.pow 2 63 ≤ places then Outcome.fault .overflow
        else if Nat.pow 10 18 ≤ places then Outcome.fault .wrongValue
        else if placesLimit < places + d.wholeDigits then Outcome.fault .memory
        else .ok (d.fixedText places.toNat)
    | d => .ok d.text

/-- The moment that a number of seconds names. -/
def momentOf : Except EpochFault DateTime → Outcome DateTime
  | .ok t => .ok t
  | .error .undefined => Outcome.fault .wrongValue
  | .error .year => Outcome.fault .wrongValue
  | .error .distant => Outcome.fault .distant
  | .error .overflow => Outcome.fault .overflow

/-- The moment that a value stands for. -/
def datetimeOf (v : Value) : Outcome DateTime :=
  match v with
  | .date d => .ok d.midnight
  | .datetime t => .ok t
  | .bool b => momentOf (DateTime.ofSeconds (if b then 1 else 0) 0)
  | .int n => momentOf (DateTime.ofSeconds n 0)
  | .float x => momentOf (DateTime.ofDouble x)
  | .text s =>
      match DateTime.ofIso? s with
      | some t => .ok t
      | none => .error (.notDate s)
  | _ => do .error (.notDate (← v.asText))

/-- A moment as a pattern shows it; without a pattern the usual one is used. -/
def momentText (t : DateTime) (pattern : Value) (usual : String) : Outcome String :=
  if !pattern.isTrue then .ok (t.show usual)
  else match pattern with
    | .text s => .ok (t.show s)
    | _ => Outcome.fault .wrongType

/-- A value, not missing, as a format shows it. `argument` is the argument of the format or no
value. -/
def showAs (f : Formatter) (name : FormatName) (v : Value) (argument : Option Value) :
    Outcome String :=
  match name with
  | .raw => v.asText
  | .html => v.asText
  | .text => do return escape (← v.asText)
  | .ntext => do return breakLines (escape (← v.asText))
  | .email => do return mailLink (← v.asText)
  | .url => do return webLink (← v.asText)
  | .boolean => truthText f.settings v.isTrue
  | .integer => do integerText (← decimalOf v)
  | .decimal => do
      let d ← decimalOf v
      let places ← placesOf (argument.getD (.int 2))
      decimalText d places
  | .date => do momentText (← datetimeOf v) (argument.getD .null) f.settings.dateFormat
  | .datetime => do momentText (← datetimeOf v) (argument.getD .null) f.settings.datetimeFormat
  | .latitude => f.coordinates.renderValid .latitude v (argument.getD .null)
  | .longitude => f.coordinates.renderValid .longitude v (argument.getD .null)

/-- A value as a format shows it. -/
def format (f : Formatter) (v format : Value) : Outcome String := do
  let (name, arguments) ← Format.split format
  match FormatName.ofText? name with
  | none => Outcome.configError (.unknownFormat name)
  | some known =>
      if known.maxArguments < arguments.length then Outcome.fault .wrongType
      else if v.isNull then return f.settings.nullDisplay
      else f.showAs known v arguments.head?

/-- Whether there is a format with a name. -/
def hasFormat (name : String) : Bool :=
  (FormatName.ofText? name).isSome

end Formatter

end SemanticMarkup
