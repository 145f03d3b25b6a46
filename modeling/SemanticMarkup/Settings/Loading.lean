import SemanticMarkup.Json.Reader
import SemanticMarkup.Reading
import SemanticMarkup.Settings.Basic

/-!
# Loading settings

Settings are given by name, as arguments or as variables of the environment with
a common start of the name. Arguments win over variables; where both give a
mapping the two are merged. Names are compared without regard to capitals.

## Implementation notes

Variables that hold a list or a mapping are JSON. A variable that is not is
refused before anything else is looked at, even if an argument replaces it.
-/

namespace SemanticMarkup

open SemanticMarkup.Text

/-- The variables of the environment, in the order in which they were first set. -/
abbrev Variables := List (String × String)

/-- The variables with one of them set, or removed if there is no value. -/
def Variables.assign (environment : Variables) (name : String) : Option String → Variables
  | none => environment.filter fun v => v.1 != name
  | some value =>
      if environment.any fun v => v.1 == name then
        environment.map fun v => if v.1 == name then (name, value) else v
      else environment ++ [(name, value)]

/-- The value of a variable by its name in small letters; of several the last one counts. -/
def Variables.value? (environment : Variables) (name : String) : Option String :=
  (List.find? (fun v => lowerAscii v.1 == name) environment.reverse).map Prod.snd

namespace Settings

/-- What the names of the variables start with, in small letters. -/
def variableStart : String := "microformats_"

/-- The names of the settings. -/
def fieldNames : List String :=
  ["environment", "root_prefix", "default_template", "container_tag", "default_format",
    "max_embed_depth", "coordinate_format", "coordinate_symbols", "hemispheres", "date_format",
    "datetime_format", "boolean_format", "null_display", "log_level"]

/-- The settings that are lists or mappings. -/
def compoundNames : List String :=
  ["coordinate_symbols", "hemispheres", "boolean_format"]

/-- The value that a variable gives a setting. -/
def variableValue (name value : String) : Outcome Value :=
  if compoundNames.contains name then
    match Json.read value.toList with
    | .ok v => .ok v
    | .error _ => .error .environment
  else .ok (.text value)

/-- The settings that the variables give. -/
def fromVariables (environment : Variables) : Outcome Fields := do
  let given ← fieldNames.mapM fun name =>
    match Variables.value? environment (variableStart ++ name) with
    | none => return none
    | some value => do
        let v ← variableValue name value
        return if v.isNull then none else some (name, v)
  return given.filterMap id

/-- The value of an argument, by its own name or by one that differs in capitals. -/
def argument? (arguments : Fields) (name : String) : Option Value :=
  (Fields.named? arguments name).or
    ((List.find? (fun f => lowerAscii f.1 == name) arguments).map Prod.snd)

/-- A mapping with the entries of another one put over it, mappings inside merged likewise. -/
def merge : Nat → Value → Value → Value
  | 0, _, upper => upper
  | depth + 1, .dict lower, .dict upper =>
      .dict (upper.foldl (fun entries e =>
        Entries.put entries e.1 (match Entries.lookup? entries e.1 with
          | some old => merge depth old e.2
          | none => e.2)) lower)
  | _, _, upper => upper

/-- How deep mappings are merged. -/
def mergeDepth : Nat := 64

/-- The value given for a setting. -/
def given? (ambient arguments : Fields) (name : String) : Option Value :=
  match Fields.named? ambient name, argument? arguments name with
  | some lower, some upper => some (merge mergeDepth lower upper)
  | some lower, none => some lower
  | none, upper => upper

/-- Reads a setting if it is given. -/
def setting {α : Type} (given : String → Option Value) (name : String) (standard : α)
    (read : List String → Value → Reading α) : Reading α :=
  match given name with
  | none => .ok standard
  | some v => read [name] v

/-- Reads a value and refuses it unless a rule gives it a meaning. -/
def checked {α β : Type} (read : List String → Value → Reading α) (rule : α → Option β)
    (path : List String) (v : Value) : Reading β :=
  match read path v with
  | .error problems => .error problems
  | .ok a =>
      match rule a with
      | some b => .ok b
      | none => Reading.refuse path .rule

/-- Reads a list of texts. -/
def texts (path : List String) : Value → Reading (List String) :=
  Reading.list path Reading.text

/-- Reads a mapping of texts. -/
def textMap (path : List String) : Value → Reading (List (String × String)) :=
  Reading.dict path Reading.text

/-- A value that satisfies a condition. -/
def keepIf {α : Type} (condition : α → Bool) (a : α) : Option α :=
  if condition a then some a else none

/-- The four letters under which hemispheres are named. -/
def hemisphereKeys : List String := ["n", "e", "s", "w"]

/-- Reads a depth, which must not be negative. -/
def readDepth (path : List String) (v : Value) : Reading Nat :=
  match Reading.int path v with
  | .error problems => .error problems
  | .ok n => if n < 0 then Reading.refuse path .tooSmall else .ok n.toNat

/-- The pieces between the commas of a text, without blanks around them. -/
def commaPieces (s : String) : List Value :=
  (s.toList.splitOn ',').map fun piece => .text (String.ofList (trim piece))

/-- The symbols that a text lists: as a JSON list, or else between commas. A list with an integer
that is too long to be read is refused. -/
def symbolsOfText? (s : String) : Option (List Value) :=
  let stripped := strip s
  if stripped.toList.head? == some '[' && stripped.toList.getLast? == some ']' then
    match Json.read stripped.toList with
    | .ok (.list items) => some items
    | .error .hugeInteger => none
    | _ => some (commaPieces stripped)
  else some (commaPieces stripped)

/-- The character that stands in for a code point that no character has. -/
def standIn : Char := '\uffff'

/-- The character of a code point, or the stand-in if there is none. -/
def cover (code : Nat) : Char :=
  if code.isValidChar then Char.ofNat code else standIn

/-- A text with the stand-in is garbled again. -/
def uncover : Value → Value
  | .text s =>
      if s.toList.contains standIn then
        .garbled (s.toList.map fun c => if c = standIn then 0xD800 else c.toNat)
      else .text s
  | v => v

/-- The symbols that a garbled text lists. They are cut like those of any other text. -/
def symbolsOfCodes? (codes : List Nat) : Option (List Value) :=
  (symbolsOfText? (String.ofList (codes.map cover))).map fun items => items.map uncover

/-- The number of items of a value that can be counted. -/
def count? (v : Value) : Option Nat :=
  match v with
  | .list items => some items.length
  | .tuple items => some items.length
  | .set items => some items.length
  | .dict entries => some entries.length
  | .bytes bs => some bs.length
  | _ => none

/-- The value that lists symbols: the list that a text stands for, or the value itself. -/
def symbolList? : Value → Option Value
  | .text s => (symbolsOfText? s).map .list
  | .garbled codes => (symbolsOfCodes? codes).map .list
  | v => some v

/-- Reads the three symbols of coordinates, which may also be listed in a text. A value whose
items cannot be counted is a fault of its own. -/
def readSymbols (path : List String) (v : Value) : Outcome (Reading (List String)) :=
  match symbolList? v with
  | none => .ok (Reading.refuse path .rule)
  | some listed =>
      match count? listed with
      | none => Outcome.fault .wrongType
      | some n => .ok (if n = 3 then texts path listed else Reading.refuse path .rule)

/-- The three symbols of coordinates, if they are given, or else the usual ones. -/
def symbolsOf (given : String → Option Value) : Outcome (Reading (List String)) :=
  match given "coordinate_symbols" with
  | none => .ok (.ok standard.coordinateSymbols)
  | some v => readSymbols ["coordinate_symbols"] v

/-- The arguments that name no setting. -/
def unknownArguments (arguments : Fields) : List Issue :=
  (arguments.filter fun f => !fieldNames.contains (lowerAscii f.1)).map fun f => ⟨[f.1], .extra⟩

/-- The settings with the values that are given, or all problems of these values. -/
def assemble (given : String → Option Value) (symbols : Reading (List String))
    (extras : List Issue) : Reading Settings :=
  let text (name : String) (absent : String) : Reading String :=
    setting given name absent Reading.text
  let environment := setting given "environment" standard.environment
    (checked Reading.text Deployment.ofName?)
  let rootPrefix := setting given "root_prefix" standard.rootPrefix
    (checked Reading.text (keepIf (· != "")))
  let defaultTemplate := text "default_template" standard.defaultTemplate
  let containerTag := text "container_tag" standard.containerTag
  let defaultFormat := text "default_format" standard.defaultFormat
  let maxEmbedDepth := setting given "max_embed_depth" standard.maxEmbedDepth readDepth
  let coordinateFormat := text "coordinate_format" standard.coordinateFormat
  let hemispheres := setting given "hemispheres" standard.hemispheres
    (checked textMap (keepIf fun m => hemisphereKeys.all fun k => (m.lookup k).isSome))
  let dateFormat := text "date_format" standard.dateFormat
  let datetimeFormat := text "datetime_format" standard.datetimeFormat
  let booleanFormat := setting given "boolean_format" standard.booleanFormat
    (checked texts (keepIf fun l => l.length == 2))
  let nullDisplay := text "null_display" standard.nullDisplay
  let logLevel := setting given "log_level" standard.logLevel
    (checked Reading.text fun s => LogLevel.ofName? (upperText s))
  let problems := Reading.issues environment ++ Reading.issues rootPrefix
    ++ Reading.issues defaultTemplate ++ Reading.issues containerTag
    ++ Reading.issues defaultFormat ++ Reading.issues maxEmbedDepth
    ++ Reading.issues coordinateFormat ++ Reading.issues symbols ++ Reading.issues hemispheres
    ++ Reading.issues dateFormat ++ Reading.issues datetimeFormat
    ++ Reading.issues booleanFormat ++ Reading.issues nullDisplay ++ Reading.issues logLevel
    ++ extras
  if !problems.isEmpty then .error problems
  else do
    return {
      environment := ← environment
      rootPrefix := ← rootPrefix
      defaultTemplate := ← defaultTemplate
      containerTag := ← containerTag
      defaultFormat := ← defaultFormat
      maxEmbedDepth := ← maxEmbedDepth
      coordinateFormat := ← coordinateFormat
      coordinateSymbols := ← symbols
      hemispheres := ← hemispheres
      dateFormat := ← dateFormat
      datetimeFormat := ← datetimeFormat
      booleanFormat := ← booleanFormat
      nullDisplay := ← nullDisplay
      logLevel := ← logLevel }

/-- The settings that arguments and variables give together. -/
def load (environment : Variables) (arguments : Fields) : Outcome Settings := do
  let ambient ← fromVariables environment
  let given := given? ambient arguments
  let symbols ← symbolsOf given
  (assemble given symbols (unknownArguments arguments)).outcome

end Settings

end SemanticMarkup
