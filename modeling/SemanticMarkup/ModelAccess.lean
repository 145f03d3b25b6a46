import SemanticMarkup.Text.Uppercase
import SemanticMarkup.Value.Access

/-!
# Reading models

A microformat takes its values and labels from a model: a mapping, an object or
a typed model. This module looks up values by dotted paths, finds the label of
an attribute and lists the attributes of a model.
-/

namespace SemanticMarkup.ModelAccess

open SemanticMarkup.Text

/-- Whether a character separates the words of a name. -/
def separatesWords (c : Char) : Bool :=
  c == '-' || c == '_' || c == '.' || isBlank c

/-- Whether a word ends after the first of two neighbours: at a capital behind a small letter or
a digit. -/
def startsCapital (before after : Char) : Bool :=
  (before.isLower || before.isDigit) && after.isUpper

/-- A name with a blank wherever a capital starts a word. -/
def spaceCapitals : List Char → List Char
  | before :: after :: rest =>
      if startsCapital before after then before :: ' ' :: spaceCapitals (after :: rest)
      else before :: spaceCapitals (after :: rest)
  | cs => cs

/-- A word with a capital at its front. -/
def capitalizeWord : List Char → List Char
  | [] => []
  | c :: rest => upper c ++ rest

/-- The words of a name, each with a capital: `given_name` and `givenName` are `Given Name`. -/
def humanize (name : String) : String :=
  let spaced := (spaceCapitals name.toList).map fun c => if separatesWords c then ' ' else c
  String.ofList ([' '].intercalate ((wordsOf spaced).map capitalizeWord))

/-- The value that a step of a path leads to. -/
def step? (model : Value) (segment : String) : Option Value :=
  match model with
  | .dict entries => Entries.named? entries segment
  | v => v.attribute? segment

/-- The value that a row of steps leads to; there is no step from no value. -/
def walk? (model : Value) : List String → Option Value
  | [] => some model
  | segment :: rest =>
      if model.isNull then none
      else match step? model segment with
        | some next => walk? next rest
        | none => none

/-- The segments of a dotted path. -/
def segments (path : String) : List String :=
  (path.toList.splitOn '.').map String.ofList

/-- The value that a model has as a whole under a path. -/
def direct? (model : Value) (path : String) : Option Value :=
  match model with
  | .dict entries => Entries.named? entries path
  | _ => none

/-- The value under a dotted path, if every step leads somewhere. A key that is the whole path
comes first. -/
def find? (model : Value) (path : String) : Option Value :=
  if model.isNull then none
  else (direct? model path).or (walk? model (segments path))

/-- The value under a dotted path, or the given one. -/
def valueAt (model : Value) (path : String) (absent : Value) : Value :=
  (find? model path).getD absent

/-- The label that a model itself gives one of its attributes. A field with the name of the
look-up takes the place of the look-up. -/
def ownLabel (model : Value) (name : String) : Outcome Value :=
  match model.attribute? "get_attribute_label" with
  | some (.pattern _) => Outcome.fault .wrongType
  | some _ => .ok .null
  | none =>
      match model with
      | .labelled _ labels => .ok (Fields.valueOf labels name)
      | _ => .ok .null

/-- The title of a field of a typed model. -/
def title (model : Value) (name : String) : Value :=
  match model with
  | .model fields titles =>
      if (Fields.named? fields name).isSome then Fields.valueOf titles name else .null
  | _ => .null

/-- The label of an attribute: the model's own label, the title of the field, or the words of
the name. -/
def label (model : Value) (name : String) : Outcome Value := do
  let own ← ownLabel model name
  if !own.isNull then return own
  let title := title model name
  return if title.isTrue then title else .text (humanize name)

/-- The name that a key gives an attribute: its text, in which code points that no character has
stay as they are. -/
def nameOf : Value → Outcome Value
  | .garbled codes => .ok (.garbled codes)
  | key => do return .text (← key.asText)

/-- The code points of the text of a name, which put names in order. -/
def codePoints : Value → List Nat
  | .garbled codes => codes
  | name => name.display.toList.map Char.toNat

/-- Whether a row of numbers is another one or comes before it, as words do in a dictionary. -/
def inOrder : List Nat → List Nat → Bool
  | [], _ => true
  | _ :: _, [] => false
  | m :: ms, n :: ns => if m = n then inOrder ms ns else decide (m < n)

/-- Whether an object shows an attribute: it keeps to itself what starts with an underscore. -/
def isPublic (name : String) : Bool :=
  name.toList.head? != some '_'

/-- The names of the attributes that an object shows. -/
def publicNames (fields : Fields) : List Value :=
  ((fields.map Prod.fst).filter isPublic).map .text

/-- The names of some fields. -/
def fieldTexts (fields : Fields) : List Value :=
  fields.map fun f => .text f.1

/-- The names of the attributes of a model in no particular order. -/
def rawNames : Value → Outcome (List Value)
  | .dict entries => entries.mapM fun e => nameOf e.1
  | .object fields => .ok (publicNames fields)
  | .labelled fields _ => .ok (publicNames fields)
  | .model fields _ => .ok (fieldTexts fields)
  | .pattern _ => .ok [.text "text"]
  | .template (.text _) => .ok [.text "kind", .text "text"]
  | .template (.pattern _) => .ok [.text "kind", .text "func"]
  | .record _ => .ok (fieldTexts Value.unsetFields)
  | _ => Outcome.configError .modelKind

/-- Names in ascending order. -/
def sortNames (names : List Value) : List Value :=
  names.mergeSort fun a b => inOrder (codePoints a) (codePoints b)

/-- The names of the attributes of a model in ascending order. -/
def attributeNames (model : Value) : Outcome (List Value) := do
  return sortNames (← rawNames model)

/-- The names of the attributes of a model as texts. -/
def names (model : Value) : Outcome (List String) := do
  let names ← attributeNames model
  return names.map Value.display

end SemanticMarkup.ModelAccess
