import SemanticMarkup.Markup.Attributes
import SemanticMarkup.Record.Basic

/-!
# Rendering a record

A record is rendered by its own template or else by the default one; an empty
text renders as nothing. A token is evaluated only where the template has it,
and the label stays a token if the record has none.
-/

namespace SemanticMarkup.Record

open SemanticMarkup.Template

/-- Where a record is rendered: the root type and the depth of its microformat. -/
structure Place where
  /-- The root type. -/
  root : String
  /-- The depth. -/
  depth : Int

/-- What a token stands for. -/
def tokenText (f : Formatter) (r : Record) : Token → Outcome String
  | .label => .ok (r.label.getD (String.ofList Token.label.written))
  | .options => Markup.tagAttributes r.options
  | .rawValue => if r.value.isNull then .ok "" else r.value.asText
  | .value => f.format r.value r.format.toValue

/-- What a piece of a text template stands for. -/
def pieceText (f : Formatter) (r : Record) : Piece Token → Outcome String
  | .literal c => .ok (String.singleton c)
  | .token t => tokenText f r t

/-- A record rendered by a text template. -/
def substitute (f : Formatter) (r : Record) (body : String) : Outcome String := do
  let parts ← (pieces body.toList).mapM (pieceText f r)
  return String.join parts

/-- The fields of a record that a pattern can show. -/
def patternFields : List String :=
  ["property", "value", "label", "attribute", "format", "embedded"]

/-- What a place of a pattern stands for. -/
def placeText (r : Record) (index : Int) (place : Option Place) (name : String) :
    Outcome String :=
  if name = "index" then .ok (String.ofList (Text.intText index))
  else if name = "root" then .ok ((place.map Place.root).getD "-")
  else if name = "depth" then
    .ok ((place.map fun p => String.ofList (Text.intText p.depth)).getD "-")
  else if patternFields.contains name then (r.field name).asText
  else match Fields.named? r.extras name with
    | some v => v.asText
    | none => .ok "?"

/-- A record shown by a pattern. -/
def fill (r : Record) (index : Int) (place : Option Place) (body : String) :
    Outcome String := do
  let parts ← (places body.toList).mapM fun
    | .literal c => .ok (String.singleton c)
    | .token name => placeText r index place name
  return String.join parts

/-- Whether a value is the empty text. -/
def isEmptyText : Value → Bool
  | .text s => s == ""
  | _ => false

/-- A record rendered at an index of the list of a microformat. -/
def render (f : Formatter) (standard : Option Template) (r : Record) (index : Int)
    (place : Option Place) : Outcome String :=
  if isEmptyText r.value then .ok ""
  else match r.template.or standard with
    | none => Outcome.fault .missingAttribute
    | some (.text body) => substitute f r body
    | some (.pattern body) => fill r index place body

end SemanticMarkup.Record
