import SemanticMarkup.Json.Writer
import SemanticMarkup.Markup.Escape
import SemanticMarkup.Value.Access

/-!
# Tag attributes

The options of a tag are a mapping from attribute names to values. Nothing and
false leave an attribute out, true writes its bare name, the classes are words
without repetition, and the mappings under `data` and `aria` write one attribute
for each of their entries.
-/

namespace SemanticMarkup.Markup

open SemanticMarkup.Text

/-- The words of a class value: of a text its words, of anything else the texts of its true
items. -/
def classWords (v : Value) : Outcome (List String) :=
  if !v.isTrue then .ok []
  else match v with
    | .text s => .ok (words s)
    | .garbled _ => .ok (words v.display)
    | _ => do
        let items ← v.items
        (items.filter Value.isTrue).mapM Value.asText

/-- Words followed by those of a text that are not among them yet. -/
def withWords (classes : List String) (css : String) : List String :=
  (words css).foldl (fun known word => if word ∈ known then known else known ++ [word]) classes

/-- Options with a class added to the class value. -/
def addClass (options : Entries) (css : String) : Outcome Entries := do
  let classes ← classWords (options.valueOf "class")
  return options.putName "class" (.text (" ".intercalate (withWords classes css)))

/-- An attribute with a quoted value. -/
def quotedAttribute (name value : String) : String :=
  name ++ "=\"" ++ escape value ++ "\""

/-- A list or mapping as JSON, anything else as its text. -/
def attributeText (v : Value) : Outcome String :=
  let json := match v with
    | .list _ => true
    | .dict _ => true
    | _ => false
  if json then do return String.ofList (← Json.write v)
  else v.asText

/-- The attributes that the entries of a mapping stand for, behind a common start of the name. -/
def familyAttributes (family : String) (entries : Entries) : Outcome (List String) :=
  entries.mapM fun e => do
    let value ← attributeText e.2
    let name ← e.1.asText
    return quotedAttribute (family ++ "-" ++ name) value

/-- The attributes an option stands for: texts, and for a bare name the key itself. -/
def optionAttributes (option : Value × Value) : Outcome (List Value) :=
  match option.2 with
  | .null => .ok []
  | .bool false => .ok []
  | .bool true => .ok [option.1]
  | value =>
      match option.1, value with
      | .text "class", _ => do
          let classes ← classWords value
          return if classes.isEmpty then []
            else [.text (quotedAttribute "class" (" ".intercalate classes))]
      | .text "data", .dict entries => do return (← familyAttributes "data" entries).map .text
      | .text "aria", .dict entries => do return (← familyAttributes "aria" entries).map .text
      | key, _ => do
          let name ← key.asText
          let shown ← attributeText value
          return [.text (quotedAttribute name shown)]

/-- All attributes of some options, each with a blank in front. -/
def tagAttributes (options : Entries) : Outcome String := do
  let attributes ← options.mapM optionAttributes
  let texts ← attributes.flatten.mapM Value.asText
  return String.join (texts.map (" " ++ ·))

end SemanticMarkup.Markup
