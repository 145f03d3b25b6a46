import SemanticMarkup.Format.Formatter
import SemanticMarkup.Reading

/-!
# Records

A record is an entry with everything filled in: what it shows, how it is
formatted, its template and tag attributes. Whatever else an entry carries stays
with the record as extra fields. A record remembers which of its fields were
set, and its configuration consists of these and the extra fields.
-/

namespace SemanticMarkup

/-- A template as a value gives it: a template, a text, or a pattern. -/
def Template.ofValue (v : Value) : Outcome (Option Template) :=
  match v with
  | .null => .ok none
  | .template t => .ok (some t)
  | .text s => .ok (some (.text s))
  | .garbled _ => .ok (some (.text v.display))
  | .pattern body => .ok (some (.pattern body))
  | _ => Outcome.configError (.templateKind v.typeName)

/-- Whether a value can be used as a template. -/
def Template.isTemplate (v : Value) : Bool :=
  match v with
  | .template _ => true
  | .text _ => true
  | .garbled _ => true
  | .pattern _ => true
  | _ => false

/-- An entry with everything filled in. -/
structure Record where
  /-- The name of the property. -/
  property : Option String
  /-- The path of the value in the model. -/
  path : Option String
  /-- The label. -/
  label : Option String
  /-- The value. -/
  value : Value
  /-- The format of the value. -/
  format : Format
  /-- The attributes of the tag. -/
  options : Entries
  /-- The template. -/
  template : Option Template
  /-- Whether the record is shown. -/
  visible : Bool
  /-- The root type of the microformat that the value was rendered from. -/
  embedded : Option String
  /-- Further fields. -/
  extras : Fields
  /-- The names of the fields that were set. -/
  given : List String

namespace Record

/-- The names of the fields. -/
def fieldNames : List String :=
  ["property", "attribute", "label", "value", "format", "options", "template", "visible",
    "embedded"]

/-- The second name of the property. -/
def propertyName : String := "property_name"

/-- A text that may be missing, as a value. -/
def textValue : Option String → Value
  | none => .null
  | some s => .text s

/-- The value of a field. -/
def field (r : Record) (name : String) : Value :=
  if name = "property" then textValue r.property
  else if name = "attribute" then textValue r.path
  else if name = "label" then textValue r.label
  else if name = "value" then r.value
  else if name = "format" then r.format.toValue
  else if name = "options" then .dict r.options
  else if name = "template" then (r.template.map Value.template).getD .null
  else if name = "visible" then .bool r.visible
  else if name = "embedded" then textValue r.embedded
  else .null

/-- The fields that were set, in the order of the fields, and the extra ones. -/
def config (r : Record) : Fields :=
  ((fieldNames.filter r.given.contains).map fun name => (name, r.field name)) ++ r.extras

/-- A record as a value. -/
def toValue (r : Record) : Value :=
  .record r.config

/-- Reads a format: a name, or a list of a name and arguments. -/
def readFormat (path : List String) (v : Value) : Reading Format :=
  match v with
  | .list parts => .ok (.applied parts)
  | .tuple parts => .ok (.applied parts)
  | .set parts => .ok (.applied parts)
  | _ =>
      match Reading.text (path ++ ["str"]) v with
      | .ok name => .ok (.named name)
      | .error problems => .error (problems ++ [⟨path ++ ["list[any]"], .list⟩])

/-- Reads tag attributes. -/
def readOptions (path : List String) (v : Value) : Reading Entries :=
  match Reading.dict path Reading.any v with
  | .ok fields => .ok (Entries.ofFields fields)
  | .error problems => .error problems

/-- Reads a text that may be missing. -/
def readText? (path : List String) : Value → Reading (Option String) :=
  Reading.optional (Reading.text path)

/-- The name under which some entries set the property. -/
def propertyKey (entries : Entries) : String :=
  if entries.hasName "property" then "property" else propertyName

/-- The value that some entries give a field. -/
def given? (entries : Entries) (name : String) : Option Value :=
  if name = "property" then entries.named? (propertyKey entries) else entries.named? name

/-- Reads a field of some entries, or takes what holds without it. -/
def readField {α : Type} (entries : Entries) (name : String) (absent : α)
    (read : List String → Value → Reading α) : Reading α :=
  match given? entries name with
  | none => .ok absent
  | some v => read [name] v

/-- Reads the extra fields of some entries, whose names have to be texts. -/
def readExtras (entries : Entries) : Reading Fields :=
  let isField (key : Value) : Bool :=
    key.sameKey (.text (propertyKey entries))
      || (fieldNames.drop 1).any fun name => key.sameKey (.text name)
  Reading.all ((List.filter (fun e => !isField e.1) entries).map fun e =>
    match e.1 with
    | .text name => .ok (name, e.2)
    | key => Reading.refuse [Reading.keyName key] .key)

/-- Reads the entries of a mapping as a record. -/
def ofEntries (entries : Entries) : Outcome Record := do
  let template ← Template.ofValue ((given? entries "template").getD .null)
  let property := readField entries "property" none readText?
  let path := readField entries "attribute" none readText?
  let label := readField entries "label" none readText?
  let format := readField entries "format" (.named "text") readFormat
  let options := readField entries "options" [] readOptions
  let visible := readField entries "visible" true Reading.bool
  let embedded := readField entries "embedded" none readText?
  let extras := readExtras entries
  let problems := Reading.issues property ++ Reading.issues path ++ Reading.issues label
    ++ Reading.issues format ++ Reading.issues options ++ Reading.issues visible
    ++ Reading.issues embedded ++ Reading.issues extras
  if !problems.isEmpty then .error (.invalid problems)
  else
    Reading.outcome do
      return {
        property := ← property
        path := ← path
        label := ← label
        value := (given? entries "value").getD .null
        format := ← format
        options := ← options
        template := template
        visible := ← visible
        embedded := ← embedded
        extras := ← extras
        given := fieldNames.filter fun name => (given? entries name).isSome }

/-- Reads a value as a record. -/
def ofValue (v : Value) : Outcome Record :=
  match v with
  | .record config => ofEntries (Entries.ofFields config)
  | .dict entries => ofEntries entries
  | _ => .error (.invalid [⟨[], .model⟩])

end Record

end SemanticMarkup
