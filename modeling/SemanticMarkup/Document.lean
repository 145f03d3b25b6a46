import SemanticMarkup.Card.Build
import SemanticMarkup.Json.Reader
import SemanticMarkup.Reading
import SemanticMarkup.Yaml.Value

/-!
# Documents

A document describes a microformat: its root type, its entries, the template of
its records and the attributes of its tag. It is written in one of two languages;
if the language is not named, a document that starts with a brace is taken for
JSON and any other for YAML.
-/

namespace SemanticMarkup

open SemanticMarkup.Text

/-- A language that documents are written in. -/
inductive Language where
  /-- JSON. -/
  | json
  /-- YAML. -/
  | yaml
  deriving DecidableEq, Repr

namespace Language

/-- The name of a language. -/
def name : Language → String
  | .json => "json"
  | .yaml => "yaml"

/-- The language with a name. -/
def ofName? (name : String) : Option Language :=
  [json, yaml].find? fun l => l.name == name

/-- Every language is found by its name. -/
theorem ofName?_name (l : Language) : ofName? l.name = some l := by
  cases l <;> decide

/-- The language that a text is taken for. -/
def detect (content : String) : Language :=
  if (trim content.toList).head? == some '\x7b' then .json else .yaml

/-- Reads a text as a value. -/
def load (l : Language) (content : String) : Outcome Value :=
  match l with
  | .json =>
      let cs := content.toList
      match Json.read cs with
      | .ok v => .ok v
      | .error .hugeInteger => Outcome.fault .wrongValue
      | .error (.malformed fault) =>
          let place := Json.position cs fault.remaining
          Outcome.configError (.json place.1 place.2 fault.problem)
  | .yaml =>
      match Yaml.read content.toList with
      | .ok .null => Outcome.configError .nullDocument
      | .ok v => .ok v
      | .error r => .error r.failure

end Language

/-- The description of a microformat. -/
structure Document where
  /-- The root type. -/
  root : String
  /-- The entries, or nothing for all attributes of the model. -/
  attributes : Option (List Value)
  /-- The template of records without one, or nothing for that of the settings. -/
  template : Option String
  /-- The attributes of the tag. -/
  options : Entries
  deriving Repr

namespace Document

/-- Reads the root type, which must not be empty. -/
def readRoot (entries : Entries) : Reading String :=
  let path := ["microformat"]
  match entries.named? "microformat" with
  | none => Reading.refuse path .missing
  | some v =>
      match Reading.text path v with
      | .ok root => if root = "" then Reading.refuse path .shortText else .ok root
      | .error issues => .error issues

/-- Reads an entry: a text, or a mapping from texts. If it is neither, both problems are told. -/
def readEntry (path : List String) (v : Value) : Reading Value :=
  match Reading.text (path ++ ["str"]) v with
  | .ok s => .ok (.text s)
  | .error issues =>
      match Reading.dict (path ++ ["dict[str,any]"]) Reading.any v with
      | .ok fields => .ok (.dict (Entries.ofFields fields))
      | .error others => .error (issues ++ others)

/-- Reads the list of entries. -/
def readAttributes (entries : Entries) : Reading (Option (List Value)) :=
  Reading.optional (Reading.list ["attributes"] readEntry) (entries.valueOf "attributes")

/-- Reads the template. -/
def readTemplate (entries : Entries) : Reading (Option String) :=
  Reading.optional (Reading.text ["template"]) (entries.valueOf "template")

/-- Reads the attributes of the tag. -/
def readOptions (entries : Entries) : Reading Entries :=
  match entries.named? "options" with
  | none => .ok []
  | some v => (Reading.dict ["options"] Reading.any v).map Entries.ofFields

/-- Reads a document from the entries of a mapping. Other entries are ignored; all problems are
told together. -/
def ofEntries (entries : Entries) : Reading Document :=
  match readRoot entries, readAttributes entries, readTemplate entries, readOptions entries with
  | .ok root, .ok attributes, .ok template, .ok options =>
      .ok { root := root, attributes := attributes, template := template, options := options }
  | root, attributes, template, options =>
      .error (root.issues ++ attributes.issues ++ template.issues ++ options.issues)

/-- The document that a value describes. -/
def ofValue (v : Value) : Outcome Document :=
  match v with
  | .dict entries =>
      match ofEntries entries with
      | .ok d => .ok d
      | .error issues => Outcome.configError (.documentIssues issues)
  | v => Outcome.configError (.documentKind v.typeName)

/-- The language of a text, if it is named, or what the text is taken for. -/
def languageOf (content : String) (name : Option String) : Outcome Language :=
  match name with
  | none => .ok (.detect content)
  | some "" => .ok (.detect content)
  | some name =>
      match Language.ofName? name with
      | some l => .ok l
      | none => Outcome.configError (.unknownLanguage name)

/-- Reads a document from a text, which must not be blank. -/
def parse (content : String) (language : Option String) : Outcome Document :=
  if (trim content.toList).isEmpty then Outcome.configError .emptyDocument
  else do
    let l ← languageOf content language
    let v ← l.load content
    ofValue v

/-- Parts of a request that take the place of what a document says. -/
structure Replacements where
  /-- The root type. -/
  root : Option Value
  /-- The entries. -/
  attributes : Option Value
  /-- The template. -/
  template : Option Value
  /-- The attributes of the tag. -/
  options : Option Value

/-- What is to be built for a document. -/
def request (d : Document) (r : Replacements) (model : Value) (depth : Option Int) : Request where
  engine := .basic
  root := r.root.getD (.text d.root)
  model := model
  attributes := r.attributes.getD (d.attributes.elim .null .list)
  template := r.template.getD (d.template.elim .null .text)
  options := r.options.getD (.dict d.options)
  depth := depth

end Document

end SemanticMarkup
