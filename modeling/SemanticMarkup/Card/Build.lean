import SemanticMarkup.Card.Basic
import SemanticMarkup.Entry.Parse
import SemanticMarkup.Entry.Rules
import SemanticMarkup.ModelAccess

/-!
# Building cards

A card is built from a request: a root type, a model and a list of entries. Each
visible entry becomes a record. A plain entry takes its value and its label from
the model; an entry that embeds a microformat has that one built and rendered,
one level deeper, and becomes a record that shows the result as it is.

## Implementation notes

`room` counts the levels that are still allowed, so building ends. The check of
the depth in `Request.prepare` keeps it from being used up.
-/

namespace SemanticMarkup

/-- What a card is to be built from. -/
structure Request where
  /-- The engine. -/
  engine : Engine
  /-- The root type. -/
  root : Value
  /-- The model. -/
  model : Value
  /-- The list of entries, or nothing for all attributes of the model. -/
  attributes : Value
  /-- The template of records without one, or nothing for that of the settings. -/
  template : Value
  /-- The attributes of the tag. -/
  options : Value
  /-- How deep the card is embedded, if that is a number. -/
  depth : Option Int

/-- A request that has been checked: the card without its records, and where they come from. -/
structure Prepared where
  /-- The engine. -/
  engine : Engine
  /-- The root type. -/
  root : String
  /-- How deep the card is embedded. -/
  depth : Int
  /-- The attributes of the tag. -/
  options : Entries
  /-- The template of records without one. -/
  template : Template
  /-- The model. -/
  model : Value
  /-- The list of entries. -/
  attributes : Value

namespace Request

/-- The root type of a request: a text with the start that the settings require. -/
def checkRoot (settings : Settings) (root : Value) : Outcome String :=
  if !root.isTrue then Outcome.configError .missingRoot
  else match root with
    | .text s =>
        if settings.rootPrefix.toList.isPrefixOf s.toList then .ok s
        else Outcome.configError (.invalidRoot s)
    | v => do Outcome.configError (.invalidRoot (← v.asText))

/-- The depth of a request, if it is allowed. -/
def checkDepth (settings : Settings) (root : String) (depth : Option Int) : Outcome Int :=
  match depth with
  | none => Outcome.fault .wrongType
  | some d =>
      if (settings.maxEmbedDepth : Int) < d then
        Outcome.configError (.tooDeep root settings.maxEmbedDepth)
      else .ok d

/-- The options of a request. -/
def readOptions (options : Value) : Outcome Entries :=
  if options.isTrue then options.toEntries else .ok []

/-- The template of a request. -/
def readTemplate (settings : Settings) (template : Value) : Outcome Template := do
  let given ← Template.ofValue template
  return given.getD (.text settings.defaultTemplate)

/-- Checks a request. -/
def prepare (settings : Settings) (r : Request) : Outcome Prepared := do
  let root ← checkRoot settings r.root
  let depth ← checkDepth settings root r.depth
  let options ← readOptions r.options
  let template ← readTemplate settings r.template
  return {
    engine := r.engine, root := root, depth := depth, options := options, template := template,
    model := r.model, attributes := r.attributes }

end Request

/-- The card that a checked request and its records make. -/
def Prepared.card (site : Site) (p : Prepared) (records : List Record) : Card :=
  { engine := p.engine, root := p.root, depth := p.depth, options := p.options,
    template := p.template, containerTag := site.settings.containerTag,
    formatter := site.formatter, records := records }

namespace Card

/-- The place of an entry in its list, as it is shown. -/
def placeName (index : Nat) : String :=
  "attributes[" ++ String.ofList (Text.numeral index) ++ "]"

/-- The options of an entry, with its property among the classes. -/
def entryOptions (entries : Entries) : Outcome Entries := do
  let options ← Request.readOptions (entries.valueOf "options")
  match entries.valueOf "property" with
  | .text property => if property = "" then return options else Markup.addClass options property
  | _ => return options

/-- The fields that an entry which embeds a microformat must not have. -/
def forbiddenNames : List String := ["attribute", "value", "format"]

/-- The fields that serve to embed a microformat. -/
def embeddingNames : List String := ["microformat", "model", "class", "attributes"]

/-- The first value, if it counts as true, or else the second. -/
def orElse (v absent : Value) : Value :=
  if v.isTrue then v else absent

/-- The record that shows an embedded microformat. -/
def embeddedRecord (root html : String) : Record :=
  { property := none, path := none, label := none, value := .text html, format := .named "raw",
    options := [], template := some (.text "\x7bvalue\x7d"), visible := true,
    embedded := some root, extras := [], given := Record.fieldNames }

/-- The text of a value that has been checked to be one. -/
def textOf : Value → String
  | .text s => s
  | _ => ""

/-- The engine of an embedded microformat: the one it names, or else that of the card around it. -/
def nestedEngine (registry : Registry) (enclosing : Engine) (entries : Entries) :
    Outcome Engine :=
  match entries.valueOf "class" with
  | .text name => registry.engineOf name
  | .garbled codes => Outcome.configError (.unknownEngine (Value.garbled codes).display)
  | _ => .ok enclosing

/-- The request for the microformat that an entry embeds, one level deeper. -/
def nestedRequest (registry : Registry) (p : Prepared) (entries : Entries) : Outcome Request := do
  let options ← entryOptions entries
  let engine ← nestedEngine registry p.engine entries
  return {
    engine := engine
    root := entries.valueOf "microformat"
    model := orElse (entries.valueOf "model") p.model
    attributes := entries.valueOf "attributes"
    template := entries.valueOf "template"
    options := .dict options
    depth := some (p.depth + 1) }

/-- Embeds a microformat: checks the entry, has it rendered by `nested` and shows the result. -/
def embed (nested : Request → Traced String) (site : Site) (p : Prepared) (entries : Entries)
    (place : String) : Traced Record := do
  match forbiddenNames.find? entries.hasName with
  | some field => (Outcome.configError (.forbiddenField place field) : Outcome Record)
  | none => do
      (Rules.check entries place : Outcome Unit)
      let request ← nestedRequest site.registry p entries
      let html ← nested request
      return embeddedRecord (textOf (entries.valueOf "microformat")) html

/-- The problems of an attribute with code points that no character has: neither it nor a label
made of it is a text. -/
def garbledIssues (entries : Entries) : List Issue :=
  let named : List Issue := [⟨["attribute"], .garbledText⟩]
  match entries.valueOf "label" with
  | .text _ => named
  | _ => named ++ [⟨["label"], .garbledText⟩]

/-- The attribute that a plain entry shows: its own or that of its property. -/
def attributeName (entries : Entries) : Outcome (Option String) :=
  match entries.valueOf "attribute", entries.valueOf "property" with
  | .text name, _ => .ok (some name)
  | .garbled _, _ => .error (.invalid (garbledIssues entries))
  | _, .text property =>
      match attributeOfProperty? property with
      | some name => .ok (some name)
      | none => Outcome.fault .wrongValue
  | _, _ => .ok none

/-- The label and the value of a plain entry. -/
def labelAndValue (model : Value) (entries : Entries) (name : Option String) (place : String) :
    Outcome (Value × Value) :=
  let label := entries.valueOf "label"
  match name with
  | some name => do
      let label ← if label.isNull then ModelAccess.label model name else pure label
      return (label, (entries.named? "value").getD (ModelAccess.valueAt model name .null))
  | none =>
      let value := entries.valueOf "value"
      if value.isNull then Outcome.configError (.noValue place) else .ok (label, value)

/-- Whether a key names a field of records or serves to embed microformats. -/
def isKnown (key : Value) : Bool :=
  (Record.fieldNames ++ embeddingNames).any fun name => key.sameKey (.text name)

/-- The format of a plain entry, or the usual one. -/
def formatOf (settings : Settings) (entries : Entries) : Value :=
  match entries.valueOf "format" with
  | .null => .text settings.defaultFormat
  | v => v

/-- The fields that are filled in for a plain entry. -/
def filledFields (settings : Settings) (entries : Entries) (name : Option String)
    (label value : Value) (options : Entries) : Fields :=
  [("property", entries.valueOf "property"), ("attribute", Record.textValue name),
    ("label", label), ("value", value), ("format", formatOf settings entries),
    ("options", .dict options), ("template", entries.valueOf "template"),
    ("visible", .bool true), ("embedded", entries.valueOf "embedded")]

/-- The entries whose keys have no meaning of their own. -/
def foreign (entries : Entries) : Entries :=
  List.filter (fun e => !isKnown e.1) entries

/-- The entries of the record for a plain entry. -/
def filledEntries (settings : Settings) (entries : Entries) (name : Option String)
    (label value : Value) (options : Entries) : Entries :=
  foreign entries ++ Entries.ofFields (filledFields settings entries name label value options)

/-- Fills in a plain entry. -/
def fillPlain (settings : Settings) (model : Value) (entries : Entries) (place : String) :
    Outcome Record := do
  if !(entries.valueOf "class").isNull then Outcome.configError (.engineOfPlain place)
  else do
    Rules.check entries place
    let name ← attributeName entries
    let (label, value) ← labelAndValue model entries name place
    let options ← entryOptions entries
    Record.ofEntries (filledEntries settings entries name label value options)

/-- Whether an entry is left out. -/
def isHidden (entries : Entries) : Bool :=
  let visible := entries.valueOf "visible"
  !visible.isNull && !visible.isTrue

/-- The record for an entry of a list, if the entry is shown. -/
def recordOf (nested : Request → Traced String) (site : Site) (p : Prepared) (index : Nat)
    (raw : Value) : Traced (Option Record) := do
  let entries ← Entry.ofValue raw
  if isHidden entries then return none
  else if (entries.valueOf "microformat").isNull then
    return some (← fillPlain site.settings p.model entries (placeName index))
  else
    return some (← embed nested site p entries (placeName index))

/-- The entries that show every attribute of a model. -/
def wholeModel (model : Value) : Outcome (List Value) := do
  let names ← ModelAccess.attributeNames model
  return names.map fun name => .dict [(.text "attribute", name)]

/-- The list of entries of a checked request. -/
def entryList (p : Prepared) : Outcome (List Value) :=
  if p.attributes.isNull then wholeModel p.model else p.attributes.items

/-- The records for the entries of a checked request. -/
def normalize (nested : Request → Traced String) (site : Site) (p : Prepared) :
    Traced (List Record) := do
  let entries ← entryList p
  let records ← Traced.forEach (recordOf nested site p) 0 entries
  return records.filterMap id

/-- The output for a request whose records are built by `build`. -/
def renderWith (build : Prepared → Traced (List Record)) (site : Site) (r : Request) :
    Traced String := do
  let p ← r.prepare site.settings
  let records ← build p
  (p.card site records).render

/-- The records for the entries of a checked request, where `room` levels are left. -/
def buildRecords (site : Site) : Nat → Prepared → Traced (List Record)
  | 0, p => (Outcome.configError (.tooDeep p.root site.settings.maxEmbedDepth) :
      Outcome (List Record))
  | room + 1, p => normalize (renderWith (buildRecords site room) site) site p

/-- The number of levels from a depth to the deepest one. -/
def roomAt (settings : Settings) (depth : Int) : Nat :=
  ((settings.maxEmbedDepth : Int) + 1 - depth).toNat

/-- The records of a checked request. -/
def recordsOf (site : Site) (p : Prepared) : Traced (List Record) :=
  buildRecords site (roomAt site.settings p.depth) p

/-- Builds the card of a checked request. -/
def build (site : Site) (p : Prepared) : Traced Card := do
  let records ← recordsOf site p
  return p.card site records

/-- Builds the card of a checked request and renders it. -/
def buildAndRender (site : Site) (p : Prepared) : Traced String := do
  let card ← build site p
  card.render

/-- Checks a request, builds its card and renders it. -/
def widget (site : Site) (r : Request) : Traced String := do
  let p ← r.prepare site.settings
  buildAndRender site p

end Card

/-- Checks a request and makes ready what its card is built with. Settings and a formatter that are
not given come from the global settings. -/
def Site.prepare (given : Option Settings) (formatter : Option Formatter) (registry : Registry)
    (r : Request) : Globals.Use (Site × Prepared) := do
  let settings ← Globals.obtainUnless given
  let prepared ← (r.prepare settings : Outcome Prepared)
  let formatter ← match formatter with
    | some f => pure f
    | none => Formatter.make settings
  return ({ settings := settings, formatter := formatter, registry := registry }, prepared)

end SemanticMarkup
