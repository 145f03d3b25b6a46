import SemanticMarkup.Card.Registry
import SemanticMarkup.Markup.Container
import SemanticMarkup.Record.Rendering

/-!
# Cards

A card is a microformat that is ready to be rendered: its root type, its records
and the attributes of the tag around them. Rendering a card depends on nothing
else: the model has been read and embedded microformats have been rendered when
the card was built.
-/

namespace SemanticMarkup

/-- What cards are built and rendered with. -/
structure Site where
  /-- The settings. -/
  settings : Settings
  /-- What values are shown with. -/
  formatter : Formatter
  /-- The engines by their names. -/
  registry : Registry

/-- The site of settings that leave nothing out, with the basic engine only. -/
def Site.ofComplete (s : Settings) : Site :=
  { settings := s, formatter := Formatter.ofComplete s, registry := Registry.standard }

/-- A microformat that is ready to be rendered. -/
structure Card where
  /-- The engine. -/
  engine : Engine
  /-- The root type. -/
  root : String
  /-- How deep the card is embedded. -/
  depth : Int
  /-- The attributes of the tag, without the root type among the classes. -/
  options : Entries
  /-- The template of records without one. -/
  template : Template
  /-- The tag, if the options name none. -/
  containerTag : String
  /-- What values are shown with. -/
  formatter : Formatter
  /-- The records. -/
  records : List Record

namespace Card

/-- Where the records of a card are rendered. -/
def place (c : Card) : Record.Place :=
  { root := c.root, depth := c.depth }

/-- A record rendered as one of a card. -/
def renderRecord (c : Card) (r : Record) (index : Int) : Outcome String :=
  r.render c.formatter (some c.template) index (some c.place)

/-- The rendered records one after the other. -/
def content (c : Card) : Outcome String := do
  let parts ← (c.records.mapIdx fun i r => (i, r)).mapM fun p =>
    c.renderRecord p.2 (p.1 : Nat)
  return String.join parts

/-- The name of the tag: that of the options or the usual one. -/
def tag (c : Card) : Outcome String :=
  let named := c.options.valueOf "tag"
  if named.isTrue then named.asText else .ok c.containerTag

/-- The element of a card. -/
def markup (c : Card) : Outcome String := do
  let options ← Markup.addClass (c.options.dropName "tag") c.root
  let content ← c.content
  let attributes ← Markup.tagAttributes options
  let tag ← c.tag
  return Markup.element tag attributes content

/-- The output of an engine for the element of a card. -/
def outputOf (engine : Engine) (markup : String) : String :=
  match engine with
  | .basic => markup
  | .marked mark => mark ++ "(" ++ markup ++ ")"

/-- A card rendered by its engine, which records the call. -/
def render (c : Card) : Traced String := do
  let markup ← c.markup
  Traced.call { engine := c.engine, root := c.root, depth := c.depth }
  return outputOf c.engine markup

end Card

end SemanticMarkup
