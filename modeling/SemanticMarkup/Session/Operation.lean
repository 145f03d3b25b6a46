import SemanticMarkup.Session
import SemanticMarkup.Settings.Logging

/-!
# Operations on a session

Everything that is asked of a session, with its arguments, and what is answered.
Operations are carried out one after the other. One that fails does not end the
session, and what it did before it failed stays done.
-/

namespace SemanticMarkup.Session

/-- An operation on a session. -/
inductive Operation where
  /-- An answer that is found without the session. -/
  | reply (answer : Outcome Value)
  /-- Enters an engine under a name; without a mark it is none. -/
  | register (name : String) (mark : Option String)
  /-- Removes a name from the registry. -/
  | unregister (name : String)
  /-- The names in the registry. -/
  | available
  /-- Whether the engine with a name is the basic one. -/
  | isBasic (name : String)
  /-- The calls of engines with a mark. -/
  | log
  /-- Sets or removes variables of the environment. -/
  | setVariables (changes : List (String × Option String))
  /-- The global settings. -/
  | globalSettings
  /-- Loads the global settings anew. -/
  | reloadSettings
  /-- Settings from arguments and the environment. -/
  | loadSettings (arguments : Fields)
  /-- How logging is set up under settings from arguments and the environment. -/
  | logging (arguments : Fields)
  /-- Builds a card and keeps it under a name. -/
  | create (name engine : String) (o : Opening)
  /-- Renders a card that is kept. -/
  | renderCard (name : String)
  /-- The rendered records of a card that is kept. -/
  | cardContent (name : String)
  /-- The options of a card that is kept. -/
  | cardOptions (name : String)
  /-- Renders the record at an index of a card that is kept, as the one at a place. -/
  | cardRecord (name : String) (index place : Int)
  /-- Changes an entry of the model of a card that is kept. -/
  | setModel (name : String) (key value : Value)
  /-- Builds a card and renders it. -/
  | render (o : Opening)
  /-- Builds a card and renders its records. -/
  | renderContent (o : Opening)
  /-- Reads a document, builds its card and renders it. -/
  | renderDocument (content : String) (language : Option String) (r : Document.Replacements)
      (o : Opening)
  /-- Normalizes a list of entries, and the records again a number of times. -/
  | normalize (o : Opening) (attributes : Value) (again : Nat)
  /-- Renders a record on its own; arguments that cannot be read fail when they are needed. -/
  | renderRecord (settings : Option Fields) (standard record root : Outcome Value) (index : Int)
  /-- Shows a value in a format. -/
  | showValue (settings : Option Fields) (value format : Value)
  /-- Shows a coordinate, which is checked or taken as it is. -/
  | showCoordinate (axis : Axis) (checked : Bool)
      (value format standard symbols hemispheres : Value)

/-- What is answered to an operation. -/
inductive Answer where
  /-- It is done. -/
  | done
  /-- A truth value. -/
  | truth (b : Bool)
  /-- A text. -/
  | text (s : String)
  /-- Some texts. -/
  | texts (ss : List String)
  /-- A mapping in its order. -/
  | ordered (entries : Entries)
  /-- The records of a card. -/
  | records (rs : List Record)
  /-- The records of several passes. -/
  | passes (ps : List (List Record))
  /-- Settings. -/
  | settings (s : Settings)
  /-- Any other value. -/
  | value (v : Value)

/-- The request for a card without records. -/
def Opening.empty (root : Value) : Opening where
  request := {
    engine := .basic, root := root, model := .null, attributes := .list [], template := .null,
    options := .null, depth := some 0 }
  settings := none
  formatter := none

/-- The place of a record in an empty card with a root type; without one there is none. -/
def placeIn (root : Value) : Use (Option Record.Place) :=
  if root.isNull then return none
  else do
    let card ← build (Opening.empty root)
    return some card.place

/-- Renders a record on its own, or as one of an empty card. -/
def renderAlone (settings : Option Fields) (standard record root : Outcome Value) (index : Int) :
    Use String := do
  let formatter ← formatterFor settings
  let standard ← (standard >>= Template.ofValue : Outcome (Option Template))
  let record ← (record >>= Record.ofValue : Outcome Record)
  let root ← (root : Outcome Value)
  let place ← placeIn root
  (record.render formatter standard index place : Outcome String)

/-- Shows a coordinate. -/
def showCoordinate (axis : Axis) (checked : Bool)
    (value format standard symbols hemispheres : Value) :
    Use String := do
  let c ← onGlobals (Coordinates.make standard symbols hemispheres)
  if checked then (c.renderValid axis value format : Outcome String)
  else (c.render axis value format : Outcome String)

/-- Carries out an operation. -/
def Operation.perform : Operation → Use Answer
  | .reply answer => return .value (← (answer : Outcome Value))
  | .register name mark => do
      Session.register name mark
      return .done
  | .unregister name => do
      Session.unregister name
      return .done
  | .available => return .texts (← get).registry.available
  | .isBasic name => return .truth ((← engineOf name) == .basic)
  | .log => return .texts (← get).log
  | .setVariables changes => do
      Session.setVariables changes
      return .done
  | .globalSettings => return .settings (← onGlobals Globals.obtain)
  | .reloadSettings => return .settings (← onGlobals Globals.reload)
  | .loadSettings arguments => return .settings (← Session.loadSettings arguments)
  | .logging arguments => return .value (← Session.loadSettings arguments).loggingConfig
  | .create name engine o => return .records (← Session.create name engine o).records
  | .renderCard name => do return .text (← traced (← card name).render)
  | .cardContent name => do return .text (← ((← card name).content : Outcome String))
  | .cardOptions name => return .ordered (← card name).options
  | .cardRecord name index place => do
      let c ← card name
      let r ← (recordAt c index : Outcome Record)
      return .text (← (c.renderRecord r place : Outcome String))
  | .setModel name key value => do
      Session.setModel name key value
      return .done
  | .render o => return .text (← Session.render o)
  | .renderContent o => return .text (← Session.renderContent o)
  | .renderDocument content language r o =>
      return .text (← Session.renderDocument content language r o)
  | .normalize o attributes again => return .passes (← Session.normalize o attributes again)
  | .renderRecord settings standard record root index =>
      return .text (← renderAlone settings standard record root index)
  | .showValue settings value format => do
      let formatter ← formatterFor settings
      return .text (← (formatter.format value format : Outcome String))
  | .showCoordinate axis checked value format standard symbols hemispheres =>
      return .text
        (← Session.showCoordinate axis checked value format standard symbols hemispheres)

/-- Carries out something that may fail and goes on in any case. -/
def attempt {α : Type} (u : Use α) : Use (Outcome α) := fun s =>
  let (result, s) := u s
  (.ok result, s)

/-- Carries out some operations, one after the other. -/
def carryOut : List Operation → Use (List (Outcome Answer))
  | [] => return []
  | op :: rest => do
      let first ← attempt op.perform
      return first :: (← carryOut rest)

end SemanticMarkup.Session
