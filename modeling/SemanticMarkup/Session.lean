import SemanticMarkup.Document

/-!
# Sessions

A session keeps what operations share: the environment and the global settings,
the registry of engines, the render calls so far, and cards with their models
under names of their own.
-/

namespace SemanticMarkup

/-- What operations share. -/
structure Session where
  /-- The environment and the global settings. -/
  globals : Globals
  /-- The engines by their names. -/
  registry : Registry
  /-- The render calls so far. -/
  calls : List RenderCall
  /-- The cards by their names. -/
  cards : List (String × Card)
  /-- The models of the cards. -/
  models : List (String × Value)

namespace Session

/-- An operation that may fail; what it did to the session before stays done. -/
abbrev Use (α : Type) := ExceptT Failure (StateM Session) α

/-- A session at its start. -/
def start (environment : Variables) : Session :=
  { globals := { environment := environment, loaded := none }, registry := .standard, calls := [],
    cards := [], models := [] }

/-- An operation on the global settings as one on the session. -/
def onGlobals {α : Type} (operation : Globals.Use α) : Use α := do
  let s ← get
  let (result, globals) := Globals.run operation s.globals
  set { s with globals := globals }
  (result : Outcome α)

/-- A traced outcome as an operation: its calls are added to those of the session. -/
def traced {α : Type} (t : Traced α) : Use α := do
  modify fun s => { s with calls := s.calls ++ t.calls }
  (t.outcome : Outcome α)

/-- Loads settings from arguments and the environment. -/
def loadSettings (arguments : Fields) : Use Settings := do
  let s ← get
  (Settings.load s.globals.environment arguments : Outcome Settings)

/-- Loads settings from arguments if there are any. -/
def loadSettings? : Option Fields → Use (Option Settings)
  | none => return none
  | some arguments => return some (← loadSettings arguments)

/-- The formatter for settings from arguments, or for the global settings. -/
def formatterFor (arguments : Option Fields) : Use Formatter := do
  let given ← loadSettings? arguments
  onGlobals do
    let settings ← Globals.obtainUnless given
    Formatter.make settings

/-- The formatter for settings from arguments if there are any. -/
def formatter? : Option Fields → Use (Option Formatter)
  | none => return none
  | some arguments => return some (← formatterFor (some arguments))

/-- A request with the arguments of the settings and of the formatter, if they are given. -/
structure Opening where
  /-- The request. -/
  request : Request
  /-- The arguments of the settings. -/
  settings : Option Fields
  /-- The arguments of the settings of the formatter. -/
  formatter : Option Fields

/-- Checks a request and makes ready what its card is built with. The request is made after the
settings have been loaded. -/
def prepareFor (settings formatter : Option Fields) (request : Use Request) :
    Use (Site × Prepared) := do
  let given ← loadSettings? settings
  let formatter ← formatter? formatter
  let request ← request
  let s ← get
  onGlobals (Site.prepare given formatter s.registry request)

/-- Checks a request and makes ready what its card is built with. -/
def prepare (o : Opening) : Use (Site × Prepared) :=
  prepareFor o.settings o.formatter (pure o.request)

/-- Builds a card. -/
def build (o : Opening) : Use Card := do
  let (site, prepared) ← prepare o
  traced (Card.build site prepared)

/-- Builds a card and renders it. -/
def render (o : Opening) : Use String := do
  let (site, prepared) ← prepare o
  traced (Card.buildAndRender site prepared)

/-- Reads a document, builds its card and renders it. -/
def renderDocument (content : String) (language : Option String) (r : Document.Replacements)
    (o : Opening) : Use String := do
  let request : Use Request := do
    let d ← (Document.parse content language : Outcome Document)
    return d.request r o.request.model o.request.depth
  let (site, prepared) ← prepareFor o.settings o.formatter request
  traced (Card.buildAndRender site prepared)

/-- Builds a card and renders its records. -/
def renderContent (o : Opening) : Use String := do
  let card ← build o
  (card.content : Outcome String)

/-- Normalizes a list of entries, and the records again a number of times; all passes are
returned. -/
def normalize (o : Opening) (attributes : Value) (again : Nat) : Use (List (List Record)) := do
  let (site, prepared) ← prepare { o with request := { o.request with attributes := .list [] } }
  let pass (entries : Value) : Use (List Record) :=
    traced (Card.recordsOf site { prepared with attributes := entries })
  let first ← pass attributes
  let rec more : Nat → List Record → Use (List (List Record))
    | 0, _ => return []
    | k + 1, records => do
        let next ← pass (.list (records.map Record.toValue))
        return next :: (← more k next)
  return first :: (← more again first)

/-- Enters an engine under a name; without a mark it is none. -/
def register (name : String) (mark : Option String) : Use Unit :=
  match mark with
  | none => (Outcome.configError (.notEngine name) : Outcome Unit)
  | some mark => modify fun s => { s with registry := s.registry.enter name (.marked mark) }

/-- Removes a name from the registry. -/
def unregister (name : String) : Use Unit :=
  modify fun s => { s with registry := s.registry.forget name }

/-- The engine with a name. -/
def engineOf (name : String) : Use Engine := do
  let s ← get
  (s.registry.engineOf name : Outcome Engine)

/-- The calls of engines with a mark, as lines. -/
def log (s : Session) : List String :=
  s.calls.filterMap fun c =>
    match c.engine with
    | .basic => none
    | .marked mark =>
        some (":".intercalate [mark, c.root, String.ofList (Text.intText c.depth)])

/-- Sets or removes variables of the environment. -/
def setVariables (changes : List (String × Option String)) : Use Unit :=
  modify fun s => { s with globals := { s.globals with
    environment := changes.foldl (fun vs c => Variables.assign vs c.1 c.2) s.globals.environment } }

/-- The entries of a list without one name. -/
def without {α : Type} (name : String) (named : List (String × α)) : List (String × α) :=
  named.filter fun e => e.1 != name

/-- Builds a card and keeps it and its model under a name, in the place of those before. -/
def create (name engine : String) (o : Opening) : Use Card := do
  modify fun s => { s with cards := without name s.cards, models := without name s.models }
  let engine ← engineOf engine
  let card ← build { o with request := { o.request with engine := engine } }
  modify fun s => { s with
    cards := (name, card) :: s.cards, models := (name, o.request.model) :: s.models }
  return card

/-- What is kept under a name. -/
def kept {α : Type} (named : List (String × α)) (name : String) : Outcome α :=
  match named.lookup name with
  | some a => .ok a
  | none => Outcome.fault .missingKey

/-- The card with a name. -/
def card (name : String) : Use Card := do
  let s ← get
  (kept s.cards name : Outcome Card)

/-- Changes an entry of the model with a name. -/
def setModel (name : String) (key value : Value) : Use Unit := do
  let s ← get
  match ← (kept s.models name : Outcome Value) with
  | .dict entries =>
      let changed : Value := .dict (Entries.put entries key value)
      set { s with models := (name, changed) :: without name s.models }
  | _ => (Outcome.fault .wrongType : Outcome Unit)

/-- The record of a card at an index, which counts from the end if it is negative. -/
def recordAt (card : Card) (index : Int) : Outcome Record :=
  let place := if index < 0 then index + card.records.length else index
  let found := if place < 0 then none else card.records[place.toNat]?
  match found with
  | some r => .ok r
  | none => Outcome.fault .missingIndex

end Session

end SemanticMarkup
