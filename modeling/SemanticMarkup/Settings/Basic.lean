/-!
# Settings

The settings of a renderer: which root types are allowed, which template, tag
and format are used where none is given, how deep microformats may be embedded,
and how values of the various formats are shown.
-/

namespace SemanticMarkup

/-- What the program runs for. -/
inductive Deployment where
  /-- To be developed. -/
  | development
  /-- To be tested. -/
  | testing
  /-- To be used. -/
  | production
  deriving DecidableEq, Repr

/-- The name of a deployment. -/
def Deployment.name : Deployment → String
  | .development => "development"
  | .testing => "testing"
  | .production => "production"

/-- The deployment with a name. -/
def Deployment.ofName? (name : String) : Option Deployment :=
  [Deployment.development, .testing, .production].find? fun d => d.name == name

/-- How important a message has to be to be logged. -/
inductive LogLevel where
  /-- Any message. -/
  | debug
  /-- Information. -/
  | info
  /-- Warnings. -/
  | warning
  /-- Errors. -/
  | error
  /-- Critical errors. -/
  | critical
  deriving DecidableEq, Repr

/-- The name of a level. -/
def LogLevel.name : LogLevel → String
  | .debug => "DEBUG"
  | .info => "INFO"
  | .warning => "WARNING"
  | .error => "ERROR"
  | .critical => "CRITICAL"

/-- The level with a name. -/
def LogLevel.ofName? (name : String) : Option LogLevel :=
  [LogLevel.debug, .info, .warning, .error, .critical].find? fun l => l.name == name

/-- Every deployment is found by its name. -/
theorem Deployment.ofName?_name (d : Deployment) : Deployment.ofName? d.name = some d := by
  cases d <;> decide

/-- Every level is found by its name. -/
theorem LogLevel.ofName?_name (l : LogLevel) : LogLevel.ofName? l.name = some l := by
  cases l <;> decide

/-- The settings of a renderer. -/
structure Settings where
  /-- What the program runs for. -/
  environment : Deployment
  /-- What the root type of a microformat starts with. -/
  rootPrefix : String
  /-- The template of entries without one. -/
  defaultTemplate : String
  /-- The tag around a microformat. -/
  containerTag : String
  /-- The format of entries without one. -/
  defaultFormat : String
  /-- How deep microformats may be embedded. -/
  maxEmbedDepth : Nat
  /-- The format of coordinates without one. -/
  coordinateFormat : String
  /-- The signs behind degrees, minutes and seconds. -/
  coordinateSymbols : List String
  /-- The names of the hemispheres by their letters. -/
  hemispheres : List (String × String)
  /-- The pattern of dates. -/
  dateFormat : String
  /-- The pattern of dates with a time. -/
  datetimeFormat : String
  /-- The texts for false and true. -/
  booleanFormat : List String
  /-- The text for no value. -/
  nullDisplay : String
  /-- How important a message has to be to be logged. -/
  logLevel : LogLevel
  deriving DecidableEq, Repr

namespace Settings

/-- The settings that hold unless others are given. -/
def standard : Settings where
  environment := .development
  rootPrefix := "h-"
  defaultTemplate :=
    "<div\x7boptions\x7d><span class=\"label\">\x7blabel\x7d</span>"
      ++ "<span class=\"value\">\x7bvalue\x7d</span></div>"
  containerTag := "div"
  defaultFormat := "text"
  maxEmbedDepth := 16
  coordinateFormat := "%02.6f"
  coordinateSymbols := ["°", "′", "″"]
  hemispheres := [("n", "N"), ("e", "E"), ("s", "S"), ("w", "W")]
  dateFormat := "%b %d, %Y"
  datetimeFormat := "%b %d, %Y %H:%M:%S"
  booleanFormat := ["No", "Yes"]
  nullDisplay := ""
  logLevel := .info

end Settings

end SemanticMarkup
