import SemanticMarkup.Settings.Loading

/-!
# The global settings

Whoever is given no settings uses the global ones. They are loaded from the
environment when they are first needed and stay as they are until they are
loaded anew; a load that fails changes nothing.
-/

namespace SemanticMarkup

/-- The environment and the settings last loaded from it. -/
structure Globals where
  /-- The variables of the environment. -/
  environment : Variables
  /-- The settings in use, if any were loaded. -/
  loaded : Option Settings

namespace Globals

/-- An operation that may use the global settings, and may fail. -/
abbrev Use (α : Type) := ExceptT Failure (StateM Globals) α

/-- The result of an operation and the settings after it, which a failure does not undo. -/
def run {α : Type} (operation : Use α) (g : Globals) : Outcome α × Globals :=
  operation g

/-- Loads the settings anew. -/
def reload : Use Settings := do
  let g ← get
  let settings ← (Settings.load g.environment [] : Outcome Settings)
  set { g with loaded := some settings }
  return settings

/-- The settings in use, loaded if none were. -/
def obtain : Use Settings := do
  match (← get).loaded with
  | some settings => return settings
  | none => reload

/-- The settings that are given, or those in use. -/
def obtainUnless (given : Option Settings) : Use Settings :=
  match given with
  | some settings => return settings
  | none => obtain

end Globals

end SemanticMarkup
