import SemanticMarkup.Card.Traced

/-!
# The registry of engines

Embedded microformats may name the engine that renders them. The registry knows
the engines by their names.
-/

namespace SemanticMarkup

/-- Engines by their names. -/
abbrev Registry := List (String × Engine)

namespace Registry

/-- The name of the basic engine. -/
def basicName : String := "microformat"

/-- The registry that knows the basic engine only. -/
def standard : Registry := [(basicName, .basic)]

/-- The engine with a name. -/
def engineOf (registry : Registry) (name : String) : Outcome Engine :=
  match registry.lookup name with
  | some engine => .ok engine
  | none => Outcome.configError (.unknownEngine name)

/-- The registry without a name. -/
def forget (registry : Registry) (name : String) : Registry :=
  registry.filter fun e => e.1 != name

/-- The registry with an engine under a name. -/
def enter (registry : Registry) (name : String) (engine : Engine) : Registry :=
  (name, engine) :: forget registry name

/-- The names in ascending order. -/
def available (registry : Registry) : List String :=
  (registry.map Prod.fst).mergeSort fun a b => decide (a ≤ b)

/-- An entered engine is found under its name. -/
theorem engineOf_enter (registry : Registry) (name : String) (engine : Engine) :
    (registry.enter name engine).engineOf name = .ok engine := by
  simp [enter, engineOf]

end Registry

end SemanticMarkup
