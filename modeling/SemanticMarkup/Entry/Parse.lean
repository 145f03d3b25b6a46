import SemanticMarkup.Entry.Shorthand
import SemanticMarkup.Record.Basic

/-!
# Entries as they are given

An entry is given as a shorthand text, as a mapping or as a record. All three
are brought into the form of a mapping.
-/

namespace SemanticMarkup.Entry

/-- A short entry as a mapping. -/
def ofShorthand (s : Shorthand) : Entries :=
  Entries.ofFields [("property", .text s.property), ("attribute", .text s.resolvedPath),
    ("format", .text s.resolvedFormat), ("label", Record.textValue s.label)]

/-- The entry that a shorthand text is. -/
def ofText (s : String) : Outcome Entries :=
  match Shorthand.read? s with
  | some short => .ok (ofShorthand short)
  | none => Outcome.configError (.shorthand s)

/-- The entry that a value is. -/
def ofValue (v : Value) : Outcome Entries :=
  match v with
  | .text s => ofText s
  | .garbled _ => ofText v.display
  | .record config => .ok (Entries.ofFields config)
  | .dict entries => .ok entries
  | _ => Outcome.configError (.entryKind v.typeName)

end SemanticMarkup.Entry
