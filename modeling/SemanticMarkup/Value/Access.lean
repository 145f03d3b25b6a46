import SemanticMarkup.Value.Text

/-!
# Walking through values

The items of a value that can be walked through, the entries of a value that can
be read as a mapping, and the attributes of an object.

## Implementation notes

Attributes are data only. A value of a scalar type has operations besides, which a
look-up by their names would find; they are no values here, so `attribute?` gives
nothing for such a name. Statements about missing attributes leave these names out.
-/

namespace SemanticMarkup.Value

open SemanticMarkup.Number SemanticMarkup.Calendar

/-- A named value as a pair. -/
def pair (field : String × Value) : Value :=
  .tuple [.text field.1, field.2]

/-- The names of the fields of a record and what they hold when they were not set. -/
def unsetFields : Fields :=
  [("property_name", .null), ("attribute", .null), ("label", .null), ("value", .null),
    ("format", .text "text"), ("options", .dict []), ("template", .null), ("visible", .bool true),
    ("embedded", .null)]

/-- The name under which a field of a record is set. -/
def configName (field : String) : String :=
  if field = "property_name" then "property" else field

/-- All fields of a record, then what it carries besides. -/
def recordFields (config : Fields) : Fields :=
  (unsetFields.map fun f => (f.1, (Fields.named? config (configName f.1)).getD f.2))
    ++ config.filter fun f => !unsetFields.any fun u => configName u.1 == f.1

/-- The items of a value: the characters of a text, the members of a sequence or set, the keys
of a mapping, the fields of a typed model. -/
def items? : Value → Option (List Value)
  | .text s => some (s.toList.map fun c => .text (String.singleton c))
  | .garbled codes => some (codes.map fun code => .garbled [code])
  | .bytes bs => some (bs.map fun b : Nat => .int b)
  | .list items => some items
  | .tuple items => some items
  | .set items => some items
  | .dict entries => some (entries.map Prod.fst)
  | .model fields _ => some (fields.map pair)
  | .template (.text body) =>
      some [pair ("kind", .text "string"), pair ("text", .text body)]
  | .template (.pattern body) =>
      some [pair ("kind", .text "function"), pair ("func", .pattern body)]
  | .record config => some ((recordFields config).map pair)
  | _ => none

/-- The items of a value that has to have some. -/
def items (v : Value) : Outcome (List Value) :=
  match v.items? with
  | some items => .ok items
  | none => Outcome.fault .wrongType

/-- Reads an item as the entry of a mapping: two items, the first one a key. -/
def entryOf (item : Value) : Outcome (Value × Value) :=
  match item.items? with
  | none => Outcome.fault .wrongType
  | some [key, value] => if key.isKey then .ok (key, value) else Outcome.fault .wrongType
  | some _ => Outcome.fault .wrongValue

/-- The entries of a value that is a mapping or a row of pairs. -/
def toEntries : Value → Outcome Entries
  | .dict entries => .ok entries
  | v => do
      let items ← v.items
      let pairs ← items.mapM entryOf
      return Entries.ofPairs pairs

/-- The parts that numbers have: the real and the imaginary part, and for whole numbers
numerator and denominator. -/
def numberPart? (whole : Bool) (name : String) (self zero one : Value) : Option Value :=
  if name = "real" then some self
  else if name = "imag" then some zero
  else if !whole then none
  else if name = "numerator" then some self
  else if name = "denominator" then some one
  else none

/-- The parts of a date. -/
def datePart? (d : Date) (name : String) : Option Value :=
  if name = "year" then some (.int d.year)
  else if name = "month" then some (.int d.month)
  else if name = "day" then some (.int d.day)
  else none

/-- The parts of a moment. -/
def timePart? (t : DateTime) (name : String) : Option Value :=
  if name = "hour" then some (.int t.hour)
  else if name = "minute" then some (.int t.minute)
  else if name = "second" then some (.int t.second)
  else if name = "microsecond" then some (.int t.microsecond)
  else if name = "fold" then some (.int 0)
  else if name = "tzinfo" ∧ t.offset = none then some .null
  else datePart? t.date name

/-- The attribute of an object by its name. -/
def attribute? (v : Value) (name : String) : Option Value :=
  match v with
  | .bool b => numberPart? true name (.int (if b then 1 else 0)) (.int 0) (.int 1)
  | .int n => numberPart? true name (.int n) (.int 0) (.int 1)
  | .float x => numberPart? false name (.float x) (.float Double.zero) .null
  | .decimal d => numberPart? false name (.decimal d) (.decimal (.finite false 0 0)) .null
  | .date d => datePart? d name
  | .datetime t => timePart? t name
  | .object fields => Fields.named? fields name
  | .labelled fields _ => Fields.named? fields name
  | .model fields _ => Fields.named? fields name
  | .template (.text body) =>
      if name = "kind" then some (.text "string")
      else if name = "text" then some (.text body)
      else none
  | .template (.pattern body) =>
      if name = "kind" then some (.text "function")
      else if name = "func" then some (.pattern body)
      else none
  | .record config => Fields.named? (recordFields config) name
  | _ => none

end SemanticMarkup.Value
