import SemanticMarkup.Failure
import SemanticMarkup.Number.Double.Shortest
import SemanticMarkup.Text.Quoted
import SemanticMarkup.Value.Basic

/-!
# The text of a value

A text stands for itself and every other value has a written form. Inside lists,
mappings and objects texts are quoted and decimals and times carry their kind,
so that `1`, `'1'` and `Decimal('1')` stay apart. A value has no text if there is
an integer in it with more digits than are written.
-/

namespace SemanticMarkup.Value

open SemanticMarkup.Number SemanticMarkup.Calendar SemanticMarkup.Text

/-- Doubles are written without an exponent from `1e-4` up to `1e16`. -/
def doubleLayout : Double.Layout :=
  { positionalFrom := -4, positionalBelow := 16, infinity := "inf", undefined := "nan" }

/-- The character of a code point, or the replacement character where there is none. -/
def characterOf (code : Nat) : Char :=
  if code.isValidChar then Char.ofNat code else '\ufffd'

/-- A row of code points in quotes; what is no character is written as an escape. -/
def quotedCodes (codes : List Nat) : List Char :=
  let quote := quoteFor (codes.map characterOf)
  quote :: codes.flatMap (fun code =>
    if code.isValidChar then quotedChar quote (Char.ofNat code) else codeEscape code) ++ [quote]

/-- A number as the argument of a call. -/
def argument (n : Nat) : List Char :=
  ',' :: ' ' :: numeral n

/-- A date as a call that makes it. -/
def dateCall (d : Date) : List Char :=
  "datetime.date(".toList ++ numeral d.year ++ argument d.month ++ argument d.day ++ [')']

/-- A number of microseconds as a call that makes the duration; days may be negative, the rest
is not. -/
def durationCall (micros : Int) : List Char :=
  let days := micros / 86400000000
  let seconds := micros / 1000000 % 86400
  let rest := micros % 1000000
  let part (name : String) (n : Int) : List (List Char) :=
    if n = 0 then [] else [name.toList ++ '=' :: intText n]
  let parts := part "days" days ++ part "seconds" seconds ++ part "microseconds" rest
  "datetime.timedelta(".toList
    ++ (if parts.isEmpty then ['0'] else [',', ' '].intercalate parts) ++ [')']

/-- An offset as the zone it belongs to. -/
def zoneCall (offset : Int) : List Char :=
  if offset = 0 then "datetime.timezone.utc".toList
  else "datetime.timezone(".toList ++ durationCall offset ++ [')']

/-- A moment as a call that makes it; seconds and microseconds are left out at the end if zero. -/
def datetimeCall (t : DateTime) : List Char :=
  "datetime.datetime(".toList ++ numeral t.date.year ++ argument t.date.month
    ++ argument t.date.day ++ argument t.hour ++ argument t.minute
    ++ (if t.second = 0 ∧ t.microsecond = 0 then [] else argument t.second)
    ++ (if t.microsecond = 0 then [] else argument t.microsecond)
    ++ (match t.offset with
      | none => []
      | some offset => ", tzinfo=".toList ++ zoneCall offset)
    ++ [')']

/-- Parts in brackets with commas between them. -/
def bracketed (left : String) (parts : List (List Char)) (right : String) : List Char :=
  left.toList ++ [',', ' '].intercalate parts ++ right.toList

/-- A tuple; the comma behind a single part tells it from a part in brackets. -/
def tupleText : List (List Char) → List Char
  | [part] => '(' :: part ++ [',', ')']
  | parts => bracketed "(" parts ")"

/-- Named parts with an equals sign. -/
def assignments (parts : List (String × List Char)) : List (List Char) :=
  parts.map fun p => p.1.toList ++ '=' :: p.2

/-- The parts of a template. -/
def templateParts : Template → List (String × List Char)
  | .text body => [("kind", (quoted "string").toList), ("text", (quoted body).toList)]
  | .pattern _ => [("kind", (quoted "function").toList), ("func", "<FunctionText>".toList)]

/-- The names of the fields of a record, each with the name it is set by and the text of what it
holds when it is not set. -/
def recordParts : List (String × String × String) :=
  [("property_name", "property", "None"), ("attribute", "attribute", "None"),
    ("label", "label", "None"), ("value", "value", "None"), ("format", "format", "'text'"),
    ("options", "options", "\x7b\x7d"), ("template", "template", "None"),
    ("visible", "visible", "True"), ("embedded", "embedded", "None")]

/-- All parts of a record, given the texts of those that were set: fields first, then the rest. -/
def allRecordParts (parts : List (String × List Char)) : List (String × List Char) :=
  (recordParts.map fun (shown, name, absent) =>
      (shown, (parts.lookup name).getD absent.toList))
    ++ parts.filter fun p => !recordParts.any fun r => r.2.1 == p.1

mutual

/-- The written form of a value inside others. -/
def shown : Value → List Char
  | .null => "None".toList
  | .bool true => "True".toList
  | .bool false => "False".toList
  | .int n => intText n
  | .float x => (x.text doubleLayout).toList
  | .text s => (quoted s).toList
  | .garbled codes => quotedCodes codes
  | .bytes bs => (quotedBytes bs).toList
  | .decimal d => "Decimal(".toList ++ singleQuote :: d.text.toList ++ [singleQuote, ')']
  | .date d => dateCall d
  | .datetime t => datetimeCall t
  | .list items => bracketed "[" (shownItems items) "]"
  | .tuple items => tupleText (shownItems items)
  | .set [] => "set()".toList
  | .set items => bracketed "\x7b" (shownItems items) "\x7d"
  | .dict entries => bracketed "\x7b" (shownEntries entries) "\x7d"
  | .object fields => bracketed "namespace(" (assignments (shownFields fields)) ")"
  | .labelled fields _ => bracketed "Labelled(" (assignments (shownFields fields)) ")"
  | .model fields _ => bracketed "Model(" (assignments (shownFields fields)) ")"
  | .pattern _ => "<FunctionText>".toList
  | .template t =>
      (typeName (.template t)).toList ++ bracketed "(" (assignments (templateParts t)) ")"
  | .record config =>
      bracketed "AttributeSpec(" (assignments (allRecordParts (shownFields config))) ")"

/-- The written forms of a row of values. -/
def shownItems : List Value → List (List Char)
  | [] => []
  | v :: vs => shown v :: shownItems vs

/-- The written forms of the entries of a mapping. -/
def shownEntries : List (Value × Value) → List (List Char)
  | [] => []
  | (k, v) :: rest => (shown k ++ ':' :: ' ' :: shown v) :: shownEntries rest

/-- The written forms of named values. -/
def shownFields : List (String × Value) → List (String × List Char)
  | [] => []
  | (name, v) :: rest => (name, shown v) :: shownFields rest

end

mutual

/-- Whether a value has a text: no integer in it has too many digits to be written. -/
def isWritable : Value → Bool
  | .int n => decide (digitCount n.natAbs ≤ digitLimit)
  | .list items => areWritable items
  | .tuple items => areWritable items
  | .set items => areWritable items
  | .dict entries => areWritableEntries entries
  | .object fields => areWritableFields fields
  | .labelled fields _ => areWritableFields fields
  | .model fields _ => areWritableFields fields
  | .record config => areWritableFields config
  | _ => true

/-- Whether all values of a row have a text. -/
def areWritable : List Value → Bool
  | [] => true
  | v :: vs => isWritable v && areWritable vs

/-- Whether all keys and values of a mapping have a text. -/
def areWritableEntries : List (Value × Value) → Bool
  | [] => true
  | (k, v) :: rest => isWritable k && isWritable v && areWritableEntries rest

/-- Whether all named values have a text. -/
def areWritableFields : List (String × Value) → Bool
  | [] => true
  | (_, v) :: rest => isWritable v && areWritableFields rest

end

/-- Named parts with blanks between them. -/
def spaced (parts : List (String × List Char)) : List Char :=
  [' '].intercalate (assignments parts)

/-- The text of a value, however long the integers in it are. -/
def display : Value → String
  | .text s => s
  | .garbled codes => String.ofList (codes.map characterOf)
  | .decimal d => d.text
  | .date d => String.ofList d.isoText
  | .datetime t => String.ofList (t.isoText ' ')
  | .model fields _ => String.ofList (spaced (shownFields fields))
  | .template t => String.ofList (spaced (templateParts t))
  | .record config => String.ofList (spaced (allRecordParts (shownFields config)))
  | v => String.ofList (shown v)

/-- The least positive integer without a text. -/
def tooLong : Value :=
  .int (Nat.pow 10 digitLimit)

/-- The text of a value that has one. -/
def asText (v : Value) : Outcome String :=
  if v.isWritable then .ok v.display else Outcome.fault .wrongValue

variable {v : Value} {s : String}

@[simp] theorem asText_text (s : String) : (Value.text s).asText = .ok s := rfl

theorem asText_of_isWritable (h : v.isWritable = true) : v.asText = .ok v.display := by
  rw [asText, if_pos h]

theorem asText_of_not_isWritable (h : v.isWritable = false) :
    v.asText = Outcome.fault .wrongValue := by
  rw [asText, h, if_neg Bool.false_ne_true]

theorem IsString.asText (h : v.IsString) : v.asText = .ok v.display := by
  cases h <;> rfl

/-- A row of values has texts if each of them has one. -/
theorem mapM_asText (vs : List Value) :
    vs.mapM asText =
      if vs.all isWritable then .ok (vs.map display) else Outcome.fault .wrongValue := by
  induction vs with
  | nil => rfl
  | cons v rest ih =>
      rw [List.mapM_cons, ih, asText, List.all_cons]
      cases v.isWritable <;> cases rest.all isWritable <;> rfl

end SemanticMarkup.Value
