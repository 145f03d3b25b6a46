import SemanticMarkup.Calendar.Civil
import SemanticMarkup.Number.Decimal
import SemanticMarkup.Template

/-!
# Values

Models, options, entries and documents are made of values: scalars, sequences,
mappings that keep their order, and objects with named fields. This module
holds the type, the names of its kinds, the truth of a value and the look-up in
mappings.

## Implementation notes

The keys of a mapping are arbitrary values. Two keys are the same when they are
equal as numbers (the truth values count as 0 and 1), as texts, as times or
component by component; of an entry whose key comes twice the first key and the
last value stay.
-/

namespace SemanticMarkup

open SemanticMarkup.Number SemanticMarkup.Calendar

/-- A value. -/
inductive Value where
  /-- No value. -/
  | null
  /-- A truth value. -/
  | bool (b : Bool)
  /-- An integer. -/
  | int (n : Int)
  /-- A double. -/
  | float (x : Double)
  /-- A text. -/
  | text (s : String)
  /-- A text with code points that no character has, given by its code points. -/
  | garbled (codes : List Nat)
  /-- A row of bytes. -/
  | bytes (bs : List Nat)
  /-- An exact decimal. -/
  | decimal (d : Decimal)
  /-- A date. -/
  | date (d : Date)
  /-- A date with a time. -/
  | datetime (t : DateTime)
  /-- A list. -/
  | list (items : List Value)
  /-- A tuple. -/
  | tuple (items : List Value)
  /-- A set. -/
  | set (items : List Value)
  /-- A mapping. -/
  | dict (entries : List (Value × Value))
  /-- An object with named fields. -/
  | object (fields : List (String × Value))
  /-- An object that knows the labels of its fields. -/
  | labelled (fields labels : List (String × Value))
  /-- A typed model with the titles of its fields. -/
  | model (fields titles : List (String × Value))
  /-- A pattern that can be called with a record. -/
  | pattern (body : String)
  /-- A template. -/
  | template (t : Template)
  /-- A record, given by the fields that were set. -/
  | record (config : List (String × Value))
  deriving Inhabited, Repr

/-- The entries of a mapping. -/
abbrev Entries := List (Value × Value)

/-- Named values. -/
abbrev Fields := List (String × Value)

namespace Value

/-- The text of a row of code points. -/
def ofCodes (codes : List Nat) : Value :=
  if codes.all fun code => decide code.isValidChar then .text (String.ofList (codes.map Char.ofNat))
  else .garbled codes

/-- A value that is a text, with or without code points that no character has. -/
inductive IsString : Value → Prop
  | text (s : String) : IsString (.text s)
  | garbled (codes : List Nat) : IsString (.garbled codes)

/-- The name of the kind of a value. -/
def typeName : Value → String
  | .null => "NoneType"
  | .bool _ => "bool"
  | .int _ => "int"
  | .float _ => "float"
  | .text _ => "str"
  | .garbled _ => "str"
  | .bytes _ => "bytes"
  | .decimal _ => "Decimal"
  | .date _ => "date"
  | .datetime _ => "datetime"
  | .list _ => "list"
  | .tuple _ => "tuple"
  | .set _ => "set"
  | .dict _ => "dict"
  | .object _ => "SimpleNamespace"
  | .labelled _ _ => "Labelled"
  | .model _ _ => "Model"
  | .pattern _ => "FunctionText"
  | .template (.text _) => "StringTemplate"
  | .template (.pattern _) => "FunctionTemplate"
  | .record _ => "AttributeSpec"

/-- Whether a value counts as true: everything but nothing, zero and what is empty. -/
def isTrue : Value → Bool
  | .null => false
  | .bool b => b
  | .int n => n != 0
  | .float x => !x.isZero
  | .text s => s != ""
  | .garbled codes => !codes.isEmpty
  | .bytes bs => !bs.isEmpty
  | .decimal d => !d.isZero
  | .list items => !items.isEmpty
  | .tuple items => !items.isEmpty
  | .set items => !items.isEmpty
  | .dict entries => !entries.isEmpty
  | _ => true

/-- Whether there is no value. -/
def isNull : Value → Bool
  | .null => true
  | _ => false

/-- A number in the form `± coefficient * 10 ^ exponent`, its coefficient not divisible by ten. -/
structure Reduced where
  /-- Whether the number is negative. -/
  negative : Bool
  /-- The digits. -/
  coefficient : Nat
  /-- The power of ten. -/
  exponent : Int
  deriving DecidableEq, Repr

/-- Takes up to `count` zeros off the end of the coefficient. -/
def Reduced.strip : Nat → Reduced → Reduced
  | 0, r => r
  | count + 1, r =>
      if r.coefficient % 10 = 0 then
        strip count { r with coefficient := r.coefficient / 10, exponent := r.exponent + 1 }
      else r

/-- The reduced form of a number; zero has one form. -/
def Reduced.of (negative : Bool) (coefficient : Nat) (exponent : Int) : Reduced :=
  if coefficient = 0 then ⟨false, 0, 0⟩
  else Reduced.strip (digitCount coefficient) ⟨negative, coefficient, exponent⟩

/-- The reduced form of a finite number. -/
def reduced? : Value → Option Reduced
  | .bool b => some (.of false (if b then 1 else 0) 0)
  | .int n => some (.of (decide (n < 0)) n.natAbs 0)
  | .float (.finite negative units) => some (.of negative (units * Nat.pow 5 1074) (-1074))
  | .decimal (.finite negative coefficient exponent) => some (.of negative coefficient exponent)
  | _ => none

/-- The sign of an infinite number. -/
def infinity? : Value → Option Bool
  | .float (.infinite negative) => some negative
  | .decimal (.infinite negative) => some negative
  | _ => none

mutual

/-- Whether two keys are the same. -/
def sameKey : Value → Value → Bool
  | .null, .null => true
  | .text s, .text t => s == t
  | .garbled s, .garbled t => s == t
  | .bytes s, .bytes t => s == t
  | .date d, .date e => d == e
  | .datetime s, .datetime t =>
      if s.offset.isSome && t.offset.isSome then s.instant == t.instant
      else s.offset.isNone && t.offset.isNone && s == t
  | .tuple xs, .tuple ys => sameKeys xs ys
  | .pattern s, .pattern t => s == t
  | .template s, .template t => s == t
  | v, w =>
      match v.reduced?, w.reduced? with
      | some r, some s => r == s
      | _, _ =>
          match v.infinity?, w.infinity? with
          | some n, some m => n == m
          | _, _ => false

/-- Whether two rows of keys are the same. -/
def sameKeys : List Value → List Value → Bool
  | [], [] => true
  | v :: vs, w :: ws => sameKey v w && sameKeys vs ws
  | _, _ => false

end

mutual

/-- Whether a value can be a key of a mapping. -/
def isKey : Value → Bool
  | .list _ => false
  | .set _ => false
  | .dict _ => false
  | .object _ => false
  | .labelled _ _ => false
  | .model _ _ => false
  | .record _ => false
  | .decimal (.undefined _ true _) => false
  | .tuple items => areKeys items
  | _ => true

/-- Whether all values of a row can be keys. -/
def areKeys : List Value → Bool
  | [] => true
  | v :: vs => isKey v && areKeys vs

end

end Value

namespace Entries

/-- The value under a key. -/
def lookup? (entries : Entries) (key : Value) : Option Value :=
  (List.find? (fun e => e.1.sameKey key) entries).map Prod.snd

/-- The entries with a value under a key: in the place of the old one, else at the end. -/
def put (entries : Entries) (key value : Value) : Entries :=
  if entries.any fun e => e.1.sameKey key then
    entries.map fun e => if e.1.sameKey key then (e.1, value) else e
  else entries ++ [(key, value)]

/-- The entries of a row of pairs, where later pairs win. -/
def ofPairs (pairs : Entries) : Entries :=
  pairs.foldl (fun entries e => put entries e.1 e.2) []

/-- The value under a text. -/
def named? (entries : Entries) (name : String) : Option Value :=
  lookup? entries (.text name)

/-- The value under a text, or no value. -/
def valueOf (entries : Entries) (name : String) : Value :=
  (named? entries name).getD .null

/-- Whether a text is one of the keys. -/
def hasName (entries : Entries) (name : String) : Bool :=
  (named? entries name).isSome

/-- The entries with a value under a text. -/
def putName (entries : Entries) (name : String) (value : Value) : Entries :=
  put entries (.text name) value

/-- The entries without the one under a text. -/
def dropName (entries : Entries) (name : String) : Entries :=
  List.filter (fun e => !e.1.sameKey (.text name)) entries

/-- The entries that named values make. -/
def ofFields (fields : Fields) : Entries :=
  fields.map fun f => (.text f.1, f.2)

end Entries

/-- The value of a field. -/
def Fields.named? (fields : Fields) (name : String) : Option Value :=
  (List.find? (fun f => f.1 == name) fields).map Prod.snd

/-- The value of a field, or no value. -/
def Fields.valueOf (fields : Fields) (name : String) : Value :=
  (Fields.named? fields name).getD .null

end SemanticMarkup
