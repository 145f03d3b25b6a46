import SemanticMarkup.Text.Word

/-!
# Templates

A template says how an entry becomes markup. A text template holds tokens such
as `{value}` that are replaced by what they stand for; a pattern template is
filled in from the fields of the record it is applied to (`%{name}`).

Both are split into literals and tokens once, from left to right, so whatever a
token is replaced by is never searched for tokens again.
-/

namespace SemanticMarkup

open SemanticMarkup.Text

/-- A template for one entry. -/
inductive Template where
  /-- A text with the tokens `{label}`, `{options}`, `{rawValue}` and `{value}`. -/
  | text (body : String)
  /-- A text with a place `%{name}` for every field it shows. -/
  | pattern (body : String)
  deriving DecidableEq, Repr

namespace Template

/-- What a text template can show of an entry. -/
inductive Token where
  /-- The label. -/
  | label
  /-- The tag attributes. -/
  | options
  /-- The value as it is. -/
  | rawValue
  /-- The value as its format shows it. -/
  | value
  deriving DecidableEq, Repr

/-- All tokens. -/
def Token.all : List Token := [.label, .options, .rawValue, .value]

/-- The name of a token. -/
def Token.name : Token → String
  | .label => "label"
  | .options => "options"
  | .rawValue => "rawValue"
  | .value => "value"

/-- The written form of a token: its name in braces. -/
def Token.written (t : Token) : List Char :=
  '\x7b' :: t.name.toList ++ ['\x7d']

/-- A piece of a template: one literal character or a token. -/
inductive Piece (α : Type) where
  /-- A character that stands for itself. -/
  | literal (c : Char)
  /-- Something that is replaced. -/
  | token (t : α)
  deriving DecidableEq, Repr

/-- The token a text starts with, and the text behind it. -/
def Token.read? (cs : List Char) : Option (Token × List Char) :=
  (Token.all.find? fun t => t.written.isPrefixOf cs).map fun t => (t, cs.drop t.written.length)

/-- What stands behind a token is shorter than the text. -/
theorem Token.length_read?_lt {cs rest : List Char} {t : Token}
    (h : Token.read? cs = some (t, rest)) : rest.length < cs.length := by
  simp only [Token.read?, Option.map_eq_some_iff, Prod.mk.injEq] at h
  obtain ⟨t', ht, rfl, rfl⟩ := h
  have hp : t'.written.isPrefixOf cs = true := by
    simpa using (List.find?_eq_some_iff_append.1 ht).1
  have hle : t'.written.length ≤ cs.length := (List.isPrefixOf_iff_prefix.1 hp).length_le
  have hpos : 0 < t'.written.length := by simp [Token.written]
  simp only [List.length_drop]
  omega

/-- The pieces of a text template. -/
def pieces (cs : List Char) : List (Piece Token) :=
  match cs with
  | [] => []
  | c :: rest =>
      match _h : Token.read? (c :: rest) with
      | some (t, after) => .token t :: pieces after
      | none => .literal c :: pieces rest
termination_by cs.length
decreasing_by
  · exact Token.length_read?_lt _h
  · simp

/-- The field name between `%{` and `}` a text starts with, and the text behind it. -/
def readPlace? : List Char → Option (List Char × List Char)
  | '%' :: '\x7b' :: rest =>
      let name := rest.takeWhile isWordChar
      match rest.dropWhile isWordChar with
      | '\x7d' :: after => if name.isEmpty then none else some (name, after)
      | _ => none
  | _ => none

/-- What stands behind a place is shorter than the text. -/
theorem length_readPlace?_lt {cs name rest : List Char}
    (h : readPlace? cs = some (name, rest)) : rest.length < cs.length := by
  unfold readPlace? at h
  split at h
  · rename_i tail
    have hd : (tail.dropWhile isWordChar).length ≤ tail.length :=
      (List.dropWhile_sublist _).length_le
    dsimp only at h
    split at h
    · rename_i after heq
      split at h
      · exact absurd h (by simp)
      · simp only [Option.some.injEq, Prod.mk.injEq] at h
        obtain ⟨-, rfl⟩ := h
        simp only [heq, List.length_cons] at hd
        simp only [List.length_cons]
        omega
    · exact absurd h (by simp)
  · exact absurd h (by simp)

/-- The pieces of a pattern template; a place is given by the name of its field. -/
def places (cs : List Char) : List (Piece String) :=
  match cs with
  | [] => []
  | c :: rest =>
      match _h : readPlace? (c :: rest) with
      | some (name, after) => .token (String.ofList name) :: places after
      | none => .literal c :: places rest
termination_by cs.length
decreasing_by
  · exact length_readPlace?_lt _h
  · simp

end Template

end SemanticMarkup
