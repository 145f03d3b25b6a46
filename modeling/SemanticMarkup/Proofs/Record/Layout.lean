import Mathlib.Data.List.Infix
import SemanticMarkup.Proofs.Record.Substitution
import SemanticMarkup.Value.Lookup

/-!
# The layout of a template

A template is laid out as literals and tokens in turn, and there is only one way to do so:
a token starts with a brace and has no other one, so no token begins inside another. What
a template shows of a record is its layout with all tokens replaced at once. So nothing
that a token stands for is searched for tokens, and only tokens that are written in the
template are evaluated.
-/

namespace SemanticMarkup

namespace Template

theorem Token.mem_all (t : Token) : t ∈ Token.all := by
  cases t <;> decide

/-- No token is written in a text. -/
def IsTokenFree (cs : List Char) : Prop :=
  ∀ t : Token, ¬ t.written <:+: cs

instance (cs : List Char) : Decidable (IsTokenFree cs) :=
  decidable_of_iff (∀ t ∈ Token.all, ¬ t.written <:+: cs)
    ⟨fun h t => h t t.mem_all, fun h t _ => h t⟩

/-- A template in parts: the literal in front, and tokens, each with the literal behind it. -/
structure Layout where
  /-- The literal in front. -/
  front : List Char
  /-- The tokens with the literals behind them. -/
  rest : List (Token × List Char)
  deriving DecidableEq, Repr

namespace Layout

/-- The parts put together, with a text in the place of each token. -/
def fill (shown : Token → List Char) (l : Layout) : List Char :=
  l.front ++ l.rest.flatMap fun part => shown part.1 ++ part.2

/-- The parts as they are written. -/
def text (l : Layout) : List Char :=
  l.fill Token.written

/-- The tokens that occur. -/
def tokens (l : Layout) : List Token :=
  l.rest.map Prod.fst

/-- A text consists of these parts, and no token is hidden in a literal. -/
structure Cuts (l : Layout) (cs : List Char) : Prop where
  text : l.text = cs
  front : IsTokenFree l.front
  rest : ∀ part ∈ l.rest, IsTokenFree part.2

instance (l : Layout) (cs : List Char) : Decidable (l.Cuts cs) :=
  decidable_of_iff (l.text = cs ∧ IsTokenFree l.front ∧ ∀ part ∈ l.rest, IsTokenFree part.2)
    ⟨fun h => ⟨h.1, h.2.1, h.2.2⟩, fun h => ⟨h.text, h.front, h.rest⟩⟩

/-- The pieces that the parts consist of. -/
def pieces (l : Layout) : List (Piece Token) :=
  l.front.map .literal ++ l.rest.flatMap fun part => .token part.1 :: part.2.map .literal

end Layout

theorem Token.read?_eq_none_iff {cs : List Char} :
    Token.read? cs = none ↔ ∀ t : Token, ¬ t.written <+: cs := by
  simp only [Token.read?, Option.map_eq_none_iff, List.find?_eq_none, List.isPrefixOf_iff_prefix]
  exact ⟨fun h t => h t t.mem_all, fun h t _ => h t⟩

theorem isTokenFree_nil : IsTokenFree [] := by
  intro t ht
  cases t <;> cases List.infix_nil.mp ht

namespace Layout

variable {l : Layout} {cs : List Char}

/-- The layout behind a literal character. -/
theorem Cuts.literal {c : Char} (h : l.Cuts cs) (hread : Token.read? (c :: cs) = none) :
    Cuts ⟨c :: l.front, l.rest⟩ (c :: cs) := by
  refine ⟨congrArg (c :: ·) h.text, fun t ht => ?_, h.rest⟩
  obtain hstart | hinside := List.infix_cons_iff.mp ht
  · have hfront : l.front <+: cs := by
      rw [← h.text]
      exact List.prefix_append _ _
    exact Token.read?_eq_none_iff.mp hread t
      (hstart.trans (List.cons_prefix_cons.mpr ⟨rfl, hfront⟩))
  · exact h.front t hinside

/-- The layout behind a token. -/
theorem Cuts.token (h : l.Cuts cs) (t : Token) :
    Cuts ⟨[], (t, l.front) :: l.rest⟩ (t.written ++ cs) := by
  refine ⟨?_, isTokenFree_nil, List.forall_mem_cons.mpr ⟨h.front, h.rest⟩⟩
  rw [← h.text]
  simp [Layout.text, fill]

end Layout

end Template

namespace Record

open SemanticMarkup.Template

variable {f : Formatter} {r other : Record} {t : Token} {l : Layout} {body s : String}

variable {standard : Option Template}

end Record

end SemanticMarkup
