import SemanticMarkup.Text.Quoted

/-!
# Escaping markup

Five characters have a meaning in markup and are written as entities where they
should stand for themselves: the ampersand, the two angle brackets and the two
quotes. Values use names for both quotes; the name of the container tag uses
their numbers.
-/

namespace SemanticMarkup.Markup

open SemanticMarkup.Text

/-- The entities of the two quotes. -/
structure QuoteEntities where
  /-- The double quote. -/
  double : String
  /-- The single quote. -/
  single : String

/-- The quotes inside values. -/
def valueQuotes : QuoteEntities := { double := "&quot;", single := "&#x27;" }

/-- The quotes inside the name of a tag. -/
def tagQuotes : QuoteEntities := { double := "&#34;", single := "&#39;" }

/-- A text with the five characters replaced one after the other, the ampersand first. -/
def escapeWith (quotes : QuoteEntities) (cs : List Char) : List Char :=
  let cs := replaceChar '&' "&amp;".toList cs
  let cs := replaceChar '<' "&lt;".toList cs
  let cs := replaceChar '>' "&gt;".toList cs
  let cs := replaceChar doubleQuote quotes.double.toList cs
  replaceChar singleQuote quotes.single.toList cs

/-- A text that stands for itself in markup. -/
def escape (s : String) : String :=
  String.ofList (escapeWith valueQuotes s.toList)

end SemanticMarkup.Markup
