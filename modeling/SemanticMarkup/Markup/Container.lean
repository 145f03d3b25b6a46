import SemanticMarkup.Markup.Escape

/-!
# The container of a microformat

The rendered entries of a microformat stand inside one element. The name of its
tag is escaped; its attributes and its content are markup already.
-/

namespace SemanticMarkup.Markup

/-- An element with attributes and content. -/
def element (tag attributes content : String) : String :=
  let name := String.ofList (escapeWith tagQuotes tag.toList)
  "<" ++ name ++ attributes ++ ">" ++ content ++ "</" ++ name ++ ">"

end SemanticMarkup.Markup
