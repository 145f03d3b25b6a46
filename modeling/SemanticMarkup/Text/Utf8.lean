/-!
# Text as bytes

The text that a row of bytes encodes, if it is well-formed UTF-8.
-/

namespace SemanticMarkup.Text

/-- The text that a row of bytes encodes. -/
def decodeUtf8? (bs : List Nat) : Option String :=
  String.fromUTF8? ⟨(bs.map UInt8.ofNat).toArray⟩

end SemanticMarkup.Text
