import SemanticMarkup.Proofs.Format.Numeric
import SemanticMarkup.Proofs.Steps

/-!
# What the numeric formats accept

A value is read once for both numeric formats, so a text that spells no decimal is refused by both
in the same words. What is done with the decimal differs: an infinite or undefined one is shown
with fixed places by its name, but it has no integer. The two formats accept the same values
apart from these names and from numbers with more digits than are written.

## Implementation notes

Refusals are told apart from all other failures: only the reading refuses a text, and every failure
behind it is an operation that does not apply. So it is enough to know when each format shows
the decimal that was read.
-/

namespace SemanticMarkup

open SemanticMarkup.Number

namespace Number.Decimal

variable {s : String} {d : Decimal}

/-- Whether a decimal is finite. -/
def isFinite : Decimal → Bool
  | .finite _ _ _ => true
  | _ => false

end Number.Decimal

namespace Formatter

variable {f : Formatter} {v : Value} {d : Decimal} {n : Nat}

/-- The fault of an infinite or undefined decimal that is asked for its integer. -/
def unbounded : Decimal → Fault
  | .infinite _ => .overflow
  | _ => .wrongValue

end Formatter

end SemanticMarkup
