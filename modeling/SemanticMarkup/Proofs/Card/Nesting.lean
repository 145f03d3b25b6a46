import SemanticMarkup.Proofs.Card.Embedding

/-!
# How deep entries nest

`nesting` counts how many embedded microformats are nested in one another, at
most, in a list of entries. Hidden entries do not count, whatever they hold.
`Shows` lists the entries that are shown at any level of a list.

## Implementation notes

The count is defined by structural recursion on values, without reading the
entries. It is the height of the embedded microformats, and so
`entryNesting_eq` and `nesting_eq_of_entryList` say what it means for entries as
they are read; later proofs use only these.
-/

namespace SemanticMarkup

/-- Whether a value used as a template is a pattern that is filled in by a call. -/
def Value.isPattern : Value → Bool
  | .pattern _ => true
  | .template (.pattern _) => true
  | _ => false

namespace Card

open SemanticMarkup.Embedding

mutual

/-- The greatest number of microformats nested in one another in a list of entries. -/
def nesting : Value → Nat
  | .list items => itemsNesting items
  | .tuple items => itemsNesting items
  | .set items => itemsNesting items
  | .dict entries => keysNesting entries
  | _ => 0

/-- The nesting of the items of a sequence. -/
def itemsNesting : List Value → Nat
  | [] => 0
  | raw :: rest => max (entryNesting raw) (itemsNesting rest)

/-- The nesting of the keys of a mapping, which are its items. -/
def keysNesting : List (Value × Value) → Nat
  | [] => 0
  | (raw, _) :: rest => max (entryNesting raw) (keysNesting rest)

/-- The nesting of an entry: one more than that of its list, if it embeds a microformat. -/
def entryNesting : Value → Nat
  | .dict entries => if embeds entries then attributesNesting entries + 1 else 0
  | .record config => if embeds (Entries.ofFields config) then fieldsNesting config + 1 else 0
  | _ => 0

/-- The nesting of the list in a mapping. -/
def attributesNesting : List (Value × Value) → Nat
  | [] => 0
  | (k, v) :: rest => if k = .text "attributes" then nesting v else attributesNesting rest

/-- The nesting of the list in the fields of a record. -/
def fieldsNesting : List (String × Value) → Nat
  | [] => 0
  | (n, v) :: rest => if n = "attributes" then nesting v else fieldsNesting rest

end

mutual

/-- A value nests as deep as the microformats are high that it embeds. -/
theorem nesting_eq_height : ∀ v : Value, nesting v = forestHeight (embeddings v)
  | .list items | .tuple items | .set items => itemsNesting_eq_height items
  | .dict entries => keysNesting_eq_height entries
  | .null | .bool _ | .int _ | .float _ | .decimal _ | .text _ | .garbled _ | .bytes _ | .date _
  | .datetime _ | .object _ | .labelled _ _ | .model _ _ | .pattern _ | .template _
  | .record _ => rfl

theorem itemsNesting_eq_height : ∀ items : List Value,
    itemsNesting items = forestHeight (itemsEmbeddings items)
  | [] => rfl
  | raw :: rest => by
      rw [itemsNesting, itemsEmbeddings, forestHeight_append, entryNesting_eq_height raw,
        itemsNesting_eq_height rest]

theorem keysNesting_eq_height : ∀ entries : List (Value × Value),
    keysNesting entries = forestHeight (keysEmbeddings entries)
  | [] => rfl
  | (raw, _) :: rest => by
      rw [keysNesting, keysEmbeddings, forestHeight_append, entryNesting_eq_height raw,
        keysNesting_eq_height rest]

theorem entryNesting_eq_height : ∀ raw : Value,
    entryNesting raw = forestHeight (entryEmbeddings raw)
  | .dict entries => by
      rw [entryNesting, entryEmbeddings, attributesNesting_eq_height entries]
      split
      · rw [forestHeight_singleton, height_embeddingOf]
      · rfl
  | .record config => by
      rw [entryNesting, entryEmbeddings, fieldsNesting_eq_height config]
      split
      · rw [forestHeight_singleton, height_embeddingOf]
      · rfl
  | .null | .bool _ | .int _ | .float _ | .decimal _ | .text _ | .garbled _ | .bytes _ | .date _
  | .datetime _ | .object _ | .labelled _ _ | .model _ _ | .pattern _ | .template _
  | .list _ | .tuple _ | .set _ => rfl

theorem attributesNesting_eq_height : ∀ entries : List (Value × Value),
    attributesNesting entries = forestHeight (attributesEmbeddings entries)
  | [] => rfl
  | (k, v) :: rest => by
      rw [attributesNesting, attributesEmbeddings, nesting_eq_height v,
        attributesNesting_eq_height rest]
      split <;> rfl

theorem fieldsNesting_eq_height : ∀ fields : List (String × Value),
    fieldsNesting fields = forestHeight (fieldsEmbeddings fields)
  | [] => rfl
  | (n, v) :: rest => by
      rw [fieldsNesting, fieldsEmbeddings, nesting_eq_height v, fieldsNesting_eq_height rest]
      split <;> rfl

end

/-- An entry nests one level deeper than its list if it embeds a microformat. -/
theorem entryNesting_eq {raw : Value} {entries : Entries} (h : Entry.ofValue raw = .ok entries) :
    entryNesting raw =
      if embeds entries then nesting (entries.valueOf "attributes") + 1 else 0 := by
  rw [entryNesting_eq_height, entryEmbeddings_eq h, nesting_eq_height]
  split
  · rw [forestHeight_singleton, height_embeddingOf]
  · rfl

/-- The entry list of a request nests like the value it is given as. -/
theorem nesting_eq_of_entryList {p : Prepared} {items : List Value}
    (h : entryList p = .ok items) : nesting p.attributes = itemsNesting items := by
  rw [nesting_eq_height, embeddings_eq_of_entryList h, itemsNesting_eq_height]

/-- The nesting of an entry that is shown and embeds a microformat. -/
theorem entryNesting_of_embedded {raw : Value} {entries : Entries}
    (he : Entry.ofValue raw = .ok entries) (hh : isHidden entries = false)
    (hn : entries.valueOf "microformat" ≠ .null) :
    entryNesting raw = nesting (entries.valueOf "attributes") + 1 := by
  have hm : (entries.valueOf "microformat").isNull = false := by simpa using hn
  rw [entryNesting_eq he, embeds, hh, hm]
  rfl

/-- An entry is shown at some level of a list of entries. -/
inductive Shows : List Value → Entries → Prop
  /-- At the level of the list. -/
  | here {items raw entries} (hm : raw ∈ items) (he : Entry.ofValue raw = .ok entries)
      (hh : isHidden entries = false) : Shows items entries
  /-- In the list of a microformat that is embedded at some level. -/
  | inside {items outer within entries} (ho : Shows items outer)
      (hn : outer.valueOf "microformat" ≠ .null)
      (hi : (outer.valueOf "attributes").items = .ok within) (h : Shows within entries) :
      Shows items entries

/-- What a list shows is shown with further entries around it. -/
theorem Shows.mono {items more : List Value} {entries : Entries} (h : Shows items entries)
    (hsub : ∀ raw ∈ items, raw ∈ more) : Shows more entries := by
  induction h with
  | here hm he hh => exact .here (hsub _ hm) he hh
  | inside _ hn hi h ih _ => exact .inside (ih hsub) hn hi h

/-- Nothing is shown of an empty list. -/
theorem Shows.ne_nil {items : List Value} {entries : Entries} (h : Shows items entries) :
    items ≠ [] := by
  induction h with
  | here hm he hh => exact List.ne_nil_of_mem hm
  | inside ho hn hi h ih _ => exact ih

/-- All templates of the entries that are shown are texts, at all levels. -/
def TextTemplates (items : List Value) : Prop :=
  ∀ entries, Shows items entries → (entries.valueOf "template").isPattern = false

variable {raw : Value} {rest : List Value} {entries : Entries}

/-- Templates that are texts in a list are texts in its tail. -/
theorem TextTemplates.tail (h : TextTemplates (raw :: rest)) : TextTemplates rest :=
  fun entries hs => h entries (hs.mono fun _ hr => List.mem_cons_of_mem _ hr)

/-- The first entry of a list, if it is shown, has a text as its template. -/
theorem TextTemplates.head (h : TextTemplates (raw :: rest))
    (he : Entry.ofValue raw = .ok entries) (hh : isHidden entries = false) :
    (entries.valueOf "template").isPattern = false :=
  h entries (.here List.mem_cons_self he hh)

/-- All that is shown of a whole model are entries with nothing but an attribute. -/
theorem Shows.of_wholeModel {names : List Value} {entries : Entries}
    (h : Shows (names.map fun name => .dict [(.text "attribute", name)]) entries) :
    ∃ name, entries = [(.text "attribute", name)] := by
  generalize hitems : names.map (fun name => Value.dict [(.text "attribute", name)]) = items
    at h
  induction h with
  | here hm he hh =>
      subst hitems
      obtain ⟨name, -, rfl⟩ := List.mem_map.mp hm
      cases he
      exact ⟨name, rfl⟩
  | inside ho hn hi h ih _ =>
      obtain ⟨name, rfl⟩ := ih hitems
      exact absurd rfl hn

/-- The entries that show a whole model have no templates. -/
theorem textTemplates_wholeModel {model : Value} {items : List Value}
    (h : wholeModel model = .ok items) : TextTemplates items := by
  simp only [wholeModel, Outcome.bind_eq_ok_iff, Outcome.pure_eq_ok, Except.ok.injEq] at h
  obtain ⟨names, -, rfl⟩ := h
  intro entries hs
  obtain ⟨name, rfl⟩ := hs.of_wholeModel
  rfl

/-- Templates that are texts in a list are texts in the lists it embeds. -/
theorem TextTemplates.inner {inner : Prepared} {within : List Value}
    (h : TextTemplates (raw :: rest)) (he : Entry.ofValue raw = .ok entries)
    (hh : isHidden entries = false) (hn : entries.valueOf "microformat" ≠ .null)
    (hattributes : inner.attributes = entries.valueOf "attributes")
    (hwithin : entryList inner = .ok within) : TextTemplates within := by
  rw [entryList, hattributes] at hwithin
  split at hwithin
  · exact textTemplates_wholeModel hwithin
  · exact fun nested hs => h nested (.inside (.here List.mem_cons_self he hh) hn hwithin hs)

end Card

end SemanticMarkup
