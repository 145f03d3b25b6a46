import SemanticMarkup.Proofs.Card.Built

/-!
# The microformats that are embedded

`embeddings` gives the microformats that a list of entries embeds, each with those
inside it, in the order of the lists. Hidden entries are left out, whatever they
hold.

## Implementation notes

The forest is defined by structural recursion on values, without reading the
entries. `entryEmbeddings_eq` and `embeddings_eq_of_entryList` say what it
means for entries as they are read; later proofs use only these.
-/

namespace SemanticMarkup

/-- An embedded microformat. -/
inductive Embedding where
  /-- Its root type, the name of its engine if it has one, and the microformats inside. -/
  | node (root : String) (engine : Option String) (within : List Embedding)

namespace Embedding

mutual

/-- How many microformats are nested in one another, from an embedded one on. -/
def height : Embedding → Nat
  | .node _ _ within => forestHeight within + 1

/-- The height of the highest of some embedded microformats. -/
def forestHeight : List Embedding → Nat
  | [] => 0
  | e :: rest => max e.height (forestHeight rest)

end

theorem forestHeight_append (front back : List Embedding) :
    forestHeight (front ++ back) = max (forestHeight front) (forestHeight back) := by
  induction front with
  | nil => exact (Nat.zero_max _).symm
  | cons e rest ih => rw [List.cons_append, forestHeight, forestHeight, ih, Nat.max_assoc]

theorem forestHeight_singleton (e : Embedding) : forestHeight [e] = e.height :=
  Nat.max_zero _

end Embedding

namespace Card

open SemanticMarkup.Embedding

/-- Whether an entry is shown and embeds a microformat. -/
def embeds (entries : Entries) : Bool :=
  !isHidden entries && !(entries.valueOf "microformat").isNull

/-- The name of the engine that an entry asks for. -/
def engineName? (entries : Entries) : Option String :=
  match entries.valueOf "class" with
  | .text name => some name
  | _ => none

/-- The microformat that an entry embeds, with those inside it. -/
def embeddingOf (entries : Entries) (within : List Embedding) : Embedding :=
  .node (textOf (entries.valueOf "microformat")) (engineName? entries) within

theorem height_embeddingOf (entries : Entries) (within : List Embedding) :
    (embeddingOf entries within).height = forestHeight within + 1 := rfl

mutual

/-- The microformats that a list of entries embeds. -/
def embeddings : Value → List Embedding
  | .list items => itemsEmbeddings items
  | .tuple items => itemsEmbeddings items
  | .set items => itemsEmbeddings items
  | .dict entries => keysEmbeddings entries
  | _ => []

/-- The microformats that the items of a sequence embed. -/
def itemsEmbeddings : List Value → List Embedding
  | [] => []
  | raw :: rest => entryEmbeddings raw ++ itemsEmbeddings rest

/-- The microformats that the keys of a mapping embed, which are its items. -/
def keysEmbeddings : List (Value × Value) → List Embedding
  | [] => []
  | (raw, _) :: rest => entryEmbeddings raw ++ keysEmbeddings rest

/-- The microformat that an entry embeds, if it does. -/
def entryEmbeddings : Value → List Embedding
  | .dict entries =>
      if embeds entries then [embeddingOf entries (attributesEmbeddings entries)] else []
  | .record config =>
      if embeds (Entries.ofFields config) then
        [embeddingOf (Entries.ofFields config) (fieldsEmbeddings config)]
      else []
  | _ => []

/-- The microformats that the list in a mapping embeds. -/
def attributesEmbeddings : List (Value × Value) → List Embedding
  | [] => []
  | (k, v) :: rest => if k = .text "attributes" then embeddings v else attributesEmbeddings rest

/-- The microformats that the list in the fields of a record embeds. -/
def fieldsEmbeddings : List (String × Value) → List Embedding
  | [] => []
  | (n, v) :: rest => if n = "attributes" then embeddings v else fieldsEmbeddings rest

end

/-- The list in a mapping is the one that a look-up finds. -/
theorem attributesEmbeddings_eq (entries : Entries) :
    attributesEmbeddings entries = embeddings (entries.valueOf "attributes") := by
  induction entries with
  | nil => rfl
  | cons e rest ih =>
      obtain ⟨k, v⟩ := e
      rw [attributesEmbeddings, Entries.valueOf, Entries.named?_cons]
      by_cases hk : k = .text "attributes"
      · rw [if_pos hk, if_pos hk, Option.getD_some]
      · rw [if_neg hk, if_neg hk, ih, Entries.valueOf]

/-- The fields of a record embed what the mapping that they make embeds. -/
theorem fieldsEmbeddings_eq (fields : Fields) :
    fieldsEmbeddings fields = attributesEmbeddings (Entries.ofFields fields) := by
  induction fields with
  | nil => rfl
  | cons f rest ih =>
      obtain ⟨n, v⟩ := f
      have hof : Entries.ofFields ((n, v) :: rest) = (.text n, v) :: Entries.ofFields rest := rfl
      rw [fieldsEmbeddings, hof, attributesEmbeddings, ih]
      by_cases hn : n = "attributes" <;> simp [hn]

/-- A text that is read as an entry embeds nothing. -/
theorem embeds_of_ofText {s : String} {entries : Entries} (h : Entry.ofText s = .ok entries) :
    embeds entries = false := by
  rw [Entry.ofText] at h
  split at h
  · rename_i short _
    rw [Except.ok.injEq] at h
    subst h
    have hm : Entries.valueOf (Entry.ofShorthand short) "microformat" = .null := rfl
    rw [embeds, hm, Value.isNull, Bool.not_true, Bool.and_false]
  · cases h

/-- An entry that is shown and has a root type embeds one microformat, no other entry does. -/
theorem entryEmbeddings_eq {raw : Value} {entries : Entries} (h : Entry.ofValue raw = .ok entries) :
    entryEmbeddings raw =
      if embeds entries then [embeddingOf entries (embeddings (entries.valueOf "attributes"))]
      else [] := by
  cases raw with
  | dict es =>
      cases h
      rw [entryEmbeddings, attributesEmbeddings_eq]
  | record config =>
      cases h
      rw [entryEmbeddings, fieldsEmbeddings_eq, attributesEmbeddings_eq]
  | text s =>
      rw [embeds_of_ofText h]
      rfl
  | garbled codes =>
      rw [embeds_of_ofText h]
      rfl
  | _ => cases h

/-- Items that embed nothing, one by one, embed nothing together. -/
theorem itemsEmbeddings_eq_nil {items : List Value} (h : ∀ raw ∈ items, entryEmbeddings raw = []) :
    itemsEmbeddings items = [] := by
  induction items with
  | nil => rfl
  | cons raw rest ih =>
      rw [itemsEmbeddings, h raw List.mem_cons_self,
        ih fun r hr => h r (List.mem_cons_of_mem _ hr), List.append_nil]

/-- The keys of a mapping embed what a sequence of them embeds. -/
theorem keysEmbeddings_eq (entries : Entries) :
    keysEmbeddings entries = itemsEmbeddings (entries.map Prod.fst) := by
  induction entries with
  | nil => rfl
  | cons e rest ih => rw [keysEmbeddings, ih, List.map_cons, itemsEmbeddings]

/-- A value embeds what its items embed. -/
theorem embeddings_eq_of_items {v : Value} {items : List Value} (h : v.items = .ok items) :
    embeddings v = itemsEmbeddings items := by
  rw [Value.items] at h
  cases v with
  | list vs | tuple vs | set vs =>
      cases h
      rfl
  | dict entries =>
      cases h
      rw [embeddings, keysEmbeddings_eq]
  | text s | garbled codes | bytes bs | model fields titles | record config =>
      cases h
      refine (itemsEmbeddings_eq_nil ?_).symm
      intro raw hraw
      obtain ⟨a, -, rfl⟩ := List.mem_map.mp hraw
      rfl
  | template t => cases t <;> cases h <;> rfl
  | _ => cases h

/-- The entries that show a whole model embed nothing. -/
theorem itemsEmbeddings_wholeModel {model : Value} {items : List Value}
    (h : wholeModel model = .ok items) : itemsEmbeddings items = [] := by
  simp only [wholeModel, Outcome.bind_eq_ok_iff, Outcome.pure_eq_ok, Except.ok.injEq] at h
  obtain ⟨names, -, rfl⟩ := h
  refine itemsEmbeddings_eq_nil ?_
  intro raw hraw
  obtain ⟨name, -, rfl⟩ := List.mem_map.mp hraw
  rfl

/-- The entry list of a request embeds what the value that it is given as embeds. -/
theorem embeddings_eq_of_entryList {p : Prepared} {items : List Value}
    (h : entryList p = .ok items) : embeddings p.attributes = itemsEmbeddings items := by
  rw [entryList] at h
  split at h
  · rename_i hn
    rw [itemsEmbeddings_wholeModel h, (Value.isNull_iff _).mp hn]
    rfl
  · exact embeddings_eq_of_items h

end Card

end SemanticMarkup
