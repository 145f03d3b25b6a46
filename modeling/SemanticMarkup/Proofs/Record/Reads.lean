import SemanticMarkup.Proofs.Card.Built

/-!
# Reading records, field by field

`Record.ofEntries` reads all fields and reports all problems together. `Reads`
says the same field by field, and `ofEntries_eq_ok_iff` that it is the same:
entries are read as a record exactly if each of its fields is read from them.
The fields of a filled-in plain entry follow in `reads_filledEntries_iff`.
-/

namespace SemanticMarkup

namespace Reading

/-- All readings succeed, and there are no problems, or some fail. -/
theorem all_eq_ok_iff {α : Type} {readings : List (Reading α)} {as : List α} :
    all readings = .ok as ↔ readings = as.map .ok := by
  rw [all]
  constructor
  · intro h
    split at h
    · exact Outcome.mapM_id_eq_ok_iff.mp h
    · cases h
  · rintro rfl
    have hnone : (as.map (Except.ok : α → Reading α)).flatMap issues = [] := by
      simp [issues]
    rw [hnone]
    exact Outcome.mapM_id_eq_ok_iff.mpr rfl

/-- A reading is turned into an outcome without change. -/
theorem outcome_eq_ok_iff {α : Type} {reading : Reading α} {a : α} :
    reading.outcome = .ok a ↔ reading = .ok a := by
  cases reading <;> simp [outcome]

end Reading

namespace Record

/-- Some entries are read as a record, field by field. -/
structure Reads (entries : Entries) (r : Record) : Prop where
  /-- The template is the one given. -/
  template : Template.ofValue ((given? entries "template").getD .null) = .ok r.template
  /-- The property is read from its entry. -/
  property : readField entries "property" none readText? = .ok r.property
  /-- The path is read from its entry. -/
  path : readField entries "attribute" none readText? = .ok r.path
  /-- The label is read from its entry. -/
  label : readField entries "label" none readText? = .ok r.label
  /-- The format is read from its entry. -/
  format : readField entries "format" (.named "text") readFormat = .ok r.format
  /-- The options are read from their entry. -/
  options : readField entries "options" [] readOptions = .ok r.options
  /-- Visibility is read from its entry. -/
  visible : readField entries "visible" true Reading.bool = .ok r.visible
  /-- The embedded root type is read from its entry. -/
  embedded : readField entries "embedded" none readText? = .ok r.embedded
  /-- The other entries are extra fields. -/
  extras : readExtras entries = .ok r.extras
  /-- The value is the one given. -/
  value : r.value = (given? entries "value").getD .null
  /-- The fields that were given are known. -/
  given : r.given = fieldNames.filter fun name => (given? entries name).isSome

/-- Reading a record succeeds exactly if every field is read. -/
theorem ofEntries_eq_ok_iff {entries : Entries} {r : Record} :
    ofEntries entries = .ok r ↔ Reads entries r := by
  simp only [ofEntries, Outcome.bind_eq_ok_iff]
  constructor
  · rintro ⟨template, ht, h⟩
    split at h
    · cases h
    · simp only [Reading.outcome_eq_ok_iff, Outcome.bind_eq_ok_iff] at h
      obtain ⟨property, hp, path, ha, label, hl, format, hf, options, ho, visible, hv, embedded,
        he, extras, hx, h⟩ := h
      cases h
      exact ⟨ht, hp, ha, hl, hf, ho, hv, he, hx, rfl, rfl⟩
  · intro h
    refine ⟨r.template, h.template, ?_⟩
    rw [h.property, h.path, h.label, h.format, h.options, h.visible, h.embedded, h.extras,
      ← h.value, ← h.given]
    rfl

/-- The extra fields are the entries that are no fields. -/
theorem readExtras_eq_ok_iff {entries : Entries} {extras : Fields} :
    readExtras entries = .ok extras ↔
      (List.filter (fun e : Value × Value => !(e.1.sameKey (.text (propertyKey entries)) ||
        (fieldNames.drop 1).any fun name => e.1.sameKey (.text name))) entries) =
        Entries.ofFields extras := by
  rw [readExtras, Reading.all_eq_ok_iff]
  generalize List.filter _ entries = others
  induction others generalizing extras with
  | nil => cases extras <;> simp [Entries.ofFields]
  | cons e rest ih =>
      obtain ⟨k, v⟩ := e
      cases extras with
      | nil => simp [Entries.ofFields]
      | cons f extras =>
          obtain ⟨n, w⟩ := f
          have hof : Entries.ofFields ((n, w) :: extras) =
              (.text n, w) :: Entries.ofFields extras := rfl
          rw [List.map_cons, List.map_cons, List.cons.injEq, ih, hof, List.cons.injEq]
          refine and_congr_left fun _ => ?_
          cases k <;> simp [Reading.refuse]

end Record

namespace Card

open Record

/-- A key is known if it is the name of a field or one that serves to embed microformats. -/
theorem isKnown_iff (key : Value) :
    isKnown key = true ↔ ∃ name ∈ fieldNames ++ embeddingNames, key = .text name := by
  simp only [isKnown, List.any_eq_true, Value.sameKey_text_iff]

/-- No field is found among the extra ones. -/
theorem named?_foreign (entries : Entries) {name : String}
    (hname : name ∈ fieldNames ++ embeddingNames) :
    Entries.named? (foreign entries) name = none := by
  rw [Entries.named?_eq_none_iff]
  intro e he hk
  have hu := (List.mem_filter.mp he).2
  rw [Bool.not_eq_true', ← Bool.not_eq_true, isKnown_iff] at hu
  exact hu ⟨name, hname, hk⟩

section Filled

variable (settings : Settings) (entries : Entries) (name : Option String) (label value : Value)
  (options : Entries)

/-- A field of filled-in entries is found among the fields. -/
theorem named?_filledEntries {field : String} (hfield : field ∈ fieldNames) :
    Entries.named? (filledEntries settings entries name label value options) field =
      Fields.named? (filledFields settings entries name label value options) field := by
  rw [filledEntries, Entries.named?_append,
    named?_foreign entries (List.mem_append_left _ hfield), Option.none_or, Entries.named?_ofFields]

/-- Filled-in entries have their property under its first name. -/
theorem propertyKey_filledEntries :
    propertyKey (filledEntries settings entries name label value options) = "property" := by
  rw [propertyKey, Entries.hasName, named?_filledEntries _ _ _ _ _ _ (by decide)]
  rfl

/-- Every field is given in filled-in entries. -/
theorem given?_filledEntries {field : String} (hfield : field ∈ fieldNames) :
    given? (filledEntries settings entries name label value options) field =
      Fields.named? (filledFields settings entries name label value options) field := by
  rw [given?, propertyKey_filledEntries, ite_eq_right_iff.mpr (fun h => by rw [h]),
    named?_filledEntries _ _ _ _ _ _ hfield]

/-- A field of filled-in entries is read from what was filled in. -/
theorem readField_filledEntries {α : Type} {field : String} {v : Value}
    (hfield : field ∈ fieldNames)
    (hv : Fields.named? (filledFields settings entries name label value options) field = some v)
    (absent : α) (read : List String → Value → Reading α) :
    readField (filledEntries settings entries name label value options) field absent read =
      read [field] v := by
  rw [readField, given?_filledEntries _ _ _ _ _ _ hfield, hv]

/-- All fields are given in filled-in entries. -/
theorem filter_given?_filledEntries :
    (fieldNames.filter fun field =>
      (given? (filledEntries settings entries name label value options) field).isSome) =
      fieldNames := by
  have hall : (fieldNames.all fun field =>
      (Fields.named? (filledFields settings entries name label value options) field).isSome) =
      true := rfl
  rw [List.filter_eq_self]
  intro field hf
  rw [given?_filledEntries _ _ _ _ _ _ hf]
  exact List.all_eq_true.mp hall field hf

end Filled

variable {settings : Settings} {entries : Entries} {name : Option String} {label value : Value}
  {options : Entries} {r : Record}

/-- A record that some parts of a plain entry are filled in to, field by field. -/
structure Filled (settings : Settings) (entries : Entries) (name : Option String)
    (label value : Value) (options : Entries) (r : Record) : Prop where
  /-- The property is the one given. -/
  property : readText? ["property"] (entries.valueOf "property") = .ok r.property
  /-- The path is the one found. -/
  path : r.path = name
  /-- The label is the one found. -/
  label : readText? ["label"] label = .ok r.label
  /-- The value is the one found. -/
  value : r.value = value
  /-- The format is the one given, or the usual one. -/
  format : readFormat ["format"] (formatOf settings entries) = .ok r.format
  /-- The options are those with the property among the classes. -/
  options : Record.readOptions ["options"] (.dict options) = .ok r.options
  /-- The template is the one given. -/
  template : Template.ofValue (entries.valueOf "template") = .ok r.template
  /-- The record is shown. -/
  visible : r.visible = true
  /-- The embedded root type is the one given. -/
  embedded : readText? ["embedded"] (entries.valueOf "embedded") = .ok r.embedded
  /-- The extra fields are the entries without a meaning of their own. -/
  extras : Entries.ofFields r.extras = foreign entries
  /-- All fields are set. -/
  given : r.given = fieldNames

/-- A text that may be missing is read as it is. -/
theorem readText?_textValue (path : List String) (s : Option String) :
    readText? path (textValue s) = .ok s := by
  cases s <;> rfl

/-- The extra fields of a filled-in entry are those that the entry had. -/
theorem readExtras_filledEntries {extras : Fields} :
    readExtras (filledEntries settings entries name label value options) = .ok extras ↔
      Entries.ofFields extras = foreign entries := by
  have hforeign : List.filter (fun e : Value × Value => !(e.1.sameKey (.text "property") ||
      (fieldNames.drop 1).any fun name => e.1.sameKey (.text name))) (foreign entries) =
      foreign entries := by
    rw [List.filter_eq_self]
    intro e he
    have hu := (List.mem_filter.mp he).2
    rw [Bool.not_eq_true', ← Bool.not_eq_true, isKnown_iff] at hu
    rw [Bool.not_eq_true', ← Bool.not_eq_true, Bool.or_eq_true, List.any_eq_true]
    rintro (hp | ⟨n, hn, hk⟩)
    · exact hu ⟨"property", by decide, (Value.sameKey_text_iff _ _).mp hp⟩
    · exact hu ⟨n, List.mem_append_left _ (List.mem_of_mem_drop hn),
        (Value.sameKey_text_iff _ _).mp hk⟩
  have hfields : List.filter (fun e : Value × Value => !(e.1.sameKey (.text "property") ||
      (fieldNames.drop 1).any fun name => e.1.sameKey (.text name)))
      (Entries.ofFields (filledFields settings entries name label value options)) = [] := by
    rfl
  rw [readExtras_eq_ok_iff, propertyKey_filledEntries, filledEntries, List.filter_append, hforeign,
    hfields, List.append_nil]
  exact eq_comm

/-- A filled-in plain entry is read as a record field by field. -/
theorem reads_filledEntries_iff :
    Reads (filledEntries settings entries name label value options) r ↔
      Filled settings entries name label value options r := by
  have hread {α : Type} {field : String} {v : Value} (hf : field ∈ fieldNames)
      (hv : Fields.named? (filledFields settings entries name label value options) field = some v)
      (absent : α) (read : List String → Value → Reading α) :=
    readField_filledEntries settings entries name label value options hf hv absent read
  have hvalue : given? (filledEntries settings entries name label value options) "value" =
      some value := given?_filledEntries _ _ _ _ _ _ (by decide)
  have htemplate : given? (filledEntries settings entries name label value options) "template" =
      some (entries.valueOf "template") := given?_filledEntries _ _ _ _ _ _ (by decide)
  constructor
  · intro h
    have hpath := h.path
    have hvisible := h.visible
    rw [hread (by decide) rfl, readText?_textValue, Except.ok.injEq] at hpath
    rw [hread (by decide) rfl, Reading.bool, Except.ok.injEq] at hvisible
    exact {
      property := (hread (by decide) rfl none readText?).symm.trans h.property
      path := hpath.symm
      label := (hread (by decide) rfl none readText?).symm.trans h.label
      value := h.value.trans (by rw [hvalue, Option.getD_some])
      format := (hread (by decide) rfl (.named "text") readFormat).symm.trans h.format
      options := (hread (by decide) rfl [] Record.readOptions).symm.trans h.options
      template := by
        have ht := h.template
        rwa [htemplate, Option.getD_some] at ht
      visible := hvisible.symm
      embedded := (hread (by decide) rfl none readText?).symm.trans h.embedded
      extras := readExtras_filledEntries.mp h.extras
      given := h.given.trans (filter_given?_filledEntries _ _ _ _ _ _) }
  · intro h
    exact {
      property := (hread (by decide) rfl none readText?).trans h.property
      path := by rw [hread (by decide) rfl, readText?_textValue, h.path]
      label := (hread (by decide) rfl none readText?).trans h.label
      value := by rw [hvalue, Option.getD_some, h.value]
      format := (hread (by decide) rfl (.named "text") readFormat).trans h.format
      options := (hread (by decide) rfl [] Record.readOptions).trans h.options
      template := by rw [htemplate, Option.getD_some, h.template]
      visible := by rw [hread (by decide) rfl, Reading.bool, h.visible]
      embedded := (hread (by decide) rfl none readText?).trans h.embedded
      extras := readExtras_filledEntries.mpr h.extras
      given := h.given.trans (filter_given?_filledEntries _ _ _ _ _ _).symm }

/-- A plain entry is filled in exactly if it passes its checks and all parts of its record are
found and read. The place of the entry does not matter. -/
theorem fillPlain_eq_ok_iff_filled {model : Value} {place : String} (other : String) :
    fillPlain settings model entries place = .ok r ↔
      entries.valueOf "class" = .null ∧ Rules.faults entries = [] ∧
        ∃ name label value options, attributeName entries = .ok name ∧
          labelAndValue model entries name other = .ok (label, value) ∧
          entryOptions entries = .ok options ∧
          Filled settings entries name label value options r := by
  rw [fillPlain_eq_ok_iff other]
  simp only [ofEntries_eq_ok_iff, reads_filledEntries_iff]

end Card

end SemanticMarkup
