import SemanticMarkup.Proofs.Record.Options

/-!
# Reading a configuration

The configuration of a record holds the fields that were set and the extra fields. Reading it gives
the record back, as a whole: every field, the extra fields and which fields were set.

## Implementation notes

The property may be set under either of two names. If both are given, the second one is an extra
field, and it stays one because the configuration has the property under its first name.
-/

namespace SemanticMarkup

theorem Fields.named?_map (names : List String) (value : String → Value) (name : String) :
    Fields.named? (names.map fun n => (n, value n)) name =
      if name ∈ names then some (value name) else none := by
  induction names with
  | nil => rfl
  | cons first names ih =>
      rw [Fields.named?] at ih ⊢
      by_cases hfirst : first = name
      · simp [hfirst]
      · have hne : ¬ name = first := Ne.symm hfirst
        simp only [List.map_cons, List.find?_cons, beq_eq_false_iff_ne.mpr hfirst, ih,
          List.mem_cons, hne, false_or]

theorem Fields.named?_eq_none {fields : Fields} {name : String} (h : ∀ f ∈ fields, f.1 ≠ name) :
    Fields.named? fields name = none := by
  rw [Fields.named?, Option.map_eq_none_iff, List.find?_eq_none]
  exact fun f hf heq => h f hf (beq_iff_eq.mp heq)

/-- The template of a record is read as it is. -/
theorem Template.ofValue_template (template : Option Template) :
    Template.ofValue ((template.map Value.template).getD .null) = .ok template := by
  cases template <;> rfl

namespace Record

variable {entries : Entries} {r : Record} {name : String}

/-! ## What a configuration gives -/

/-- An extra field is an entry under another name than those of the fields. -/
theorem Reads.mem_extras (h : Reads entries r) {f : String × Value} (hf : f ∈ r.extras) :
    (.text f.1, f.2) ∈ entries ∧ f.1 ≠ propertyKey entries ∧ f.1 ∉ fieldNames.drop 1 := by
  have hmem : (Value.text f.1, f.2) ∈ Entries.ofFields r.extras := List.mem_map_of_mem hf
  rw [← readExtras_eq_ok_iff.mp h.extras, List.mem_filter, Bool.not_eq_true', Bool.or_eq_false_iff,
    ← Bool.not_eq_true, ← Bool.not_eq_true, List.any_eq_true] at hmem
  obtain ⟨hentry, hproperty, hothers⟩ := hmem
  refine ⟨hentry, fun hkey => hproperty ?_, fun hother => hothers ⟨f.1, hother, ?_⟩⟩
  · rw [hkey, Value.sameKey_text_iff]
  · rw [Value.sameKey_text_iff]

theorem Reads.not_mem_fieldNames (h : Reads entries r) {f : String × Value} (hf : f ∈ r.extras) :
    f.1 ∉ fieldNames := by
  obtain ⟨hentry, hkey, hothers⟩ := h.mem_extras hf
  intro hname
  obtain hproperty | hother := List.mem_cons.mp hname
  · have hgiven : entries.hasName "property" = true :=
      Entries.hasName_iff.mpr ⟨_, hentry, congrArg Value.text hproperty⟩
    rw [propertyKey, hgiven] at hkey
    exact hkey hproperty
  · exact hothers hother

theorem Reads.named?_extras (h : Reads entries r) (hname : name ∈ fieldNames) :
    Fields.named? r.extras name = none :=
  Fields.named?_eq_none fun _ hf heq => h.not_mem_fieldNames hf (heq ▸ hname)

theorem Reads.mem_given_iff (h : Reads entries r) (hname : name ∈ fieldNames) :
    name ∈ r.given ↔ (given? entries name).isSome = true := by
  rw [h.given, List.mem_filter, and_iff_right hname]

/-- A field stands in the configuration if it was set. -/
theorem named?_config (r : Record) (name : String) :
    Entries.named? (Entries.ofFields r.config) name =
      (if name ∈ fieldNames ∧ name ∈ r.given then some (r.field name) else none).or
        (Fields.named? r.extras name) := by
  have hparts (front back : Fields) : Entries.named? (Entries.ofFields (front ++ back)) name =
      (Fields.named? front name).or (Fields.named? back name) := by
    rw [← Entries.named?_ofFields, ← Entries.named?_ofFields, ← Entries.named?_append]
    exact congrArg (Entries.named? · name) List.map_append
  rw [config, hparts, Fields.named?_map]
  simp only [List.mem_filter, List.contains_iff_mem]

theorem Reads.named?_config_of_mem (h : Reads entries r) (hname : name ∈ fieldNames) :
    Entries.named? (Entries.ofFields r.config) name =
      if name ∈ r.given then some (r.field name) else none := by
  rw [named?_config, h.named?_extras hname, Option.or_none]
  simp only [hname, true_and]

/-- A configuration has the property under its first name. -/
theorem Reads.propertyKey_config (h : Reads entries r) :
    propertyKey (Entries.ofFields r.config) =
      if "property" ∈ r.given then "property" else propertyName := by
  rw [propertyKey, Entries.hasName, h.named?_config_of_mem (by decide)]
  split <;> rfl

/-- Without the property neither of its names stands in the entries. -/
theorem Reads.propertyKey_of_not_mem (h : Reads entries r) (hnot : "property" ∉ r.given) :
    propertyKey entries = propertyName := by
  have hnone : ¬ (given? entries "property").isSome = true :=
    mt (h.mem_given_iff (by decide)).mpr hnot
  rw [propertyKey, if_neg]
  intro hname
  rw [given?, if_pos rfl, propertyKey, if_pos hname] at hnone
  exact hnone hname

/-- The configuration gives the fields that were set. -/
theorem Reads.given?_config (h : Reads entries r) (hname : name ∈ fieldNames) :
    given? (Entries.ofFields r.config) name =
      if name ∈ r.given then some (r.field name) else none := by
  rw [given?]
  split
  · rename_i hproperty
    rw [hproperty, h.propertyKey_config]
    by_cases hgiven : "property" ∈ r.given
    · rw [if_pos hgiven, h.named?_config_of_mem (by decide)]
    · -- the second name is neither a field nor an extra field of such a record
      have hnone : Fields.named? r.extras propertyName = none := by
        rw [← h.propertyKey_of_not_mem hgiven]
        exact Fields.named?_eq_none fun _ hf => (h.mem_extras hf).2.1
      have hfield : ¬ (propertyName ∈ fieldNames ∧ propertyName ∈ r.given) :=
        fun hmem => absurd hmem.1 (by decide)
      rw [if_neg hgiven, if_neg hgiven, named?_config, if_neg hfield, Option.none_or, hnone]
  · exact h.named?_config_of_mem hname

/-! ## Reading it -/

/-- A field is read from the configuration as it is, if reading its value gives it back. -/
theorem Reads.readField_config {α : Type} {absent a : α} {read : List String → Value → Reading α}
    (h : Reads entries r) (hname : name ∈ fieldNames)
    (hread : readField entries name absent read = .ok a)
    (hagain : ∀ v, read [name] v = .ok a → read [name] (r.field name) = .ok a) :
    readField (Entries.ofFields r.config) name absent read = .ok a := by
  rw [readField] at hread ⊢
  rw [h.given?_config hname]
  cases hgiven : given? entries name with
  | none =>
      have hnot : name ∉ r.given := by
        rw [h.mem_given_iff hname, hgiven]
        exact Bool.false_ne_true
      rw [hgiven] at hread
      rw [if_neg hnot]
      exact hread
  | some v =>
      have hmem : name ∈ r.given := by
        rw [h.mem_given_iff hname, hgiven]
        rfl
      rw [hgiven] at hread
      rw [if_pos hmem]
      exact hagain v hread

/-- A format is read as it is. -/
theorem readFormat_toValue (path : List String) (format : Format) :
    readFormat path format.toValue = .ok format := by
  cases format <;> rfl

/-- Options that were read are read as they are. -/
theorem readOptions_again {path : List String} {v : Value} {options : Entries}
    (h : readOptions path v = .ok options) : readOptions path (.dict options) = .ok options := by
  cases v with
  | dict entries =>
      obtain ⟨fields, rfl, hnodup⟩ := ofFields_of_readOptions h
      exact readOptions_ofFields hnodup
  | _ => cases h

/-- The name of an extra field does not become the name of a field. -/
theorem Reads.ne_propertyKey_config (h : Reads entries r) {f : String × Value} (hf : f ∈ r.extras) :
    f.1 ≠ propertyKey (Entries.ofFields r.config) := by
  rw [h.propertyKey_config]
  by_cases hgiven : "property" ∈ r.given
  · rw [if_pos hgiven]
    exact fun hname => h.not_mem_fieldNames hf (hname ▸ by decide)
  · rw [if_neg hgiven, ← h.propertyKey_of_not_mem hgiven]
    exact (h.mem_extras hf).2.1

/-- Of named values those are extra fields that have no name of a field. -/
theorem readExtras_ofFields (fields : Fields) :
    readExtras (Entries.ofFields fields) =
      .ok (fields.filter fun f =>
        f.1 ≠ propertyKey (Entries.ofFields fields) ∧ f.1 ∉ fieldNames.drop 1) := by
  rw [readExtras_eq_ok_iff]
  generalize propertyKey (Entries.ofFields fields) = key
  rw [Entries.ofFields, Entries.ofFields, List.filter_map]
  congr 1
  apply List.filter_congr
  intro f _
  rw [Bool.eq_iff_iff, decide_eq_true_eq, Function.comp_apply, Bool.not_eq_true',
    ← Bool.not_eq_true, Bool.or_eq_true, not_or, List.any_eq_true]
  simp only [Value.sameKey_text_iff, Value.text.injEq, exists_eq_right']

/-- The extra fields are read as they are. -/
theorem Reads.readExtras_config (h : Reads entries r) :
    readExtras (Entries.ofFields r.config) = .ok r.extras := by
  have hset : ((fieldNames.filter r.given.contains).map fun n => (n, r.field n)).filter
      (fun f => f.1 ≠ propertyKey (Entries.ofFields r.config) ∧ f.1 ∉ fieldNames.drop 1) = [] := by
    rw [List.filter_eq_nil_iff]
    intro f hf
    obtain ⟨name, hname, rfl⟩ := List.mem_map.mp hf
    obtain ⟨hfield, hgiven⟩ := List.mem_filter.mp hname
    rw [decide_eq_true_eq]
    rintro ⟨hkey, hother⟩
    obtain rfl | hdrop := List.mem_cons.mp hfield
    · rw [h.propertyKey_config, if_pos (List.contains_iff_mem.mp hgiven)] at hkey
      exact hkey rfl
    · exact hother hdrop
  have hextras : r.extras.filter
      (fun f => f.1 ≠ propertyKey (Entries.ofFields r.config) ∧ f.1 ∉ fieldNames.drop 1) =
        r.extras := by
    rw [List.filter_eq_self]
    intro f hf
    rw [decide_eq_true_eq]
    exact ⟨h.ne_propertyKey_config hf, (h.mem_extras hf).2.2⟩
  rw [readExtras_ofFields]
  generalize propertyKey (Entries.ofFields r.config) = key at hset hextras ⊢
  rw [Record.config, List.filter_append, hset, hextras, List.nil_append]

theorem Reads.value_config (h : Reads entries r) :
    r.value = (given? (Entries.ofFields r.config) "value").getD .null := by
  rw [h.given?_config (by decide)]
  split
  · rfl
  · rename_i hnot
    rw [h.mem_given_iff (by decide), Option.not_isSome_iff_eq_none] at hnot
    rw [h.value, hnot]

theorem Reads.template_config (h : Reads entries r) :
    Template.ofValue ((given? (Entries.ofFields r.config) "template").getD .null) =
      .ok r.template := by
  rw [h.given?_config (by decide)]
  split
  · exact Template.ofValue_template r.template
  · rename_i hnot
    rw [h.mem_given_iff (by decide), Option.not_isSome_iff_eq_none] at hnot
    have htemplate := h.template
    rw [hnot] at htemplate
    exact htemplate

theorem Reads.given_config (h : Reads entries r) :
    r.given = fieldNames.filter fun name => (given? (Entries.ofFields r.config) name).isSome := by
  rw [h.given]
  apply List.filter_congr
  intro name hname
  rw [h.given?_config hname, Bool.eq_iff_iff, ← h.mem_given_iff hname]
  split <;> simp [*]

/-- A record is read from its configuration. -/
theorem Reads.config (h : Reads entries r) : Reads (Entries.ofFields r.config) r where
  template := h.template_config
  property := h.readField_config (by decide) h.property fun _ _ => Card.readText?_textValue _ _
  path := h.readField_config (by decide) h.path fun _ _ => Card.readText?_textValue _ _
  label := h.readField_config (by decide) h.label fun _ _ => Card.readText?_textValue _ _
  format := h.readField_config (by decide) h.format fun _ _ => readFormat_toValue _ _
  options := h.readField_config (by decide) h.options fun _ => readOptions_again
  visible := h.readField_config (by decide) h.visible fun _ _ => rfl
  embedded := h.readField_config (by decide) h.embedded fun _ _ => Card.readText?_textValue _ _
  extras := h.readExtras_config
  value := h.value_config
  given := h.given_config

/-- Of entries with different keys no name comes twice in the configuration. -/
theorem Reads.nodup_config (h : Reads entries r) (hkeys : (entries.map Prod.fst).Nodup) :
    (r.config.map Prod.fst).Nodup := by
  have hset : (fieldNames.filter r.given.contains).Nodup :=
    List.Pairwise.sublist List.filter_sublist (by decide)
  have hextras : (r.extras.map Prod.fst).Nodup := by
    have hkept : ((Entries.ofFields r.extras).map Prod.fst).Nodup := by
      rw [← readExtras_eq_ok_iff.mp h.extras]
      exact hkeys.sublist (List.filter_sublist.map Prod.fst)
    rw [Entries.ofFields, List.map_map] at hkept
    have hne {n m : String} (h : Value.text n ≠ Value.text m) : n ≠ m :=
      fun heq => h (congrArg Value.text heq)
    refine List.Pairwise.of_map Value.text (fun _ _ => hne) ?_
    rw [List.map_map]
    exact hkept
  have hnames : ((fieldNames.filter r.given.contains).map fun n => (n, r.field n)).map Prod.fst =
      fieldNames.filter r.given.contains := by
    rw [List.map_map]
    exact List.map_id _
  rw [Record.config, List.map_append, hnames, List.nodup_append]
  refine ⟨hset, hextras, ?_⟩
  rintro n hn m hm rfl
  obtain ⟨f, hf, rfl⟩ := List.mem_map.mp hm
  exact h.not_mem_fieldNames hf (List.mem_filter.mp hn).1

/-- Whatever entries a record is read from, reading its configuration gives the same record: each
field, the extra fields and which fields were set, so also the same configuration. -/
theorem ofValue_config (h : ofValue (.dict entries) = .ok r) :
    ofValue (.dict (Entries.ofFields r.config)) = .ok r ∧
      ((entries.map Prod.fst).Nodup → (r.config.map Prod.fst).Nodup) := by
  have hreads : Reads entries r := ofEntries_eq_ok_iff.mp h
  exact ⟨ofEntries_eq_ok_iff.mpr hreads.config, hreads.nodup_config⟩

/-- Entries with both names of the property, an option under bytes, a pattern as template and a
number for the visibility. -/
def mixedEntries : Entries :=
  [(.text "note", .int 3), (.text "property_name", .text "p-org"),
    (.text "options", .dict [(.bytes [105, 100], .int 1), (.text "id", .int 2)]),
    (.text "format", .tuple [.text "decimal", .int 2]), (.text "template", .pattern "value"),
    (.text "visible", .int 0), (.text "property", .text "p-name"), (.text "label", .null)]

/-- What these entries are read as. -/
def mixedRecord : Record where
  property := some "p-name"
  path := none
  label := none
  value := .null
  format := .applied [.text "decimal", .int 2]
  options := [(.text "id", .int 2)]
  template := some (.pattern "value")
  visible := false
  embedded := none
  extras := [("note", .int 3), ("property_name", .text "p-org")]
  given := ["property", "label", "format", "options", "template", "visible"]

theorem ofValue_config_mixedEntries :
    ofValue (.dict mixedEntries) = .ok mixedRecord ∧
    mixedRecord.config =
      [("property", .text "p-name"), ("label", .null),
        ("format", .list [.text "decimal", .int 2]), ("options", .dict [(.text "id", .int 2)]),
        ("template", .template (.pattern "value")), ("visible", .bool false), ("note", .int 3),
        ("property_name", .text "p-org")] ∧
    ofValue (.dict (Entries.ofFields mixedRecord.config)) = .ok mixedRecord := by
  have hread : ofValue (.dict mixedEntries) = .ok mixedRecord := by rfl
  exact ⟨hread, by rfl, (ofValue_config hread).1⟩

end Record

end SemanticMarkup
