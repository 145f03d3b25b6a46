import SemanticMarkup.Proofs.Entry.Names
import SemanticMarkup.Proofs.Markup.Classes
import SemanticMarkup.Proofs.Record.Options

/-!
# Normal records

A record is normal if everything that is filled in for an entry stands in it
already: the path, the label, the format and the property among the classes. It
is complete if it has at least what is needed to show it. Filling in an entry
makes a complete record, and a normal one unless its options override the classes
that the property was added to. A normal record that is filled in as an entry is
the same record again, whatever the model and the settings; only its class text
may be written in another way.
-/

namespace SemanticMarkup

open SemanticMarkup.Text

/-- Nothing is missing in a record that is shown: its property is a hyphenated name and has a path,
the path has a label, and without a path there is a value. -/
structure Record.Complete (r : Record) : Prop where
  visible : r.visible = true
  property : ∀ s, r.property = some s → isHyphenated s.toList = true
  path : r.property.isSome = true → r.path.isSome = true
  label : r.path.isSome = true → r.label.isSome = true
  value : r.path = none → r.value ≠ .null

/-- Everything that is filled in for an entry stands in the record. -/
structure Record.Normal (r : Record) : Prop extends Record.Complete r where
  given : r.given = Record.fieldNames
  path_ne : r.path ≠ some ""
  format : Rules.format r.format.toValue = none
  extras : ∀ f ∈ r.extras, Card.isKnown (.text f.1) = false
  /-- The names of the options are texts, each one once. -/
  options : ∃ fields : Fields, r.options = Entries.ofFields fields ∧ (fields.map Prod.fst).Nodup
  /-- The property is among the classes. -/
  classes : ∀ s, r.property = some s → ∃ css, s ∈ words css ∧
    (∃ e ∈ r.options, e.1 = .text "class") ∧
    ∀ e ∈ r.options, e.1 = .text "class" → e.2 = .text css

/-- Two records differ in the writing of their options at most. -/
def Record.SameMarkup (r s : Record) : Prop :=
  ∃ options, s = { r with options := options } ∧
    Markup.tagAttributes options = Markup.tagAttributes r.options

theorem Text.ne_empty_of_decodeUtf8? {bs : List Nat} {s : String} (h : decodeUtf8? bs = some s)
    (hbs : bs ≠ []) : s ≠ "" := by
  rintro rfl
  rw [decodeUtf8?, String.fromUTF8?] at h
  split at h
  · have hbytes := congrArg String.toByteArray (Option.some.inj h)
    have hdata := congrArg (fun b => b.data.size) hbytes
    simp [String.fromUTF8] at hdata
    exact hbs hdata
  · cases h

namespace Card

open Record

variable {settings : Settings} {entries : Entries} {r : Record}

/-- The record of an embedded microformat is normal. -/
theorem normal_embeddedRecord (root html : String) : (embeddedRecord root html).Normal where
  given := rfl
  visible := rfl
  property := nofun
  path_ne := nofun
  path := nofun
  label := nofun
  value := nofun
  format := rfl
  extras := nofun
  options := ⟨[], rfl, List.nodup_nil⟩
  classes := nofun

theorem property_of_readText? {path : List String} {v : Value} {property : Option String}
    (hrule : Rules.nullable Rules.hyphenated v = none) (hread : readText? path v = .ok property) :
    v = textValue property ∧ ∀ s, property = some s → isHyphenated s.toList = true := by
  obtain rfl | ⟨hv, -⟩ := Rules.nullable_eq_none_iff.mp hrule
  · cases hread
    exact ⟨rfl, nofun⟩
  · obtain ⟨s, rfl, hs⟩ := Rules.hyphenated_eq_none_iff.mp hv
    cases hread
    refine ⟨rfl, ?_⟩
    rintro _ ⟨⟩
    exact hs

theorem isSome_of_readText? {path : List String} {v : Value} {s : Option String} (hv : v ≠ .null)
    (hread : readText? path v = .ok s) : s.isSome = true := by
  cases v with
  | null => exact absurd rfl hv
  | _ =>
      simp only [readText?, Reading.optional] at hread
      cases hr : Reading.text path _ with
      | error problems =>
          rw [hr] at hread
          cases hread
      | ok t =>
          rw [hr] at hread
          cases hread
          rfl

/-- An attribute that is found is no empty text, and one is found for every property. -/
theorem attributeName_of_rules {property name : Option String}
    (hp : entries.valueOf "property" = textValue property)
    (hproperty : ∀ s, property = some s → isHyphenated s.toList = true)
    (hattribute : Rules.nullable Rules.filledText (entries.valueOf "attribute") = none)
    (h : attributeName entries = .ok name) :
    name ≠ some "" ∧ (property.isSome = true → name.isSome = true) := by
  rw [attributeName] at h
  split at h
  · rename_i written hwritten
    rw [Except.ok.injEq] at h
    subst h
    refine ⟨?_, fun _ => rfl⟩
    rintro ⟨⟩
    rw [hwritten] at hattribute
    cases hattribute
  · cases h
  · rename_i written hwritten hno hgarbled
    rw [hp] at hwritten
    cases property with
    | none => cases hwritten
    | some s =>
        rw [← Value.text.inj hwritten] at h
        obtain ⟨found, hfound, hne⟩ := attributeOfProperty?_of_isHyphenated (hproperty s rfl)
        rw [hfound, Except.ok.injEq] at h
        subst h
        exact ⟨fun heq => hne (Option.some.inj heq), fun _ => rfl⟩
  · rename_i hno hgarbled hnot
    cases property with
    | some s => exact absurd hp (hnot s)
    | none =>
        rw [Except.ok.injEq] at h
        subst h
        exact ⟨nofun, nofun⟩

theorem ModelAccess.label_ne_null {model v : Value} {name : String}
    (h : ModelAccess.label model name = .ok v) : v ≠ .null := by
  simp only [ModelAccess.label, Outcome.bind_eq_ok_iff] at h
  obtain ⟨own, -, h⟩ := h
  split at h
  · rename_i hown
    cases h
    simpa using hown
  · rw [Outcome.pure_eq_ok, Except.ok.injEq] at h
    subst h
    split
    · rename_i htitle
      intro hnull
      rw [hnull] at htitle
      cases htitle
    · nofun

/-- A label is found with an attribute, and a value without one. -/
theorem labelAndValue_of_eq_ok {model label value : Value} {name : Option String} {place : String}
    (h : labelAndValue model entries name place = .ok (label, value)) :
    (name.isSome = true → label ≠ .null) ∧ (name = none → value ≠ .null) := by
  cases name with
  | none =>
      simp only [labelAndValue] at h
      split at h
      · cases h
      · rename_i hv
        cases h
        constructor
        · intro hsome
          cases hsome
        · intro _ hnull
          exact hv ((Value.isNull_iff _).mpr hnull)
  | some name =>
      refine ⟨fun _ => ?_, fun hnone => by cases hnone⟩
      by_cases hl : (entries.valueOf "label").isNull = true
      · simp only [labelAndValue, hl, if_true, Outcome.bind_eq_ok_iff] at h
        obtain ⟨found, hfound, h⟩ := h
        cases h
        exact ModelAccess.label_ne_null hfound
      · simp only [labelAndValue, hl, Outcome.pure_eq_ok, Outcome.ok_bind] at h
        cases h
        exact fun hnull => hl ((Value.isNull_iff _).mpr hnull)

/-- The format that is filled in is not empty. -/
theorem format_of_readFormat {path : List String} {format : Format}
    (hdefault : settings.defaultFormat ≠ "")
    (hrule : Rules.nullable Rules.format (entries.valueOf "format") = none)
    (h : readFormat path (formatOf settings entries) = .ok format) :
    Rules.format format.toValue = none := by
  rw [formatOf] at h
  generalize entries.valueOf "format" = v at h hrule
  cases v with
  | null =>
      cases h
      simp [Format.toValue, Rules.format, hdefault]
  | text s =>
      cases h
      exact hrule
  | list parts =>
      cases h
      exact hrule
  | tuple parts =>
      cases h
      exact hrule
  | bytes bs =>
      simp only [readFormat, Reading.text] at h
      cases hd : decodeUtf8? bs with
      | none =>
          rw [hd] at h
          cases h
      | some s =>
          rw [hd] at h
          cases h
          have hbs : bs ≠ [] := by
            rintro rfl
            cases hrule
          have hs := Text.ne_empty_of_decodeUtf8? hd hbs
          simp [Format.toValue, Rules.format, hs]
  | garbled codes => cases h
  | _ => cases hrule

/-- Options that are a mapping or missing are read as their entries. -/
theorem readOptions_of_mapping {v : Value} {options : Entries}
    (hrule : Rules.nullable Rules.mapping v = none) (h : Request.readOptions v = .ok options) :
    v = .null ∧ options = [] ∨ v = .dict options := by
  cases v with
  | null =>
      cases h
      exact .inl ⟨rfl, rfl⟩
  | dict given =>
      cases given with
      | nil =>
          cases h
          exact .inr rfl
      | cons e rest =>
          cases h
          exact .inr rfl
  | _ => cases hrule

/-- The options of an entry with a property are those with the property among the classes. -/
theorem entryOptions_of_property {property : String} {options : Entries}
    (hp : entries.valueOf "property" = .text property) (hne : property ≠ "")
    (h : entryOptions entries = .ok options) :
    ∃ own classes, Request.readOptions (entries.valueOf "options") = .ok own ∧
      options =
        own.putName "class" (.text (" ".intercalate (Markup.withWords classes property))) := by
  simp only [entryOptions, Outcome.bind_eq_ok_iff, hp, if_neg hne, Markup.addClass,
    Outcome.pure_eq_ok, Except.ok.injEq] at h
  obtain ⟨own, hown, classes, -, rfl⟩ := h
  exact ⟨own, classes, hown, rfl⟩

/-- Among the options, the classes are overridden by a key that spells `class` in bytes. -/
def OverridesClass (options : Value) : Prop :=
  ∃ entries : Entries, options = .dict entries ∧ entries.Overridden "class"

/-- The property is among the classes of the options that are read, unless these are overridden. -/
theorem classes_of_entryOptions {path : List String} {property : String} {options read : Entries}
    (hp : entries.valueOf "property" = .text property)
    (hproperty : isHyphenated property.toList = true)
    (hmapping : Rules.nullable Rules.mapping (entries.valueOf "options") = none)
    (hover : ¬ OverridesClass (entries.valueOf "options"))
    (h : entryOptions entries = .ok options) (hread : readOptions path (.dict options) = .ok read) :
    ∃ css, property ∈ words css ∧ Entries.named? read "class" = some (.text css) := by
  have hne : property ≠ "" := by
    rintro rfl
    cases hproperty
  obtain ⟨own, classes, hown, rfl⟩ := entryOptions_of_property hp hne h
  refine ⟨" ".intercalate (Markup.withWords classes property), ?_, ?_⟩
  · have hword := words_of_not_isBlank hne (isBlank_of_isHyphenated hproperty)
    have hself : property ∈ words property := by
      rw [hword]
      exact List.mem_singleton.mpr rfl
    rw [words_joined_blank, List.mem_flatMap]
    exact ⟨property, Markup.mem_withWords.mpr (.inr hself), hself⟩
  · have hlast : ¬ Entries.Overridden own "class" := by
      intro hown'
      obtain ⟨-, rfl⟩ | hdict := readOptions_of_mapping hmapping hown
      · obtain ⟨front, back, v, hnil, -⟩ := hown'
        exact List.cons_ne_nil _ _ (List.append_eq_nil_iff.mp hnil.symm).2
      · exact hover ⟨own, hdict, hown'⟩
    obtain ⟨front, back, hput, hback⟩ := Entries.putName_split
      (.text (" ".intercalate (Markup.withWords classes property))) hlast
    rw [hput] at hread
    exact named?_of_readOptions hread hback

/-- The property of a filled-in entry is the one given, and a hyphenated name. -/
theorem property_of_filled {name : Option String} {label value : Value} {options : Entries}
    (hn : entries.valueOf "microformat" = .null) (hfaults : Rules.faults entries = [])
    (filled : Filled settings entries name label value options r) :
    entries.valueOf "property" = textValue r.property ∧
      ∀ s, r.property = some s → isHyphenated s.toList = true :=
  property_of_readText? (Rules.plain_of_faults hfaults hn
    (show _ = some ("property", Rules.nullable Rules.hyphenated) from rfl) rfl) filled.property

/-- The path of a filled-in entry is no empty text, and there is one for every property. -/
theorem path_of_filled {name : Option String} {label value : Value} {options : Entries}
    (hn : entries.valueOf "microformat" = .null) (hfaults : Rules.faults entries = [])
    (hname : attributeName entries = .ok name)
    (filled : Filled settings entries name label value options r) :
    r.path ≠ some "" ∧ (r.property.isSome = true → r.path.isSome = true) := by
  obtain ⟨hp, hhyphenated⟩ := property_of_filled hn hfaults filled
  have hattribute := Rules.plain_of_faults hfaults hn
    (show _ = some ("attribute", Rules.nullable Rules.filledText) from rfl) rfl
  rw [filled.path]
  exact attributeName_of_rules hp hhyphenated hattribute hname

/-- Nothing is missing in the record that an entry is filled in to. -/
theorem complete_of_fillPlain {model : Value} {place : String}
    (hn : entries.valueOf "microformat" = .null)
    (h : fillPlain settings model entries place = .ok r) : r.Complete := by
  obtain ⟨-, hfaults, name, label, value, options, hname, hshown, hoptions, filled⟩ :=
    (fillPlain_eq_ok_iff_filled place).mp h
  obtain ⟨-, hhyphenated⟩ := property_of_filled hn hfaults filled
  obtain ⟨-, hfound⟩ := path_of_filled hn hfaults hname filled
  obtain ⟨hlabel, hvalue⟩ := labelAndValue_of_eq_ok hshown
  rw [← filled.path] at hlabel hvalue
  exact {
    visible := filled.visible
    property := hhyphenated
    path := hfound
    label := fun hpath => isSome_of_readText? (hlabel hpath) filled.label
    value := fun hpath => by
      rw [filled.value]
      exact hvalue hpath }

/-- The property of a filled-in entry is among its classes, unless these are overridden. -/
theorem classes_of_fillPlain {model : Value} {place : String}
    (hn : entries.valueOf "microformat" = .null)
    (hover : entries.valueOf "property" ≠ .null → ¬ OverridesClass (entries.valueOf "options"))
    (h : fillPlain settings model entries place = .ok r) :
    ∀ s, r.property = some s →
      ∃ css, s ∈ words css ∧ Entries.named? r.options "class" = some (.text css) := by
  intro s hs
  obtain ⟨-, hfaults, name, label, value, options, -, -, hoptions, filled⟩ :=
    (fillPlain_eq_ok_iff_filled place).mp h
  obtain ⟨hp, hhyphenated⟩ := property_of_filled hn hfaults filled
  have hmapping := Rules.plain_of_faults hfaults hn
    (show _ = some ("options", Rules.nullable Rules.mapping) from rfl) rfl
  rw [hs] at hp
  have hgiven : entries.valueOf "property" ≠ .null := by
    rw [hp]
    exact nofun
  exact classes_of_entryOptions hp (hhyphenated s hs) hmapping (hover hgiven) hoptions
    filled.options

/-- An entry is filled in to a normal record, unless its options override the property. -/
theorem normal_of_fillPlain {model : Value} {place : String}
    (hdefault : settings.defaultFormat ≠ "") (hn : entries.valueOf "microformat" = .null)
    (hover : entries.valueOf "property" ≠ .null → ¬ OverridesClass (entries.valueOf "options"))
    (h : fillPlain settings model entries place = .ok r) : r.Normal := by
  have hcomplete := complete_of_fillPlain hn h
  have hclasses := classes_of_fillPlain hn hover h
  obtain ⟨-, hfaults, name, label, value, options, hname, -, -, filled⟩ :=
    (fillPlain_eq_ok_iff_filled place).mp h
  have hformat := Rules.plain_of_faults hfaults hn
    (show _ = some ("format", Rules.nullable Rules.format) from rfl) rfl
  exact {
    hcomplete with
    given := filled.given
    path_ne := (path_of_filled hn hfaults hname filled).1
    format := format_of_readFormat hdefault hformat filled.format
    extras := by
      intro f hf
      have hmem : (Value.text f.1, f.2) ∈ foreign entries := by
        rw [← filled.extras]
        exact List.mem_map_of_mem hf
      simpa using (List.mem_filter.mp hmem).2
    options := ofFields_of_readOptions filled.options
    classes := by
      intro s hs
      obtain ⟨css, hmem, hnamed⟩ := hclasses s hs
      exact ⟨css, hmem, ⟨_, Entries.mem_of_named? hnamed, rfl⟩,
        fun e he hk => eq_of_mem_readOptions filled.options hnamed he hk⟩ }

end Card

namespace Record

variable {r : Record}

/-- The configuration of a normal record holds all its fields, then the extra ones. -/
theorem Normal.ofFields_config (h : r.Normal) :
    Entries.ofFields r.config =
      Entries.ofFields (fieldNames.map fun name => (name, r.field name)) ++
        Entries.ofFields r.extras := by
  have hall : fieldNames.filter r.given.contains = fieldNames := by
    rw [h.given]
    rfl
  rw [config, hall, Entries.ofFields, List.map_append]
  rfl

theorem named?_fields (r : Record) {name : String} (hname : name ∈ fieldNames) :
    Fields.named? (fieldNames.map fun name => (name, r.field name)) name = some (r.field name) := by
  simp only [fieldNames, List.mem_cons, List.not_mem_nil, or_false] at hname
  rcases hname with rfl | rfl | rfl | rfl | rfl | rfl | rfl | rfl | rfl <;> rfl

theorem Normal.valueOf_config (h : r.Normal) {name : String} (hname : name ∈ fieldNames) :
    Entries.valueOf (Entries.ofFields r.config) name = r.field name := by
  rw [h.ofFields_config, Entries.valueOf, Entries.named?_append, Entries.named?_ofFields,
    named?_fields r hname]
  rfl

/-- A normal record carries nothing that serves to embed microformats. -/
theorem Normal.named?_config_eq_none (h : r.Normal) {name : String}
    (hname : name ∈ Card.embeddingNames) :
    Entries.named? (Entries.ofFields r.config) name = none := by
  rw [h.ofFields_config, Entries.named?_append, Option.or_eq_none_iff]
  constructor
  · rw [Entries.named?_ofFields]
    simp only [Card.embeddingNames, List.mem_cons, List.not_mem_nil, or_false] at hname
    rcases hname with rfl | rfl | rfl | rfl <;> rfl
  · rw [Entries.named?_eq_none_iff]
    rintro e he hk
    obtain ⟨f, hf, rfl⟩ := List.mem_map.mp he
    have hunknown := h.extras f hf
    rw [Bool.eq_false_iff] at hunknown
    exact hunknown ((Card.isKnown_iff _).mpr ⟨name, List.mem_append_right _ hname, hk⟩)

/-- The entries without a meaning of their own are the extra fields. -/
theorem Normal.foreign_config (h : r.Normal) :
    Card.foreign (Entries.ofFields r.config) = Entries.ofFields r.extras := by
  rw [h.ofFields_config, Card.foreign, List.filter_append]
  have hfields : List.filter (fun e : Value × Value => !Card.isKnown e.1)
      (Entries.ofFields (fieldNames.map fun name => (name, r.field name))) = [] := rfl
  rw [hfields, List.nil_append, List.filter_eq_self]
  intro e he
  obtain ⟨f, hf, rfl⟩ := List.mem_map.mp he
  rw [h.extras f hf]
  rfl

/-- A normal record passes the checks of plain entries. -/
theorem Normal.faults_config (h : r.Normal) : Rules.faults (Entries.ofFields r.config) = [] := by
  have hproperty : Rules.nullable Rules.hyphenated (textValue r.property) = none := by
    cases hp : r.property with
    | none => rfl
    | some s => exact Rules.hyphenated_eq_none_iff.mpr ⟨s, rfl, h.property s hp⟩
  have hpath : Rules.nullable Rules.filledText (textValue r.path) = none := by
    cases hp : r.path with
    | none => rfl
    | some s =>
        exact Rules.filledText_eq_none_iff.mpr (.inl ⟨s, rfl, fun hs => h.path_ne (hs ▸ hp)⟩)
  have htext : ∀ s, Rules.nullable Rules.text (textValue s) = none := by
    intro s
    cases s <;> rfl
  have hformat : Rules.nullable Rules.format r.format.toValue = none := by
    have hrule := h.format
    cases hf : r.format <;> rwa [hf] at hrule
  have htemplate : Rules.nullable Rules.template ((r.template.map Value.template).getD .null) =
      none := by
    cases r.template <;> rfl
  have hplain : (Entries.ofFields r.config).hasName "microformat" = false := by
    rw [Entries.hasName, h.named?_config_eq_none (by decide)]
    rfl
  rw [Rules.faults, List.filterMap_eq_nil_iff, hplain, if_neg Bool.false_ne_true,
    h.ofFields_config]
  intro e he
  rw [Option.map_eq_none_iff]
  obtain he | he := List.mem_append.mp he
  · obtain ⟨f, hf, rfl⟩ := List.mem_map.mp he
    obtain ⟨name, hname, rfl⟩ := List.mem_map.mp hf
    simp only [fieldNames, List.mem_cons, List.not_mem_nil, or_false] at hname
    rcases hname with rfl | rfl | rfl | rfl | rfl | rfl | rfl | rfl | rfl
    · exact hproperty
    · exact hpath
    · exact htext r.label
    · rfl
    · exact hformat
    · rfl
    · exact htemplate
    · rfl
    · exact htext r.embedded
  · obtain ⟨f, hf, rfl⟩ := List.mem_map.mp he
    have hnone :
        (Rules.plain.find? fun rule => (Value.text f.1).sameKey (.text rule.1)) = none := by
      rw [List.find?_eq_none]
      intro rule hrule hk
      have hknown : rule.1 ∈ fieldNames :=
        (by decide : ∀ name ∈ Rules.plain.map Prod.fst, name ∈ fieldNames) _
          (List.mem_map_of_mem hrule)
      have hunknown := h.extras f hf
      rw [Bool.eq_false_iff] at hunknown
      exact hunknown ((Card.isKnown_iff _).mpr
        ⟨rule.1, List.mem_append_left _ hknown, (Value.sameKey_text_iff _ _).mp hk⟩)
    rw [Rules.fieldFault, hnone]
    rfl

/-- The property of a normal record is added to classes that hold it already. -/
theorem Normal.entryOptions_config (h : r.Normal) :
    ∃ options, Card.entryOptions (Entries.ofFields r.config) = .ok options ∧
      readOptions ["options"] (.dict options) = .ok options ∧
      Markup.tagAttributes options = Markup.tagAttributes r.options := by
  obtain ⟨fields, hfields, hnodup⟩ := h.options
  have hread : Request.readOptions (.dict r.options) = .ok r.options := by
    cases hr : r.options <;> rfl
  have hown : Entries.valueOf (Entries.ofFields r.config) "options" = .dict r.options :=
    h.valueOf_config (by decide)
  have hproperty : Entries.valueOf (Entries.ofFields r.config) "property" =
      textValue r.property := h.valueOf_config (by decide)
  rw [Card.entryOptions, hown, hread, hproperty]
  cases hp : r.property with
  | none =>
      refine ⟨r.options, rfl, ?_, rfl⟩
      rw [hfields]
      exact readOptions_ofFields hnodup
  | some s =>
      obtain ⟨css, hcss, hput, honly⟩ := h.classes s hp
      have hhyphenated := h.property s hp
      have hne : s ≠ "" := by
        rintro rfl
        cases hhyphenated
      have hclass : r.options.valueOf "class" = .text css := by
        cases hv : Entries.named? r.options "class" with
        | none =>
            obtain ⟨e, he, hk⟩ := hput
            exact absurd hk ((Entries.named?_eq_none_iff _ _).mp hv e he)
        | some v =>
            rw [Entries.valueOf_eq_of_named? hv]
            exact honly _ (Entries.mem_of_named? hv) rfl
      have hknown : Markup.withWords (words css) s = words css := by
        apply Markup.withWords_of_subset
        intro w hw
        rw [words_of_not_isBlank hne (isBlank_of_isHyphenated hhyphenated),
          List.mem_singleton] at hw
        exact hw ▸ hcss
      refine ⟨r.options.putName "class" (.text (" ".intercalate (words css))), ?_, ?_,
        Markup.tagAttributes_putName_class honly hput⟩
      · simp only [textValue, if_neg hne, Markup.addClass, hclass, Markup.classWords_text,
          Outcome.ok_bind, hknown, Outcome.pure_eq_ok]
      · rw [hfields] at hput ⊢
        obtain ⟨others, hothers, hnames⟩ :=
          Entries.putName_ofFields (.text (" ".intercalate (words css))) hput
        rw [hothers]
        exact readOptions_ofFields (hnames ▸ hnodup)

theorem Normal.attributeName_config (h : r.Normal) :
    Card.attributeName (Entries.ofFields r.config) = .ok r.path := by
  have hattribute : Entries.valueOf (Entries.ofFields r.config) "attribute" = textValue r.path :=
    h.valueOf_config (by decide)
  have hproperty : Entries.valueOf (Entries.ofFields r.config) "property" = textValue r.property :=
    h.valueOf_config (by decide)
  rw [Card.attributeName, hattribute, hproperty]
  cases hp : r.path with
  | some path => rfl
  | none =>
      cases hq : r.property with
      | none => rfl
      | some s =>
          have hpath := h.path
          rw [hp, hq] at hpath
          exact absurd (hpath rfl) Bool.false_ne_true

/-- Label and value are taken from a normal record, not from the model. -/
theorem Normal.labelAndValue_config (h : r.Normal) (model : Value) (place : String) :
    Card.labelAndValue model (Entries.ofFields r.config) r.path place =
      .ok (textValue r.label, r.value) := by
  have hlabel : Entries.valueOf (Entries.ofFields r.config) "label" = textValue r.label :=
    h.valueOf_config (by decide)
  have hvalue : Entries.named? (Entries.ofFields r.config) "value" = some r.value := by
    rw [h.ofFields_config, Entries.named?_append, Entries.named?_ofFields,
      named?_fields r (by decide)]
    rfl
  cases hp : r.path with
  | none =>
      have hnull : r.value.isNull = false := (Value.isNull_eq_false_iff _).mpr (h.value hp)
      rw [Card.labelAndValue, hlabel, Entries.valueOf_eq_of_named? hvalue, hnull]
      rfl
  | some path =>
      obtain ⟨label, hl⟩ := Option.isSome_iff_exists.mp (h.label (by rw [hp]; rfl))
      rw [Card.labelAndValue, hlabel, hvalue, hl]
      rfl

/-- The fields that are filled in for a normal record are its own. -/
theorem Normal.filled_config (h : r.Normal) (settings : Settings) {options : Entries}
    (hread : readOptions ["options"] (.dict options) = .ok options) :
    Card.Filled settings (Entries.ofFields r.config) r.path (textValue r.label) r.value options
      { r with options := options } where
  property := by
    rw [h.valueOf_config (by decide)]
    exact Card.readText?_textValue _ _
  path := rfl
  label := Card.readText?_textValue _ _
  value := rfl
  format := by
    have hformat : Card.formatOf settings (Entries.ofFields r.config) = r.format.toValue := by
      rw [Card.formatOf, h.valueOf_config (by decide)]
      cases hf : r.format <;> simp [field, hf, Format.toValue]
    rw [hformat]
    cases r.format <;> rfl
  options := hread
  template := by
    rw [h.valueOf_config (by decide)]
    change Template.ofValue ((r.template.map Value.template).getD .null) = .ok r.template
    cases r.template <;> rfl
  visible := h.visible
  embedded := by
    rw [h.valueOf_config (by decide)]
    exact Card.readText?_textValue _ _
  extras := h.foreign_config.symm
  given := h.given

/-- A normal record is filled in to itself, whatever the model and the settings. -/
theorem Normal.fillPlain_config (h : r.Normal) (settings : Settings) (model : Value)
    (place : String) :
    ∃ again, Card.fillPlain settings model (Entries.ofFields r.config) place = .ok again ∧
      r.SameMarkup again := by
  obtain ⟨options, hoptions, hread, hmarkup⟩ := h.entryOptions_config
  have hclass : Entries.valueOf (Entries.ofFields r.config) "class" = .null :=
    Entries.valueOf_eq_null_of_named? (h.named?_config_eq_none (by decide))
  refine ⟨{ r with options := options }, ?_, options, rfl, hmarkup⟩
  rw [Card.fillPlain_eq_ok_iff_filled place]
  exact ⟨hclass, h.faults_config, r.path, textValue r.label, r.value, options,
    h.attributeName_config, h.labelAndValue_config model place, hoptions,
    h.filled_config settings hread⟩

end Record

end SemanticMarkup
