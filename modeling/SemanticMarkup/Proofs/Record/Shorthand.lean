import SemanticMarkup.Proofs.Entry.Written
import SemanticMarkup.Proofs.Markup.Classes
import SemanticMarkup.Proofs.Model.Humanize
import SemanticMarkup.Proofs.Record.Reads
import SemanticMarkup.Proofs.Record.Substitution

/-!
# Records of shorthand entries

The written parts of a shorthand, as a mapping, are filled in to one record, which
shows a value of the model. A text fills in the same record, with its path and
its format written out. With the standard template and a format for plain text
or links, the record of a shorthand without a label is rendered as one element,
or as nothing if the value is the empty text.
-/

namespace SemanticMarkup

open SemanticMarkup.Text SemanticMarkup.Markup

/-- The classes of a hyphenated name: itself. -/
theorem words_of_isHyphenated {s : String} (h : isHyphenated s.toList = true) : words s = [s] := by
  refine words_of_not_isBlank ?_ (isBlank_of_isHyphenated h)
  rintro rfl
  exact absurd h (by decide)

/-- An entry without options has its property as the only class. -/
theorem Card.entryOptions_of_isHyphenated {entries : Entries} {property : String}
    (h : isHyphenated property.toList = true) (hoptions : entries.valueOf "options" = .null)
    (hproperty : entries.valueOf "property" = .text property) :
    entryOptions entries = .ok (classOption [property]) := by
  have hne : property ≠ "" := by
    rintro rfl
    exact absurd h (by decide)
  have hclass : withWords [] property = [property] := by
    rw [withWords, words_of_isHyphenated h]
    rfl
  have hnone : Request.readOptions .null = .ok [] := rfl
  rw [entryOptions, hoptions, hproperty, hnone, Outcome.ok_bind]
  simp only [if_neg hne, addClass_nil, hclass]

/-- The empty text has a text. -/
theorem Record.isWritable_of_isEmptyText {v : Value} (h : isEmptyText v = true) :
    v.isWritable = true := by
  cases v with
  | text s => rfl
  | _ => cases h

namespace Shorthand

/-- What a shorthand shows of a mapping. -/
def valueIn (entry : Shorthand) (model : Entries) : Value :=
  ModelAccess.valueAt (.dict model) entry.resolvedPath .null

/-- The record of a shorthand without a label. -/
def record (entry : Shorthand) (model : Entries) : Record :=
  { property := some entry.property, path := some entry.resolvedPath
    label := some (ModelAccess.humanize entry.resolvedPath), value := entry.valueIn model
    format := .named entry.resolvedFormat, options := classOption [entry.property]
    template := none, visible := true, embedded := none, extras := []
    given := Record.fieldNames }

/-- A value with a text as a shorthand shows it. -/
def textOf (entry : Shorthand) (nullDisplay : String) (v : Value) : String :=
  if v.isNull then nullDisplay
  else match FormatName.ofText? entry.resolvedFormat with
    | some .email => Formatter.mailLink v.display
    | some .url => Formatter.webLink v.display
    | _ => escape v.display

/-- The markup of a shorthand with the standard template. -/
def markup (entry : Shorthand) (nullDisplay : String) (model : Entries) : String :=
  if Record.isEmptyText (entry.valueIn model) then ""
  else Record.entryMarkup (classAttribute [entry.property])
    (ModelAccess.humanize entry.resolvedPath) (entry.textOf nullDisplay (entry.valueIn model))

/-- A shorthand without a label whose format, if it is written, is for plain text or links. -/
structure Plain (entry : Shorthand) : Prop where
  wellFormed : entry.WellFormed
  label : entry.label = none
  format : FormatName.ofText? entry.resolvedFormat = some .text ∨
    FormatName.ofText? entry.resolvedFormat = some .email ∨
    FormatName.ofText? entry.resolvedFormat = some .url

instance decidablePlain (entry : Shorthand) : Decidable entry.Plain :=
  decidable_of_iff (entry.WellFormed ∧ entry.label = none ∧
      (FormatName.ofText? entry.resolvedFormat = some .text ∨
        FormatName.ofText? entry.resolvedFormat = some .email ∨
        FormatName.ofText? entry.resolvedFormat = some .url))
    ⟨fun ⟨wellFormed, label, format⟩ => ⟨wellFormed, label, format⟩,
      fun h => ⟨h.wellFormed, h.label, h.format⟩⟩

variable {entry : Shorthand}

/-- The path of a shorthand consists of word characters and points. -/
theorem isPlainChar_of_mem_resolvedPath (h : entry.WellFormed) {c : Char}
    (hc : c ∈ entry.resolvedPath.toList) : isPlainChar c = true := by
  obtain rfl | hword := mem_of_isPath h.partsFit.isPath_resolvedPath hc
  · decide
  · exact isPlainChar_of_isWordChar hword

/-- The label of a shorthand stands for itself in markup. -/
theorem escape_humanize_resolvedPath (h : entry.WellFormed) :
    escape (ModelAccess.humanize entry.resolvedPath) =
      ModelAccess.humanize entry.resolvedPath := by
  apply escape_of_isPlainChar
  intro c hc
  obtain rfl | hc | ⟨d, hd, hc⟩ := ModelAccess.mem_humanize hc
  · decide
  · exact isPlainChar_of_mem_resolvedPath h hc
  · exact isPlainChar_of_mem_upper (isPlainChar_of_mem_resolvedPath h hd) hc

/-- What the written parts of a shorthand are named in a mapping; one that is not written has no
value. -/
def fields (entry : Shorthand) : Fields :=
  [("property", .text entry.property), ("attribute", Record.textValue entry.path),
    ("format", Record.textValue entry.format), ("label", Record.textValue entry.label)]

/-- The names of the parts. -/
def fieldNames : List String :=
  ["property", "attribute", "format", "label"]

/-- The record of the written parts of a shorthand, where `usual` is the format of entries without
one. -/
def filled (entry : Shorthand) (usual : String) (model : Entries) : Record :=
  { entry.record model with
    label := some (entry.label.getD (ModelAccess.humanize entry.resolvedPath))
    format := .named (entry.format.getD usual) }

/-- A shorthand with its path and its format written out. -/
def complete (entry : Shorthand) : Shorthand :=
  { entry with path := some entry.resolvedPath, format := some entry.resolvedFormat }

theorem partsFit_complete (h : entry.PartsFit) : entry.complete.PartsFit where
  property := h.property
  path := by
    rintro _ ⟨⟩
    exact h.isPath_resolvedPath
  format := by
    rintro _ ⟨⟩
    exact h.isWord_resolvedFormat
  label := h.label

/-- A shorthand stands for the mapping in which its path and its format are written out. -/
theorem ofShorthand_eq (entry : Shorthand) :
    Entry.ofShorthand entry = Entries.ofFields entry.complete.fields :=
  rfl

section Mapping

variable {entries : Entries}

theorem valueOf_of_carries (h : entries.Carries entry.fields) (name : String) :
    entries.valueOf name = Fields.valueOf entry.fields name :=
  h.valueOf (show fieldNames.Nodup by decide) name

theorem named?_of_carries (h : entries.Carries entry.fields) {name : String}
    (hname : name ∉ fieldNames) : Entries.named? entries name = none :=
  h.named?_eq_none (show name ∉ fieldNames from hname)

/-- No part of a shorthand breaks the rule of its field. -/
theorem faults_of_carries (h : entry.PartsFit) (hentries : entries.Carries entry.fields) :
    Rules.faults entries = [] := by
  have hplain : entries.hasName "microformat" = false := by
    rw [Entries.hasName, named?_of_carries hentries (by decide), Option.isSome_none]
  have hproperty : Rules.hyphenated (.text entry.property) = none :=
    Rules.hyphenated_eq_none_iff.mpr ⟨_, rfl, h.property⟩
  have hpath : Rules.nullable Rules.filledText (Record.textValue entry.path) = none := by
    cases hp : entry.path with
    | none => rfl
    | some path =>
        refine Rules.filledText_eq_none_iff.mpr (.inl ⟨path, rfl, ?_⟩)
        rintro rfl
        exact ne_nil_of_isPath (h.path _ hp) rfl
  have hformat : Rules.nullable Rules.format (Record.textValue entry.format) = none := by
    cases hf : entry.format with
    | none => rfl
    | some format =>
        have hfilled : format ≠ "" := by
          rintro rfl
          exact absurd (h.format _ hf) (by decide)
        exact if_neg hfilled
  have hlabel : Rules.nullable Rules.text (Record.textValue entry.label) = none := by
    cases entry.label <;> rfl
  rw [Rules.faults, List.filterMap_eq_nil_iff, hplain, if_neg Bool.false_ne_true]
  intro e he
  rw [Option.map_eq_none_iff]
  have hlisted := hentries.listed e he
  simp only [fields, Entries.ofFields, List.map_cons, List.map_nil, List.mem_cons,
    List.not_mem_nil, or_false] at hlisted
  obtain rfl | rfl | rfl | rfl := hlisted
  · exact hproperty
  · exact hpath
  · exact hformat
  · exact hlabel

theorem attributeName_of_carries (h : entry.PartsFit) (hentries : entries.Carries entry.fields) :
    Card.attributeName entries = .ok (some entry.resolvedPath) := by
  have hproperty : entries.valueOf "property" = .text entry.property :=
    valueOf_of_carries hentries "property"
  have hpath : entries.valueOf "attribute" = Record.textValue entry.path :=
    valueOf_of_carries hentries "attribute"
  rw [Card.attributeName, hproperty, hpath, resolvedPath]
  cases entry.path with
  | some path => rfl
  | none =>
      obtain ⟨name, hname, -⟩ := attributeOfProperty?_of_isHyphenated h.property
      simp only [Record.textValue, hname]
      rfl

/-- A part that is not written is taken from the model, or follows from the property. -/
theorem labelAndValue_of_carries (hentries : entries.Carries entry.fields) (model : Entries)
    (place : String) :
    Card.labelAndValue (.dict model) entries (some entry.resolvedPath) place =
      .ok (.text (entry.label.getD (ModelAccess.humanize entry.resolvedPath)),
        entry.valueIn model) := by
  have hlabel : entries.valueOf "label" = Record.textValue entry.label :=
    valueOf_of_carries hentries "label"
  have hvalue : Entries.named? entries "value" = none := named?_of_carries hentries (by decide)
  rw [Card.labelAndValue, hlabel]
  simp only [hvalue, Option.getD_none]
  cases entry.label <;> rfl

theorem formatOf_of_carries (hentries : entries.Carries entry.fields) (settings : Settings) :
    Card.formatOf settings entries = .text (entry.format.getD settings.defaultFormat) := by
  have hformat : entries.valueOf "format" = Record.textValue entry.format :=
    valueOf_of_carries hentries "format"
  rw [Card.formatOf, hformat]
  cases entry.format <;> rfl

theorem foreign_of_carries (hentries : entries.Carries entry.fields) :
    Card.foreign entries = [] := by
  have hall : ∀ e ∈ Entries.ofFields entry.fields, Card.isKnown e.1 = true :=
    List.all_eq_true.mp rfl
  rw [Card.foreign, List.filter_eq_nil_iff]
  intro e he
  rw [hall e (hentries.listed e he)]
  exact Bool.false_ne_true

/-- The mapping with the written parts of a shorthand is filled in from a mapping. A format that is
not written is the usual one of the settings. -/
theorem fillPlain_of_carries (h : entry.PartsFit) (hentries : entries.Carries entry.fields)
    (settings : Settings) (model : Entries) (place : String) :
    Card.fillPlain settings (.dict model) entries place =
      .ok (entry.filled settings.defaultFormat model) := by
  have hvalue := valueOf_of_carries hentries
  have hfilled : Card.Filled settings entries (some entry.resolvedPath)
      (.text (entry.label.getD (ModelAccess.humanize entry.resolvedPath))) (entry.valueIn model)
      (classOption [entry.property]) (entry.filled settings.defaultFormat model) := {
    property := by
      rw [hvalue]
      rfl
    path := rfl, label := rfl, value := rfl
    format := by
      rw [formatOf_of_carries hentries]
      rfl
    options := rfl
    template := by
      rw [hvalue]
      rfl
    visible := rfl
    embedded := by
      rw [hvalue]
      rfl
    extras := (foreign_of_carries hentries).symm
    given := rfl }
  exact (Card.fillPlain_eq_ok_iff_filled place).mpr ⟨hvalue "class",
    faults_of_carries h hentries, _, _, _, _, attributeName_of_carries h hentries,
    labelAndValue_of_carries hentries model place,
    Card.entryOptions_of_isHyphenated h.property (hvalue "options") (hvalue "property"), hfilled⟩

end Mapping

/-- A shorthand is filled in from a mapping. A format that is not written is the plain one. -/
theorem fillPlain_ofShorthand (h : entry.PartsFit) (settings : Settings) (model : Entries)
    (place : String) :
    Card.fillPlain settings (.dict model) (Entry.ofShorthand entry) place =
      .ok (entry.filled "text" model) := by
  rw [ofShorthand_eq]
  exact fillPlain_of_carries (partsFit_complete h) (Entries.carries_ofFields _) settings model place

/-- Without a label, the label of the record follows from the path. -/
theorem filled_text (hlabel : entry.label = none) (model : Entries) :
    entry.filled "text" model = entry.record model := by
  rw [filled, hlabel]
  rfl

/-- A plain shorthand is filled in to its record. -/
theorem Plain.fillPlain (h : entry.Plain) (settings : Settings) (model : Entries)
    (place : String) :
    Card.fillPlain settings (.dict model) (Entry.ofShorthand entry) place =
      .ok (entry.record model) := by
  rw [fillPlain_ofShorthand h.wellFormed.partsFit, filled_text h.label]

/-- Formats for plain text and links show every value that has a text. -/
theorem format_resolvedFormat (h : entry.Plain) (f : Formatter) (v : Value) :
    f.format v (.text entry.resolvedFormat) =
      if v.isWritable then .ok (entry.textOf f.settings.nullDisplay v)
      else Outcome.fault .wrongValue := by
  have hsplit : Format.split (.text entry.resolvedFormat) = .ok (entry.resolvedFormat, []) := rfl
  rw [Formatter.format, hsplit, Outcome.ok_bind, textOf]
  obtain hf | hf | hf := h.format
  all_goals
    simp only [hf, List.length_nil, Nat.not_lt_zero, if_false]
    cases hnull : v.isNull with
    | true =>
        rw [(Value.isNull_iff v).mp hnull]
        rfl
    | false =>
        rw [if_neg Bool.false_ne_true, if_neg Bool.false_ne_true, Formatter.showAs, Value.asText]
        cases v.isWritable <;> rfl

/-- The record of a shorthand is rendered by the standard template, unless its value has no text. -/
theorem render_record (h : entry.Plain) (f : Formatter) (model : Entries) (index : Int)
    (place : Option Record.Place) :
    (entry.record model).render f (some (.text Settings.standard.defaultTemplate)) index place =
      if (entry.valueIn model).isWritable then .ok (entry.markup f.settings.nullDisplay model)
      else Outcome.fault .wrongValue := by
  have hattributes : tagAttributes (entry.record model).options =
      .ok (classAttribute [entry.property]) := by
    apply tagAttributes_classOption (List.cons_ne_nil _ _)
    intro word hword
    rw [List.mem_singleton.mp hword]
    exact words_of_isHyphenated h.wellFormed.property
  have hvalue := format_resolvedFormat h f (entry.valueIn model)
  have hsame : (entry.record model).value = entry.valueIn model := rfl
  rw [Record.render, markup, hsame]
  by_cases he : Record.isEmptyText (entry.valueIn model) = true
  · rw [if_pos he, if_pos he, if_pos (Record.isWritable_of_isEmptyText he)]
  · have hshown : (entry.record model).substitute f Settings.standard.defaultTemplate = _ :=
      Record.substitute_standard hattributes rfl
    rw [if_neg he, if_neg he]
    refine hshown.trans ?_
    have hformat : (entry.record model).format.toValue = .text entry.resolvedFormat := rfl
    rw [hsame, hformat, hvalue]
    cases (entry.valueIn model).isWritable <;> rfl

end Shorthand

end SemanticMarkup
