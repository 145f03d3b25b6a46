import SemanticMarkup.Proofs.Entry.Names
import SemanticMarkup.Proofs.Record.Options
import SemanticMarkup.Proofs.Steps

/-!
# What the rules leave open

The rules of an entry and the fields of a record are two descriptions of the same
data, and the rules ask for less: they accept texts with code points that no
character has, bytes in the place of a format, options with keys of any kind and
further fields with names of any kind. `exists_filled_iff` says what has to be added
to the rules for an entry to be read as a record.
-/

namespace SemanticMarkup

/-- A text is legible if its code points are those of characters, bytes if they encode characters.
Anything else is no writing. -/
def Value.Legible : Value → Prop
  | .garbled _ => False
  | .bytes bs => ∃ s, Text.decodeUtf8? bs = some s
  | _ => True

/-- All keys are read as names. -/
def Entries.Spelled (entries : Entries) : Prop :=
  ∀ e ∈ entries, ∃ name, e.1.Spells name

/-- All keys are names. -/
def Entries.Named (entries : Entries) : Prop :=
  ∀ e ∈ entries, ∃ name, e.1 = .text name

/-- The keys after an entry was put are those before and its own. -/
theorem Entries.spelled_putName_iff {entries : Entries} {name : String} {v : Value} :
    Entries.Spelled (entries.putName name v) ↔ entries.Spelled := by
  by_cases h : ∃ e ∈ entries, e.1 = .text name
  · rw [Spelled, putName_of_mem v h, List.forall_mem_map, Spelled]
    refine forall₂_congr fun e _ => ?_
    split <;> rfl
  · rw [Spelled, putName_of_not_mem v h, List.forall_mem_append]
    have hname : ∀ e ∈ [(Value.text name, v)], ∃ n, Value.Spells e.1 n := by
      rintro e he
      rw [List.mem_singleton] at he
      subst he
      exact ⟨name, .inl rfl⟩
    exact ⟨fun hall => hall.1, fun hall => ⟨hall, hname⟩⟩

/-- Entries are named values if all their keys are names. -/
theorem Entries.exists_ofFields_iff {entries : Entries} :
    (∃ fields, Entries.ofFields fields = entries) ↔ entries.Named := by
  constructor
  · rintro ⟨fields, rfl⟩ e he
    obtain ⟨f, -, rfl⟩ := List.mem_map.mp he
    exact ⟨f.1, rfl⟩
  · intro h
    induction entries with
    | nil => exact ⟨[], rfl⟩
    | cons e rest ih =>
        obtain ⟨⟨name, hname⟩, hrest⟩ := List.forall_mem_cons.mp h
        obtain ⟨fields, rfl⟩ := ih hrest
        exact ⟨(name, e.2) :: fields, by rw [ofFields, List.map_cons, ← hname]; rfl⟩

namespace Record

/-- What the rule for texts accepts is read if it is legible. -/
theorem exists_readText?_iff (path : List String) {v : Value}
    (hrule : Rules.nullable Rules.text v = none) :
    (∃ s, readText? path v = .ok s) ↔ v.Legible := by
  cases v with
  | null => exact ⟨fun _ => trivial, fun _ => ⟨none, rfl⟩⟩
  | text s => exact ⟨fun _ => trivial, fun _ => ⟨some s, rfl⟩⟩
  | garbled codes =>
      refine ⟨?_, False.elim⟩
      rintro ⟨s, hs⟩
      cases hs
  | _ => cases hrule

/-- What the rule for formats accepts is read if it is legible; without a format the usual one
is. -/
theorem exists_readFormat_iff (settings : Settings) (path : List String) {entries : Entries}
    (hrule : Rules.nullable Rules.format (entries.valueOf "format") = none) :
    (∃ f, readFormat path (Card.formatOf settings entries) = .ok f) ↔
      (entries.valueOf "format").Legible := by
  rw [Card.formatOf]
  generalize entries.valueOf "format" = v at hrule ⊢
  cases v with
  | null => exact ⟨fun _ => trivial, fun _ => ⟨_, rfl⟩⟩
  | text s => exact ⟨fun _ => trivial, fun _ => ⟨_, rfl⟩⟩
  | list parts => exact ⟨fun _ => trivial, fun _ => ⟨_, rfl⟩⟩
  | tuple parts => exact ⟨fun _ => trivial, fun _ => ⟨_, rfl⟩⟩
  | garbled codes =>
      refine ⟨?_, False.elim⟩
      rintro ⟨s, hs⟩
      cases hs
  | bytes bs =>
      simp only [readFormat, Reading.text, Value.Legible]
      cases Text.decodeUtf8? bs with
      | none =>
          constructor
          · rintro ⟨f, hf⟩
            cases hf
          · rintro ⟨s, hs⟩
            cases hs
      | some s => exact ⟨fun _ => ⟨s, rfl⟩, fun _ => ⟨_, rfl⟩⟩
  | _ => cases hrule

/-- Every entry of the options is read if all their keys are read as names. -/
theorem exists_map_dictEntry_iff (path : List String) (options : Entries) :
    (∃ named : Fields, options.map (Reading.dictEntry path Reading.any) = named.map .ok) ↔
      options.Spelled := by
  induction options with
  | nil => exact ⟨fun _ => nofun, fun _ => ⟨[], rfl⟩⟩
  | cons e rest ih =>
      rw [Entries.Spelled, List.forall_mem_cons, ← Entries.Spelled, ← ih]
      constructor
      · rintro ⟨named, hnamed⟩
        obtain ⟨f, others, rfl, hf, hothers⟩ := List.map_eq_cons_iff.mp hnamed.symm
        have hkey := (Reading.dictEntry_any_eq_ok_iff.mp hf.symm).1
        exact ⟨⟨f.1, Reading.text_eq_ok_iff.mp hkey⟩, others, hothers.symm⟩
      · rintro ⟨⟨name, hname⟩, others, hothers⟩
        have hread : Reading.dictEntry path Reading.any e = .ok (name, e.2) :=
          Reading.dictEntry_any_eq_ok_iff.mpr ⟨Reading.text_eq_ok_iff.mpr hname, rfl⟩
        exact ⟨(name, e.2) :: others, by rw [List.map_cons, List.map_cons, hothers, hread]⟩

theorem exists_readOptions_iff (path : List String) (options : Entries) :
    (∃ read, readOptions path (.dict options) = .ok read) ↔ options.Spelled := by
  rw [← exists_map_dictEntry_iff path]
  constructor
  · rintro ⟨read, hread⟩
    obtain ⟨named, hnamed, -⟩ := readOptions_eq_ok_iff.mp hread
    exact ⟨named, hnamed⟩
  · rintro ⟨named, hnamed⟩
    exact ⟨_, readOptions_eq_ok_iff.mpr ⟨named, hnamed, rfl⟩⟩

theorem gives_outcome {α : Type} (reading : Reading α) :
    Gives (fun e => ∃ problems, e = .invalid problems) anything reading.outcome := by
  cases reading with
  | ok a => exact trivial
  | error problems => exact ⟨problems, rfl⟩

/-- Entries that have a template or none are read as a record, or all their problems are told. -/
theorem gives_ofEntries {entries : Entries} {template : Option Template}
    (h : Template.ofValue ((given? entries "template").getD .null) = .ok template) :
    Gives (fun e => ∃ problems, e = .invalid problems) anything (ofEntries entries) := by
  rw [ofEntries, h, Outcome.ok_bind]
  dsimp only
  split
  · exact ⟨_, rfl⟩
  · exact gives_outcome _

end Record

namespace Card

open Record

variable {entries : Entries} {label : Value}

/-- The template of a faultless entry is one. -/
theorem exists_template_of_faults (hn : entries.valueOf "microformat" = .null)
    (hfaults : Rules.faults entries = []) :
    ∃ template, Template.ofValue (entries.valueOf "template") = .ok template := by
  have hrule := Rules.plain_of_faults hfaults hn
    (show _ = some ("template", Rules.nullable Rules.template) from rfl) rfl
  generalize entries.valueOf "template" = v at hrule
  cases v with
  | null | text _ | garbled _ | pattern _ | template _ => exact ⟨_, rfl⟩
  | _ => cases hrule

/-- The parts of a faultless entry are filled in to a record exactly if what the rules leave open
is in order. -/
theorem exists_filled_iff (settings : Settings) (name : Option String) (value : Value)
    (options : Entries) (hn : entries.valueOf "microformat" = .null)
    (hfaults : Rules.faults entries = []) (hlabel : Rules.nullable Rules.text label = none) :
    (∃ r, Filled settings entries name label value options r) ↔
      label.Legible ∧ (entries.valueOf "format").Legible ∧ (entries.valueOf "embedded").Legible ∧
        options.Spelled ∧ Entries.Named (foreign entries) := by
  have hformat := Rules.plain_of_faults hfaults hn
    (show _ = some ("format", Rules.nullable Rules.format) from rfl) rfl
  have hembedded := Rules.plain_of_faults hfaults hn
    (show _ = some ("embedded", Rules.nullable Rules.text) from rfl) rfl
  rw [← exists_readText?_iff ["label"] hlabel, ← exists_readFormat_iff settings ["format"] hformat,
    ← exists_readText?_iff ["embedded"] hembedded, ← exists_readOptions_iff ["options"],
    ← Entries.exists_ofFields_iff]
  constructor
  · rintro ⟨r, hr⟩
    exact ⟨⟨_, hr.label⟩, ⟨_, hr.format⟩, ⟨_, hr.embedded⟩, ⟨_, hr.options⟩, ⟨_, hr.extras⟩⟩
  · rintro ⟨⟨readLabel, hl⟩, ⟨readFormat, hf⟩, ⟨readEmbedded, he⟩, ⟨readOptions, ho⟩, ⟨extras, hx⟩⟩
    obtain ⟨template, ht⟩ := exists_template_of_faults hn hfaults
    obtain ⟨property, hp⟩ : ∃ property,
        readText? ["property"] (entries.valueOf "property") = .ok property := by
      obtain hnull | ⟨s, hs, -⟩ := Rules.property_of_faults hfaults hn
      · exact ⟨none, by rw [hnull]; rfl⟩
      · exact ⟨some s, by rw [hs]; rfl⟩
    exact ⟨{
      property := property
      path := name
      label := readLabel
      value := value
      format := readFormat
      options := readOptions
      template := template
      visible := true
      embedded := readEmbedded
      extras := extras
      given := fieldNames }, ⟨hp, rfl, hl, rfl, hf, ho, ht, rfl, he, hx, rfl⟩⟩

end Card

end SemanticMarkup
