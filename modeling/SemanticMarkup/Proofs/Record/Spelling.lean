import Mathlib.Data.List.Forall2
import SemanticMarkup.Proofs.Card.Built
import SemanticMarkup.Proofs.Record.Shorthand

/-!
# Two spellings of an entry

A shorthand can be given as a text, or as a mapping that holds exactly the parts
that are written. Both make the same record as far as the parts go. They part
ways over a format that is not written: the text stands for plain text, while
the mapping takes the usual format of the settings.
-/

namespace SemanticMarkup

namespace Shorthand

variable {entry : Shorthand}

/-- The mapping that holds exactly the written parts of a shorthand. -/
def mapping (entry : Shorthand) : Entries :=
  Entries.ofFields (entry.fields.filter fun field => !field.2.isNull)

theorem mapping_carries (entry : Shorthand) : entry.mapping.Carries entry.fields where
  listed := by
    intro e he
    obtain ⟨field, hfield, rfl⟩ := List.mem_map.mp he
    exact List.mem_map.mpr ⟨field, (List.mem_filter.mp hfield).1, rfl⟩
  complete := by
    intro e he hvalue
    obtain ⟨field, hfield, rfl⟩ := List.mem_map.mp he
    refine List.mem_map.mpr ⟨field, List.mem_filter.mpr ⟨hfield, ?_⟩, rfl⟩
    rw [(Value.isNull_eq_false_iff field.2).mpr hvalue, Bool.not_false]

/-- The usual format shows in the record of a shorthand exactly if none is written. -/
theorem filled_eq_filled_iff {usual other : String} {model : Entries} :
    entry.filled usual model = entry.filled other model ↔
      entry.format.isSome = true ∨ usual = other := by
  cases hf : entry.format with
  | some format => simp [filled, hf]
  | none =>
      simp only [Option.isSome_none, Bool.false_eq_true, false_or]
      constructor
      · intro h
        have hformat := congrArg Record.format h
        simpa [filled, hf] using hformat
      · rintro rfl
        rfl

end Shorthand

namespace Card

variable {site : Site} {p : Prepared} {model : Entries} {entries : List Shorthand}
  {mappings : List Entries}

/-- Shorthands as texts make records with the plain format where none is written. -/
theorem built_texts (hmodel : p.model = .dict model) (h : ∀ entry ∈ entries, entry.WellFormed) :
    Built site p (entries.map fun entry => .text entry.written)
      (entries.map fun entry => entry.filled "text" model) := by
  induction entries with
  | nil => exact .nil p
  | cons entry rest ih =>
      obtain ⟨hentry, hrest⟩ := List.forall_mem_cons.mp h
      have hfill := Shorthand.fillPlain_ofShorthand hentry.partsFit site.settings model ""
      rw [← hmodel] at hfill
      exact .plain (Shorthand.ofValue_written hentry) rfl rfl hfill (ih hrest)

/-- Shorthands as mappings make records with the usual format where none is written. -/
theorem built_mappings (hmodel : p.model = .dict model)
    (h : ∀ entry ∈ entries, entry.WellFormed)
    (hmappings : List.Forall₂ (fun entry mapping => Entries.Carries mapping entry.fields) entries
      mappings) :
    Built site p (mappings.map .dict)
      (entries.map fun entry => entry.filled site.settings.defaultFormat model) := by
  induction hmappings with
  | nil => exact .nil p
  | @cons entry mapping rest others hmapping tail ih =>
      obtain ⟨hentry, hrest⟩ := List.forall_mem_cons.mp h
      have hvalue := Shorthand.valueOf_of_carries hmapping
      have hshown : isHidden mapping = false := by
        rw [isHidden, hvalue]
        rfl
      have hfill := Shorthand.fillPlain_of_carries hentry.partsFit hmapping site.settings model ""
      rw [← hmodel] at hfill
      exact .plain rfl hshown (hvalue "microformat") hfill (ih hrest)

/-- What is built from a list of values is what the list is normalized to. -/
theorem outcome_recordsOf_withList {values : List Value} {records : List Record}
    (hdepth : p.depth ≤ site.settings.maxEmbedDepth)
    (h : Built site (p.withList values) values records) :
    (recordsOf site (p.withList values)).outcome = .ok records :=
  (outcome_recordsOf_eq_ok_iff (p := p.withList values) hdepth).mpr ⟨values, rfl, h⟩

variable (site)

theorem outcome_recordsOf_texts (h : ∀ entry ∈ entries, entry.WellFormed)
    (hmodel : p.model = .dict model) (hdepth : p.depth ≤ site.settings.maxEmbedDepth) :
    (recordsOf site (p.withList (entries.map fun entry => .text entry.written))).outcome =
      .ok (entries.map fun entry => entry.filled "text" model) :=
  outcome_recordsOf_withList hdepth (built_texts hmodel h)

theorem outcome_recordsOf_mappings (h : ∀ entry ∈ entries, entry.WellFormed)
    (hmappings : List.Forall₂ (fun entry mapping => Entries.Carries mapping entry.fields) entries
      mappings)
    (hmodel : p.model = .dict model) (hdepth : p.depth ≤ site.settings.maxEmbedDepth) :
    (recordsOf site (p.withList (mappings.map .dict))).outcome =
      .ok (entries.map fun entry => entry.filled site.settings.defaultFormat model) :=
  outcome_recordsOf_withList hdepth (built_mappings hmodel h hmappings)

/-- Shorthands given as texts and as mappings make records with the same parts; only a format that
is not written is the plain one for texts and the usual one for mappings. So the two spellings
agree exactly if all formats are written or the usual format is the plain one. -/
theorem recordsOf_spellings (site : Site) {p : Prepared} {model : Entries}
    {entries : List Shorthand} {mappings : List Entries}
    (h : ∀ entry ∈ entries, entry.WellFormed)
    (hmappings : List.Forall₂ (fun entry mapping => Entries.Carries mapping entry.fields) entries
      mappings)
    (hmodel : p.model = .dict model) (hdepth : p.depth ≤ site.settings.maxEmbedDepth) :
    (recordsOf site (p.withList (entries.map fun entry => .text entry.written))).outcome =
        .ok (entries.map fun entry => entry.filled "text" model) ∧
      (recordsOf site (p.withList (mappings.map .dict))).outcome =
        .ok (entries.map fun entry => entry.filled site.settings.defaultFormat model) ∧
      ((recordsOf site (p.withList (entries.map fun entry => .text entry.written))).outcome =
          (recordsOf site (p.withList (mappings.map .dict))).outcome ↔
        ∀ entry ∈ entries, entry.format.isSome = true ∨ "text" = site.settings.defaultFormat) := by
  have htexts := outcome_recordsOf_texts site h hmodel hdepth
  have hmapped := outcome_recordsOf_mappings site h hmappings hmodel hdepth
  refine ⟨htexts, hmapped, ?_⟩
  rw [htexts, hmapped, Except.ok.injEq, List.map_inj_left]
  exact forall₂_congr fun _ _ => Shorthand.filled_eq_filled_iff

/-- A checked request for the microformat of a person. -/
def personRequest : Prepared :=
  { engine := .basic, root := "h-card", depth := 0, options := []
    template := .text Settings.standard.defaultTemplate
    model := .dict [(.text "name", .text "Ada")], attributes := .null }

/-- A shorthand that is a property alone, and one with all parts. -/
def personEntries : List Shorthand :=
  [⟨"p-name", none, none, none⟩, ⟨"p-note", some "note.text", some "ntext", some "a:b"⟩]

theorem carries_personEntries :
    List.Forall₂ (fun entry mapping => Entries.Carries mapping entry.fields) personEntries
      (personEntries.map Shorthand.mapping) :=
  .cons (Shorthand.mapping_carries _) (.cons (Shorthand.mapping_carries _) .nil)

theorem recordsOf_spellings_personEntries :
    (∀ entry ∈ personEntries, entry.WellFormed) ∧
      personRequest.depth ≤ Settings.standard.maxEmbedDepth ∧
      (recordsOf (Site.ofComplete .standard)
          (personRequest.withList (personEntries.map fun entry => .text entry.written))).outcome =
        (recordsOf (Site.ofComplete .standard) (personRequest.withList
          ((personEntries.map Shorthand.mapping).map .dict))).outcome := by
  have hwf : ∀ entry ∈ personEntries, entry.WellFormed := by decide
  have hdepth : personRequest.depth ≤ Settings.standard.maxEmbedDepth := by decide
  obtain ⟨-, -, hagree⟩ := recordsOf_spellings (Site.ofComplete .standard) hwf
    carries_personEntries rfl hdepth
  exact ⟨hwf, hdepth, hagree.mpr fun _ _ => .inr rfl⟩

/-- The settings with markup as the usual format. -/
def htmlSettings : Settings :=
  { Settings.standard with defaultFormat := "html" }

/-- With another usual format, a property alone makes two different records. -/
theorem recordsOf_texts_ne_mappings :
    (recordsOf (Site.ofComplete htmlSettings)
        (personRequest.withList (personEntries.map fun entry => .text entry.written))).outcome ≠
      (recordsOf (Site.ofComplete htmlSettings) (personRequest.withList
        ((personEntries.map Shorthand.mapping).map .dict))).outcome := by
  have hwf : ∀ entry ∈ personEntries, entry.WellFormed := by decide
  have hdepth : personRequest.depth ≤ htmlSettings.maxEmbedDepth := by decide
  have htexts := outcome_recordsOf_texts (Site.ofComplete htmlSettings) hwf rfl hdepth
  have hmapped := outcome_recordsOf_mappings (Site.ofComplete htmlSettings) hwf
    carries_personEntries rfl hdepth
  rw [htexts, hmapped, Ne, Except.ok.injEq, List.map_inj_left]
  intro hall
  obtain hformat | husual := Shorthand.filled_eq_filled_iff.mp
    (hall _ (List.mem_cons_self : _ ∈ personEntries))
  · cases hformat
  · exact absurd husual (by decide)

end Card

end SemanticMarkup
