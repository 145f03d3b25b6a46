import SemanticMarkup.Card.Build
import SemanticMarkup.Proofs.Record.Shorthand

/-!
# Outlines

An outline is a list of shorthands and of entries that embed a microformat with
such a list, at all levels. It says what each entry stands for, and its markup
is given by recursion on it.

## Implementation notes

The fields of an embedding entry may come in any order, and those without a value
may be missing. An embedded microformat may have a mapping of its own; one without
entries counts as none.
-/

namespace SemanticMarkup

open SemanticMarkup.Text SemanticMarkup.Markup

/-- A list of shorthands and of entries that embed a microformat. -/
inductive Outline where
  /-- No entries. -/
  | nil
  /-- A shorthand and what follows. -/
  | plain (entry : Shorthand) (rest : Outline)
  /-- An entry that embeds a microformat, and what follows. -/
  | embedded (property : Option String) (root : String) (own : Option Entries)
      (inner rest : Outline)

namespace Outline

/-- The model that an entry names. -/
def ownModel : Option Entries → Value
  | none => .null
  | some model => .dict model

/-- The names of the fields of an entry that embeds a microformat. -/
def fieldNames : List String :=
  ["property", "microformat", "model", "attributes", "class", "label", "options", "template",
    "visible"]

/-- The fields of an entry that embeds a microformat; the last ones have no value. -/
def fields (property : Option String) (root : String) (own : Option Entries)
    (within : List Value) : Fields :=
  [("property", Record.textValue property), ("microformat", .text root), ("model", ownModel own),
    ("attributes", .list within), ("class", .null), ("label", .null), ("options", .null),
    ("template", .null), ("visible", .null)]

/-- The lists of entries that an outline stands for. -/
inductive ListedAs : Outline → List Value → Prop
  /-- The empty list. -/
  | nil : ListedAs .nil []
  /-- A shorthand as a text. -/
  | plain {entry rest values} (tail : ListedAs rest values) :
      ListedAs (.plain entry rest) (.text entry.written :: values)
  /-- A mapping with the fields of the embedding entry. -/
  | embedded {property root own inner rest within entries values}
      (carries : Entries.Carries entries (fields property root own within))
      (nested : ListedAs inner within) (tail : ListedAs rest values) :
      ListedAs (.embedded property root own inner rest) (.dict entries :: values)

/-- All shorthands are plain, and all properties and root types are hyphenated names. -/
def WellFormed : Outline → Prop
  | nil => True
  | plain entry rest => entry.Plain ∧ WellFormed rest
  | embedded property root _ inner rest =>
      (∀ name ∈ property, isHyphenated name.toList = true) ∧
        isHyphenated root.toList = true ∧ WellFormed inner ∧ WellFormed rest

/-- The root types have the start that is required, and no microformat lies too deep. -/
def Fits (settings : Settings) : Outline → Int → Prop
  | nil, _ => True
  | plain _ rest, depth => Fits settings rest depth
  | embedded _ root _ inner rest, depth =>
      settings.rootPrefix.toList.isPrefixOf root.toList = true ∧
        depth + 1 ≤ settings.maxEmbedDepth ∧ Fits settings inner (depth + 1) ∧
        Fits settings rest depth

instance decidableWellFormed : (outline : Outline) → Decidable outline.WellFormed
  | nil => .isTrue trivial
  | plain entry rest =>
      have := decidableWellFormed rest
      inferInstanceAs (Decidable (entry.Plain ∧ rest.WellFormed))
  | embedded property root _ inner rest =>
      have := decidableWellFormed inner
      have := decidableWellFormed rest
      inferInstanceAs (Decidable ((∀ name ∈ property, isHyphenated name.toList = true) ∧
        isHyphenated root.toList = true ∧ inner.WellFormed ∧ rest.WellFormed))

instance decidableFits (settings : Settings) :
    (outline : Outline) → (depth : Int) → Decidable (outline.Fits settings depth)
  | nil, _ => .isTrue trivial
  | plain _ rest, depth => decidableFits settings rest depth
  | embedded _ root _ inner rest, depth =>
      have := decidableFits settings inner (depth + 1)
      have := decidableFits settings rest depth
      inferInstanceAs (Decidable (settings.rootPrefix.toList.isPrefixOf root.toList = true ∧
        depth + 1 ≤ settings.maxEmbedDepth ∧ inner.Fits settings (depth + 1) ∧
        rest.Fits settings depth))

/-- The mapping that an embedded microformat shows: its own, or that of the card around it. -/
def scope (own : Option Entries) (model : Entries) : Entries :=
  match own with
  | some (e :: more) => e :: more
  | _ => model

/-- Every value that an outline shows of a mapping has a text. -/
def HasTexts : Outline → Entries → Prop
  | nil, _ => True
  | plain entry rest, model =>
      (entry.valueIn model).isWritable = true ∧ HasTexts rest model
  | embedded _ _ own inner rest, model =>
      HasTexts inner (scope own model) ∧ HasTexts rest model

instance decidableHasTexts : (outline : Outline) → (model : Entries) →
    Decidable (outline.HasTexts model)
  | nil, _ => .isTrue trivial
  | plain entry rest, model =>
      have := decidableHasTexts rest model
      inferInstanceAs (Decidable ((entry.valueIn model).isWritable = true ∧ rest.HasTexts model))
  | embedded _ _ own inner rest, model =>
      have := decidableHasTexts inner (scope own model)
      have := decidableHasTexts rest model
      inferInstanceAs (Decidable (inner.HasTexts (scope own model) ∧ rest.HasTexts model))

/-- The classes of an embedded microformat: its property and, if it is another, its root type. -/
def classes (property : Option String) (root : String) : List String :=
  match property with
  | none => [root]
  | some name => if root = name then [name] else [name, root]

/-- The markup of the entries of an outline, if all that they show has texts. -/
def content (site : Site) (engine : Engine) : Outline → Entries → String
  | nil, _ => ""
  | plain entry rest, model =>
      entry.markup site.formatter.settings.nullDisplay model ++ content site engine rest model
  | embedded property root own inner rest, model =>
      Card.outputOf engine (Markup.element site.settings.containerTag
        (classAttribute (classes property root)) (content site engine inner (scope own model))) ++
        content site engine rest model

/-- The options that a property stands for. -/
def classOptions : Option String → Entries
  | none => []
  | some name => classOption [name]

theorem orElse_ownModel (own : Option Entries) (model : Entries) :
    Card.orElse (ownModel own) (.dict model) = .dict (scope own model) := by
  cases own with
  | none => rfl
  | some own => cases own <;> rfl

section Classes

variable {property : Option String} {root : String}

theorem words_of_mem_classes (h : ∀ name ∈ property, isHyphenated name.toList = true)
    (hroot : isHyphenated root.toList = true) :
    ∀ word ∈ classes property root, words word = [word] := by
  intro word hword
  have hnames : (∃ name, property = some name ∧ word = name) ∨ word = root := by
    cases property with
    | none => exact .inr (List.mem_singleton.mp hword)
    | some name =>
        rw [classes] at hword
        split at hword
        · exact .inl ⟨name, rfl, List.mem_singleton.mp hword⟩
        · obtain rfl | hword := List.mem_cons.mp hword
          · exact .inl ⟨word, rfl, rfl⟩
          · exact .inr (List.mem_singleton.mp hword)
  obtain ⟨name, hname, rfl⟩ | rfl := hnames
  · exact words_of_isHyphenated (h word hname)
  · exact words_of_isHyphenated hroot

theorem classes_ne_nil : classes property root ≠ [] := by
  cases property with
  | none => exact List.cons_ne_nil _ _
  | some name =>
      rw [classes]
      split <;> exact List.cons_ne_nil _ _

/-- The root type is added to the classes behind the property. -/
theorem addClass_classOptions (h : ∀ name ∈ property, isHyphenated name.toList = true)
    (hroot : isHyphenated root.toList = true) :
    addClass (classOptions property) root = .ok (classOption (classes property root)) := by
  cases property with
  | none =>
      rw [classOptions, addClass_nil, withWords, words_of_isHyphenated hroot]
      rfl
  | some name =>
      have hname : ∀ word ∈ [name], words word = [word] := by
        intro word hword
        rw [List.mem_singleton.mp hword]
        exact words_of_isHyphenated (h name rfl)
      rw [classOptions, addClass_classOption hname, withWords, words_of_isHyphenated hroot, classes,
        List.foldl_cons, List.foldl_nil]
      by_cases hr : root = name
      · rw [if_pos (List.mem_singleton.mpr hr), if_pos hr]
      · rw [if_neg (fun hc => hr (List.mem_singleton.mp hc)), if_neg hr]
        rfl

end Classes

section Entry

variable {property : Option String} {root : String} {own : Option Entries} {within : List Value}
  {entries : Entries}

theorem valueOf_of_carries (h : entries.Carries (fields property root own within)) (name : String) :
    entries.valueOf name = Fields.valueOf (fields property root own within) name :=
  h.valueOf (show fieldNames.Nodup by decide) name

/-- No field of an embedding entry breaks its rule. -/
theorem faults_of_carries (h : entries.Carries (fields property root own within))
    (hproperty : ∀ name ∈ property, isHyphenated name.toList = true)
    (hroot : isHyphenated root.toList = true) : Rules.faults entries = [] := by
  have hembeds : entries.hasName "microformat" = true := by
    apply Entries.hasName_of_valueOf_ne_null
    rw [valueOf_of_carries h]
    intro hnull
    cases hnull
  have hname : Rules.nullable Rules.hyphenated (Record.textValue property) = none := by
    cases property with
    | none => rfl
    | some name => exact Rules.hyphenated_eq_none_iff.mpr ⟨name, rfl, hproperty name rfl⟩
  have hrule : Rules.hyphenated (.text root) = none :=
    Rules.hyphenated_eq_none_iff.mpr ⟨root, rfl, hroot⟩
  rw [Rules.faults, List.filterMap_eq_nil_iff, hembeds, if_pos rfl]
  intro e he
  rw [Option.map_eq_none_iff]
  have hlisted := h.listed e he
  simp only [fields, Entries.ofFields, List.map_cons, List.map_nil, List.mem_cons,
    List.not_mem_nil, or_false] at hlisted
  rcases hlisted with rfl | rfl | rfl | rfl | rfl | rfl | rfl | rfl | rfl
  · exact hname
  · exact hrule
  all_goals rfl

theorem forbidden_of_carries (h : entries.Carries (fields property root own within)) :
    Card.forbiddenNames.find? entries.hasName = none := by
  have hapart : ∀ name ∈ Card.forbiddenNames, name ∉ fieldNames := by decide
  rw [List.find?_eq_none]
  intro name hname
  have hnone := h.named?_eq_none (show name ∉ fieldNames from hapart name hname)
  rw [Entries.hasName, hnone]
  exact Bool.false_ne_true

theorem entryOptions_of_carries (h : entries.Carries (fields property root own within))
    (hproperty : ∀ name ∈ property, isHyphenated name.toList = true) :
    Card.entryOptions entries = .ok (classOptions property) := by
  have hoptions : entries.valueOf "options" = .null := valueOf_of_carries h "options"
  have hvalue : entries.valueOf "property" = Record.textValue property :=
    valueOf_of_carries h "property"
  cases property with
  | none =>
      rw [Card.entryOptions, hoptions, hvalue]
      rfl
  | some name => exact Card.entryOptions_of_isHyphenated (hproperty name rfl) hoptions hvalue

/-- The request for an embedded microformat. -/
def requestOf (p : Prepared) (property : Option String) (root : String) (model : Entries)
    (within : List Value) : Request :=
  { engine := p.engine, root := .text root, model := .dict model, attributes := .list within
    template := .null, options := .dict (classOptions property), depth := some (p.depth + 1) }

theorem nestedRequest_of_carries (h : entries.Carries (fields property root own within))
    (hproperty : ∀ name ∈ property, isHyphenated name.toList = true)
    (registry : Registry) {p : Prepared} {model : Entries} (hmodel : p.model = .dict model) :
    Card.nestedRequest registry p entries =
      .ok (requestOf p property root (scope own model) within) := by
  have hclass : entries.valueOf "class" = .null := valueOf_of_carries h "class"
  have hroot : entries.valueOf "microformat" = .text root := valueOf_of_carries h "microformat"
  have hown : entries.valueOf "model" = ownModel own := valueOf_of_carries h "model"
  have hlist : entries.valueOf "attributes" = .list within := valueOf_of_carries h "attributes"
  have htemplate : entries.valueOf "template" = .null := valueOf_of_carries h "template"
  rw [Card.nestedRequest, entryOptions_of_carries h hproperty, Card.nestedEngine, hclass, hroot,
    hown, hlist, htemplate, hmodel, orElse_ownModel]
  rfl

theorem isHidden_of_carries (h : entries.Carries (fields property root own within)) :
    Card.isHidden entries = false := by
  have hvisible : entries.valueOf "visible" = .null := valueOf_of_carries h "visible"
  rw [Card.isHidden, hvisible]
  rfl

end Entry

end Outline

end SemanticMarkup
