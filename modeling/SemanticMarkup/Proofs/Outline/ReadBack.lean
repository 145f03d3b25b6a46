import SemanticMarkup.Proofs.Markup.Forest
import SemanticMarkup.Proofs.Outline.Card

/-!
# Reading the markup of an outline

With the standard settings, a card of shorthands without formats and of embedded
microformats is written as one row of elements, if the values that it shows have
texts. The reader of markup, which knows nothing of cards, finds this row again: the
classes, the labels and the texts of the values.

## Implementation notes

Classes are not repeated, so an embedded microformat whose property is its root
type has one class only.
-/

namespace SemanticMarkup

open SemanticMarkup.Text SemanticMarkup.Markup

/-- A text as the content of an element; the empty text is no content. -/
def Markup.Forest.leaf (s : String) : Forest :=
  if s = "" then .nil else .text s .nil

namespace Outline

/-- What a value shows: its text, and nothing if it is missing. -/
def plainText (v : Value) : String :=
  if v.isNull then "" else v.display

/-- The elements of the entries of an outline. -/
def tree : Outline → Entries → Forest
  | nil, _ => .nil
  | plain entry rest, model =>
      if Record.isEmptyText (entry.valueIn model) then tree rest model
      else
        .element "div" [entry.property]
          (.element "span" ["label"] (.leaf (ModelAccess.humanize entry.resolvedPath))
            (.element "span" ["value"] (.leaf (plainText (entry.valueIn model))) .nil))
          (tree rest model)
  | embedded property root own inner rest, model =>
      .element "div" (classes property root) (tree inner (scope own model)) (tree rest model)

/-- No shorthand has a format. -/
def Unformatted : Outline → Prop
  | nil => True
  | plain entry rest => entry.format = none ∧ Unformatted rest
  | embedded _ _ _ inner rest => Unformatted inner ∧ Unformatted rest

end Outline

namespace Markup.Forest

theorem write_leaf (s : String) : (leaf s).write = escape s := by
  by_cases hs : s = ""
  · rw [leaf, if_pos hs, hs]
    rfl
  · rw [leaf, if_neg hs, write, write, String.append_empty]

theorem proper_leaf (s : String) : (leaf s).Proper := by
  by_cases hs : s = ""
  · rw [leaf, if_pos hs]
    trivial
  · rw [leaf, if_neg hs]
    exact ⟨hs, rfl, trivial⟩

end Markup.Forest

/-- The markup of a shorthand is an element with its label and its value. -/
theorem Record.entryMarkup_eq_write (classes : List String) {label : String}
    (hlabel : escape label = label) (shown : String) (rest : Forest) :
    entryMarkup (classAttribute classes) label (escape shown) ++ rest.write =
      Forest.write (.element "div" classes
        (.element "span" ["label"] (.leaf label)
          (.element "span" ["value"] (.leaf shown) .nil)) rest) := by
  have hdiv : String.ofList (escapeWith tagQuotes "div".toList) = "div" := by decide
  have hspan : String.ofList (escapeWith tagQuotes "span".toList) = "span" := by decide
  have hclassLabel : classAttribute ["label"] = " class=\"label\"" := by decide +kernel
  have hclassValue : classAttribute ["value"] = " class=\"value\"" := by decide +kernel
  simp only [entryMarkup, Forest.write, Forest.write_leaf, Markup.element, hdiv, hspan, hlabel,
    hclassLabel, hclassValue, String.append_empty]
  apply String.toList_inj.mp
  simp only [String.toList_append, List.append_assoc]
  rfl

namespace Outline

/-- A shorthand without a format shows the escaped text of its value. -/
theorem textOf_unformatted {entry : Shorthand} (h : entry.format = none) (v : Value) :
    entry.textOf "" v = escape (plainText v) := by
  have hformat : FormatName.ofText? entry.resolvedFormat = some .text := by
    rw [Shorthand.resolvedFormat, h]
    exact FormatName.ofText?_written .text
  rw [Shorthand.textOf, plainText, hformat]
  split
  · rfl
  · rfl

variable {outline : Outline}

/-- The markup of an outline is what is written of its elements. -/
theorem content_eq_write (hwf : outline.WellFormed) (hplain : outline.Unformatted)
    (model : Entries) :
    outline.content (Site.ofComplete .standard) .basic model = (outline.tree model).write := by
  induction outline generalizing model with
  | nil => rfl
  | plain entry rest ih =>
      obtain ⟨hentry, hrest⟩ := hwf
      obtain ⟨hformat, hplain⟩ := hplain
      have hlabel := Shorthand.escape_humanize_resolvedPath hentry.wellFormed
      rw [content, ih hrest hplain, tree, Shorthand.markup]
      split
      · exact String.empty_append
      · have hshown := textOf_unformatted hformat (entry.valueIn model)
        rw [← Record.entryMarkup_eq_write _ hlabel, ← hshown]
        rfl
  | embedded property root own inner rest ihInner ihRest =>
      obtain ⟨-, -, hinner, hrest⟩ := hwf
      rw [content, tree, Forest.write, ihInner hinner hplain.1, ihRest hrest hplain.2]
      rfl

/-- The elements of an outline can be written and read. -/
theorem proper_tree (hwf : outline.WellFormed) (model : Entries) :
    (outline.tree model).Proper := by
  have hdiv : Forest.IsTagName "div" := by decide
  have hspan : Forest.IsTagName "span" := by decide
  induction outline generalizing model with
  | nil => trivial
  | plain entry rest ih =>
      obtain ⟨hentry, hrest⟩ := hwf
      have hproperty : ∀ word ∈ [entry.property], words word = [word] := by
        intro word hword
        rw [List.mem_singleton.mp hword]
        exact words_of_isHyphenated hentry.wellFormed.property
      rw [tree]
      split
      · exact ih hrest model
      · exact ⟨hdiv, hproperty,
          ⟨hspan, by decide, Forest.proper_leaf _, hspan, by decide, Forest.proper_leaf _, trivial⟩,
          ih hrest model⟩
  | embedded property root own inner rest ihInner ihRest =>
      obtain ⟨hproperty, hroot, hinner, hrest⟩ := hwf
      exact ⟨hdiv, words_of_mem_classes hproperty hroot, ihInner hinner _, ihRest hrest model⟩

/-- What is asked of the standard engine for an outline, without options, at the outermost level. -/
def request (root : String) (model : Entries) (values : List Value) : Request :=
  { engine := .basic, root := .text root, model := .dict model, attributes := .list values
    template := .null, options := .null, depth := some 0 }

/-- Markup can be read back: the widget of an outline that fits is made, if every value that it
shows has a text, and the reader finds one element with the classes of the root type and, in their
order, the elements of the entries that show anything. For a value without a text, no widget is
made. -/
theorem read_widget {values : List Value} {root : String} {model : Entries}
    (hlist : outline.ListedAs values) (hwf : outline.WellFormed) (hplain : outline.Unformatted)
    (hfits : outline.Fits .standard 0) (hroot : "h-".toList.isPrefixOf root.toList = true) :
    (outline.HasTexts model →
      ∃ html, (Card.widget (Site.ofComplete .standard) (request root model values)).outcome =
          .ok html ∧
        Forest.read html =
          some (.element "div" (withWords [] root) (outline.tree model) .nil)) ∧
    (¬ outline.HasTexts model →
      (Card.widget (Site.ofComplete .standard) (request root model values)).outcome =
        Outcome.fault .wrongValue) := by
  have hfilled : root ≠ "" := by
    rintro rfl
    exact absurd hroot (by decide)
  have hclasses : ∀ word ∈ withWords [] root, words word = [word] := by
    intro word hword
    obtain hword | hword := mem_withWords.mp hword
    · cases hword
    · exact words_of_mem_words hword
  have hsome : withWords [] root ≠ [] := by
    obtain ⟨rest, hrest⟩ := List.isPrefixOf_iff_prefix.mp hroot
    have hstart : root.toList = 'h' :: '-' :: rest := hrest.symm
    obtain ⟨word, hword⟩ := List.exists_mem_of_ne_nil _ (words_ne_nil hstart (by decide))
    exact List.ne_nil_of_mem (mem_withWords.mpr (.inr hword))
  let p : Prepared :=
    { engine := .basic, root := root, depth := 0, options := []
      template := .text Settings.standard.defaultTemplate, model := .dict model
      attributes := .list values }
  have hcheck : Request.checkRoot .standard (.text root) = .ok root :=
    Request.checkRoot_text_eq_ok_iff.mpr ⟨hfilled, hroot, rfl⟩
  have hp : (request root model values).prepare (Site.ofComplete .standard).settings = .ok p :=
    Request.prepare_eq_ok_iff.mpr ⟨root, 0, [], _, hcheck,
      Request.checkDepth_eq_ok_iff.mpr ⟨rfl, by decide⟩, rfl, rfl, rfl⟩
  have hdefault : (Site.ofComplete .standard).settings.defaultTemplate =
      Settings.standard.defaultTemplate := rfl
  have ht : (p.card (Site.ofComplete .standard) []).tag = .ok "div" := rfl
  have ha := tagAttributes_classOption hsome hclasses
  refine ⟨fun hhas => ?_, fun hlacks => ?_⟩
  case refine_2 =>
    exact widget_eq_fault hdefault hlist hwf rfl rfl rfl hp hfits (addClass_nil root) ha ht hlacks
  have hmade := (widget_eq_ok_iff hdefault hlist hwf rfl rfl rfl).mpr
    ⟨p, _, _, _, hp, hfits, hhas, addClass_nil root, ha, ht, rfl⟩
  refine ⟨_, hmade, ?_⟩
  have hproper : (Forest.element "div" (withWords [] root) (outline.tree model) .nil).Proper :=
    ⟨by decide, hclasses, proper_tree hwf model, trivial⟩
  have hread := Forest.read_write hproper
  rw [Forest.write, ← content_eq_write hwf hplain, Forest.write, String.append_empty] at hread
  exact hread

/-- A name, an address and a note. -/
def noted : Outline :=
  .plain ⟨"p-name", none, none, none⟩
    (.embedded (some "p-adr") "h-adr" none (.plain ⟨"p-locality", none, none, none⟩ .nil)
      (.plain ⟨"p-note", some "bio.short", none, none⟩ .nil))

/-- The entry that embeds the address. -/
def notedAddress : Entries :=
  Entries.ofFields [("microformat", .text "h-adr"), ("attributes", .list [.text "p-locality"]),
    ("property", .text "p-adr")]

/-- A mapping without a name, with an empty locality, and with a note that looks like markup. -/
def notedModel : Entries :=
  Entries.ofFields [("locality", .text ""),
    ("bio", .dict (Entries.ofFields [("short", .text "<b>&amp;\x7bvalue\x7d")]))]

theorem listedAs_noted :
    noted.ListedAs [.text "p-name", .dict notedAddress, .text "p-note:bio.short"] := by
  have hname : Shorthand.written ⟨"p-name", none, none, none⟩ = "p-name" := by decide
  have hlocality : Shorthand.written ⟨"p-locality", none, none, none⟩ = "p-locality" := by decide
  have hnote : Shorthand.written ⟨"p-note", some "bio.short", none, none⟩ = "p-note:bio.short" := by
    decide
  have haddress : Entries.Carries notedAddress
      (fields (some "p-adr") "h-adr" none [.text "p-locality"]) := by
    constructor
    · simp [notedAddress, fields, Entries.ofFields, Record.textValue]
    · simp [notedAddress, fields, Entries.ofFields, Record.textValue, ownModel]
  rw [← hname, ← hnote]
  exact .plain (.embedded haddress (hlocality ▸ .plain .nil) (.plain .nil))

/-- The note is read as it is in the mapping, the name as no text, and the address as an element
without a locality. -/
theorem read_widget_noted :
    noted.HasTexts notedModel ∧
    ∃ html, (Card.widget (Site.ofComplete .standard) (request "h-card" notedModel
        [.text "p-name", .dict notedAddress, .text "p-note:bio.short"])).outcome = .ok html ∧
      Forest.read html = some (.element "div" ["h-card"]
        (.element "div" ["p-name"]
          (.element "span" ["label"] (.text "Name" .nil) (.element "span" ["value"] .nil .nil))
          (.element "div" ["p-adr", "h-adr"] .nil
            (.element "div" ["p-note"]
              (.element "span" ["label"] (.text "Bio Short" .nil)
                (.element "span" ["value"] (.text "<b>&amp;\x7bvalue\x7d" .nil) .nil))
              .nil))) .nil) := by
  have hplain : noted.Unformatted := ⟨rfl, ⟨rfl, trivial⟩, rfl, trivial⟩
  have hroot : "h-".toList.isPrefixOf "h-card".toList = true := by decide
  have hhas : noted.HasTexts notedModel := by decide +kernel
  obtain ⟨html, hmade, hread⟩ :=
    (read_widget listedAs_noted (by decide +kernel) hplain (by decide +kernel) hroot).1 hhas
  exact ⟨hhas, html, hmade, hread.trans (by decide +kernel)⟩

/-- An entry that embeds a microformat with its property as the root type. -/
def ownRoot : Entries :=
  Entries.ofFields [("property", .text "h-card"), ("microformat", .text "h-card"),
    ("attributes", .list [])]

/-- A property that is the root type is not read twice, and a name without a text is not shown. -/
theorem read_widget_ownRoot :
    (embedded (some "h-card") "h-card" none .nil .nil).ListedAs [.dict ownRoot] ∧
      (embedded (some "h-card") "h-card" none .nil .nil).WellFormed ∧
      (embedded (some "h-card") "h-card" none .nil .nil).Fits .standard 0 ∧
      (Card.widget (Site.ofComplete .standard)
          (request "h-card" [] [.dict ownRoot])).outcome.toOption.bind Forest.read =
        some (.element "div" ["h-card"] (.element "div" ["h-card"] .nil .nil) .nil) ∧
      (Card.widget (Site.ofComplete .standard)
          (request "h-card" [] [.dict ownRoot])).outcome.toOption.bind Forest.read ≠
        some (.element "div" ["h-card"] (.element "div" ["h-card", "h-card"] .nil .nil) .nil) ∧
      (Card.widget (Site.ofComplete .standard) (request "h-card" [(.text "name", .tooLong)]
          [.text "p-name"])).outcome = Outcome.fault .wrongValue := by
  have hcarries : Entries.Carries ownRoot (fields (some "h-card") "h-card" none []) := by
    constructor
    · simp [ownRoot, fields, Entries.ofFields, Record.textValue]
    · simp [ownRoot, fields, Entries.ofFields, Record.textValue, ownModel]
  exact ⟨.embedded hcarries .nil .nil, by decide +kernel, by decide +kernel, by decide +kernel,
    by decide +kernel, Outcome.eq_error_of_failure? (by decide +kernel)⟩

end Outline

end SemanticMarkup
