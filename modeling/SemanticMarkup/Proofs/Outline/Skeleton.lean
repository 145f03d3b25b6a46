import SemanticMarkup.Proofs.Outline.Card

/-!
# The skeleton of markup

The skeleton of markup is the row of its brackets and quotes. Text from the model
is escaped wherever it is shown, so the skeleton of a card depends on no more than
which values are missing and which are the empty text: two runs on mappings that
agree on this make the same skeleton, if the values have texts.
-/

namespace SemanticMarkup

open SemanticMarkup.Text SemanticMarkup.Markup

/-- The brackets and quotes of markup, in their order. -/
def skeleton (markup : String) : List Char :=
  markup.toList.filter isMarkupChar

theorem skeleton_append (front back : String) :
    skeleton (front ++ back) = skeleton front ++ skeleton back := by
  rw [skeleton, String.toList_append, List.filter_append]
  rfl

/-- Escaped text has no skeleton. -/
theorem skeleton_escape (s : String) : skeleton (escape s) = [] := by
  rw [skeleton, List.filter_eq_nil_iff]
  intro c hc hmarkup
  rw [isMarkupChar_of_mem_escape hc] at hmarkup
  cases hmarkup

/-- The skeleton of a link does not depend on where it leads or on what it shows. -/
theorem skeleton_link (start target shown : String) :
    skeleton (start ++ escape target ++ "\">" ++ escape shown ++ "</a>") =
      skeleton start ++ skeleton "\">" ++ skeleton "</a>" := by
  simp only [skeleton_append, skeleton_escape, List.append_nil]

theorem skeleton_mailLink (s t : String) :
    skeleton (Formatter.mailLink s) = skeleton (Formatter.mailLink t) :=
  (skeleton_link _ s s).trans (skeleton_link _ t t).symm

theorem skeleton_webLink (s t : String) :
    skeleton (Formatter.webLink s) = skeleton (Formatter.webLink t) :=
  (skeleton_link _ _ s).trans (skeleton_link _ _ t).symm

/-- The skeleton of an element depends on that of its content. -/
theorem skeleton_element {content other : String} (h : skeleton content = skeleton other)
    (tag attributes : String) :
    skeleton (Markup.element tag attributes content) =
      skeleton (Markup.element tag attributes other) := by
  simp only [Markup.element, skeleton_append, h]

theorem skeleton_outputOf {markup other : String} (h : skeleton markup = skeleton other)
    (engine : Engine) :
    skeleton (Card.outputOf engine markup) = skeleton (Card.outputOf engine other) := by
  cases engine with
  | basic => exact h
  | marked mark => simp only [Card.outputOf, skeleton_append, h]

/-- Two values are both missing, both the empty text, or neither. -/
def Value.SameKind (v w : Value) : Prop :=
  v.isNull = w.isNull ∧ Record.isEmptyText v = Record.isEmptyText w

instance Value.decidableSameKind (v w : Value) : Decidable (v.SameKind w) :=
  inferInstanceAs (Decidable (v.isNull = w.isNull ∧ Record.isEmptyText v = Record.isEmptyText w))

/-- The skeleton of a shorthand depends on the kind of its value. -/
theorem Shorthand.skeleton_markup (entry : Shorthand) (nullDisplay : String)
    {model other : Entries} (h : (entry.valueIn model).SameKind (entry.valueIn other)) :
    skeleton (entry.markup nullDisplay model) = skeleton (entry.markup nullDisplay other) := by
  have htext : skeleton (entry.textOf nullDisplay (entry.valueIn model)) =
      skeleton (entry.textOf nullDisplay (entry.valueIn other)) := by
    rw [textOf, textOf, h.1]
    split
    · rfl
    · split
      · exact skeleton_mailLink _ _
      · exact skeleton_webLink _ _
      · rw [skeleton_escape, skeleton_escape]
  rw [markup, markup, h.2]
  split
  · rfl
  · simp only [Record.entryMarkup, skeleton_append, htext]

namespace Outline

/-- Two mappings agree on the kind of every value that an outline shows. -/
def Agree : Outline → Entries → Entries → Prop
  | nil, _, _ => True
  | plain entry rest, model, other =>
      (entry.valueIn model).SameKind (entry.valueIn other) ∧ Agree rest model other
  | embedded _ _ own inner rest, model, other =>
      Agree inner (scope own model) (scope own other) ∧ Agree rest model other

theorem skeleton_content (site : Site) (engine : Engine) {outline : Outline}
    {model other : Entries} (h : outline.Agree model other) :
    skeleton (outline.content site engine model) =
      skeleton (outline.content site engine other) := by
  induction outline generalizing model other with
  | nil => rfl
  | plain entry rest ih =>
      obtain ⟨hkind, hrest⟩ := h
      rw [content, content, skeleton_append, skeleton_append,
        entry.skeleton_markup site.formatter.settings.nullDisplay hkind, ih hrest]
  | embedded property root own inner rest ihInner ihRest =>
      obtain ⟨hinner, hrest⟩ := h
      have helement := skeleton_element (ihInner hinner) site.settings.containerTag
        (classAttribute (classes property root))
      rw [content, content, skeleton_append, skeleton_append, skeleton_outputOf helement engine,
        ihRest hrest]

/-- Text from the model cannot change the skeleton: where the widget of an outline is made for one
mapping, it is made with the same skeleton for every mapping that agrees on the kinds of the values,
unless one of these values has no text. -/
theorem skeleton_widget {site : Site} {outline : Outline} {values : List Value}
    {request : Request} {model other : Entries} {html : String}
    (hdefault : site.settings.defaultTemplate = Settings.standard.defaultTemplate)
    (hlist : outline.ListedAs values) (hwf : outline.WellFormed)
    (hattributes : request.attributes = .list values) (htemplate : request.template = .null)
    (hagree : outline.Agree model other)
    (h : (Card.widget site { request with model := .dict model }).outcome = .ok html) :
    (outline.HasTexts other →
      ∃ changed, (Card.widget site { request with model := .dict other }).outcome = .ok changed ∧
        skeleton changed = skeleton html) ∧
    (¬ outline.HasTexts other →
      (Card.widget site { request with model := .dict other }).outcome =
        Outcome.fault .wrongValue) := by
  let first : Request := { request with model := .dict model }
  let second : Request := { request with model := .dict other }
  have hfirst : first.attributes = .list values ∧ first.template = .null :=
    ⟨hattributes, htemplate⟩
  have hsecond : second.attributes = .list values ∧ second.template = .null :=
    ⟨hattributes, htemplate⟩
  obtain ⟨p, options, attributes, tag, hp, hfits, -, ho, ha, ht, rfl⟩ :=
    (widget_eq_ok_iff hdefault hlist hwf rfl hfirst.1 hfirst.2).mp h
  have hp' : second.prepare site.settings = .ok { p with model := .dict other } := by
    obtain ⟨root, depth, o, template, hr, hd, hread, hmade, rfl⟩ := Request.prepare_eq_ok_iff.mp hp
    exact Request.prepare_eq_ok_iff.mpr ⟨root, depth, o, template, hr, hd, hread, hmade, rfl⟩
  refine ⟨fun hhas => ?_, fun hlacks => ?_⟩
  · have hmade := (widget_eq_ok_iff hdefault hlist hwf rfl hsecond.1 hsecond.2).mpr
      ⟨_, options, attributes, tag, hp', hfits, hhas, ho, ha, ht, rfl⟩
    refine ⟨_, hmade, ?_⟩
    apply skeleton_outputOf
    apply skeleton_element
    exact (skeleton_content site p.engine hagree).symm
  · exact widget_eq_fault hdefault hlist hwf rfl hsecond.1 hsecond.2 hp' hfits ho ha ht hlacks

/-- A name, and an address with a mail address and a link. -/
def linked : Outline :=
  .plain ⟨"p-name", none, none, none⟩
    (.embedded none "h-adr" none
      (.plain ⟨"u-email", some "email", some "email", none⟩
        (.plain ⟨"u-url", some "url", some "url", none⟩ .nil)) .nil)

/-- The list of entries. -/
def linkedValues : List Value :=
  [.text "p-name", .dict (Entries.ofFields [("microformat", .text "h-adr"),
    ("attributes", .list [.text "u-email:email:email", .text "u-url:url:url"])])]

/-- What is asked for the entries, without a model. -/
def linkedRequest : Request :=
  { engine := .basic, root := .text "h-card", model := .null, attributes := .list linkedValues
    template := .null, options := .null, depth := some 0 }

theorem listedAs_linked : linked.ListedAs linkedValues := by
  have hname : Shorthand.written ⟨"p-name", none, none, none⟩ = "p-name" := by decide
  have hemail : Shorthand.written ⟨"u-email", some "email", some "email", none⟩ =
      "u-email:email:email" := by decide
  have hurl : Shorthand.written ⟨"u-url", some "url", some "url", none⟩ = "u-url:url:url" := by
    decide
  have hlist : ListedAs (.plain ⟨"u-email", some "email", some "email", none⟩
      (.plain ⟨"u-url", some "url", some "url", none⟩ .nil))
      [.text "u-email:email:email", .text "u-url:url:url"] := by
    rw [← hemail, ← hurl]
    exact .plain (.plain .nil)
  rw [linkedValues, ← hname]
  refine .plain (.embedded ?_ hlist .nil)
  constructor
  · simp [fields, Entries.ofFields]
  · simp [fields, Entries.ofFields, Record.textValue, ownModel]

/-- A mapping without a mail address. -/
def linkedModel : Entries :=
  Entries.ofFields [("name", .text "Ann"), ("url", .text "a.org")]

/-- The same with texts that look like markup. -/
def linkedMarkup : Entries :=
  Entries.ofFields [("name", .text "<b>"), ("url", .text "x://\"><i>")]

theorem agree_linked : linked.Agree linkedModel linkedMarkup := by
  have hkind : ∀ entry ∈ [⟨"p-name", none, none, none⟩,
      ⟨"u-email", some "email", some "email", none⟩, ⟨"u-url", some "url", some "url", none⟩],
      (Shorthand.valueIn entry linkedModel).SameKind (entry.valueIn linkedMarkup) := by
    decide +kernel
  simp only [List.forall_mem_cons] at hkind
  obtain ⟨hname, hemail, hurl, -⟩ := hkind
  exact ⟨hname, ⟨hemail, hurl, trivial⟩, trivial⟩

/-- Texts that look like markup make the skeleton of harmless ones. -/
theorem skeleton_widget_linked :
    ∃ html changed,
      (Card.widget (Site.ofComplete .standard)
        { linkedRequest with model := .dict linkedModel }).outcome = .ok html ∧
      (Card.widget (Site.ofComplete .standard)
        { linkedRequest with model := .dict linkedMarkup }).outcome = .ok changed ∧
      skeleton changed = skeleton html := by
  have hok : (Card.widget (Site.ofComplete .standard)
      { linkedRequest with model := .dict linkedModel }).outcome.isOk = true := by decide +kernel
  have hattributes : linkedRequest.attributes = .list linkedValues := rfl
  obtain ⟨html, hmade⟩ := Outcome.exists_of_isOk hok
  obtain ⟨changed, hother, hsame⟩ :=
    (skeleton_widget rfl listedAs_linked (by decide +kernel) hattributes rfl agree_linked hmade).1
      (by decide +kernel)
  exact ⟨html, changed, hmade, hother, hsame⟩

end Outline

end SemanticMarkup
