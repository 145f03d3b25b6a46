import Mathlib.Data.List.Forall2
import SemanticMarkup.Proofs.Entry.Grammar
import SemanticMarkup.Proofs.Record.Normal

/-!
# The record invariant

Each entry of a list that is shown makes one record, in the order of the list,
and nothing is missing in it, whatever the model and the settings are. The record
of an entry that embeds a microformat shows the output of that microformat, as it
would be rendered by a request of its own.

## Implementation notes

Options are declared to map texts. A class option that is written a second time
in bytes is read as the last one and overrides the classes that the property was
added to; this is the only case in which the property can be missing there.
-/

namespace SemanticMarkup

open SemanticMarkup.Text

namespace Card

variable {site : Site} {p : Prepared} {items : List Value} {records : List Record}

/-- The entry that a value is, if it is one and is shown. -/
def shown? (raw : Value) : Option Entries :=
  match Entry.ofValue raw with
  | .ok entries => if isHidden entries then none else some entries
  | .error _ => none

/-- The entries of a list that are shown. -/
def shownEntries (items : List Value) : List Entries :=
  items.filterMap shown?

theorem shownEntries_cons_of_hidden {raw : Value} {entries : Entries}
    (he : Entry.ofValue raw = .ok entries) (hh : isHidden entries = true) (rest : List Value) :
    shownEntries (raw :: rest) = shownEntries rest :=
  List.filterMap_cons_none (by simp only [shown?, he, if_pos hh])

theorem shownEntries_cons_of_shown {raw : Value} {entries : Entries}
    (he : Entry.ofValue raw = .ok entries) (hh : isHidden entries = false) (rest : List Value) :
    shownEntries (raw :: rest) = entries :: shownEntries rest :=
  List.filterMap_cons_some (by simp [shown?, he, hh])

/-- A record shows the output of the microformat that an entry embeds, as it is. -/
structure ShowsEmbedded (site : Site) (p : Prepared) (entries : Entries) (r : Record) : Prop where
  property : r.property = none
  path : r.path = none
  label : r.label = none
  format : r.format = .named "raw"
  options : r.options = []
  template : r.template = some (.text "\x7bvalue\x7d")
  root : ∃ root, entries.valueOf "microformat" = .text root ∧ r.embedded = some root
  value : ∃ request html, nestedRequest site.registry p entries = .ok request ∧
    (widget site request).outcome = .ok html ∧ r.value = .text html

/-- What holds of the record that is made of an entry. -/
structure Fits (site : Site) (p : Prepared) (entries : Entries) (r : Record) : Prop where
  visible : r.visible = true
  property : ∀ s, r.property = some s → s.toList ∈ Grammar.property
  path : r.property.isSome = true → r.path.isSome = true
  /-- The property is among the classes, unless the options override them. -/
  classes : ∀ s, r.property = some s → ¬ OverridesClass (entries.valueOf "options") →
    ∃ css, r.options.valueOf "class" = .text css ∧ s ∈ words css
  label : r.path.isSome = true → r.label.isSome = true
  value : r.path = none → r.value ≠ .null
  embedded : entries.valueOf "microformat" ≠ .null → ShowsEmbedded site p entries r

/-- The record of a plain entry fits it. -/
theorem fits_of_fillPlain {entries : Entries} {r : Record} {place : String}
    (hn : entries.valueOf "microformat" = .null)
    (hf : fillPlain site.settings p.model entries place = .ok r) : Fits site p entries r := by
  have hcomplete := complete_of_fillPlain hn hf
  exact {
    visible := hcomplete.visible
    property := fun s hs => Grammar.mem_property_iff.mpr (hcomplete.property s hs)
    path := hcomplete.path
    classes := by
      intro s hs hover
      obtain ⟨css, hmem, hnamed⟩ := classes_of_fillPlain hn (fun _ => hover) hf s hs
      exact ⟨css, Entries.valueOf_eq_of_named? hnamed, hmem⟩
    label := hcomplete.label
    value := hcomplete.value
    embedded := fun hm => absurd hn hm }

/-- The record of an embedded microformat fits the entry that embeds it. -/
theorem fits_embeddedRecord {entries : Entries} {request : Request} {inner : Prepared}
    {within : List Record} {markup : String} {contents : List Value}
    (hrequest : nestedRequest site.registry p entries = .ok request)
    (hinner : request.prepare site.settings = .ok inner)
    (hitems : entryList inner = .ok contents) (nested : Built site inner contents within)
    (hmarkup : (inner.card site within).markup = .ok markup) :
    Fits site p entries (embeddedRecord (textOf (entries.valueOf "microformat"))
      (outputOf inner.engine markup)) := by
  have hroot : ∃ root, entries.valueOf "microformat" = .text root := by
    obtain ⟨root, _, _, _, hroot, -⟩ := Request.prepare_eq_ok_iff.mp hinner
    have hasked : request.root = entries.valueOf "microformat" := by
      obtain ⟨options, engine, -, -, rfl⟩ := nestedRequest_eq_ok_iff.mp hrequest
      rfl
    exact ⟨root, hasked.symm.trans (Request.eq_text_of_checkRoot hroot)⟩
  have hhtml : (widget site request).outcome = .ok (outputOf inner.engine markup) :=
    outcome_widget_eq_ok_iff.mpr
      ⟨inner, contents, within, markup, hinner, hitems, nested, hmarkup, rfl⟩
  have hshows : ShowsEmbedded site p entries (embeddedRecord
      (textOf (entries.valueOf "microformat")) (outputOf inner.engine markup)) := {
    property := rfl
    path := rfl
    label := rfl
    format := rfl
    options := rfl
    template := rfl
    root := by
      obtain ⟨root, hroot⟩ := hroot
      exact ⟨root, hroot, by rw [hroot]; rfl⟩
    value := ⟨request, _, hrequest, hhtml, rfl⟩ }
  exact {
    visible := rfl
    property := nofun
    path := nofun
    classes := nofun
    label := nofun
    value := nofun
    embedded := fun _ => hshows }

/-- The records that are built fit the entries that are shown, one by one. The induction is on the
relation; nothing is needed of the nested cards but their output. -/
theorem Built.fits (h : Built site p items records) :
    List.Forall₂ (Fits site p) (shownEntries items) records := by
  induction h with
  | nil p => exact .nil
  | hidden he hh tail ih =>
      rw [shownEntries_cons_of_hidden he hh]
      exact ih
  | plain he hh hn hf tail ih =>
      rw [shownEntries_cons_of_shown he hh]
      exact .cons (fits_of_fillPlain hn hf) ih
  | embedded he hh hn hallowed hfaults hrequest hinner hitems nested hmarkup tail ihNested ihTail =>
      rw [shownEntries_cons_of_shown he hh]
      exact .cons (fits_embeddedRecord hrequest hinner hitems nested hmarkup) ihTail

/-- Every record of a card fits its entry, and there is one for each entry that is shown. -/
theorem recordsOf_fit (h : (recordsOf site p).outcome = .ok records) :
    ∃ items, entryList p = .ok items ∧ List.Forall₂ (Fits site p) (shownEntries items) records := by
  obtain ⟨items, hitems, hbuilt⟩ := Built.of_buildRecords h
  exact ⟨items, hitems, hbuilt.fits⟩

/-- A shorthand, an entry with classes of its own, one that is hidden, a value alone and a nested
microformat. -/
def mixedItems : List Value :=
  [.text "p-name",
    .dict (Entries.ofFields [("property", .text "p-note"), ("value", .text "born early"),
      ("options", .dict [(.text "class", .text "bold wide")])]),
    .dict (Entries.ofFields [("visible", .bool false), ("format", .int 3)]),
    .dict (Entries.ofFields [("value", .int 7)]),
    .dict (Entries.ofFields [("property", .text "p-adr"), ("microformat", .text "h-adr"),
      ("attributes", .list [.text "p-locality:city"])])]

/-- A checked request for a list of entries of every kind. -/
def mixedRequest : Prepared :=
  { engine := .basic, root := "h-card", depth := 0, options := []
    template := .text Settings.standard.defaultTemplate
    model := .dict (Entries.ofFields [("name", .text "Ada"), ("city", .text "London")])
    attributes := .list mixedItems }

theorem recordsOf_fit_mixedRequest :
    ∃ records,
      (recordsOf (Site.ofComplete .standard) mixedRequest).outcome = .ok records ∧
      (shownEntries mixedItems).length = 4 ∧
      List.Forall₂ (Fits (Site.ofComplete .standard) mixedRequest) (shownEntries mixedItems)
        records := by
  obtain ⟨records, h⟩ : ∃ records,
      (recordsOf (Site.ofComplete .standard) mixedRequest).outcome = .ok records :=
    Outcome.exists_of_isOk (by decide +kernel)
  obtain ⟨items, hitems, hfit⟩ := recordsOf_fit h
  obtain rfl : mixedItems = items := Except.ok.inj hitems
  exact ⟨records, h, by decide +kernel, hfit⟩

/-- An entry whose options name the class a second time, in bytes. -/
def twiceClassed : Entries :=
  Entries.ofFields [("property", .text "p-name"), ("value", .text "Ada"),
    ("options", .dict [(.text "class", .text "a"), (.bytes [99, 108, 97, 115, 115], .text "b")])]

/-- A checked request for that entry. -/
def twiceClassedRequest : Prepared :=
  { mixedRequest with attributes := .list [.dict twiceClassed] }

/-- The class in bytes takes the place of those that the property was added to. -/
theorem recordsOf_twiceClassed :
    ∃ records, (recordsOf (Site.ofComplete .standard) twiceClassedRequest).outcome = .ok records ∧
      ∃ r ∈ records, r.property = some "p-name" ∧ r.options.valueOf "class" = .text "b" ∧
        "p-name" ∉ words "b" := by
  obtain ⟨records, h⟩ : ∃ records,
      (recordsOf (Site.ofComplete .standard) twiceClassedRequest).outcome = .ok records :=
    Outcome.exists_of_isOk (by decide +kernel)
  have hfound : ((recordsOf (Site.ofComplete .standard) twiceClassedRequest).outcome.toOption.getD
      []).any (fun r => decide (r.property = some "p-name" ∧
        r.options.valueOf "class" = .text "b")) = true := by decide +kernel
  rw [h] at hfound
  obtain ⟨r, hr, hclass⟩ := List.any_eq_true.mp hfound
  obtain ⟨hproperty, hoverridden⟩ := of_decide_eq_true hclass
  exact ⟨records, h, r, hr, hproperty, hoverridden, by decide +kernel⟩

end Card

end SemanticMarkup
