import Mathlib.Data.List.Forall2
import SemanticMarkup.Proofs.Card.Invariant

/-!
# Normalizing again

The records of a card are normal, those of embedded microformats as well as
those of plain entries. So they are normalized to themselves when they are given
as entries again, for any other model and in any other card.

## Implementation notes

The options of an entry are declared to map texts. Bytes that encode a text are
read as this text, so a second class option that is written in bytes behind the
first one replaces the classes that the property was added to. Then the property
is added once more when the record is normalized again. This is the only case
that is excluded.
-/

namespace SemanticMarkup

namespace Card

variable {site : Site} {p : Prepared} {items : List Value} {records : List Record}

/-- No plain entry of a list that is shown with a property overrides the classes that this is added
to. -/
def KeepsClasses (items : List Value) : Prop :=
  ∀ entries ∈ shownEntries items, entries.valueOf "microformat" = .null →
    entries.valueOf "property" ≠ .null → ¬ OverridesClass (entries.valueOf "options")

/-- The records of a card are normal. -/
theorem Built.normal (hdefault : site.settings.defaultFormat ≠ "")
    (h : Built site p items records) (hkeeps : KeepsClasses items) :
    ∀ r ∈ records, r.Normal := by
  induction h with
  | nil p => simp
  | hidden he hh tail ih =>
      rw [KeepsClasses, shownEntries_cons_of_hidden he hh] at hkeeps
      exact ih hkeeps
  | plain he hh hn hf tail ih =>
      rw [KeepsClasses, shownEntries_cons_of_shown he hh, List.forall_mem_cons] at hkeeps
      exact List.forall_mem_cons.mpr
        ⟨normal_of_fillPlain hdefault hn (hkeeps.1 hn) hf, ih hkeeps.2⟩
  | embedded he hh hn hallowed hfaults hrequest hinner hitems nested hmarkup tail ihNested ihTail =>
      rw [KeepsClasses, shownEntries_cons_of_shown he hh, List.forall_mem_cons] at hkeeps
      exact List.forall_mem_cons.mpr ⟨normal_embeddedRecord _ _, ihTail hkeeps.2⟩

/-- Normal records that are given as entries make the same records. -/
theorem Built.of_normal (site : Site) (p : Prepared) (h : ∀ r ∈ records, r.Normal) :
    ∃ again, Built site p (records.map Record.toValue) again ∧
      List.Forall₂ Record.SameMarkup records again := by
  induction records with
  | nil => exact ⟨[], .nil p, .nil⟩
  | cons r rest ih =>
      obtain ⟨hr, hrest⟩ := List.forall_mem_cons.mp h
      obtain ⟨others, hothers, hsame⟩ := ih hrest
      obtain ⟨again, hagain, hr'⟩ := hr.fillPlain_config site.settings p.model ""
      have hshown : isHidden (Entries.ofFields r.config) = false := by
        rw [isHidden, hr.valueOf_config (by decide)]
        change (!Value.isNull (.bool r.visible) && !Value.isTrue (.bool r.visible)) = false
        rw [hr.visible]
        rfl
      have hplain : Entries.valueOf (Entries.ofFields r.config) "microformat" = .null :=
        Entries.valueOf_eq_null_of_named? (hr.named?_config_eq_none (by decide))
      exact ⟨again :: others, .plain rfl hshown hplain hagain hothers, .cons hr' hsame⟩

/-- The records of a card are normalized to themselves, for every model and in every card, unless an
entry overrides the classes that its property was added to. -/
theorem recordsOf_records {other : Site} {q : Prepared}
    (hdefault : site.settings.defaultFormat ≠ "") (hitems : entryList p = .ok items)
    (hkeeps : KeepsClasses items) (h : (recordsOf site p).outcome = .ok records)
    (hdepth : q.depth ≤ other.settings.maxEmbedDepth) :
    ∃ again, (recordsOf other
        { q with attributes := .list (records.map Record.toValue) }).outcome = .ok again ∧
      List.Forall₂ Record.SameMarkup records again := by
  obtain ⟨entries, hentries, hbuilt⟩ := Built.of_buildRecords h
  obtain rfl : items = entries := Except.ok.inj (hitems.symm.trans hentries)
  obtain ⟨again, hagain, hsame⟩ := Built.of_normal other
    { q with attributes := .list (records.map Record.toValue) } (hbuilt.normal hdefault hkeeps)
  have hlist : entryList { q with attributes := .list (records.map Record.toValue) } =
      .ok (records.map Record.toValue) := rfl
  exact ⟨again, (outcome_recordsOf_eq_ok_iff
    (p := { q with attributes := .list (records.map Record.toValue) }) hdepth).mpr
      ⟨_, hlist, hagain⟩, hsame⟩

/-- An entry with a class of its own. -/
def classedEntry : Entries :=
  Entries.ofFields [("property", .text "p-name"), ("label", .text "Name"), ("value", .text "Ada"),
    ("options", .dict [(.text "class", .text " bold  wide ")])]

/-- A checked request for a plain entry and an embedded microformat. -/
def preparedClassedEntry : Prepared :=
  { engine := .basic, root := "h-card", depth := 0, options := []
    template := .text Settings.standard.defaultTemplate, model := .dict []
    attributes := .list [.dict classedEntry, .dict (Entries.ofFields
      [("microformat", .text "h-geo"), ("attributes", .list [])])] }

theorem recordsOf_records_classedEntry :
    ∃ records again,
      (recordsOf (Site.ofComplete .standard) preparedClassedEntry).outcome = .ok records ∧
      (recordsOf (Site.ofComplete { Settings.standard with defaultFormat := "" })
        { preparedClassedEntry with
          depth := 3
          model := .null
          attributes := .list (records.map Record.toValue) }).outcome = .ok again ∧
      List.Forall₂ Record.SameMarkup records again := by
  obtain ⟨records, h⟩ : ∃ records,
      (recordsOf (Site.ofComplete .standard) preparedClassedEntry).outcome = .ok records :=
    Outcome.exists_of_isOk (by decide +kernel)
  have hkeeps : KeepsClasses
      [.dict classedEntry, .dict (Entries.ofFields
        [("microformat", .text "h-geo"), ("attributes", .list [])])] := by
    intro entries hentries hn _
    have hshown : shownEntries [.dict classedEntry, .dict (Entries.ofFields
        [("microformat", .text "h-geo"), ("attributes", .list [])])] =
        [classedEntry, Entries.ofFields
          [("microformat", .text "h-geo"), ("attributes", .list [])]] := rfl
    rw [hshown] at hentries
    simp only [List.mem_cons, List.not_mem_nil, or_false] at hentries
    obtain rfl | rfl := hentries
    · -- there is nothing behind the only option
      rintro ⟨options, ho, front, back, v, hsplit, e, he, -⟩
      cases ho
      obtain ⟨-, hback⟩ | ⟨_, -, hnil⟩ := List.append_eq_cons_iff.mp hsplit.symm
      · rw [(List.cons.inj hback).2] at he
        cases he
      · cases (List.append_eq_nil_iff.mp hnil.symm).2
    · cases hn
  have hdepth : (3 : Int) ≤
      (Site.ofComplete { Settings.standard with defaultFormat := "" }).settings.maxEmbedDepth := by
    decide
  obtain ⟨again, hagain, hsame⟩ := recordsOf_records
    (q := { preparedClassedEntry with depth := 3, model := .null }) (by decide) rfl hkeeps h hdepth
  exact ⟨records, again, h, hagain, hsame⟩

/-- The options of a record as they are written in a tag. -/
def attributesShown (r : Record) : Option String :=
  (Markup.tagAttributes r.options).toOption

/-- Where the class in bytes has taken the place of the property, this is added again. -/
theorem recordsOf_records_twiceClassed :
    ∃ records again,
      (recordsOf (Site.ofComplete .standard) twiceClassedRequest).outcome = .ok records ∧
      (recordsOf (Site.ofComplete .standard) { twiceClassedRequest with
        attributes := .list (records.map Record.toValue) }).outcome = .ok again ∧
      records.map attributesShown = [some " class=\"b\""] ∧
      again.map attributesShown = [some " class=\"b p-name\""] ∧
      ¬ List.Forall₂ Record.SameMarkup records again := by
  obtain ⟨records, h⟩ : ∃ records,
      (recordsOf (Site.ofComplete .standard) twiceClassedRequest).outcome = .ok records :=
    Outcome.exists_of_isOk (by decide +kernel)
  have hrecords : ((recordsOf (Site.ofComplete .standard) twiceClassedRequest).outcome.map
      (List.map attributesShown)).toOption = some [some " class=\"b\""] := by decide +kernel
  have hagain : ((recordsOf (Site.ofComplete .standard) twiceClassedRequest).outcome >>=
      fun records => (recordsOf (Site.ofComplete .standard) { twiceClassedRequest with
        attributes := .list (records.map Record.toValue) }).outcome.map
          (List.map attributesShown)).toOption = some [some " class=\"b p-name\""] := by
    decide +kernel
  rw [h] at hrecords hagain
  have hfirst := Option.some.inj hrecords
  obtain ⟨again, hmade, hsecond⟩ : ∃ again, (recordsOf (Site.ofComplete .standard)
      { twiceClassedRequest with attributes := .list (records.map Record.toValue) }).outcome =
        .ok again ∧ again.map attributesShown = [some " class=\"b p-name\""] := by
    rw [Outcome.ok_bind] at hagain
    cases hmade : (recordsOf (Site.ofComplete .standard) { twiceClassedRequest with
        attributes := .list (records.map Record.toValue) }).outcome with
    | error e =>
        rw [hmade] at hagain
        cases hagain
    | ok again =>
        rw [hmade] at hagain
        exact ⟨again, rfl, Option.some.inj hagain⟩
  refine ⟨records, again, h, hmade, hfirst, hsecond, fun hsame => ?_⟩
  have hequal : records.map attributesShown = again.map attributesShown := by
    rw [← List.forall₂_eq_eq_eq, List.forall₂_map_left_iff, List.forall₂_map_right_iff]
    refine hsame.imp ?_
    rintro r _ ⟨options, rfl, hmarkup⟩
    exact congrArg Except.toOption hmarkup.symm
  rw [hfirst, hsecond] at hequal
  exact absurd hequal (by decide)

end Card

end SemanticMarkup
