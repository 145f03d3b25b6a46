import SemanticMarkup.Proofs.Entry.RoundTrip
import SemanticMarkup.Proofs.Record.Spelling

/-!
# Texts that are read as entries

A text that is read as a short entry cannot fail later: its mapping keeps the rules of entries, and
every card makes one record of it. The parts of the text are words and paths, which is more than the
rules and the fields of records ask for.
-/

namespace SemanticMarkup

namespace Shorthand

variable {s : String} {entry : Shorthand} {entries : Entries}

/-- A text is an entry if it is read as a shorthand, whose parts then follow the grammar. -/
theorem exists_of_ofText (h : Entry.ofText s = .ok entries) :
    ∃ entry : Shorthand, entry.PartsFit ∧ entry.written = s ∧
      entries = parts entry.property entry.resolvedPath entry.resolvedFormat entry.label := by
  cases hread : read? s with
  | none =>
      rw [Entry.ofText, hread] at h
      cases h
  | some entry =>
      obtain ⟨hfits, hwritten⟩ := partsFit_of_read? hread
      rw [Entry.ofText, hread] at h
      exact ⟨entry, hfits, hwritten, (Except.ok.inj h).symm⟩

/-- The parts of a shorthand keep the rules of entries. -/
theorem check_parts (h : entry.PartsFit) (place : String) :
    Rules.check (parts entry.property entry.resolvedPath entry.resolvedFormat entry.label) place =
      .ok () :=
  (Rules.check_eq_ok_iff _ _).mpr
    (faults_of_carries (partsFit_complete h) (Entries.carries_ofFields _))

/-- The mapping of an entry tells its parts. -/
theorem parts_inj {property path format property' path' format' : String}
    {label label' : Option String}
    (h : parts property path format label = parts property' path' format' label') :
    property = property' ∧ path = path' ∧ format = format' ∧ label = label' := by
  have htext : Record.textValue label = Record.textValue label' → label = label' := by
    cases label <;> cases label' <;> simp [Record.textValue]
  simp only [parts, Entries.ofFields, List.map_cons, List.map_nil, List.cons.injEq,
    Prod.mk.injEq, Value.text.injEq, true_and, and_true] at h
  exact ⟨h.1, h.2.1, h.2.2.1, htext h.2.2.2⟩

end Shorthand

namespace Card

variable {site : Site} {p : Prepared} {model : Entries} {s : String} {entry : Shorthand}
  {entries : Entries}

/-- A text that is read as a shorthand makes the record of the shorthand. -/
theorem built_text (hmodel : p.model = .dict model) (hfits : entry.PartsFit)
    (hread : Entry.ofText s = .ok (Entry.ofShorthand entry)) :
    Built site p [.text s] [entry.filled "text" model] := by
  have hfill := Shorthand.fillPlain_ofShorthand hfits site.settings model ""
  rw [← hmodel] at hfill
  exact .plain hread rfl rfl hfill (.nil p)

/-- A text that is read as an entry passes the check at every place, and every card for a mapping
makes one record of it: with the property, the path and the format of the entry, its label or else
the path made readable, and the value that the path leads to. -/
theorem recordsOf_text (site : Site) (hread : Entry.ofText s = .ok entries)
    (hmodel : p.model = .dict model) (hdepth : p.depth ≤ site.settings.maxEmbedDepth) :
    (∀ place, Rules.check entries place = .ok ()) ∧
    ∃ property path format label r,
      entries = Shorthand.parts property path format label ∧
      (recordsOf site (p.withList [.text s])).outcome = .ok [r] ∧
      r.property = some property ∧ r.path = some path ∧ r.format = .named format ∧
      r.label = some (label.getD (ModelAccess.humanize path)) ∧
      r.value = ModelAccess.valueAt (.dict model) path .null := by
  obtain ⟨entry, hfits, -, rfl⟩ := Shorthand.exists_of_ofText hread
  have hbuilt : Built site (p.withList [.text s]) [.text s] [entry.filled "text" model] :=
    built_text hmodel hfits hread
  exact ⟨Shorthand.check_parts hfits, entry.property, entry.resolvedPath, entry.resolvedFormat,
    entry.label, entry.filled "text" model, rfl, outcome_recordsOf_withList hdepth hbuilt, rfl, rfl,
    rfl, rfl, rfl⟩

/-- A property with a label behind it, but without attribute and format. -/
def labelledName : String :=
  "p-name:given name"

theorem recordsOf_text_labelledName :
    Entry.ofText labelledName =
      .ok (Shorthand.parts "p-name" "name" "text" (some "given name")) ∧
    personRequest.depth ≤ Settings.standard.maxEmbedDepth ∧
    Rules.check (Shorthand.parts "p-name" "name" "text" (some "given name")) "attributes[0]" =
      .ok () ∧
    ∃ r, (recordsOf (Site.ofComplete .standard)
        (personRequest.withList [.text labelledName])).outcome = .ok [r] ∧
      r.label = some "given name" ∧ r.value = .text "Ada" := by
  have hread : Entry.ofText labelledName =
      .ok (Shorthand.parts "p-name" "name" "text" (some "given name")) := by
    have hshort : Shorthand.read? labelledName =
        some ⟨"p-name", none, none, some "given name"⟩ := by
      decide +kernel
    rw [Entry.ofText, hshort]
    rfl
  have hdepth : personRequest.depth ≤ Settings.standard.maxEmbedDepth := by decide
  obtain ⟨hcheck, property, path, format, label, r, hparts, hrecords, -, -, -, hlabel, hvalue⟩ :=
    recordsOf_text (Site.ofComplete .standard) hread (p := personRequest) rfl hdepth
  obtain ⟨rfl, rfl, rfl, rfl⟩ := Shorthand.parts_inj hparts
  exact ⟨hread, hdepth, hcheck _, r, hrecords, hlabel, hvalue⟩

end Card

end SemanticMarkup
