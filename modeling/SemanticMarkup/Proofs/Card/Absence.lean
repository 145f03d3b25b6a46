import Mathlib.Data.List.Basic
import SemanticMarkup.Proofs.Card.Hidden
import SemanticMarkup.Proofs.Record.Reads

/-!
# Fields that hold nothing

A field that holds nothing is read like a field that is not there: the same
records are built with it and without it, with the same calls on the way, or
building fails for the same reason. This is so for every field that a plain entry
knows, and in an entry that embeds a microformat for the fields that serve this
purpose. Of a hidden entry nothing is read but that it is hidden.

## Implementation notes

Only a few things are read from an entry. `Alike` lists them, so that the rest is
a comparison of two readings and not of two runs. Entries that embed a microformat
must not have an attribute, a format or an embedded root type, whatever is under
these names; so these fields are left out of plain entries only.
-/

namespace SemanticMarkup

namespace Entries

variable {entries : Entries} {name : String}

/-- Whatever is under a name is no value. -/
def HoldsNothing (entries : Entries) (name : String) : Prop :=
  ∀ e ∈ entries, e.1 = .text name → e.2 = .null

theorem named?_dropName_of_ne (entries : Entries) {other : String} (h : other ≠ name) :
    (entries.dropName name).named? other = entries.named? other := by
  induction entries with
  | nil => rfl
  | cons e rest ih =>
      obtain ⟨k, v⟩ := e
      rw [named?_cons, ← ih, dropName, List.filter_cons]
      by_cases hk : k.sameKey (.text name) = true
      · have hne : k ≠ .text other := by
          rw [(Value.sameKey_text_iff k name).mp hk]
          exact fun heq => h (Value.text.inj heq).symm
        rw [if_neg (by simp [hk]), if_neg hne]
        rfl
      · rw [if_pos (by simpa using hk), named?_cons]
        rfl

/-- Without a field that holds nothing, there is the same value under every name. -/
theorem HoldsNothing.valueOf_dropName (h : entries.HoldsNothing name) (other : String) :
    (entries.dropName name).valueOf other = entries.valueOf other := by
  by_cases hother : other = name
  · subst hother
    have hdropped : (entries.dropName other).named? other = none := by
      rw [named?_eq_none_iff]
      intro e he hk
      have hkept := (List.mem_filter.mp he).2
      rw [(Value.sameKey_text_iff e.1 other).mpr hk] at hkept
      cases hkept
    rw [valueOf_eq_null_of_named? hdropped]
    cases hfound : entries.named? other with
    | none => rw [valueOf_eq_null_of_named? hfound]
    | some v =>
        rw [valueOf_eq_of_named? hfound]
        exact (h _ (mem_of_named? hfound) rfl).symm
  · rw [valueOf, valueOf, named?_dropName_of_ne entries hother]

end Entries

namespace Card

/-- The fields of every entry that may hold nothing. -/
def sharedNames : List String :=
  ["property", "label", "options", "template", "visible", "class", "model", "attributes"]

/-- The fields that may hold nothing in plain entries only. -/
def plainNames : List String :=
  ["attribute", "format", "embedded"]

/-- A field that an entry may leave out. -/
def IsOptional (entries : Entries) (name : String) : Prop :=
  name ∈ sharedNames ∨ name ∈ plainNames ∧ entries.hasName "microformat" = false

instance (entries : Entries) (name : String) : Decidable (IsOptional entries name) :=
  inferInstanceAs (Decidable (_ ∨ _ ∧ _))

/-- Two readings of an entry that agree in everything that a record is made of. -/
structure Alike (entries other : Entries) : Prop where
  valueOf : ∀ name, other.valueOf name = entries.valueOf name
  value : other.named? "value" = entries.named? "value"
  faults : Rules.faults other = Rules.faults entries
  foreign : foreign other = foreign entries
  forbidden : entries.valueOf "microformat" ≠ .null →
    forbiddenNames.find? other.hasName = forbiddenNames.find? entries.hasName

namespace Alike

variable {entries other : Entries} (h : Alike entries other)

include h

theorem check (place : String) : Rules.check other place = Rules.check entries place := by
  rw [Rules.check, Rules.check, h.faults]

theorem labelAndValue (model : Value) (name : Option String) (place : String) :
    labelAndValue model other name place = labelAndValue model entries name place := by
  cases name with
  | some name => rw [Card.labelAndValue, Card.labelAndValue, h.valueOf, h.value]
  | none => rw [Card.labelAndValue, Card.labelAndValue, h.valueOf, h.valueOf]

theorem fillPlain (settings : Settings) (model : Value) (place : String) :
    fillPlain settings model other place = fillPlain settings model entries place := by
  simp only [Card.fillPlain, attributeName, garbledIssues, entryOptions, filledEntries,
    filledFields, formatOf, h.valueOf, h.check, h.labelAndValue, h.foreign]

theorem embed (hembeds : entries.valueOf "microformat" ≠ .null)
    (nested : Request → Traced String) (site : Site) (p : Prepared) (place : String) :
    embed nested site p other place = embed nested site p entries place := by
  simp only [Card.embed, nestedRequest, nestedEngine, entryOptions, h.forbidden hembeds, h.check,
    h.valueOf]

/-- Both make the same record with the same calls, or fail in the same way. -/
theorem recordOf (nested : Request → Traced String) (site : Site) (p : Prepared) (i : Nat) :
    recordOf nested site p i (.dict other) = recordOf nested site p i (.dict entries) := by
  have hread (entries : Entries) : Card.recordOf nested site p i (.dict entries) =
      if isHidden entries then pure none
      else if (entries.valueOf "microformat").isNull then do
        return some (← Card.fillPlain site.settings p.model entries (placeName i))
      else do
        return some (← Card.embed nested site p entries (placeName i)) := by
    rw [Card.recordOf]
    exact Traced.andThen_ok entries _
  rw [hread, hread, isHidden, isHidden, h.valueOf, h.valueOf, h.fillPlain]
  by_cases hnull : (entries.valueOf "microformat").isNull = true
  · rw [if_pos hnull, if_pos hnull]
  · rw [h.embed (mt (Value.isNull_iff _).mpr hnull)]

end Alike

section Dropped

variable {entries : Entries} {name : String}

/-- A field that holds nothing breaks no rule if the entry may leave it out. -/
theorem fieldFault_null (h : IsOptional entries name) :
    Rules.fieldFault (if entries.hasName "microformat" then Rules.embedding else Rules.plain)
      (!entries.hasName "microformat") (.text name) .null = none := by
  obtain hshared | ⟨hplain, hembeds⟩ := h
  · generalize entries.hasName "microformat" = embeds
    simp only [sharedNames, List.mem_cons, List.not_mem_nil, or_false] at hshared
    rcases hshared with rfl | rfl | rfl | rfl | rfl | rfl | rfl | rfl
    all_goals cases embeds <;> rfl
  · rw [hembeds]
    simp only [plainNames, List.mem_cons, List.not_mem_nil, or_false] at hplain
    rcases hplain with rfl | rfl | rfl <;> rfl

theorem faults_dropName (h : entries.HoldsNothing name) (hname : IsOptional entries name)
    (hembeds : (entries.dropName name).hasName "microformat" = entries.hasName "microformat") :
    Rules.faults (entries.dropName name) = Rules.faults entries := by
  have hnull := fieldFault_null hname
  rw [Rules.faults, Rules.faults, hembeds]
  rw [Entries.dropName, List.filterMap_filter]
  refine List.filterMap_congr fun e he => ?_
  by_cases hk : e.1.sameKey (.text name) = true
  · have hkey := (Value.sameKey_text_iff e.1 name).mp hk
    rw [if_neg (by simp [hk]), hkey, h e he hkey, hnull]
    rfl
  · rw [if_pos (by simpa using hk)]

/-- A known field is not among the further ones. -/
theorem foreign_dropName (hname : name ∈ Record.fieldNames ++ embeddingNames) (entries : Entries) :
    foreign (entries.dropName name) = foreign entries := by
  rw [foreign, foreign, Entries.dropName, List.filter_filter]
  refine List.filter_congr fun e _ => ?_
  by_cases hk : e.1.sameKey (.text name) = true
  · have hknown : isKnown e.1 = true :=
      (isKnown_iff e.1).mpr ⟨name, hname, (Value.sameKey_text_iff e.1 name).mp hk⟩
    rw [hknown]
    rfl
  · rw [Bool.eq_false_iff.mpr hk, Bool.not_false, Bool.and_true]

/-- An entry is read alike without a field that holds nothing. -/
theorem alike_dropName (h : entries.HoldsNothing name) (hname : IsOptional entries name) :
    Alike entries (entries.dropName name) := by
  have hlisted : name ∈ sharedNames ++ plainNames :=
    List.mem_append.mpr (hname.imp id And.left)
  have hnamed {other : String} (hother : other ∉ sharedNames ++ plainNames) :
      (entries.dropName name).named? other = entries.named? other :=
    Entries.named?_dropName_of_ne entries fun heq => hother (heq ▸ hlisted)
  have hknown : sharedNames ++ plainNames ⊆ Record.fieldNames ++ embeddingNames := by decide
  have hroot : (entries.dropName name).hasName "microformat" = entries.hasName "microformat" := by
    rw [Entries.hasName, Entries.hasName, hnamed (by decide)]
  exact {
    valueOf := h.valueOf_dropName
    value := hnamed (by decide)
    faults := faults_dropName h hname hroot
    foreign := foreign_dropName (hknown hlisted) entries
    forbidden := by
      intro hm
      -- the entry embeds, so none of the forbidden names is one that may be left out
      have hshared : name ∈ sharedNames := hname.resolve_right fun hplain =>
        absurd (Entries.hasName_of_valueOf_ne_null hm) (by simp [hplain.2])
      have hkept {other : String} (hother : other ∉ sharedNames) :
          (entries.dropName name).hasName other = entries.hasName other := by
        rw [Entries.hasName, Entries.hasName,
          Entries.named?_dropName_of_ne entries fun heq => hother (by rwa [heq])]
      simp only [forbiddenNames, List.find?_cons, List.find?_nil,
        hkept (show "attribute" ∉ sharedNames by decide),
        hkept (show "value" ∉ sharedNames by decide),
        hkept (show "format" ∉ sharedNames by decide)] }

/-- An entry makes the same record without a field that holds nothing. -/
theorem recordOf_dropName (h : entries.HoldsNothing name)
    (hname : IsOptional entries name ∨ isHidden entries = true)
    (nested : Request → Traced String) (site : Site) (p : Prepared) (i : Nat) :
    recordOf nested site p i (.dict (entries.dropName name)) =
      recordOf nested site p i (.dict entries) := by
  obtain hoptional | hhidden := hname
  · exact (alike_dropName h hoptional).recordOf nested site p i
  · have hdropped : isHidden (entries.dropName name) = true := by
      rw [isHidden, h.valueOf_dropName]
      exact hhidden
    rw [recordOf_of_hides ⟨_, rfl, hdropped⟩, recordOf_of_hides ⟨_, rfl, hhidden⟩]

end Dropped

/-- An item of a list may be replaced by another one with the same result and the same calls. -/
theorem forEach_replace {α β : Type} {f : Nat → α → Traced β} {a b : α} (h : ∀ i, f i a = f i b)
    (front back : List α) (i : Nat) :
    Traced.forEach f i (front ++ a :: back) = Traced.forEach f i (front ++ b :: back) := by
  induction front generalizing i with
  | nil => rw [List.nil_append, List.nil_append, Traced.forEach, Traced.forEach, h]
  | cons first rest ih =>
      rw [List.cons_append, List.cons_append, Traced.forEach, Traced.forEach, ih]

/-- A field that holds nothing may be left out of an entry, wherever the entry stands in a list, and
any such field of a hidden entry: the records of the list are the same, with the same calls on the
way to them, or the failure is the same. Unless the root type is given as nothing, the rules take an
entry for one that embeds a microformat exactly if it is built as one. -/
theorem recordsOf_dropName (site : Site) (p : Prepared) {entries : Entries} {name : String}
    (h : entries.HoldsNothing name) (hname : IsOptional entries name ∨ isHidden entries = true)
    (front back : List Value) :
    recordsOf site (p.withList (front ++ .dict (entries.dropName name) :: back)) =
        recordsOf site (p.withList (front ++ .dict entries :: back)) ∧
      (entries.named? "microformat" ≠ some .null →
        (entries.hasName "microformat" = true ↔ entries.valueOf "microformat" ≠ .null)) := by
  constructor
  · unfold recordsOf
    change buildRecords site (roomAt site.settings p.depth) _ =
      buildRecords site (roomAt site.settings p.depth) _
    cases roomAt site.settings p.depth with
    | zero => rfl -- too deep for any list
    | succ room =>
        have hrecord := recordOf_dropName h hname (renderWith (buildRecords site room) site) site p
        rw [buildRecords_withList, buildRecords_withList, forEach_replace hrecord]
  · intro hgiven
    rw [Entries.hasName, Entries.valueOf]
    cases hfound : entries.named? "microformat" with
    | none => simp
    | some v =>
        rw [hfound] at hgiven
        simpa using hgiven

/-- A checked request for a list of entries about a person. -/
def bareRequest (items : List Value) : Prepared :=
  { engine := .basic, root := "h-card", depth := 0, options := []
    template := .text Settings.standard.defaultTemplate
    model := .dict [(.text "name", .text "Ada")], attributes := .list items }

/-- A plain entry whose format is nothing. -/
def formatless : Entries :=
  Entries.ofFields [("property", .text "p-name"), ("format", .null), ("icon", .text "user")]

/-- An entry that embeds a microformat, whose model is nothing. -/
def modelless : Entries :=
  Entries.ofFields [("microformat", .text "h-adr"), ("model", .null),
    ("attributes", .list [.text "p-name"])]

theorem recordsOf_dropName_formatless :
    (formatless.HoldsNothing "format" ∧ IsOptional formatless "format" ∧
      recordsOf (Site.ofComplete .standard) ((bareRequest []).withList
          [.dict modelless, .dict (formatless.dropName "format")]) =
        recordsOf (Site.ofComplete .standard) ((bareRequest []).withList
          [.dict modelless, .dict formatless])) ∧
    (modelless.HoldsNothing "model" ∧ IsOptional modelless "model" ∧
      recordsOf (Site.ofComplete .standard) ((bareRequest []).withList
          [.dict (modelless.dropName "model"), .dict formatless]) =
        recordsOf (Site.ofComplete .standard) ((bareRequest []).withList
          [.dict modelless, .dict formatless])) ∧
    modelless.hasName "microformat" = true := by
  have hformat : formatless.HoldsNothing "format" := by
    simp [Entries.HoldsNothing, formatless, Entries.ofFields]
  have hmodel : modelless.HoldsNothing "model" := by
    simp [Entries.HoldsNothing, modelless, Entries.ofFields]
  have hplain : IsOptional formatless "format" := by decide
  have hembeds : IsOptional modelless "model" := by decide
  have hroot : modelless.named? "microformat" = some (.text "h-adr") := rfl
  exact ⟨⟨hformat, hplain, (recordsOf_dropName _ _ hformat (.inl hplain) [.dict modelless] []).1⟩,
    ⟨hmodel, hembeds, (recordsOf_dropName _ _ hmodel (.inl hembeds) [] [.dict formatless]).1⟩,
    ((recordsOf_dropName (Site.ofComplete .standard) (bareRequest []) hmodel (.inl hembeds) [] []).2
      (by simp [hroot])).mpr (by simp [Entries.valueOf, hroot])⟩

/-- An entry that embeds an address, with a further field that holds nothing. -/
def addressWith (name : String) : Entries :=
  Entries.ofFields [("microformat", .text "h-adr"), ("attributes", .list []), (name, .null)]

/-- A plain entry whose root type is nothing. -/
def rootless : Entries :=
  Entries.ofFields [("property", .text "p-name"), ("microformat", .null)]

/-- An entry that embeds a microformat may have no format and no embedded root type, not even when
they are nothing; and a root type that is nothing makes an entry embed by the rules alone. -/
theorem recordsOf_nullFields :
    ((recordsOf (Site.ofComplete .standard) (bareRequest [.dict (addressWith "format")])).outcome =
        Outcome.configError (.forbiddenField "attributes[0]" "format") ∧
      (recordsOf (Site.ofComplete .standard)
        (bareRequest [.dict ((addressWith "format").dropName "format")])).outcome.isOk = true) ∧
    ((recordsOf (Site.ofComplete .standard)
        (bareRequest [.dict (addressWith "embedded")])).outcome =
        Outcome.configError (.brokenRules "attributes[0]" [("embedded", .unknown)]) ∧
      (recordsOf (Site.ofComplete .standard)
        (bareRequest [.dict ((addressWith "embedded").dropName "embedded")])).outcome.isOk = true) ∧
    ((recordsOf (Site.ofComplete .standard) (bareRequest [.dict rootless])).outcome =
        Outcome.configError (.brokenRules "attributes[0]" [("microformat", .nullValue)]) ∧
      (recordsOf (Site.ofComplete .standard)
        (bareRequest [.dict (rootless.dropName "microformat")])).outcome.isOk = true) := by
  refine ⟨⟨?_, by decide +kernel⟩, ⟨?_, by decide +kernel⟩, ⟨?_, by decide +kernel⟩⟩
  all_goals exact Outcome.eq_error_of_failure? (by decide +kernel)

end Card

end SemanticMarkup
