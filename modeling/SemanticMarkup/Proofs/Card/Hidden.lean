import SemanticMarkup.Proofs.Card.Agreement
import SemanticMarkup.Value.Lookup

/-!
# Hidden entries

A hidden entry is left out before anything but its visibility is read. So lists
may be padded with hidden entries of any content, at any place and at any level:
the same card is built, with the same calls on the way, or building fails for
the same reason, told with another number of the entry.

## Implementation notes

Two lists are compared from the outside in. `Padded` says how they differ,
`Beside` what is left of this when entries are read, and the rest is agreement
of two runs, step by step. The levels that are left bound the induction over
nested microformats; hidden entries are not entered, so what they hold is never
compared.
-/

namespace SemanticMarkup

namespace Card

/-- A value is an entry that is left out. -/
def Hides (raw : Value) : Prop :=
  ∃ entries, Entry.ofValue raw = .ok entries ∧ isHidden entries = true

/-- A mapping with a list of entries among its own entries. -/
def listing (front back : Entries) (list : Value) : Entries :=
  front ++ (.text "attributes", list) :: back

/-- A mapping or a record has a list of entries, and so has another one that is the same besides. -/
inductive Lists (v w : Value) : Value → Value → Prop
  /-- Two mappings. -/
  | mapping (front back : Entries) :
      Lists v w (.dict (listing front back v)) (.dict (listing front back w))
  /-- Two records. -/
  | record (front back : Fields) :
      Lists v w (.record (front ++ ("attributes", v) :: back))
        (.record (front ++ ("attributes", w) :: back))

/-- Lists and tuples are rows of their items. -/
def IsRow (row : List Value → Value) : Prop :=
  row = .list ∨ row = .tuple

/-- A list of entries with hidden entries put in, at any place and at any level. -/
inductive Padded : List Value → List Value → Prop
  /-- The empty list. -/
  | nil : Padded [] []
  /-- A hidden entry is put in. -/
  | insert {raw items padded} (hraw : Hides raw) (tail : Padded items padded) :
      Padded items (raw :: padded)
  /-- An entry stays as it is. -/
  | keep {raw items padded} (tail : Padded items padded) : Padded (raw :: items) (raw :: padded)
  /-- The list of an entry is padded. -/
  | inside {row within paddedWithin raw paddedRaw items padded} (hrow : IsRow row)
      (hraw : Lists (row within) (row paddedWithin) raw paddedRaw)
      (nested : Padded within paddedWithin) (tail : Padded items padded) :
      Padded (raw :: items) (paddedRaw :: padded)

/-- The list that is given to a request, padded with hidden entries; anything else is unchanged. -/
inductive PaddedValue : Value → Value → Prop
  /-- The value stays as it is. -/
  | same (v : Value) : PaddedValue v v
  /-- The value is a row of entries. -/
  | row {row items padded} (hrow : IsRow row) (h : Padded items padded) :
      PaddedValue (row items) (row padded)

theorem Padded.refl (items : List Value) : Padded items items := by
  induction items with
  | nil => exact .nil
  | cons raw rest ih => exact .keep ih

/-- Two readings of an entry that are the same beside their lists, of which the second is padded. -/
structure Beside (entries padded : Entries) : Prop where
  named? : ∀ name, name ≠ "attributes" → padded.named? name = entries.named? name
  faults : Rules.faults padded = Rules.faults entries
  foreign : foreign padded = foreign entries
  attributes : PaddedValue (entries.valueOf "attributes") (padded.valueOf "attributes")

/-- Two requests that are the same beside their lists, of which the second is padded. -/
inductive PaddedRequest : Request → Request → Prop
  /-- The request is given another list. -/
  | intro (r : Request) {v : Value} (h : PaddedValue r.attributes v) :
      PaddedRequest r { r with attributes := v }

/-- Two checked requests that are the same beside their lists, of which the second is padded. -/
inductive PaddedPrepared : Prepared → Prepared → Prop
  /-- The checked request is given another list. -/
  | intro (p : Prepared) {v : Value} (h : PaddedValue p.attributes v) :
      PaddedPrepared p { p with attributes := v }

section Listing

variable {front back : Entries} {v w : Value} {name : String}

theorem named?_listing (h : name ≠ "attributes") :
    (listing front back w).named? name = (listing front back v).named? name := by
  have hkey : (Value.text "attributes") ≠ .text name := fun hk => h (Value.text.inj hk).symm
  rw [listing, listing, Entries.named?_append, Entries.named?_append, Entries.named?_cons,
    Entries.named?_cons, if_neg hkey, if_neg hkey]

theorem valueOf_listing (h : PaddedValue v w) :
    PaddedValue ((listing front back v).valueOf "attributes")
      ((listing front back w).valueOf "attributes") := by
  rw [Entries.valueOf, Entries.valueOf, listing, listing, Entries.named?_append,
    Entries.named?_append, Entries.named?_cons, Entries.named?_cons, if_pos rfl, if_pos rfl]
  cases front.named? "attributes" with
  | none => exact h
  | some found => exact .same found

theorem foreign_listing : foreign (listing front back w) = foreign (listing front back v) := by
  have hknown : isKnown (.text "attributes") = true := by decide
  simp only [foreign, listing, List.filter_append, List.filter_cons, hknown, Bool.not_true,
    Bool.false_eq_true, if_false]

/-- Rows of entries obey the rule for lists, and plain entries have no rule for them. -/
theorem fieldFault_row {row : List Value → Value} (hrow : IsRow row) (items : List Value)
    (embeds : Bool) :
    Rules.fieldFault (if embeds = true then Rules.embedding else Rules.plain) (!embeds)
      (.text "attributes") (row items) = none := by
  obtain rfl | rfl := hrow
  all_goals cases embeds <;> rfl

theorem faults_listing {row : List Value → Value} (hrow : IsRow row) (items padded : List Value) :
    Rules.faults (listing front back (row padded)) =
      Rules.faults (listing front back (row items)) := by
  have hembeds : (listing front back (row padded)).hasName "microformat" =
      (listing front back (row items)).hasName "microformat" := by
    rw [Entries.hasName, Entries.hasName, named?_listing (by decide)]
  rw [Rules.faults, Rules.faults, hembeds]
  generalize (listing front back (row items)).hasName "microformat" = embeds
  simp only [listing, List.filterMap_append, List.filterMap_cons, fieldFault_row hrow,
    Option.map_none]

end Listing

theorem Beside.refl (entries : Entries) : Beside entries entries :=
  ⟨fun _ _ => rfl, rfl, rfl, .same _⟩

/-- Two values with a list and its padded form are read as entries that are the same besides. -/
theorem agree_ofValue_of_lists {row : List Value → Value} {items padded : List Value}
    {raw paddedRaw : Value} (hrow : IsRow row) (h : Padded items padded)
    (hraw : Lists (row items) (row padded) raw paddedRaw) :
    Outcome.Agree Beside (Entry.ofValue raw) (Entry.ofValue paddedRaw) := by
  have hbeside (front back : Entries) :
      Beside (listing front back (row items)) (listing front back (row padded)) :=
    ⟨fun _ hname => named?_listing hname, faults_listing hrow items padded, foreign_listing,
      valueOf_listing (.row hrow h)⟩
  cases hraw with
  | mapping front back => exact .ok (hbeside front back)
  | record front back =>
      have hfields (list : Value) : Entries.ofFields (front ++ ("attributes", list) :: back) =
          listing (Entries.ofFields front) (Entries.ofFields back) list := by
        rw [listing, Entries.ofFields, List.map_append, List.map_cons]
        rfl
      simp only [Entry.ofValue, hfields]
      exact .ok (hbeside _ _)

namespace Beside

variable {entries padded : Entries} (h : Beside entries padded)

include h

theorem valueOf {name : String} (hname : name ≠ "attributes") :
    padded.valueOf name = entries.valueOf name := by
  rw [Entries.valueOf, Entries.valueOf, h.named? name hname]

theorem hasName {name : String} (hname : name ≠ "attributes") :
    padded.hasName name = entries.hasName name := by
  rw [Entries.hasName, Entries.hasName, h.named? name hname]

theorem isHidden : isHidden padded = isHidden entries := by
  rw [Card.isHidden, Card.isHidden, h.valueOf (by decide)]

theorem check (place : String) : Rules.check padded place = Rules.check entries place := by
  rw [Rules.check, Rules.check, h.faults]

theorem entryOptions : entryOptions padded = entryOptions entries := by
  rw [Card.entryOptions, Card.entryOptions, h.valueOf (by decide), h.valueOf (by decide)]

theorem attributeName : attributeName padded = attributeName entries := by
  rw [Card.attributeName, Card.attributeName, h.valueOf (by decide), h.valueOf (by decide),
    garbledIssues, garbledIssues, h.valueOf (by decide)]

theorem labelAndValue (model : Value) (name : Option String) (place : String) :
    labelAndValue model padded name place = labelAndValue model entries name place := by
  cases name with
  | some name =>
      rw [Card.labelAndValue, Card.labelAndValue, h.valueOf (by decide), h.named? _ (by decide)]
  | none =>
      rw [Card.labelAndValue, Card.labelAndValue, h.valueOf (by decide), h.valueOf (by decide)]

theorem filledEntries (settings : Settings) (name : Option String) (label value : Value)
    (options : Entries) :
    filledEntries settings padded name label value options =
      filledEntries settings entries name label value options := by
  simp only [Card.filledEntries, filledFields, formatOf, h.foreign,
    h.valueOf (show "property" ≠ "attributes" by decide),
    h.valueOf (show "format" ≠ "attributes" by decide),
    h.valueOf (show "template" ≠ "attributes" by decide),
    h.valueOf (show "embedded" ≠ "attributes" by decide)]

/-- A plain entry does not read its list. -/
theorem fillPlain (settings : Settings) (model : Value) (place : String) :
    fillPlain settings model padded place = fillPlain settings model entries place := by
  simp only [Card.fillPlain, h.valueOf (show "class" ≠ "attributes" by decide), h.check,
    h.attributeName, h.labelAndValue, h.entryOptions, h.filledEntries]

end Beside

/-- A request is checked without its list. -/
theorem agree_prepare (settings : Settings) {r paddedRequest : Request}
    (h : PaddedRequest r paddedRequest) :
    Outcome.Agree PaddedPrepared (r.prepare settings) (paddedRequest.prepare settings) := by
  cases h with
  | intro h =>
      refine .bind_eq fun root => .bind_eq fun depth => .bind_eq fun options =>
        .bind_eq fun template => .ok ?_
      exact PaddedPrepared.intro
        { engine := r.engine, root := root, depth := depth, options := options,
          template := template, model := r.model, attributes := r.attributes } h

/-- The entries of a request are padded like its list. -/
theorem agree_entryList {p paddedPrepared : Prepared} (h : PaddedPrepared p paddedPrepared) :
    Outcome.Agree Padded (entryList p) (entryList paddedPrepared) := by
  obtain ⟨engine, root, depth, options, template, model, attributes⟩ := p
  cases h with
  | intro h =>
      cases h with
      | same => exact (Outcome.Agree.refl _).mono fun items _ h => h ▸ Padded.refl items
      | row hrow h =>
          obtain rfl | rfl := hrow
          all_goals exact .ok h

variable {nested : Request → Traced String} {site : Site} {p paddedPrepared : Prepared}

/-- A hidden entry adds no record and no call. -/
theorem recordOf_of_hides {raw : Value} (h : Hides raw) (i : Nat) :
    recordOf nested site p i raw = pure none := by
  obtain ⟨entries, he, hh⟩ := h
  rw [recordOf, he]
  exact (Traced.andThen_ok entries _).trans (if_pos hh)

section Nested

variable (hnested : ∀ r paddedRequest, PaddedRequest r paddedRequest →
  Traced.Agree Eq (nested r) (nested paddedRequest))

/-- The request for an embedded microformat is padded like the list of its entry. -/
theorem agree_nestedRequest {entries padded : Entries} (registry : Registry)
    (hp : PaddedPrepared p paddedPrepared) (h : Beside entries padded) :
    Outcome.Agree PaddedRequest (nestedRequest registry p entries)
      (nestedRequest registry paddedPrepared padded) := by
  cases hp
  rw [nestedRequest, nestedRequest, h.entryOptions, nestedEngine, nestedEngine,
    h.valueOf (show "class" ≠ "attributes" by decide),
    h.valueOf (show "microformat" ≠ "attributes" by decide),
    h.valueOf (show "model" ≠ "attributes" by decide),
    h.valueOf (show "template" ≠ "attributes" by decide)]
  refine .bind_eq fun options => .bind_eq fun engine => .ok ?_
  exact PaddedRequest.intro
    { engine := engine, root := entries.valueOf "microformat"
      model := orElse (entries.valueOf "model") p.model
      attributes := entries.valueOf "attributes", template := entries.valueOf "template"
      options := .dict options, depth := some (p.depth + 1) } h.attributes

include hnested

/-- Embedding agrees if the nested microformats do. -/
theorem agree_embed {entries padded : Entries} (hp : PaddedPrepared p paddedPrepared)
    (h : Beside entries padded) (i j : Nat) :
    Traced.Agree Eq (embed nested site p entries (placeName i))
      (embed nested site paddedPrepared padded (placeName j)) := by
  have hnames : forbiddenNames.find? padded.hasName = forbiddenNames.find? entries.hasName := by
    simp only [forbiddenNames, List.find?_cons, List.find?_nil,
      h.hasName (show "attribute" ≠ "attributes" by decide),
      h.hasName (show "value" ≠ "attributes" by decide),
      h.hasName (show "format" ≠ "attributes" by decide)]
  rw [embed, embed, hnames]
  cases forbiddenNames.find? entries.hasName with
  | some field => exact .lift (.configError_atPlace (.forbiddenField "" field) i j)
  | none =>
      rw [h.check]
      refine (Traced.Agree.lift (Rules.agree_check entries i j)).bind fun _ _ _ => ?_
      refine (Traced.Agree.lift (agree_nestedRequest site.registry hp h)).bind fun r _ hr => ?_
      refine (hnested _ _ hr).bind fun html _ hhtml => ?_
      subst hhtml
      rw [h.valueOf (show "microformat" ≠ "attributes" by decide)]
      exact .refl _

/-- An entry makes the same record at another place, and with its list padded. -/
theorem agree_recordOf {raw paddedRaw : Value} (hp : PaddedPrepared p paddedPrepared)
    (hraw : Outcome.Agree Beside (Entry.ofValue raw) (Entry.ofValue paddedRaw)) (i j : Nat) :
    Traced.Agree Eq (recordOf nested site p i raw)
      (recordOf nested site paddedPrepared j paddedRaw) := by
  refine (Traced.Agree.lift hraw).bind fun entries padded h => ?_
  rw [h.isHidden, h.valueOf (show "microformat" ≠ "attributes" by decide)]
  by_cases hh : isHidden entries = true
  · rw [if_pos hh, if_pos hh]
    exact .refl _
  · rw [if_neg hh, if_neg hh]
    by_cases hn : (entries.valueOf "microformat").isNull = true
    · rw [if_pos hn, if_pos hn, h.fillPlain]
      have hmodel : paddedPrepared.model = p.model := by
        cases hp
        rfl
      rw [hmodel]
      refine (Traced.Agree.lift (agree_fillPlain _ _ entries i j)).bind fun r _ hr => ?_
      subst hr
      exact .refl _
    · rw [if_neg hn, if_neg hn]
      refine (agree_embed hnested hp h i j).bind fun r _ hr => ?_
      subst hr
      exact .refl _

/-- The records of a padded list are the same, wherever its entries are counted from. The induction
is on the padding: an entry that is put in adds no record and moves the others by one place. -/
theorem agree_forEach {items padded : List Value} (hp : PaddedPrepared p paddedPrepared)
    (h : Padded items padded) (i j : Nat) :
    Traced.Agree (fun shown others => shown.filterMap id = others.filterMap id)
      (Traced.forEach (recordOf nested site p) i items)
      (Traced.forEach (recordOf nested site paddedPrepared) j padded) := by
  have hcons {raw paddedRaw : Value} {rest paddedRest : List Value}
      (hraw : Outcome.Agree Beside (Entry.ofValue raw) (Entry.ofValue paddedRaw))
      (ih : ∀ i j, Traced.Agree (fun shown others => shown.filterMap id = others.filterMap id)
        (Traced.forEach (recordOf nested site p) i rest)
        (Traced.forEach (recordOf nested site paddedPrepared) j paddedRest)) (i j : Nat) :
      Traced.Agree (fun shown others => shown.filterMap id = others.filterMap id)
        (Traced.forEach (recordOf nested site p) i (raw :: rest))
        (Traced.forEach (recordOf nested site paddedPrepared) j (paddedRaw :: paddedRest)) := by
    refine (agree_recordOf hnested hp hraw i j).bind fun first _ hfirst => ?_
    refine (ih (i + 1) (j + 1)).bind fun shown others hothers => .pure ?_
    subst hfirst
    rw [List.filterMap_cons, List.filterMap_cons, hothers]
  induction h generalizing i j with
  | nil => exact .pure rfl
  | @insert raw items padded hraw tail ih =>
      have hskip : Traced.forEach (recordOf nested site paddedPrepared) j (raw :: padded) =
          Traced.forEach (recordOf nested site paddedPrepared) (j + 1) padded >>= fun others =>
            pure (none :: others) := by
        rw [Traced.forEach, recordOf_of_hides hraw]
        exact Traced.andThen_ok none _
      rw [hskip]
      exact (ih i (j + 1)).map_right fun shown others h => h
  | keep tail ih =>
      exact hcons ((Outcome.Agree.refl _).mono fun entries _ h => h ▸ Beside.refl entries) ih i j
  | inside hrow hraw nested tail _ ih =>
      exact hcons (agree_ofValue_of_lists hrow nested hraw) ih i j

/-- The records of a card are the same if its list is padded. -/
theorem agree_normalize (hp : PaddedPrepared p paddedPrepared) :
    Traced.Agree Eq (normalize nested site p) (normalize nested site paddedPrepared) := by
  refine (Traced.Agree.lift (agree_entryList hp)).bind fun items padded h => ?_
  exact (agree_forEach hnested hp h 0 0).bind fun shown others hshown => .pure hshown

end Nested

/-- Rendering agrees if building does: a card does not keep its list. -/
theorem agree_renderWith {build : Prepared → Traced (List Record)}
    (hbuild : ∀ p paddedPrepared, PaddedPrepared p paddedPrepared →
      Traced.Agree Eq (build p) (build paddedPrepared)) {r paddedRequest : Request}
    (h : PaddedRequest r paddedRequest) :
    Traced.Agree Eq (renderWith build site r) (renderWith build site paddedRequest) := by
  refine (Traced.Agree.lift (agree_prepare site.settings h)).bind fun p paddedPrepared hp => ?_
  refine (hbuild p paddedPrepared hp).bind fun records _ hrecords => ?_
  subst hrecords
  cases hp
  exact .refl _

/-- Records are the same for a padded list, however many levels are left. -/
theorem agree_buildRecords (site : Site) (room : Nat) (hp : PaddedPrepared p paddedPrepared) :
    Traced.Agree Eq (buildRecords site room p) (buildRecords site room paddedPrepared) := by
  induction room generalizing p paddedPrepared with
  | zero =>
      cases hp
      exact .refl _
  | succ room ih =>
      exact agree_normalize (fun r paddedRequest h => agree_renderWith (fun _ _ => ih) h) hp

/-- The same card is built for a padded list. -/
theorem agree_build (site : Site) (hp : PaddedPrepared p paddedPrepared) :
    Traced.Agree Eq (build site p) (build site paddedPrepared) := by
  have hdepth : paddedPrepared.depth = p.depth := by
    cases hp
    rfl
  rw [build, build, recordsOf, recordsOf, hdepth]
  refine (agree_buildRecords site _ hp).bind fun records _ hrecords => .pure ?_
  subst hrecords
  cases hp
  rfl

/-- Checks a request and builds its card. -/
def construct (site : Site) (r : Request) : Traced Card := do
  let p ← r.prepare site.settings
  build site p

/-- Hidden entries are inert. A request whose list is padded with them makes the same card and the
same output, with the same calls, or it fails as the request without them does: for the same reason
and with the same message, in which only the number of the entry may differ. -/
theorem agree_of_padded (site : Site) {r : Request} {list : Value}
    (h : PaddedValue r.attributes list) :
    Traced.Agree Eq (construct site r) (construct site { r with attributes := list }) ∧
      Traced.Agree Eq (widget site r) (widget site { r with attributes := list }) ∧
      ∀ e e', (widget site r).outcome = .error e →
        (widget site { r with attributes := list }).outcome = .error e' →
        ∃ (pieces : Option (List String)) (i j : Nat),
          e.message? = pieces.map (String.intercalate (placeName i)) ∧
            e'.message? = pieces.map (String.intercalate (placeName j)) := by
  have hr : PaddedRequest r { r with attributes := list } := .intro r h
  have hprepared := Traced.Agree.lift (agree_prepare site.settings hr)
  have hwidget : Traced.Agree Eq (widget site r) (widget site { r with attributes := list }) := by
    refine hprepared.bind fun p paddedPrepared hp => ?_
    refine (agree_build site hp).bind fun c _ hc => ?_
    subst hc
    exact .refl _
  refine ⟨hprepared.bind fun p paddedPrepared hp => agree_build site hp, hwidget, ?_⟩
  intro e e' he he'
  have houtcome := hwidget.outcome
  rw [he, he'] at houtcome
  cases houtcome with
  | error hsame => exact hsame.exists_pieces

/-- An entry that breaks many rules and is hidden. -/
def hiddenEntry : Entries :=
  Entries.ofFields [("visible", .int 0), ("microformat", .int 5), ("class", .text "nobody"),
    ("attributes", .list [.null])]

/-- A request for a microformat with another one in it. -/
def aroundPlace : Request :=
  { engine := .basic, root := .text "h-card", model := .dict [(.text "name", .text "Ada")]
    attributes := .list [.text "p-name", .dict (listing [(.text "microformat", .text "h-geo")] []
      (.tuple [.text "p-name"]))]
    template := .null, options := .null, depth := some 0 }

/-- Its list with hidden entries at both levels. -/
def paddedAroundPlace : Value :=
  .list [.dict hiddenEntry, .text "p-name",
    .dict (listing [(.text "microformat", .text "h-geo")] []
      (.tuple [.text "p-name", .record [("visible", .bool false), ("value", .text "Ada")]]))]

theorem padded_aroundPlace : PaddedValue aroundPlace.attributes paddedAroundPlace := by
  have hentry : Hides (.dict hiddenEntry) := ⟨hiddenEntry, rfl, rfl⟩
  have hrecord : Hides (.record [("visible", .bool false), ("value", .text "Ada")]) := ⟨_, rfl, rfl⟩
  exact .row (.inl rfl) (.insert hentry (.keep (.inside (.inr rfl) (.mapping _ _)
    (.keep (.insert hrecord .nil)) .nil)))

theorem agree_of_padded_aroundPlace :
    PaddedValue aroundPlace.attributes paddedAroundPlace ∧
      Traced.Agree Eq (construct (Site.ofComplete .standard) aroundPlace)
        (construct (Site.ofComplete .standard)
          { aroundPlace with attributes := paddedAroundPlace }) ∧
      Traced.Agree Eq (widget (Site.ofComplete .standard) aroundPlace)
        (widget (Site.ofComplete .standard)
          { aroundPlace with attributes := paddedAroundPlace }) := by
  obtain ⟨hcard, houtput, -⟩ := agree_of_padded (Site.ofComplete .standard) padded_aroundPlace
  exact ⟨padded_aroundPlace, hcard, houtput⟩

end Card

end SemanticMarkup
