import SemanticMarkup.Card.Build
import SemanticMarkup.Value.Lookup

/-!
# Building as a relation

`Built site p items records` says, without counting levels, that the entries
`items` of the checked request `p` make the records `records`. It holds exactly
when building succeeds with these records, so properties of whole cards are
proved by induction on it, one case for each kind of entry.

## Implementation notes

The relation forgets the place of an entry in its list, because a place is shown
in messages only. `room` disappears as well: the check of the depth in
`Request.prepare` refuses a microformat before the levels are used up.
-/

namespace SemanticMarkup

/-- A checked request with another list of entries. -/
def Prepared.withList (p : Prepared) (values : List Value) : Prepared :=
  { p with attributes := .list values }

/-- A request is accepted if its root type, depth, options and template are. -/
theorem Request.prepare_eq_ok_iff {settings : Settings} {r : Request} {p : Prepared} :
    r.prepare settings = .ok p ↔
      ∃ root depth options template,
        Request.checkRoot settings r.root = .ok root ∧
        Request.checkDepth settings root r.depth = .ok depth ∧
        Request.readOptions r.options = .ok options ∧
        Request.readTemplate settings r.template = .ok template ∧
        p = {
          engine := r.engine, root := root, depth := depth, options := options,
          template := template, model := r.model, attributes := r.attributes } := by
  simp only [Request.prepare, Outcome.bind_eq_ok_iff, Outcome.pure_eq_ok, Except.ok.injEq]
  constructor
  · rintro ⟨root, hr, depth, hd, options, ho, template, ht, rfl⟩
    exact ⟨root, depth, options, template, hr, hd, ho, ht, rfl⟩
  · rintro ⟨root, depth, options, template, hr, hd, ho, ht, rfl⟩
    exact ⟨root, hr, depth, hd, options, ho, template, ht, rfl⟩

/-- Only a text is accepted as a root type, and it stays as it is. -/
theorem Request.eq_text_of_checkRoot {settings : Settings} {root : Value} {s : String}
    (h : Request.checkRoot settings root = .ok s) : root = .text s := by
  unfold Request.checkRoot at h
  split at h
  · cases h
  · split at h
    · split at h
      · rw [Except.ok.inj h]
      · cases h
    · obtain ⟨shown, -, h⟩ := Outcome.bind_eq_ok_iff.mp h
      cases h

/-- A depth is accepted up to the greatest one. -/
theorem Request.checkDepth_eq_ok_iff {settings : Settings} {root : String} {depth : Option Int}
    {d : Int} :
    Request.checkDepth settings root depth = .ok d ↔
      depth = some d ∧ d ≤ settings.maxEmbedDepth := by
  cases depth with
  | none => simp [Request.checkDepth]
  | some n =>
      by_cases hn : (settings.maxEmbedDepth : Int) < n
      · simp only [Request.checkDepth, if_pos hn, Outcome.configError_ne_ok, Option.some.injEq,
          false_iff, not_and]
        rintro rfl
        omega
      · simp only [Request.checkDepth, if_neg hn, Except.ok.injEq, Option.some.injEq]
        constructor
        · rintro rfl
          exact ⟨rfl, by omega⟩
        · exact fun h => h.1

/-- A checked request has the depth that was asked for, which is allowed. -/
theorem Request.depth_of_prepare {settings : Settings} {r : Request} {p : Prepared}
    (h : r.prepare settings = .ok p) :
    r.depth = some p.depth ∧ p.depth ≤ settings.maxEmbedDepth := by
  obtain ⟨root, depth, options, template, -, hd, -, -, rfl⟩ := Request.prepare_eq_ok_iff.mp h
  exact Request.checkDepth_eq_ok_iff.mp hd

namespace Card

/-- The records that a list of entries makes, built as part of the card of a checked request. -/
inductive Built (site : Site) : Prepared → List Value → List Record → Prop
  /-- No entries make no records. -/
  | nil (p : Prepared) : Built site p [] []
  /-- A hidden entry makes no record. -/
  | hidden {p raw rest entries records} (he : Entry.ofValue raw = .ok entries)
      (hh : isHidden entries = true) (tail : Built site p rest records) :
      Built site p (raw :: rest) records
  /-- A plain entry is filled in. -/
  | plain {p raw rest entries records r place} (he : Entry.ofValue raw = .ok entries)
      (hh : isHidden entries = false) (hn : entries.valueOf "microformat" = .null)
      (hf : fillPlain site.settings p.model entries place = .ok r)
      (tail : Built site p rest records) : Built site p (raw :: rest) (r :: records)
  /-- An entry that embeds a microformat has the card for it built and rendered. -/
  | embedded {p raw rest entries records request inner items within markup}
      (he : Entry.ofValue raw = .ok entries) (hh : isHidden entries = false)
      (hn : entries.valueOf "microformat" ≠ .null)
      (hallowed : forbiddenNames.find? entries.hasName = none)
      (hfaults : Rules.faults entries = [])
      (hrequest : nestedRequest site.registry p entries = .ok request)
      (hinner : request.prepare site.settings = .ok inner)
      (hitems : entryList inner = .ok items) (nested : Built site inner items within)
      (hmarkup : (inner.card site within).markup = .ok markup)
      (tail : Built site p rest records) :
      Built site p (raw :: rest)
        (embeddedRecord (textOf (entries.valueOf "microformat"))
          (outputOf inner.engine markup) :: records)

variable {site : Site} {p : Prepared}

/-- A list whose first entry embeds a microformat has a card built and rendered for it, and the
record that shows this card in front of those of the rest. -/
theorem Built.exists_nested {raw : Value} {rest : List Value} {records : List Record}
    {entries : Entries} (h : Built site p (raw :: rest) records)
    (he : Entry.ofValue raw = .ok entries) (hh : isHidden entries = false)
    (hn : entries.valueOf "microformat" ≠ .null) :
    ∃ request inner items within markup others,
      forbiddenNames.find? entries.hasName = none ∧ Rules.faults entries = [] ∧
      nestedRequest site.registry p entries = .ok request ∧
      request.prepare site.settings = .ok inner ∧ entryList inner = .ok items ∧
      Built site inner items within ∧ (inner.card site within).markup = .ok markup ∧
      Built site p rest others ∧
      records = embeddedRecord (textOf (entries.valueOf "microformat"))
        (outputOf inner.engine markup) :: others := by
  cases h with
  | hidden he' hh' tail =>
      cases he.symm.trans he'
      cases hh.symm.trans hh'
  | plain he' hh' hn' hf tail =>
      cases he.symm.trans he'
      exact absurd hn' hn
  | embedded he' hh' hn' hallowed hfaults hrequest hinner hitems nested hmarkup tail =>
      cases he.symm.trans he'
      exact ⟨_, _, _, _, _, _, hallowed, hfaults, hrequest, hinner, hitems, nested, hmarkup, tail,
        rfl⟩

/-- A card is rendered to the output of its engine. -/
@[simp] theorem outcome_render (c : Card) :
    c.render.outcome = c.markup.map (outputOf c.engine) := by
  simp only [render, Traced.outcome_bind, Traced.outcome_lift, Traced.outcome_call,
    Traced.outcome_pure, Outcome.ok_bind]
  cases c.markup <;> rfl

/-- Rendering a request that `build` gives records. -/
theorem outcome_renderWith_eq_ok_iff {build : Prepared → Traced (List Record)} {r : Request}
    {html : String} :
    (renderWith build site r).outcome = .ok html ↔
      ∃ inner records markup, r.prepare site.settings = .ok inner ∧
        (build inner).outcome = .ok records ∧ (inner.card site records).markup = .ok markup ∧
        html = outputOf inner.engine markup := by
  simp only [renderWith, Traced.outcome_bind, Traced.outcome_lift, Outcome.bind_eq_ok_iff,
    outcome_render]
  constructor
  · rintro ⟨inner, hi, records, hr, h⟩
    cases hm : (inner.card site records).markup with
    | error e => rw [hm] at h; cases h
    | ok markup =>
        rw [hm] at h
        exact ⟨inner, records, markup, hi, hr, hm, (Except.ok.inj h).symm⟩
  · rintro ⟨inner, records, markup, hi, hr, hm, rfl⟩
    exact ⟨inner, hi, records, hr, by rw [hm]; rfl⟩

/-- Embedding succeeds if the entry passes its checks and its microformat is rendered. -/
theorem outcome_embed_eq_ok_iff {nested : Request → Traced String} {entries : Entries}
    {place : String} {r : Record} :
    (embed nested site p entries place).outcome = .ok r ↔
      forbiddenNames.find? entries.hasName = none ∧ Rules.faults entries = [] ∧
        ∃ request html, nestedRequest site.registry p entries = .ok request ∧
          (nested request).outcome = .ok html ∧
          r = embeddedRecord (textOf (entries.valueOf "microformat")) html := by
  rw [embed]
  split
  · rename_i field hf
    simp [hf]
  · rename_i hf
    simp only [Traced.outcome_bind, Traced.outcome_lift, Traced.outcome_pure,
      Outcome.bind_eq_ok_iff, Except.ok.injEq, hf, true_and]
    constructor
    · rintro ⟨_, hc, request, hq, html, hh, rfl⟩
      exact ⟨(Rules.check_eq_ok_iff entries place).mp hc, request, html, hq, hh, rfl⟩
    · rintro ⟨hc, request, html, hq, hh, rfl⟩
      exact ⟨(), (Rules.check_eq_ok_iff entries place).mpr hc, request, hq, html, hh, rfl⟩

/-- The place of an entry is used in the message of a failure only. -/
theorem labelAndValue_place {model : Value} {entries : Entries} {name : Option String}
    {place : String} {shown : Value × Value}
    (h : labelAndValue model entries name place = .ok shown) (other : String) :
    labelAndValue model entries name other = .ok shown := by
  cases name with
  | some name => exact h
  | none =>
      simp only [labelAndValue] at h ⊢
      split at h
      · cases h
      · rename_i hv
        rw [if_neg hv]
        exact h

/-- A plain entry is filled in if it passes its checks and all parts of its record are found. The
place does not matter. -/
theorem fillPlain_eq_ok_iff {settings : Settings} {model : Value} {entries : Entries}
    {place : String} {r : Record} (other : String) :
    fillPlain settings model entries place = .ok r ↔
      entries.valueOf "class" = .null ∧ Rules.faults entries = [] ∧
        ∃ name label value options, attributeName entries = .ok name ∧
          labelAndValue model entries name other = .ok (label, value) ∧
          entryOptions entries = .ok options ∧
          Record.ofEntries (filledEntries settings entries name label value options) = .ok r := by
  rw [fillPlain]
  by_cases hclass : entries.valueOf "class" = .null
  · simp only [hclass, Value.isNull, Bool.not_true, Bool.false_eq_true, if_false,
      Outcome.bind_eq_ok_iff, true_and]
    constructor
    · rintro ⟨_, hc, name, hname, ⟨label, value⟩, hshown, options, hoptions, h⟩
      exact ⟨(Rules.check_eq_ok_iff entries place).mp hc, name, label, value, options, hname,
        labelAndValue_place hshown other, hoptions, h⟩
    · rintro ⟨hc, name, label, value, options, hname, hshown, hoptions, h⟩
      exact ⟨(), (Rules.check_eq_ok_iff entries place).mpr hc, name, hname, (label, value),
        labelAndValue_place hshown place, options, hoptions, h⟩
  · have hn : (entries.valueOf "class").isNull = false := by simpa using hclass
    simp [hn, hclass]

/-- Filling in a plain entry does not depend on its place. -/
theorem fillPlain_place {settings : Settings} {model : Value} {entries : Entries}
    {place : String} {r : Record} (h : fillPlain settings model entries place = .ok r)
    (other : String) : fillPlain settings model entries other = .ok r :=
  (fillPlain_eq_ok_iff place).mpr ((fillPlain_eq_ok_iff place).mp h)

/-- What a nested renderer has to do: to render the cards that the relation builds. -/
def Faithful (site : Site) (nested : Request → Traced String) : Prop :=
  ∀ r html, (nested r).outcome = .ok html →
    ∃ inner items within markup, r.prepare site.settings = .ok inner ∧
      entryList inner = .ok items ∧ Built site inner items within ∧
      (inner.card site within).markup = .ok markup ∧ html = outputOf inner.engine markup

/-- The records of a list are made one by one. The list is not looked at on the way. -/
theorem buildRecords_withList (site : Site) (room : Nat) (p : Prepared) (items : List Value) :
    buildRecords site (room + 1) (p.withList items) =
      Traced.forEach (recordOf (renderWith (buildRecords site room) site) site p) 0 items >>=
        fun shown => pure (shown.filterMap id) := by
  rw [buildRecords, normalize]
  exact Traced.andThen_ok items _

/-- Records made one by one are built, if the nested cards are. -/
theorem Built.of_forEach {nested : Request → Traced String} (hnested : Faithful site nested)
    {items : List Value} {i : Nat} {shown : List (Option Record)}
    (h : (Traced.forEach (recordOf nested site p) i items).outcome = .ok shown) :
    Built site p items (shown.filterMap id) := by
  induction items generalizing i shown with
  | nil =>
      rw [Traced.outcome_forEach_nil, Except.ok.injEq] at h
      subst h
      exact .nil p
  | cons raw rest ih =>
      simp only [Traced.outcome_forEach_cons, Outcome.bind_eq_ok_iff, Outcome.pure_eq_ok,
        Except.ok.injEq] at h
      obtain ⟨first, hfirst, others, hothers, rfl⟩ := h
      have tail := ih hothers
      simp only [recordOf, Traced.outcome_bind, Traced.outcome_lift,
        Outcome.bind_eq_ok_iff] at hfirst
      obtain ⟨entries, he, hfirst⟩ := hfirst
      by_cases hh : isHidden entries = true
      · rw [if_pos hh, Traced.outcome_pure, Except.ok.injEq] at hfirst
        subst hfirst
        exact .hidden he hh tail
      · rw [if_neg hh] at hfirst
        replace hh := Bool.eq_false_iff.mpr hh
        by_cases hn : entries.valueOf "microformat" = .null
        · rw [if_pos ((Value.isNull_iff _).mpr hn), Traced.outcome_bind,
            Outcome.bind_eq_ok_iff] at hfirst
          obtain ⟨r, hf, hr⟩ := hfirst
          rw [Traced.outcome_pure, Except.ok.injEq] at hr
          subst hr
          exact .plain he hh hn hf tail
        · rw [if_neg (fun hc => hn ((Value.isNull_iff _).mp hc)), Traced.outcome_bind,
            Outcome.bind_eq_ok_iff] at hfirst
          obtain ⟨r, hf, hr⟩ := hfirst
          rw [Traced.outcome_pure, Except.ok.injEq] at hr
          subst hr
          obtain ⟨hallowed, hfaults, request, html, hq, hhtml, rfl⟩ :=
            outcome_embed_eq_ok_iff.mp hf
          obtain ⟨inner, items, within, markup, hp, hl, hb, hm, rfl⟩ := hnested request html hhtml
          exact .embedded he hh hn hallowed hfaults hq hp hl hb hm tail

/-- Whatever is built is built by the relation. -/
theorem Built.of_buildRecords {room : Nat} {records : List Record}
    (h : (buildRecords site room p).outcome = .ok records) :
    ∃ items, entryList p = .ok items ∧ Built site p items records := by
  induction room generalizing p records with
  | zero => cases h
  | succ room ih =>
      simp only [buildRecords, normalize, Traced.outcome_bind, Traced.outcome_lift,
        Traced.outcome_pure, Outcome.bind_eq_ok_iff, Except.ok.injEq] at h
      obtain ⟨items, hl, shown, hs, rfl⟩ := h
      refine ⟨items, hl, Built.of_forEach ?_ hs⟩
      intro r html hhtml
      obtain ⟨inner, within, markup, hp, hb, hm, rfl⟩ := outcome_renderWith_eq_ok_iff.mp hhtml
      obtain ⟨items, hl, hb⟩ := ih hb
      exact ⟨inner, items, within, markup, hp, hl, hb, hm, rfl⟩

/-- A hidden entry makes no record. -/
theorem outcome_recordOf_hidden {nested : Request → Traced String} {i : Nat} {raw : Value}
    {entries : Entries} (he : Entry.ofValue raw = .ok entries) (hh : isHidden entries = true) :
    (recordOf nested site p i raw).outcome = .ok none := by
  simp [recordOf, he, hh]

/-- A plain entry makes the record that it is filled in to. -/
theorem outcome_recordOf_plain {nested : Request → Traced String} {i : Nat} {raw : Value}
    {entries : Entries} {place : String} {r : Record} (he : Entry.ofValue raw = .ok entries)
    (hh : isHidden entries = false) (hn : entries.valueOf "microformat" = .null)
    (hf : fillPlain site.settings p.model entries place = .ok r) :
    (recordOf nested site p i raw).outcome = .ok (some r) := by
  simp [recordOf, he, hh, hn, Value.isNull, fillPlain_place hf]

/-- An entry that embeds a microformat makes the record that shows it, if it is rendered. -/
theorem outcome_recordOf_embedded {nested : Request → Traced String} {i : Nat} {raw : Value}
    {entries : Entries} {request : Request}
    (he : Entry.ofValue raw = .ok entries) (hh : isHidden entries = false)
    (hn : entries.valueOf "microformat" ≠ .null)
    (hallowed : forbiddenNames.find? entries.hasName = none)
    (hfaults : Rules.faults entries = [])
    (hrequest : nestedRequest site.registry p entries = .ok request) :
    (recordOf nested site p i raw).outcome = (nested request).outcome.map fun html =>
      some (embeddedRecord (textOf (entries.valueOf "microformat")) html) := by
  have hcheck : Rules.check entries (placeName i) = .ok () :=
    (Rules.check_eq_ok_iff entries _).mpr hfaults
  have hnn : (entries.valueOf "microformat").isNull = false := by simpa using hn
  simp only [recordOf, he, hh, hnn, embed, hallowed, hcheck, hrequest, Traced.outcome_bind,
    Traced.outcome_lift, Traced.outcome_pure, Outcome.ok_bind, Bool.false_eq_true, if_false]
  cases (nested request).outcome <;> rfl

/-- The request that an entry makes, part by part. -/
theorem nestedRequest_eq_ok_iff {registry : Registry} {entries : Entries} {request : Request} :
    nestedRequest registry p entries = .ok request ↔
      ∃ options engine, entryOptions entries = .ok options ∧
        nestedEngine registry p.engine entries = .ok engine ∧
        request = {
          engine := engine, root := entries.valueOf "microformat",
          model := orElse (entries.valueOf "model") p.model,
          attributes := entries.valueOf "attributes", template := entries.valueOf "template",
          options := .dict options, depth := some (p.depth + 1) } := by
  simp only [nestedRequest, Outcome.bind_eq_ok_iff, Outcome.pure_eq_ok, Except.ok.injEq]
  constructor
  · rintro ⟨options, ho, engine, he, rfl⟩
    exact ⟨options, engine, ho, he, rfl⟩
  · rintro ⟨options, engine, ho, he, rfl⟩
    exact ⟨options, ho, engine, he, rfl⟩

/-- The request for a nested microformat asks for one level more. -/
theorem depth_of_nestedRequest {registry : Registry} {entries : Entries} {request : Request}
    (h : nestedRequest registry p entries = .ok request) : request.depth = some (p.depth + 1) := by
  obtain ⟨options, engine, -, -, rfl⟩ := nestedRequest_eq_ok_iff.mp h
  rfl

/-- A nested card that is accepted lies one level deeper. -/
theorem depth_of_inner {entries : Entries} {request : Request} {inner : Prepared}
    (hrequest : nestedRequest site.registry p entries = .ok request)
    (hinner : request.prepare site.settings = .ok inner) :
    inner.depth = p.depth + 1 ∧ inner.depth ≤ site.settings.maxEmbedDepth := by
  obtain ⟨hd, hle⟩ := Request.depth_of_prepare hinner
  rw [depth_of_nestedRequest hrequest, Option.some.injEq] at hd
  exact ⟨hd.symm, hle⟩

/-- What the relation builds is built, one by one, where the levels left reach the deepest one.
The induction is on the relation; a nested card uses up one level. -/
theorem Built.outcome_forEach {items : List Value} {records : List Record}
    (h : Built site p items records) (room : Nat)
    (hroom : (room : Int) + p.depth = site.settings.maxEmbedDepth) (i : Nat) :
    ∃ shown, (Traced.forEach (recordOf (renderWith (buildRecords site room) site) site p) i
        items).outcome = .ok shown ∧ shown.filterMap id = records := by
  induction h generalizing room i with
  | nil p => exact ⟨[], rfl, rfl⟩
  | hidden he hh tail ih =>
      obtain ⟨shown, hs, hrecords⟩ := ih room hroom (i + 1)
      refine ⟨none :: shown, ?_, by simpa using hrecords⟩
      simp [Traced.outcome_forEach_cons, outcome_recordOf_hidden he hh, hs]
  | plain he hh hn hf tail ih =>
      obtain ⟨shown, hs, rfl⟩ := ih room hroom (i + 1)
      refine ⟨some _ :: shown, ?_, rfl⟩
      simp [Traced.outcome_forEach_cons, outcome_recordOf_plain he hh hn hf, hs]
  | @embedded p raw rest entries records request inner items within markup he hh hn hallowed
      hfaults hrequest hinner hitems nested hmarkup tail ihNested ihTail =>
      obtain ⟨shown, hs, rfl⟩ := ihTail room hroom (i + 1)
      obtain ⟨hdepth, hle⟩ := depth_of_inner hrequest hinner
      obtain ⟨left, rfl⟩ : ∃ left, room = left + 1 := ⟨room - 1, by omega⟩
      obtain ⟨inside, hin, hwithin⟩ := ihNested left (by omega) 0
      have hbuild : (buildRecords site (left + 1) inner).outcome = .ok within := by
        simp only [buildRecords, normalize, Traced.outcome_bind, Traced.outcome_lift,
          Traced.outcome_pure, hitems, hin, hwithin, Outcome.ok_bind]
      have hhtml : (renderWith (buildRecords site (left + 1)) site request).outcome =
          .ok (outputOf inner.engine markup) :=
        outcome_renderWith_eq_ok_iff.mpr ⟨inner, within, markup, hinner, hbuild, hmarkup, rfl⟩
      refine ⟨some _ :: shown, ?_, rfl⟩
      rw [Traced.outcome_forEach_cons,
        outcome_recordOf_embedded he hh hn hallowed hfaults hrequest, hhtml, hs]
      rfl

/-- Building succeeds with some records exactly if the relation builds them. -/
theorem outcome_recordsOf_eq_ok_iff {records : List Record}
    (hdepth : p.depth ≤ site.settings.maxEmbedDepth) :
    (recordsOf site p).outcome = .ok records ↔
      ∃ items, entryList p = .ok items ∧ Built site p items records := by
  constructor
  · exact Built.of_buildRecords
  · rintro ⟨items, hl, h⟩
    obtain ⟨room, hroom⟩ : ∃ room : Nat, (room : Int) + p.depth = site.settings.maxEmbedDepth :=
      ⟨(site.settings.maxEmbedDepth - p.depth).toNat, by omega⟩
    obtain ⟨shown, hs, hrecords⟩ := h.outcome_forEach room hroom 0
    have hlevels : roomAt site.settings p.depth = room + 1 := by
      unfold roomAt
      omega
    simp only [recordsOf, hlevels, buildRecords, normalize, Traced.outcome_bind,
      Traced.outcome_lift, Traced.outcome_pure, hl, hs, hrecords, Outcome.ok_bind]

/-- A card is built if its records are. -/
theorem outcome_build_eq_ok_iff_records {c : Card} :
    (build site p).outcome = .ok c ↔
      ∃ records, (recordsOf site p).outcome = .ok records ∧ c = p.card site records := by
  simp only [build, Traced.outcome_bind, Traced.outcome_pure, Outcome.bind_eq_ok_iff,
    Except.ok.injEq]
  exact exists_congr fun _ => and_congr_right fun _ => eq_comm

/-- The records of a card are those that the relation builds. -/
theorem outcome_build_eq_ok_iff {c : Card} (hdepth : p.depth ≤ site.settings.maxEmbedDepth) :
    (build site p).outcome = .ok c ↔
      ∃ items records, entryList p = .ok items ∧ Built site p items records ∧
        c = p.card site records := by
  simp only [outcome_build_eq_ok_iff_records, outcome_recordsOf_eq_ok_iff hdepth]
  constructor
  · rintro ⟨records, ⟨items, hl, h⟩, rfl⟩
    exact ⟨items, records, hl, h, rfl⟩
  · rintro ⟨items, records, hl, h, rfl⟩
    exact ⟨records, ⟨items, hl, h⟩, rfl⟩

/-- A widget is the output for the card that the relation builds. -/
theorem outcome_widget_eq_ok_iff {r : Request} {html : String} :
    (widget site r).outcome = .ok html ↔
      ∃ p items records markup, r.prepare site.settings = .ok p ∧ entryList p = .ok items ∧
        Built site p items records ∧ (p.card site records).markup = .ok markup ∧
        html = outputOf p.engine markup := by
  have hassoc : (widget site r).outcome = (renderWith (recordsOf site) site r).outcome := by
    simp only [widget, buildAndRender, build, renderWith, Traced.outcome_bind,
      Traced.outcome_lift, Traced.outcome_pure, bind_assoc, Outcome.ok_bind]
  rw [hassoc, outcome_renderWith_eq_ok_iff]
  constructor
  · rintro ⟨p, records, markup, hp, hb, hm, rfl⟩
    obtain ⟨items, hl, hb⟩ :=
      (outcome_recordsOf_eq_ok_iff (Request.depth_of_prepare hp).2).mp hb
    exact ⟨p, items, records, markup, hp, hl, hb, hm, rfl⟩
  · rintro ⟨p, items, records, markup, hp, hl, hb, hm, rfl⟩
    exact ⟨p, records, markup, hp,
      (outcome_recordsOf_eq_ok_iff (Request.depth_of_prepare hp).2).mpr ⟨items, hl, hb⟩, hm, rfl⟩

end Card

end SemanticMarkup
