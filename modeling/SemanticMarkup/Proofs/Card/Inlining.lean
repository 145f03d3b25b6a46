import SemanticMarkup.Proofs.Card.Depth

/-!
# Embedded microformats in the form of plain entries

An entry that embeds a microformat makes the same record as the plain entry that
shows the output of this microformat, rendered on its own. `Inlined` replaces one
entry by this plain one, at any level of a list, and `Built.inline` says that the
records stay the same.
-/

namespace SemanticMarkup

/-- A request with another list is accepted as before. -/
theorem Request.prepare_withAttributes {settings : Settings} {r : Request} {p : Prepared}
    (h : r.prepare settings = .ok p) (v : Value) :
    Request.prepare settings { r with attributes := v } = .ok { p with attributes := v } := by
  obtain ⟨root, depth, options, template, hr, hd, ho, ht, rfl⟩ := Request.prepare_eq_ok_iff.mp h
  exact Request.prepare_eq_ok_iff.mpr ⟨root, depth, options, template, hr, hd, ho, ht, rfl⟩

/-- Whether all templates that a request gives are texts: its own and those of all entries that are
shown, at all levels. -/
def Request.TextOnly (r : Request) : Prop :=
  r.template.isPattern = false ∧ ∀ items, r.attributes.items = .ok items → Card.TextTemplates items

namespace Card

/-- The plain entry that shows the output of a microformat. -/
def inlineEntry (root html : String) : Entries :=
  Entries.ofFields [("value", .text html), ("format", .text "raw"),
    ("template", .text "\x7bvalue\x7d"), ("embedded", .text root)]

/-- A list of entries holds one that embeds a microformat, at any level; `q` is the checked request
that this entry belongs to. -/
inductive Holds (site : Site) : Prepared → List Value → Prepared → Entries → Prop
  /-- It is the first entry of the list. -/
  | here {p raw rest entries} (he : Entry.ofValue raw = .ok entries)
      (hh : isHidden entries = false) (hn : entries.valueOf "microformat" ≠ .null) :
      Holds site p (raw :: rest) p entries
  /-- It is held in the list of the first entry. -/
  | inside {p raw rest outer request inner within q entries} (he : Entry.ofValue raw = .ok outer)
      (hh : isHidden outer = false) (hn : outer.valueOf "microformat" ≠ .null)
      (hrequest : nestedRequest site.registry p outer = .ok request)
      (hinner : request.prepare site.settings = .ok inner)
      (hitems : entryList inner = .ok within) (h : Holds site inner within q entries) :
      Holds site p (raw :: rest) q entries
  /-- It is held behind the first entry. -/
  | later {p raw rest q entries} (h : Holds site p rest q entries) :
      Holds site p (raw :: rest) q entries

/-- One embedded microformat in a list of entries, at any level, is rendered on its own and
replaced by the plain entry that shows the output. -/
inductive Inlined (site : Site) : Prepared → List Value → List Value → Prop
  /-- The first entry of the list. -/
  | here {p raw rest entries request html} (he : Entry.ofValue raw = .ok entries)
      (hh : isHidden entries = false) (hn : entries.valueOf "microformat" ≠ .null)
      (hrequest : nestedRequest site.registry p entries = .ok request)
      (hhtml : (widget site { request with depth := some 0 }).outcome = .ok html) :
      Inlined site p (raw :: rest)
        (.dict (inlineEntry (textOf (entries.valueOf "microformat")) html) :: rest)
  /-- An entry in the list of the first one. -/
  | inside {p raw rest entries request inner within changed}
      (he : Entry.ofValue raw = .ok entries) (hh : isHidden entries = false)
      (hn : entries.valueOf "microformat" ≠ .null)
      (hrequest : nestedRequest site.registry p entries = .ok request)
      (hinner : request.prepare site.settings = .ok inner)
      (hitems : entryList inner = .ok within) (h : Inlined site inner within changed) :
      Inlined site p (raw :: rest) (.dict (entries.putName "attributes" (.list changed)) :: rest)
  /-- An entry behind the first one. -/
  | later {p raw rest changed} (h : Inlined site p rest changed) :
      Inlined site p (raw :: rest) (raw :: changed)

variable {site : Site} {p : Prepared} {items : List Value} {records : List Record}

/-- The plain entry that shows an output makes the record that embedding makes. -/
theorem fillPlain_inlineEntry (settings : Settings) (model : Value) (root html place : String) :
    fillPlain settings model (inlineEntry root html) place = .ok (embeddedRecord root html) := by
  have hfilled : Filled settings (inlineEntry root html) none .null (.text html) []
      (embeddedRecord root html) := {
    property := rfl, path := rfl, label := rfl, value := rfl, format := rfl, options := rfl
    template := rfl, visible := rfl, embedded := rfl, extras := rfl, given := rfl }
  rw [fillPlain_eq_ok_iff_filled place]
  exact ⟨rfl, rfl, none, .null, .text html, [], rfl, rfl, rfl, hfilled⟩

/-- Entries make the same records whatever list their request was given. -/
theorem Built.withAttributes (h : Built site p items records) (v : Value) :
    Built site { p with attributes := v } items records := by
  induction h with
  | nil p => exact .nil _
  | hidden he hh tail ih => exact .hidden he hh ih
  | plain he hh hn hf tail ih => exact .plain he hh hn hf ih
  | embedded he hh hn hallowed hfaults hrequest hinner hitems nested hmarkup tail ihNested ihTail =>
      exact .embedded he hh hn hallowed hfaults hrequest hinner hitems nested hmarkup ihTail

/-- The entries of a request make one list of records only. -/
theorem Built.unique {others : List Record} (h : Built site p items records)
    (h' : Built site p items others) (hdepth : p.depth ≤ site.settings.maxEmbedDepth) :
    records = others := by
  have hlist : entryList { p with attributes := .list items } = .ok items := rfl
  have hone := (outcome_recordsOf_eq_ok_iff (p := { p with attributes := .list items }) hdepth).mpr
    ⟨items, hlist, h.withAttributes _⟩
  have htwo := (outcome_recordsOf_eq_ok_iff (p := { p with attributes := .list items }) hdepth).mpr
    ⟨items, hlist, h'.withAttributes _⟩
  exact Except.ok.inj (hone.symm.trans htwo)

/-- A microformat that is built inside another one has the output that it has on its own. -/
theorem Built.html_of_widget {request : Request} {inner : Prepared} {within : List Record}
    {markup html : String} (hinner : request.prepare site.settings = .ok inner)
    (hitems : entryList inner = .ok items) (nested : Built site inner items within)
    (hmarkup : (inner.card site within).markup = .ok markup) (ht : TextTemplates items)
    (htext : inner.template.isText = true)
    (hhtml : (widget site { request with depth := some 0 }).outcome = .ok html) :
    html = outputOf inner.engine markup := by
  obtain ⟨alone, entries, others, shown, ha, hl, hb, hm, rfl⟩ := outcome_widget_eq_ok_iff.mp hhtml
  have hle := (Request.depth_of_prepare hinner).2
  have hzero : (0 : Int) ≤ site.settings.maxEmbedDepth := by omega
  have ha' : Request.prepare site.settings { request with depth := some 0 } =
      .ok { inner with depth := 0 } := Request.prepare_relocate hinner hzero
  obtain rfl : { inner with depth := 0 } = alone := Except.ok.inj (ha'.symm.trans ha)
  obtain rfl : items = entries := Except.ok.inj (hitems.symm.trans hl)
  -- The card on its own is moved to the place of the one inside, where there is only one.
  have hmoved : Built site inner items others :=
    hb.relocate ht site.formatter.settings.maxEmbedDepth (nested.depth_add_nesting_le hle)
  obtain rfl := nested.unique hmoved hle
  have hsame := markup_relocate site htext (nested.isTextual ht) 0 site.settings.maxEmbedDepth
    site.formatter.settings.maxEmbedDepth
  have hboth : (Except.ok shown : Outcome String) = .ok markup :=
    hm.symm.trans (hsame.trans hmarkup)
  rw [Except.ok.inj hboth]

/-- A microformat that is built inside another one is rendered on its own as well. -/
theorem Built.widget_of_nested {request : Request} {inner : Prepared} {within : List Record}
    {markup : String} (hinner : request.prepare site.settings = .ok inner)
    (hitems : entryList inner = .ok items) (nested : Built site inner items within)
    (hmarkup : (inner.card site within).markup = .ok markup) (ht : TextTemplates items)
    (htext : inner.template.isText = true) (hdepth : 0 ≤ inner.depth) :
    ∃ html, (widget site { request with depth := some 0 }).outcome = .ok html := by
  have hfits := nested.depth_add_nesting_le (Request.depth_of_prepare hinner).2
  have hroom : (0 : Int) + itemsNesting items ≤ site.settings.maxEmbedDepth := by omega
  have halone : Built site { inner with depth := 0 } items within :=
    nested.relocate ht site.formatter.settings.maxEmbedDepth hroom
  have hprepared : Request.prepare site.settings { request with depth := some 0 } =
      .ok { inner with depth := 0 } := Request.prepare_relocate hinner (by omega)
  have hsame := markup_relocate site htext (nested.isTextual ht) 0 site.settings.maxEmbedDepth
    site.formatter.settings.maxEmbedDepth
  exact ⟨_, outcome_widget_eq_ok_iff.mpr
    ⟨_, items, within, markup, hprepared, hitems, halone, hsame.trans hmarkup, rfl⟩⟩

/-- Every microformat that a built list holds is rendered on its own. -/
theorem Built.widget_of_holds {q : Prepared} {entries : Entries} (hq : Holds site p items q entries)
    (h : Built site p items records) (ht : TextTemplates items) (hdepth : 0 ≤ p.depth) :
    ∃ request html, nestedRequest site.registry q entries = .ok request ∧
      (widget site { request with depth := some 0 }).outcome = .ok html := by
  induction hq generalizing records with
  | here he hh hn =>
      obtain ⟨request, inner, own, within, markup, others, -, -, hrequest, hinner, hitems, nested,
        hmarkup, -, -⟩ := h.exists_nested he hh hn
      obtain ⟨hattributes, htemplate⟩ := inner_of_nestedRequest hrequest hinner
      have hwithin := ht.inner he hh hn hattributes hitems
      have htext := Request.isText_of_readTemplate (ht.head he hh) htemplate
      have hlower := (depth_of_inner hrequest hinner).1
      obtain ⟨html, hhtml⟩ := Built.widget_of_nested hinner hitems nested hmarkup hwithin htext
        (by omega)
      exact ⟨request, html, hrequest, hhtml⟩
  | inside he hh hn hrequest hinner hitems hq ih =>
      obtain ⟨_, _, _, within, _, _, -, -, hrequest', hinner', hitems', nested, -, -, -⟩ :=
        h.exists_nested he hh hn
      cases hrequest.symm.trans hrequest'
      cases hinner.symm.trans hinner'
      cases hitems.symm.trans hitems'
      have hattributes := (inner_of_nestedRequest hrequest hinner).1
      have hlower := (depth_of_inner hrequest hinner).1
      exact ih nested (ht.inner he hh hn hattributes hitems) (by omega)
  | later hq ih =>
      cases h with
      | hidden he hh tail => exact ih tail ht.tail hdepth
      | plain he hh hn hf tail => exact ih tail ht.tail hdepth
      | embedded he hh hn hallowed hfaults hrequest hinner hitems nested hmarkup tail =>
          exact ih tail ht.tail hdepth

/-- An entry that embeds a microformat stays without faults when it gets another list. -/
theorem faults_putName_attributes {entries : Entries} (h : Rules.faults entries = [])
    (hm : entries.hasName "microformat" = true) (changed : List Value) :
    Rules.faults (entries.putName "attributes" (.list changed)) = [] := by
  have hm' : (entries.putName "attributes" (.list changed)).hasName "microformat" = true := by
    rw [Entries.hasName_putName_of_ne _ _ (by decide), hm]
  rw [Rules.faults, List.filterMap_eq_nil_iff]
  intro e he
  rw [hm', if_pos rfl]
  obtain ho | rfl := Entries.mem_putName he
  · have hf := Rules.fieldFault_of_faults_eq_nil h ho
    rw [hm, if_pos rfl] at hf
    rw [hf]
    rfl
  · rfl

/-- An entry with another list makes the request with this list. -/
theorem nestedRequest_putName_attributes {registry : Registry} {entries : Entries}
    {request : Request} (h : nestedRequest registry p entries = .ok request) (v : Value) :
    nestedRequest registry p (entries.putName "attributes" v) =
      .ok { request with attributes := v } := by
  have hsame (name : String) (hne : name ≠ "attributes") :=
    Entries.valueOf_putName_of_ne entries v hne
  obtain ⟨options, engine, ho, he, rfl⟩ := nestedRequest_eq_ok_iff.mp h
  rw [nestedRequest_eq_ok_iff]
  refine ⟨options, engine, ?_, ?_, ?_⟩
  · rw [entryOptions, hsame "options" (by decide), hsame "property" (by decide)]
    exact ho
  · rw [nestedEngine, hsame "class" (by decide)]
    exact he
  · rw [hsame "microformat" (by decide), hsame "model" (by decide), hsame "template" (by decide),
      Entries.valueOf_putName_self]

/-- An entry that embeds a microformat makes the same record with another list that makes the same
records as its own. -/
theorem Built.putAttributes {entries : Entries} {request : Request} {inner : Prepared}
    {rest changed : List Value} {within : List Record} {markup : String}
    (hh : isHidden entries = false) (hn : entries.valueOf "microformat" ≠ .null)
    (hallowed : forbiddenNames.find? entries.hasName = none) (hfaults : Rules.faults entries = [])
    (hrequest : nestedRequest site.registry p entries = .ok request)
    (hinner : request.prepare site.settings = .ok inner)
    (nested : Built site inner changed within)
    (hmarkup : (inner.card site within).markup = .ok markup) (tail : Built site p rest records) :
    Built site p (.dict (entries.putName "attributes" (.list changed)) :: rest)
      (embeddedRecord (textOf (entries.valueOf "microformat")) (outputOf inner.engine markup) ::
        records) := by
  have hsame (name : String) (hne : name ≠ "attributes") :
      (entries.putName "attributes" (.list changed)).valueOf name = entries.valueOf name :=
    Entries.valueOf_putName_of_ne entries (.list changed) hne
  have hroot := hsame "microformat" (by decide)
  have hhidden : isHidden (entries.putName "attributes" (.list changed)) = false := by
    rw [isHidden, hsame "visible" (by decide)]
    exact hh
  have hnames : forbiddenNames.find?
      (entries.putName "attributes" (.list changed)).hasName = none := by
    rw [List.find?_eq_none] at hallowed ⊢
    intro name hname
    rw [Entries.hasName_putName_of_ne _ _ (by rintro rfl; revert hname; decide)]
    exact hallowed name hname
  have hclean := faults_putName_attributes hfaults (Entries.hasName_of_valueOf_ne_null hn) changed
  have hraw : Entry.ofValue (.dict (entries.putName "attributes" (.list changed))) =
      .ok (entries.putName "attributes" (.list changed)) := rfl
  have hlist : entryList { inner with attributes := .list changed } = .ok changed := rfl
  have hbuilt := Built.embedded hraw hhidden (by rwa [hroot]) hnames hclean
    (nestedRequest_putName_attributes hrequest _) (Request.prepare_withAttributes hinner _) hlist
    (nested.withAttributes _) hmarkup tail
  rw [hroot] at hbuilt
  exact hbuilt

/-- Inlining an embedded microformat does not change the records. The induction is on the place of
the microformat; on the way to it, each list around it is built again. -/
theorem Built.inline {changed : List Value} (hi : Inlined site p items changed)
    (h : Built site p items records) (ht : TextTemplates items) : Built site p changed records := by
  induction hi generalizing records with
  | here he hh hn hrequest hhtml =>
      obtain ⟨_, inner, own, within, markup, others, -, -, hrequest', hinner, hitems, nested,
        hmarkup, tail, rfl⟩ := h.exists_nested he hh hn
      cases hrequest.symm.trans hrequest'
      obtain ⟨hattributes, htemplate⟩ := inner_of_nestedRequest hrequest hinner
      have hwithin := ht.inner he hh hn hattributes hitems
      have htext := Request.isText_of_readTemplate (ht.head he hh) htemplate
      rw [← Built.html_of_widget hinner hitems nested hmarkup hwithin htext hhtml]
      exact .plain rfl rfl rfl (fillPlain_inlineEntry _ _ _ _ "") tail
  | inside he hh hn hrequest hinner hitems hi ih =>
      obtain ⟨_, _, _, within, markup, others, hallowed, hfaults, hrequest', hinner', hitems',
        nested, hmarkup, tail, rfl⟩ := h.exists_nested he hh hn
      cases hrequest.symm.trans hrequest'
      cases hinner.symm.trans hinner'
      cases hitems.symm.trans hitems'
      have hattributes := (inner_of_nestedRequest hrequest hinner).1
      have hwithin := ht.inner he hh hn hattributes hitems
      exact Built.putAttributes hh hn hallowed hfaults hrequest hinner (ih nested hwithin) hmarkup
        tail
  | later hi ih =>
      cases h with
      | hidden he hh tail => exact .hidden he hh (ih tail ht.tail)
      | plain he hh hn hf tail => exact .plain he hh hn hf (ih tail ht.tail)
      | embedded he hh hn hallowed hfaults hrequest hinner hitems nested hmarkup tail =>
          exact .embedded he hh hn hallowed hfaults hrequest hinner hitems nested hmarkup
            (ih tail ht.tail)

/-- The depth of a microformat matters for the limit only. A card that is built fits under the limit
with everything that is nested in it. If all templates are texts, the card is built with the same
records, and rendered to the same text, at every other depth and limit that leave enough room. Then
too every microformat in it is rendered on its own at depth zero, and the card stays the same if the
plain entry that shows this output takes the place of the microformat. -/
theorem build_depth_exact {r : Request} {c : Card} (hp : r.prepare site.settings = .ok p)
    (hc : (build site p).outcome = .ok c) :
    p.depth + nesting r.attributes ≤ site.settings.maxEmbedDepth ∧
      (r.TextOnly →
        (∀ (depth : Int) (limit other : Nat), depth + nesting r.attributes ≤ limit →
          ∃ p' c', Request.prepare (site.withLimits limit other).settings
              { r with depth := some depth } = .ok p' ∧
            (build (site.withLimits limit other) p').outcome = .ok c' ∧
            c'.records = c.records ∧ c'.render.outcome = c.render.outcome) ∧
        (∀ items q entries, entryList p = .ok items → Holds site p items q entries → 0 ≤ p.depth →
          ∃ request html, nestedRequest site.registry q entries = .ok request ∧
            (widget site { request with depth := some 0 }).outcome = .ok html) ∧
        ∀ items changed, entryList p = .ok items → Inlined site p items changed →
          ∃ p', Request.prepare site.settings { r with attributes := .list changed } = .ok p' ∧
            (build site p').outcome = .ok c) := by
  have hle := (Request.depth_of_prepare hp).2
  obtain ⟨items, records, hitems, hbuilt, rfl⟩ := (outcome_build_eq_ok_iff hle).mp hc
  obtain ⟨-, hattributes, htemplate⟩ := Request.parts_of_prepare hp
  have hnesting : nesting r.attributes = itemsNesting items := by
    rw [← hattributes]
    exact nesting_eq_of_entryList hitems
  refine ⟨hnesting ▸ hbuilt.depth_add_nesting_le hle, fun htext => ?_⟩
  have ht : TextTemplates items := by
    rw [entryList, hattributes] at hitems
    split at hitems
    · exact textTemplates_wholeModel hitems
    · exact htext.2 items hitems
  have hown := Request.isText_of_readTemplate htext.1 htemplate
  refine ⟨?_, ?_, ?_⟩
  · intro depth limit other hroom
    rw [hnesting] at hroom
    have hdepth : depth ≤ (limit : Int) := by omega
    have hmoved := hbuilt.relocate ht other hroom
    refine ⟨{ p with depth := depth }, _, Request.prepare_relocate hp hdepth,
      (outcome_build_eq_ok_iff hdepth).mpr ⟨items, records, hitems, hmoved, rfl⟩, rfl, ?_⟩
    rw [outcome_render, outcome_render, markup_relocate site hown (hbuilt.isTextual ht)]
    rfl
  · intro entries q embedding hentries hq hdepth
    obtain rfl : items = entries := Except.ok.inj (hitems.symm.trans hentries)
    exact Built.widget_of_holds hq hbuilt ht hdepth
  · intro entries changed hentries hi
    obtain rfl : items = entries := Except.ok.inj (hitems.symm.trans hentries)
    have hinlined := (Built.inline hi hbuilt ht).withAttributes (.list changed)
    have hsame : (build site { p with attributes := .list changed }).outcome =
        .ok (p.card site records) :=
      (outcome_build_eq_ok_iff (p := { p with attributes := .list changed }) hle).mpr
        ⟨changed, records, rfl, hinlined, rfl⟩
    exact ⟨_, Request.prepare_withAttributes hp _, hsame⟩

/-- An entry that embeds a microformat without entries. -/
def emptyPlace : Entries :=
  Entries.ofFields [("microformat", .text "h-geo"), ("attributes", .list [])]

/-- A request for a microformat with an empty place in it. -/
def aroundEmptyPlace : Request :=
  { engine := .basic, root := .text "h-card", model := .dict []
    attributes := .list [.dict emptyPlace], template := .null, options := .null, depth := some 15 }

/-- The checked request. -/
def preparedAroundEmptyPlace : Prepared :=
  { engine := .basic, root := "h-card", depth := 15, options := []
    template := .text Settings.standard.defaultTemplate, model := .dict []
    attributes := .list [.dict emptyPlace] }

/-- The only entry that is shown around an empty place is that one. -/
theorem eq_emptyPlace_of_shows {entries : Entries} (h : Shows [.dict emptyPlace] entries) :
    entries = emptyPlace := by
  generalize hitems : [Value.dict emptyPlace] = items at h
  induction h with
  | here hm he hh =>
      subst hitems
      rw [List.mem_singleton] at hm
      subst hm
      exact (Except.ok.inj he).symm
  | inside ho hn hi h ih _ =>
      rw [ih hitems] at hi
      cases hi
      exact absurd rfl h.ne_nil

theorem textOnly_aroundEmptyPlace : aroundEmptyPlace.TextOnly := by
  refine ⟨rfl, ?_⟩
  intro items hitems entries hs
  cases hitems
  rw [eq_emptyPlace_of_shows hs]
  rfl

/-- The card around an empty place just fits under the limit; it is the same three levels deep under
a limit of four, and with the empty place inlined. -/
theorem build_depth_exact_aroundEmptyPlace :
    ∃ c, aroundEmptyPlace.prepare Settings.standard = .ok preparedAroundEmptyPlace ∧
      (build (Site.ofComplete .standard) preparedAroundEmptyPlace).outcome = .ok c ∧
      (15 : Int) + nesting aroundEmptyPlace.attributes ≤ 16 ∧
      (∃ p' c', Request.prepare (Settings.standard.withLimit 4)
          { aroundEmptyPlace with depth := some 3 } = .ok p' ∧
        (build ((Site.ofComplete .standard).withLimits 4 4) p').outcome = .ok c' ∧
        c'.records = c.records ∧ c'.render.outcome = c.render.outcome) ∧
      ∃ p', Request.prepare Settings.standard
          { aroundEmptyPlace with
            attributes := .list [.dict (inlineEntry "h-geo" "<div class=\"h-geo\"></div>")] } =
          .ok p' ∧
        (build (Site.ofComplete .standard) p').outcome = .ok c := by
  have hp : aroundEmptyPlace.prepare (Site.ofComplete .standard).settings =
      .ok preparedAroundEmptyPlace := rfl
  obtain ⟨c, hc⟩ : ∃ c, (build (Site.ofComplete .standard) preparedAroundEmptyPlace).outcome =
      .ok c := ⟨_, rfl⟩
  obtain ⟨hfits, htext⟩ := build_depth_exact hp hc
  obtain ⟨hmoved, -, hinlined⟩ := htext textOnly_aroundEmptyPlace
  have hshown : emptyPlace.valueOf "microformat" ≠ .null := by
    intro h
    cases h
  exact ⟨c, hp, hc, hfits, hmoved 3 4 4 (by decide),
    hinlined [.dict emptyPlace] _ rfl (.here rfl rfl hshown rfl rfl)⟩

end Card

end SemanticMarkup
