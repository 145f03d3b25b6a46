import Mathlib.Data.List.Forall2
import SemanticMarkup.Proofs.Card.Inlining
import SemanticMarkup.Proofs.Format.Faults
import SemanticMarkup.Proofs.Outline.Basic

/-!
# Cards of outlines

The card of an outline is built and rendered exactly if the outline fits and all
that it shows of the model has a text. With the standard template its markup is the
one that the recursion on the outline gives. Of an outline that fits, a value without
a text is the only reason to fail.
-/

namespace SemanticMarkup

open SemanticMarkup.Text SemanticMarkup.Markup

/-- A text is accepted as a root type if it has the start that is required. -/
theorem Request.checkRoot_text_eq_ok_iff {settings : Settings} {root shown : String} :
    Request.checkRoot settings (.text root) = .ok shown ↔
      root ≠ "" ∧ settings.rootPrefix.toList.isPrefixOf root.toList = true ∧ root = shown := by
  by_cases hempty : root = ""
  · simp [Request.checkRoot, Value.isTrue, hempty]
  · by_cases hstart : settings.rootPrefix.toList.isPrefixOf root.toList = true
    · simp [Request.checkRoot, Value.isTrue, hempty, hstart]
    · simp [Request.checkRoot, Value.isTrue, hempty, hstart]

/-- The record of an embedded microformat shows the output as it is. -/
theorem Card.render_embeddedRecord (f : Formatter) (standard : Option Template)
    (root html : String) (index : Int) (place : Option Record.Place) :
    (embeddedRecord root html).render f standard index place = .ok html := by
  have hvalue : f.format (embeddedRecord root html).value
      (embeddedRecord root html).format.toValue = .ok html :=
    f.format_of_asks (Format.asks_named .raw) (Nat.le_refl 0) rfl
  rw [Record.render]
  split
  · rename_i hempty
    rw [(beq_iff_eq.mp hempty : html = "")]
  · exact (Record.substitute_value f _).trans hvalue

/-- Texts that the records of a card show, wherever they stand. -/
def Card.Show (site : Site) (p : Prepared) : List Record → List String → Prop :=
  List.Forall₂ fun r text => ∀ index place,
    r.render site.formatter (some p.template) index place = .ok text

/-- The content of a card is what its records show. The indices are generalized for the induction,
since those behind the first record are shifted. -/
theorem Card.content_of_show {site : Site} {p : Prepared} {records : List Record}
    {texts : List String} (h : Show site p records texts) :
    (p.card site records).content = .ok (String.join texts) := by
  have hparts : ∀ number : Nat → Nat, (records.mapIdx fun i r => (number i, r)).mapM (fun e =>
      (p.card site []).renderRecord e.2 (e.1 : Nat)) = .ok texts := by
    induction h with
    | nil => exact fun number => rfl
    | cons hr tail ih =>
        intro number
        have hfirst := hr (number 0 : Nat) (some ⟨p.root, p.depth⟩)
        rw [List.mapIdx_cons, List.mapM_cons, ih fun i => number (i + 1)]
        exact congrArg (· >>= fun text => pure (text :: _)) hfirst
  have hall := hparts fun i => i
  exact congrArg (· >>= fun parts => pure (String.join parts)) hall

/-- The element of a card holds its content, if its tag and its attributes can be written. -/
theorem Card.markup_eq_map {site : Site} {p : Prepared} {options : Entries}
    {attributes tag : String} (ho : addClass (p.options.dropName "tag") p.root = .ok options)
    (ha : tagAttributes options = .ok attributes) (ht : (p.card site []).tag = .ok tag)
    (records : List Record) :
    (p.card site records).markup =
      (p.card site records).content.map (Markup.element tag attributes) := by
  have htag : (p.card site records).tag = .ok tag := ht
  have hoptions : addClass ((p.card site records).options.dropName "tag")
      (p.card site records).root = .ok options := ho
  rw [markup, hoptions, htag]
  cases (p.card site records).content with
  | error e => rfl
  | ok content =>
      simp only [Outcome.ok_bind, ha]
      rfl

/-- The element of a card holds what its records show. -/
theorem Card.markup_eq_ok_iff_of_show {site : Site} {p : Prepared} {records : List Record}
    {texts : List String} {markup : String} (h : Show site p records texts) :
    (p.card site records).markup = .ok markup ↔
      ∃ options attributes tag, addClass (p.options.dropName "tag") p.root = .ok options ∧
        tagAttributes options = .ok attributes ∧ (p.card site []).tag = .ok tag ∧
        markup = Markup.element tag attributes (String.join texts) := by
  simp only [Card.markup, content_of_show h, Outcome.bind_eq_ok_iff, Except.ok.injEq,
    exists_eq_left', Outcome.pure_eq_ok]
  constructor
  · rintro ⟨options, ho, attributes, ha, tag, ht, rfl⟩
    exact ⟨options, attributes, tag, ho, ha, ht, rfl⟩
  · rintro ⟨options, attributes, tag, ho, ha, ht, rfl⟩
    exact ⟨options, ho, attributes, ha, tag, ht, rfl⟩

/-- Where an element is made of a card, all its records are rendered. -/
theorem Card.exists_text_of_markup {c : Card} {markup : String} (h : c.markup = .ok markup)
    {r : Record} (hr : r ∈ c.records) : ∃ index text, c.renderRecord r index = .ok text := by
  simp only [Card.markup, content, Outcome.bind_eq_ok_iff] at h
  obtain ⟨-, -, -, ⟨parts, hparts, -⟩, -⟩ := h
  obtain ⟨i, hi, hri⟩ := List.getElem_of_mem hr
  have hmem : (i, r) ∈ c.records.mapIdx fun i r => (i, r) :=
    List.mem_mapIdx.mpr ⟨i, hi, by rw [hri]⟩
  exact ⟨_, Outcome.exists_ok_of_mapM hparts hmem⟩

/-- A failure for want of a text. -/
def Failure.IsUntold (e : Failure) : Prop :=
  e = .fault .wrongValue

/-- A record that is rendered wherever it stands, unless its value has no text. -/
def Card.Tells (site : Site) (p : Prepared) (r : Record) : Prop :=
  ∀ index place,
    Gives Failure.IsUntold anything (r.render site.formatter (some p.template) index place)

theorem Card.gives_content {site : Site} {p : Prepared} {records : List Record}
    (h : ∀ r ∈ records, Tells site p r) :
    Gives Failure.IsUntold anything (p.card site records).content := by
  have hall : ∀ e ∈ records.mapIdx fun i r => (i, r), Gives Failure.IsUntold anything
      ((p.card site records).renderRecord e.2 (e.1 : Nat)) := by
    intro e he
    obtain ⟨i, hi, rfl⟩ := List.mem_mapIdx.mp he
    exact h _ (List.getElem_mem hi) _ _
  exact (Gives.mapM hall).bind fun _ _ => trivial

namespace Outline

open Card

variable {site : Site} {p : Prepared} {model : Entries} {values : List Value} {outline : Outline}

section Embedded

variable {property : Option String} {root : String} {within : List Value} {template : Template}
  {own : Option Entries} {entries : Entries} {records : List Record}

/-- The checked request for an embedded microformat. -/
def innerOf (p : Prepared) (template : Template) (property : Option String) (root : String)
    (model : Entries) (within : List Value) : Prepared :=
  { engine := p.engine, root := root, depth := p.depth + 1, options := classOptions property
    template := template, model := .dict model, attributes := .list within }

theorem prepare_requestOf (hroot : isHyphenated root.toList = true)
    (hstart : site.settings.rootPrefix.toList.isPrefixOf root.toList = true)
    (hdepth : p.depth + 1 ≤ site.settings.maxEmbedDepth) :
    (requestOf p property root model within).prepare site.settings =
      .ok (innerOf p (.text site.settings.defaultTemplate) property root model within) := by
  have hfilled : root ≠ "" := by
    rintro rfl
    exact absurd hroot (by decide)
  have hcheck : Request.checkRoot site.settings (.text root) = .ok root :=
    Request.checkRoot_text_eq_ok_iff.mpr ⟨hfilled, hstart, rfl⟩
  have hoptions : Request.readOptions (.dict (classOptions property)) =
      .ok (classOptions property) := by
    cases property <;> rfl
  exact Request.prepare_eq_ok_iff.mpr ⟨root, p.depth + 1, classOptions property, _, hcheck,
    Request.checkDepth_eq_ok_iff.mpr ⟨rfl, hdepth⟩, hoptions, rfl, rfl⟩

/-- The element of an embedded microformat has its classes around its content. -/
theorem markup_innerOf (hproperty : ∀ name ∈ property, isHyphenated name.toList = true)
    (hroot : isHyphenated root.toList = true) (records : List Record) :
    ((innerOf p template property root model within).card site records).markup =
      ((innerOf p template property root model within).card site records).content.map
        (Markup.element site.settings.containerTag
          (classAttribute (classes property root))) := by
  have hdrop : (classOptions property).dropName "tag" = classOptions property := by
    cases property <;> rfl
  have htag : ((innerOf p template property root model within).card site []).tag =
      .ok site.settings.containerTag := by
    cases property <;> rfl
  have hclasses : addClass ((classOptions property).dropName "tag") root =
      .ok (classOption (classes property root)) := by
    rw [hdrop, addClass_classOptions hproperty hroot]
  exact markup_eq_map hclasses
    (tagAttributes_classOption classes_ne_nil (words_of_mem_classes hproperty hroot)) htag records

theorem microformat_ne_null (carries : entries.Carries (fields property root own within)) :
    entries.valueOf "microformat" ≠ .null := by
  have hmicroformat : entries.valueOf "microformat" = .text root :=
    valueOf_of_carries carries "microformat"
  rw [hmicroformat]
  exact nofun

/-- An embedding entry is built if its microformat is, one level deeper. -/
theorem built_embedded (carries : entries.Carries (fields property root own within))
    (hproperty : ∀ name ∈ property, isHyphenated name.toList = true)
    (hroot : isHyphenated root.toList = true)
    (hstart : site.settings.rootPrefix.toList.isPrefixOf root.toList = true)
    (hdepth : p.depth + 1 ≤ site.settings.maxEmbedDepth) (hmodel : p.model = .dict model)
    {inside : List Record} {texts : List String}
    (hinside : Built site (innerOf p (.text site.settings.defaultTemplate) property root
      (scope own model) within) within inside)
    (hshow : Show site (innerOf p (.text site.settings.defaultTemplate) property root
      (scope own model) within) inside texts)
    (hrest : Built site p values records) :
    Built site p (.dict entries :: values)
      (embeddedRecord root (outputOf p.engine (Markup.element site.settings.containerTag
        (classAttribute (classes property root)) (String.join texts))) :: records) := by
  have hentry : Entry.ofValue (.dict entries) = .ok entries := rfl
  have hmicroformat : entries.valueOf "microformat" = .text root :=
    valueOf_of_carries carries "microformat"
  have hmarkup := (markup_innerOf hproperty hroot inside).trans
    (congrArg (Except.map _) (content_of_show hshow))
  have hbuilt := Built.embedded hentry (isHidden_of_carries carries) (microformat_ne_null carries)
    (forbidden_of_carries carries) (faults_of_carries carries hproperty hroot)
    (nestedRequest_of_carries carries hproperty site.registry hmodel)
    (prepare_requestOf hroot hstart hdepth) rfl hinside hmarkup hrest
  rwa [hmicroformat] at hbuilt

/-- The microformat of an embedding entry that is built has an allowed root type and depth, and is
built and rendered itself. -/
theorem nested_of_built (carries : entries.Carries (fields property root own within))
    (hproperty : ∀ name ∈ property, isHyphenated name.toList = true)
    (hroot : isHyphenated root.toList = true) (hmodel : p.model = .dict model)
    (h : Built site p (.dict entries :: values) records) :
    (site.settings.rootPrefix.toList.isPrefixOf root.toList = true ∧
      p.depth + 1 ≤ site.settings.maxEmbedDepth) ∧
    (∃ inside markup, Built site (innerOf p (.text site.settings.defaultTemplate) property root
        (scope own model) within) within inside ∧
      ((innerOf p (.text site.settings.defaultTemplate) property root
        (scope own model) within).card site inside).markup = .ok markup) ∧
    ∃ first others, Built site p values others ∧ records = first :: others := by
  obtain ⟨request, inner, items, inside, markup, others, -, -, hrequest, hinner, hitems, hinside,
    hmarkup, hothers, rfl⟩ :=
    h.exists_nested rfl (isHidden_of_carries carries) (microformat_ne_null carries)
  cases (nestedRequest_of_carries carries hproperty site.registry hmodel).symm.trans hrequest
  obtain ⟨hdepth, hle⟩ := depth_of_inner hrequest hinner
  rw [hdepth] at hle
  obtain ⟨_, _, _, _, hr, -⟩ := Request.prepare_eq_ok_iff.mp hinner
  have hstart := (Request.checkRoot_text_eq_ok_iff.mp hr).2.1
  cases (prepare_requestOf hroot hstart hle).symm.trans hinner
  cases hitems
  exact ⟨⟨hstart, hle⟩, ⟨inside, markup, hinside, hmarkup⟩, _, others, hothers, rfl⟩

end Embedded

/-- An outline that fits and has texts is built, and its records show its markup. The induction is
on the list; an embedded microformat is built for the mapping that it shows. -/
theorem built_of_fits (hdefault : site.settings.defaultTemplate = Settings.standard.defaultTemplate)
    (hlist : outline.ListedAs values) (hwf : outline.WellFormed)
    (hfits : outline.Fits site.settings p.depth) (hhas : outline.HasTexts model)
    (hmodel : p.model = .dict model)
    (htemplate : p.template = .text Settings.standard.defaultTemplate) :
    ∃ records texts, Built site p values records ∧ Show site p records texts ∧
      String.join texts = outline.content site p.engine model := by
  induction hlist generalizing p model with
  | nil => exact ⟨[], [], .nil p, .nil, rfl⟩
  | @plain entry rest values tail ih =>
      obtain ⟨hentry, hrest⟩ := hwf
      obtain ⟨hwritable, hhasRest⟩ := hhas
      obtain ⟨records, texts, hbuilt, htexts, hjoin⟩ := ih hrest hfits hhasRest hmodel htemplate
      have hfill := hentry.fillPlain site.settings model ""
      rw [← hmodel] at hfill
      have hhidden : isHidden (Entry.ofShorthand entry) = false := rfl
      have hplain : (Entry.ofShorthand entry).valueOf "microformat" = .null := rfl
      have hshow (index place) : (entry.record model).render site.formatter (some p.template) index
          place = .ok (entry.markup site.formatter.settings.nullDisplay model) := by
        rw [htemplate, Shorthand.render_record hentry, if_pos hwritable]
      exact ⟨_, _, .plain (Shorthand.ofValue_written hentry.wellFormed) hhidden hplain hfill hbuilt,
        .cons hshow htexts, by rw [String.join_cons, hjoin, content]⟩
  | @embedded property root own inner rest within entries values carries nested tail ihNested
      ihTail =>
      obtain ⟨hproperty, hroot, hinner, hrest⟩ := hwf
      obtain ⟨hstart, hdepth, hfitsInner, hfitsRest⟩ := hfits
      obtain ⟨hhasInner, hhasRest⟩ := hhas
      obtain ⟨records, texts, hbuilt, htexts, hjoin⟩ :=
        ihTail hrest hfitsRest hhasRest hmodel htemplate
      let deeper := innerOf p (.text site.settings.defaultTemplate) property root (scope own model)
        within
      obtain ⟨inside, shown, hinside, hshown, hjoinInside⟩ :=
        ihNested (p := deeper) hinner hfitsInner hhasInner rfl (congrArg Template.text hdefault)
      have hwhole :=
        built_embedded carries hproperty hroot hstart hdepth hmodel hinside hshown hbuilt
      refine ⟨_, _, hwhole, .cons (render_embeddedRecord site.formatter _ _ _) htexts, ?_⟩
      rw [String.join_cons, hjoin, hjoinInside, content]
      rfl

/-- An outline that is built, and whose records are all rendered, fits and has texts. -/
theorem fits_of_built (hdefault : site.settings.defaultTemplate = Settings.standard.defaultTemplate)
    (hlist : outline.ListedAs values) (hwf : outline.WellFormed) (hmodel : p.model = .dict model)
    (htemplate : p.template = .text Settings.standard.defaultTemplate) {records : List Record}
    (h : Built site p values records)
    (hshown : ∀ r ∈ records, ∃ index text, (p.card site records).renderRecord r index = .ok text) :
    outline.Fits site.settings p.depth ∧ outline.HasTexts model := by
  induction hlist generalizing p model records with
  | nil => exact ⟨trivial, trivial⟩
  | plain tail ih =>
      obtain ⟨hentry, hrest⟩ := hwf
      have hvalue := Shorthand.ofValue_written hentry.wellFormed
      cases h with
      | hidden he hh tail' =>
          cases hvalue.symm.trans he
          cases hh
      | plain he hh hn hf tail' =>
          cases hvalue.symm.trans he
          rw [hmodel, hentry.fillPlain] at hf
          cases hf
          obtain ⟨⟨index, text, hfirst⟩, hothers⟩ := List.forall_mem_cons.mp hshown
          obtain ⟨hfits, hhas⟩ := ih hrest hmodel htemplate tail' hothers
          refine ⟨hfits, ?_, hhas⟩
          change Record.render _ (some p.template) _ _ _ = _ at hfirst
          rw [htemplate, Shorthand.render_record hentry] at hfirst
          by_contra hunwritable
          rw [if_neg hunwritable] at hfirst
          cases hfirst
      | embedded he hh hn hallowed hfaults hrequest hinner hitems nested hmarkup tail' =>
          cases hvalue.symm.trans he
          exact absurd rfl hn
  | embedded carries nested tail ihNested ihTail =>
      obtain ⟨hproperty, hroot, hinner, hrest⟩ := hwf
      obtain ⟨⟨hstart, hdepth⟩, ⟨inside, markup, hinside, hmarkup⟩, first, others, hothers, rfl⟩ :=
        nested_of_built carries hproperty hroot hmodel h
      obtain ⟨hfits, hhas⟩ := ihNested hinner rfl (congrArg Template.text hdefault) hinside
        fun r hr => exists_text_of_markup hmarkup hr
      obtain ⟨hfitsRest, hhasRest⟩ := ihTail hrest hmodel htemplate hothers
        (List.forall_mem_cons.mp hshown).2
      exact ⟨⟨hstart, hdepth, hfits, hfitsRest⟩, hhas, hhasRest⟩

/-! ## Values without a text -/

/-- An embedded microformat that is allowed is made and rendered, unless a value has no text, if its
records are. -/
theorem gives_renderWith {property : Option String} {root : String} {within : List Value}
    (hproperty : ∀ name ∈ property, isHyphenated name.toList = true)
    (hroot : isHyphenated root.toList = true)
    (hstart : site.settings.rootPrefix.toList.isPrefixOf root.toList = true)
    (hdepth : p.depth + 1 ≤ site.settings.maxEmbedDepth) (left : Nat)
    (hrecords : Gives Failure.IsUntold (fun records => ∀ r ∈ records,
        Tells site (innerOf p (.text site.settings.defaultTemplate) property root model within) r)
      (buildRecords site (left + 1)
        (innerOf p (.text site.settings.defaultTemplate) property root model within)).outcome) :
    Gives Failure.IsUntold anything (renderWith (buildRecords site (left + 1)) site
      (requestOf p property root model within)).outcome := by
  simp only [renderWith, Traced.outcome_bind, Traced.outcome_lift,
    prepare_requestOf hroot hstart hdepth, Outcome.ok_bind]
  refine hrecords.bind fun records htells => ?_
  rw [outcome_render, markup_innerOf hproperty hroot records]
  exact ((gives_content htells).map _).map _

/-- The records of an outline that fits are made and rendered, unless a value has no text. The
induction is on the list; an embedded microformat uses up one level. -/
theorem gives_forEach (hdefault : site.settings.defaultTemplate = Settings.standard.defaultTemplate)
    (hlist : outline.ListedAs values) (hwf : outline.WellFormed)
    (hfits : outline.Fits site.settings p.depth) (hmodel : p.model = .dict model)
    (htemplate : p.template = .text Settings.standard.defaultTemplate) (room : Nat)
    (hroom : (room : Int) + p.depth = site.settings.maxEmbedDepth) (i : Nat) :
    Gives Failure.IsUntold (fun shown => ∀ r ∈ shown.filterMap id, Tells site p r)
      (Traced.forEach (recordOf (renderWith (buildRecords site room) site) site p) i
        values).outcome := by
  induction hlist generalizing p model room i with
  | nil => exact nofun
  | @plain entry rest values tail ih =>
      obtain ⟨hentry, hrest⟩ := hwf
      have hfill := hentry.fillPlain site.settings model ""
      rw [← hmodel] at hfill
      have hfirst : Tells site p (entry.record model) := by
        intro index place
        rw [htemplate, Shorthand.render_record hentry]
        split
        · exact trivial
        · exact rfl
      rw [Traced.outcome_forEach_cons, outcome_recordOf_plain
        (Shorthand.ofValue_written hentry.wellFormed) rfl rfl hfill, Outcome.ok_bind]
      exact (ih hrest hfits hmodel htemplate room hroom (i + 1)).bind fun shown hshown =>
        List.forall_mem_cons.mpr ⟨hfirst, hshown⟩
  | @embedded property root own inner rest within entries values carries nested tail ihNested
      ihTail =>
      obtain ⟨hproperty, hroot, hinner, hrest⟩ := hwf
      obtain ⟨hstart, hdepth, hfitsInner, hfitsRest⟩ := hfits
      obtain ⟨left, rfl⟩ : ∃ left, room = left + 1 := ⟨room - 1, by omega⟩
      let deeper := innerOf p (.text site.settings.defaultTemplate) property root (scope own model)
        within
      have hdeeper : (left : Int) + deeper.depth = site.settings.maxEmbedDepth := by
        change (left : Int) + (p.depth + 1) = _
        omega
      have hrecords : Gives Failure.IsUntold (fun records => ∀ r ∈ records, Tells site deeper r)
          (buildRecords site (left + 1) deeper).outcome := by
        have hlist : buildRecords site (left + 1) deeper = _ :=
          buildRecords_withList site left deeper within
        rw [hlist, Traced.outcome_bind]
        exact (ihNested (p := deeper) hinner hfitsInner rfl (congrArg Template.text hdefault) left
          hdeeper 0).bind fun shown hshown => hshown
      have hrequest := nestedRequest_of_carries carries hproperty site.registry hmodel
      have hhtml := gives_renderWith hproperty hroot hstart hdepth left hrecords
      rw [Traced.outcome_forEach_cons, outcome_recordOf_embedded rfl (isHidden_of_carries carries)
        (microformat_ne_null carries) (forbidden_of_carries carries)
        (faults_of_carries carries hproperty hroot) hrequest]
      have hothers := ihTail hrest hfitsRest hmodel htemplate (left + 1) hroom (i + 1)
      cases hmade : (renderWith (buildRecords site (left + 1)) site
          (requestOf p property root (scope own model) within)).outcome with
      | error e =>
          rw [hmade] at hhtml
          exact hhtml
      | ok html =>
          refine hothers.bind fun shown hshown => List.forall_mem_cons.mpr ⟨?_, hshown⟩
          intro index place
          rw [render_embeddedRecord]
          exact trivial

/-- A request without a template is checked with the standard one, if that is the usual one. -/
theorem template_of_prepare {request : Request}
    (hdefault : site.settings.defaultTemplate = Settings.standard.defaultTemplate)
    (htemplate : request.template = .null) (hp : request.prepare site.settings = .ok p) :
    p.template = .text Settings.standard.defaultTemplate := by
  obtain ⟨-, -, ht⟩ := Request.parts_of_prepare hp
  rw [htemplate] at ht
  have husual : p.template = .text site.settings.defaultTemplate := (Except.ok.inj ht).symm
  rw [husual, hdefault]

/-- The widget of an outline is made exactly if the outline fits, all that it shows has texts, and
the tag around it can be written. -/
theorem widget_eq_ok_iff {request : Request} {html : String}
    (hdefault : site.settings.defaultTemplate = Settings.standard.defaultTemplate)
    (hlist : outline.ListedAs values) (hwf : outline.WellFormed)
    (hmodel : request.model = .dict model) (hattributes : request.attributes = .list values)
    (htemplate : request.template = .null) :
    (widget site request).outcome = .ok html ↔
      ∃ p options attributes tag, request.prepare site.settings = .ok p ∧
        outline.Fits site.settings p.depth ∧ outline.HasTexts model ∧
        addClass (p.options.dropName "tag") p.root = .ok options ∧
        tagAttributes options = .ok attributes ∧ (p.card site []).tag = .ok tag ∧
        html = outputOf p.engine (Markup.element tag attributes
          (outline.content site p.engine model)) := by
  rw [outcome_widget_eq_ok_iff]
  constructor
  · rintro ⟨p, items, records, markup, hp, hitems, hbuilt, hm, rfl⟩
    obtain ⟨hpm, hpa, -⟩ := Request.parts_of_prepare hp
    have hpt := template_of_prepare hdefault htemplate hp
    rw [entryList, hpa, hattributes] at hitems
    cases hitems
    obtain ⟨hfits, hhas⟩ := fits_of_built hdefault hlist hwf (hpm.trans hmodel) hpt hbuilt
      fun r hr => exists_text_of_markup hm hr
    obtain ⟨others, texts, hothers, hshow, hjoin⟩ :=
      built_of_fits hdefault hlist hwf hfits hhas (hpm.trans hmodel) hpt
    rw [hbuilt.unique hothers (Request.depth_of_prepare hp).2] at hm
    obtain ⟨options, attributes, tag, ho, ha, ht, rfl⟩ := (markup_eq_ok_iff_of_show hshow).mp hm
    exact ⟨p, options, attributes, tag, hp, hfits, hhas, ho, ha, ht, by rw [hjoin]⟩
  · rintro ⟨p, options, attributes, tag, hp, hfits, hhas, ho, ha, ht, rfl⟩
    obtain ⟨hpm, hpa, -⟩ := Request.parts_of_prepare hp
    have hpt := template_of_prepare hdefault htemplate hp
    obtain ⟨records, texts, hbuilt, hshow, hjoin⟩ :=
      built_of_fits hdefault hlist hwf hfits hhas (hpm.trans hmodel) hpt
    have hitems : entryList p = .ok values := by
      rw [entryList, hpa, hattributes]
      rfl
    exact ⟨p, values, records, _, hp, hitems, hbuilt,
      (markup_eq_ok_iff_of_show hshow).mpr ⟨options, attributes, tag, ho, ha, ht, rfl⟩,
      by rw [hjoin]⟩

/-- Of an outline that fits no widget is made if a value that it shows has no text, and there is no
other reason to fail. -/
theorem widget_eq_fault {request : Request} {options : Entries} {attributes tag : String}
    (hdefault : site.settings.defaultTemplate = Settings.standard.defaultTemplate)
    (hlist : outline.ListedAs values) (hwf : outline.WellFormed)
    (hmodel : request.model = .dict model) (hattributes : request.attributes = .list values)
    (htemplate : request.template = .null) (hp : request.prepare site.settings = .ok p)
    (hfits : outline.Fits site.settings p.depth)
    (ho : addClass (p.options.dropName "tag") p.root = .ok options)
    (ha : tagAttributes options = .ok attributes) (ht : (p.card site []).tag = .ok tag)
    (hlacks : ¬ outline.HasTexts model) :
    (widget site request).outcome = Outcome.fault .wrongValue := by
  obtain ⟨hpm, hpa, -⟩ := Request.parts_of_prepare hp
  have hpt := template_of_prepare hdefault htemplate hp
  have hdepth := (Request.depth_of_prepare hp).2
  obtain ⟨room, hroom⟩ : ∃ room : Nat, (room : Int) + p.depth = site.settings.maxEmbedDepth :=
    ⟨(site.settings.maxEmbedDepth - p.depth).toNat, by omega⟩
  have hlevels : roomAt site.settings p.depth = room + 1 := by
    unfold roomAt
    omega
  have hlisted : p = p.withList values := by
    rw [Prepared.withList, ← hattributes, ← hpa]
  have hrecords : Gives Failure.IsUntold (fun records => ∀ r ∈ records, Tells site p r)
      (recordsOf site p).outcome := by
    rw [recordsOf, hlevels, hlisted, buildRecords_withList, ← hlisted, Traced.outcome_bind]
    exact (gives_forEach hdefault hlist hwf hfits (hpm.trans hmodel) hpt room hroom 0).bind
      fun shown hshown => hshown
  have hgives : Gives Failure.IsUntold anything (widget site request).outcome := by
    simp only [widget, buildAndRender, build, Traced.outcome_bind, Traced.outcome_lift, hp,
      Traced.outcome_pure, Outcome.ok_bind, bind_assoc, outcome_render]
    refine hrecords.bind fun records hall => ?_
    rw [markup_eq_map ho ha ht]
    exact ((gives_content hall).map _).map _
  cases hmade : (widget site request).outcome with
  | error e =>
      rw [hmade] at hgives
      exact congrArg Except.error hgives
  | ok html =>
      obtain ⟨-, -, -, -, -, -, hhas, -⟩ :=
        (widget_eq_ok_iff hdefault hlist hwf hmodel hattributes htemplate).mp hmade
      exact absurd hhas hlacks

end Outline

end SemanticMarkup
