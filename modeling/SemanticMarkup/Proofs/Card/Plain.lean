import SemanticMarkup.Proofs.Card.Invariant
import SemanticMarkup.Proofs.Entry.Faults
import SemanticMarkup.Proofs.Record.Legible

/-!
# Lists of plain entries

A plain entry is checked by its rules before its record is made, but the rules do not
ask for all that a record needs. `Passes` says what is checked and `Suits` what is not.
A list of plain entries makes records, or is refused with an error of the configuration,
unless an entry that passes but does not suit is reached: then another failure ends the
run, that of merging its classes or that of reading the record.
-/

namespace SemanticMarkup

/-- Whether the words of a class value can be found: it does not count as true, or has items, and
those of them that count as true have texts. -/
def Value.Mergeable (v : Value) : Prop :=
  v.isTrue = true → ∃ items, v.items? = some items ∧
    ∀ item ∈ items, item.isTrue = true → item.isWritable = true

/-- A failure that is no error of the configuration: an operation on a value of a wrong kind or on
one that has no text, or fields that do not validate. -/
def Failure.IsStray (e : Failure) : Prop :=
  e = .fault .wrongType ∨ e = .fault .wrongValue ∨ ∃ problems, e = .invalid problems

theorem Value.IsString.mergeable {v : Value} (h : v.IsString) : v.Mergeable := by
  intro _
  cases h with
  | text s =>
      refine ⟨_, rfl, fun item hitem _ => ?_⟩
      obtain ⟨c, -, rfl⟩ := List.mem_map.mp hitem
      rfl
  | garbled codes =>
      refine ⟨_, rfl, fun item hitem _ => ?_⟩
      obtain ⟨code, -, rfl⟩ := List.mem_map.mp hitem
      rfl

/-- The words of the items of a class value are found, unless one of the items has no text. -/
theorem Markup.itemWords_cases (items : List Value) :
    (∀ item ∈ items, item.isTrue = true → item.isWritable = true) ∧
        (∃ classes, (items.filter Value.isTrue).mapM Value.asText = .ok classes) ∨
      (¬ ∀ item ∈ items, item.isTrue = true → item.isWritable = true) ∧
        (items.filter Value.isTrue).mapM Value.asText = Outcome.fault .wrongValue := by
  have hall : (items.filter Value.isTrue).all Value.isWritable = true ↔
      ∀ item ∈ items, item.isTrue = true → item.isWritable = true := by
    rw [List.all_filter, List.all_eq_true]
    simp only [Bool.or_eq_true, Bool.not_eq_true', ← Bool.not_eq_true, imp_iff_not_or]
  rw [Value.mapM_asText, ← hall]
  by_cases h : (items.filter Value.isTrue).all Value.isWritable = true
  · exact .inl ⟨h, _, if_pos h⟩
  · exact .inr ⟨h, if_neg h⟩

/-- The words of a class value are found, or it is of a kind that has none, or an item of it has no
text. -/
theorem Markup.classWords_cases (v : Value) :
    v.Mergeable ∧ (∃ classes, classWords v = .ok classes) ∨
      ¬ v.Mergeable ∧ ∃ e : Failure, classWords v = .error e ∧ e.IsStray := by
  unfold classWords
  by_cases htrue : v.isTrue = true
  · rw [if_neg (by simp [htrue])]
    split
    · exact .inl ⟨(Value.IsString.text _).mergeable, _, rfl⟩
    · exact .inl ⟨(Value.IsString.garbled _).mergeable, _, rfl⟩
    · rw [Value.items]
      cases hitems : v.items? with
      | none =>
          refine .inr ⟨fun hmerge => ?_, _, rfl, .inl rfl⟩
          obtain ⟨items, hsome, -⟩ := hmerge htrue
          cases hitems.symm.trans hsome
      | some items =>
          rw [Outcome.ok_bind]
          obtain ⟨hwritable, hclasses⟩ | ⟨hwritable, hfault⟩ := itemWords_cases items
          · exact .inl ⟨fun _ => ⟨items, hitems, hwritable⟩, hclasses⟩
          · refine .inr ⟨fun hmerge => ?_, _, hfault, .inr (.inl rfl)⟩
            obtain ⟨found, hfound, hall⟩ := hmerge htrue
            obtain rfl := Option.some.inj (hitems.symm.trans hfound)
            exact hwritable hall
  · rw [if_pos (by simpa using htrue)]
    exact .inl ⟨fun h => absurd h htrue, _, rfl⟩

namespace Card

open Record

variable {p : Prepared} {entries : Entries}

/-- The options of an entry, if they are a mapping. -/
def ownOptions (entries : Entries) : Entries :=
  match entries.valueOf "options" with
  | .dict options => options
  | _ => []

/-- A plain entry passes the checks: it names no engine, no field breaks its rule, and there is
something to show. -/
structure Passes (entries : Entries) : Prop where
  engine : entries.valueOf "class" = .null
  rules : Rules.faults entries = []
  shows : entries.valueOf "attribute" ≠ .null ∨ entries.valueOf "property" ≠ .null ∨
    entries.valueOf "value" ≠ .null

/-- What the record of a plain entry needs and no check asks for. -/
structure Suits (entries : Entries) : Prop where
  path : (entries.valueOf "attribute").Legible
  label : (entries.valueOf "label").Legible
  format : (entries.valueOf "format").Legible
  embedded : (entries.valueOf "embedded").Legible
  /-- A property is put among the classes that there are. -/
  classes : entries.valueOf "property" ≠ .null → ((ownOptions entries).valueOf "class").Mergeable
  options : (ownOptions entries).Spelled
  /-- Further fields are carried under their names. -/
  extras : Entries.Named (foreign entries)

/-- No rule is about an embedded microformat where no field has that name. -/
theorem microformat_of_hasName (hplain : entries.hasName "microformat" = false) :
    entries.valueOf "microformat" = .null :=
  Entries.valueOf_eq_null_of_named? (by simpa [Entries.hasName] using hplain)

namespace Passes

/-- A failure of an entry that passes: it does not suit, and the error is not one of the
configuration. -/
def Misfit (entries : Entries) (e : Failure) : Prop :=
  ¬ Suits entries ∧ e.IsStray

/-- A field of an entry that passes obeys its rule. -/
theorem rule (h : Passes entries) (hplain : entries.hasName "microformat" = false) {name : String}
    {rule : Rules.Rule}
    (hrule : (Rules.plain.find? fun r => (Value.text name).sameKey (.text r.1)) = some (name, rule))
    (hnull : rule .null = none) : rule (entries.valueOf name) = none :=
  Rules.plain_of_faults h.rules (microformat_of_hasName hplain) hrule hnull

/-- The attribute is found, if it is legible; without one there is a value. -/
theorem gives_attributeName (h : Passes entries) (hplain : entries.hasName "microformat" = false) :
    Gives (Misfit entries)
      (fun name => (entries.valueOf "attribute").Legible ∧
        (name = none → entries.valueOf "value" ≠ .null))
      (attributeName entries) := by
  have hn := microformat_of_hasName hplain
  have hrule := h.rule hplain
    (show _ = some ("attribute", Rules.nullable Rules.filledText) from rfl) rfl
  unfold attributeName
  obtain hnull | ⟨hfilled, -⟩ := Rules.nullable_eq_none_iff.mp hrule
  · rw [hnull]
    obtain hnone | ⟨s, hs, hhyphenated⟩ := Rules.property_of_faults h.rules hn
    · rw [hnone]
      refine ⟨trivial, fun _ hvalue => ?_⟩
      obtain hshown | hshown | hshown := h.shows
      · exact hshown hnull
      · exact hshown hnone
      · exact hshown hvalue
    · obtain ⟨name, hname, -⟩ := attributeOfProperty?_of_isHyphenated hhyphenated
      simp only [hs, hname]
      exact ⟨trivial, nofun⟩
  · obtain ⟨s, hs, -⟩ | ⟨codes, hcodes⟩ := Rules.filledText_eq_none_iff.mp hfilled
    · simp only [hs]
      exact ⟨trivial, nofun⟩
    · simp only [hcodes]
      refine ⟨fun hsuits => ?_, .inr (.inr ⟨_, rfl⟩)⟩
      have hlegible := hsuits.path
      rwa [hcodes] at hlegible

/-- A mapping gives every attribute a label, so the label is legible unless the entry has one that
is not. -/
theorem gives_labelAndValue (h : Passes entries) (hplain : entries.hasName "microformat" = false)
    {name : Option String} (hvalue : name = none → entries.valueOf "value" ≠ .null)
    (model : Entries) (place : String) :
    Gives (Misfit entries)
      (fun shown => Rules.nullable Rules.text shown.1 = none ∧
        (shown.1.Legible ↔ (entries.valueOf "label").Legible))
      (labelAndValue (.dict model) entries name place) := by
  have hrule := h.rule hplain (show _ = some ("label", Rules.nullable Rules.text) from rfl) rfl
  cases name with
  | none =>
      have hsome : (entries.valueOf "value").isNull = false :=
        (Value.isNull_eq_false_iff _).mpr (hvalue rfl)
      rw [labelAndValue, hsome, if_neg Bool.false_ne_true]
      exact ⟨hrule, Iff.rfl⟩
  | some name =>
      rw [labelAndValue]
      split
      · rename_i hlabel
        rw [(Value.isNull_iff _).mp hlabel]
        exact ⟨rfl, Iff.rfl⟩
      · exact ⟨hrule, Iff.rfl⟩

theorem readOptions_eq (h : Passes entries) (hplain : entries.hasName "microformat" = false) :
    Request.readOptions (entries.valueOf "options") = .ok (ownOptions entries) := by
  have hrule := h.rule hplain (show _ = some ("options", Rules.nullable Rules.mapping) from rfl) rfl
  unfold ownOptions
  generalize entries.valueOf "options" = v at hrule
  cases v with
  | null => rfl
  | dict options => cases options <;> rfl
  | _ => cases hrule

/-- The options are made if the property can be put among the classes; their keys are those of the
entry, and the name of the classes. -/
theorem gives_entryOptions (h : Passes entries) (hplain : entries.hasName "microformat" = false) :
    Gives (Misfit entries)
      (fun options => (entries.valueOf "property" ≠ .null →
          ((ownOptions entries).valueOf "class").Mergeable) ∧
        (options.Spelled ↔ (ownOptions entries).Spelled))
      (entryOptions entries) := by
  rw [entryOptions, h.readOptions_eq hplain, Outcome.ok_bind]
  have hn := microformat_of_hasName hplain
  obtain hnone | ⟨s, hs, hhyphenated⟩ := Rules.property_of_faults h.rules hn
  · rw [hnone]
    exact ⟨fun hne => absurd rfl hne, Iff.rfl⟩
  · have hne : s ≠ "" := by
      rintro rfl
      cases hhyphenated
    simp only [hs, if_neg hne, Markup.addClass]
    obtain ⟨hmerge, classes, hclasses⟩ | ⟨hmerge, e, hfault, hstray⟩ :=
      Markup.classWords_cases ((ownOptions entries).valueOf "class")
    · rw [hclasses]
      exact ⟨fun _ => hmerge, Entries.spelled_putName_iff⟩
    · rw [hfault]
      refine ⟨fun hsuits => hmerge (hsuits.classes ?_), hstray⟩
      rw [hs]
      exact Value.noConfusion

/-- The record of an entry that passes is made exactly if the entry suits. -/
theorem gives_fillPlain (h : Passes entries) (hplain : entries.hasName "microformat" = false)
    (settings : Settings) (model : Entries) (place : String) :
    Gives (Misfit entries) (fun _ => Suits entries)
      (fillPlain settings (.dict model) entries place) := by
  have hn := microformat_of_hasName hplain
  rw [fillPlain, h.engine, (Rules.check_eq_ok_iff entries place).mpr h.rules]
  refine (h.gives_attributeName hplain).bind fun name hname => ?_
  refine (h.gives_labelAndValue hplain hname.2 model place).bind fun shown hshown => ?_
  refine (h.gives_entryOptions hplain).bind fun options hoptions => ?_
  have hfilled := exists_filled_iff settings name shown.2 options hn h.rules hshown.1
  rw [hshown.2, hoptions.2] at hfilled
  obtain ⟨template, htemplate⟩ := exists_template_of_faults hn h.rules
  have hgiven : Template.ofValue ((given? (filledEntries settings entries name shown.1 shown.2
      options) "template").getD .null) = .ok template := by
    rw [given?_filledEntries _ _ _ _ _ _ (by decide)]
    exact htemplate
  have hread := gives_ofEntries hgiven
  change Gives _ _ (ofEntries (filledEntries settings entries name shown.1 shown.2 options))
  cases hmade : ofEntries (filledEntries settings entries name shown.1 shown.2 options) with
  | ok r =>
      have hr := reads_filledEntries_iff.mp (ofEntries_eq_ok_iff.mp hmade)
      obtain ⟨hlabel, hformat, hembedded, hspelled, hextras⟩ := hfilled.mp ⟨r, hr⟩
      exact ⟨hname.1, hlabel, hformat, hembedded, hoptions.1, hspelled, hextras⟩
  | error e =>
      rw [hmade] at hread
      refine ⟨fun hsuits => ?_, .inr (.inr hread)⟩
      obtain ⟨r, hr⟩ := hfilled.mpr
        ⟨hsuits.label, hsuits.format, hsuits.embedded, hsuits.options, hsuits.extras⟩
      rw [ofEntries_eq_ok_iff.mpr (reads_filledEntries_iff.mpr hr)] at hmade
      cases hmade

end Passes

/-- An entry that does not pass is refused, and told why. -/
theorem exists_config_of_not_passes (hplain : entries.hasName "microformat" = false)
    (h : ¬ Passes entries) (settings : Settings) (model : Value) (place : String) :
    ∃ c, fillPlain settings model entries place = .error (.config c) := by
  rw [fillPlain]
  by_cases hclass : entries.valueOf "class" = .null
  · rw [hclass]
    by_cases hfaults : Rules.faults entries = []
    · rw [(Rules.check_eq_ok_iff entries place).mpr hfaults]
      -- nothing is left that could be shown
      have hattribute : entries.valueOf "attribute" = .null :=
        by_contra fun hne => h ⟨hclass, hfaults, .inl hne⟩
      have hproperty : entries.valueOf "property" = .null :=
        by_contra fun hne => h ⟨hclass, hfaults, .inr (.inl hne)⟩
      have hvalue : entries.valueOf "value" = .null :=
        by_contra fun hne => h ⟨hclass, hfaults, .inr (.inr hne)⟩
      have hname : attributeName entries = .ok none := by
        rw [attributeName, hattribute, hproperty]
      have hshown : labelAndValue model entries none place =
          .error (.config (.noValue place)) := by
        rw [labelAndValue, hvalue]
        rfl
      rw [hname]
      simp only [Outcome.ok_bind, hshown]
      exact ⟨_, rfl⟩
    · obtain ⟨c, hc⟩ := Rules.check_of_faults_ne_nil hplain hfaults place
      rw [hc]
      exact ⟨c, rfl⟩
  · have hnamed : (entries.valueOf "class").isNull = false :=
      (Value.isNull_eq_false_iff _).mpr hclass
    rw [hnamed]
    exact ⟨_, rfl⟩

/-- What is given as an entry embeds no microformat, if it is an entry at all. -/
def IsPlain (raw : Value) : Prop :=
  ∀ entries, Entry.ofValue raw = .ok entries → entries.hasName "microformat" = false

/-- An entry is hidden, or passes and suits. -/
def Accepted (raw : Value) : Prop :=
  ∃ entries, Entry.ofValue raw = .ok entries ∧
    (isHidden entries = false → Passes entries ∧ Suits entries)

/-- An entry is shown and passes, but does not suit. -/
def Slips (raw : Value) : Prop :=
  ∃ entries, Entry.ofValue raw = .ok entries ∧ isHidden entries = false ∧
    Passes entries ∧ ¬ Suits entries

variable {raw : Value} {items : List Value} {model : Entries}

theorem accepted_iff (he : Entry.ofValue raw = .ok entries) :
    Accepted raw ↔ (isHidden entries = false → Passes entries ∧ Suits entries) := by
  simp only [Accepted, he, Except.ok.injEq, exists_eq_left']

theorem slips_iff (he : Entry.ofValue raw = .ok entries) :
    Slips raw ↔ isHidden entries = false ∧ Passes entries ∧ ¬ Suits entries := by
  simp only [Slips, he, Except.ok.injEq, exists_eq_left']

theorem Accepted.not_slips (h : Accepted raw) : ¬ Slips raw := by
  rintro ⟨entries, he, hh, -, hsuits⟩
  exact hsuits ((accepted_iff he).mp h hh).2

/-- Whatever is no entry is refused. -/
theorem config_of_ofValue {e : Failure} (h : Entry.ofValue raw = .error e) :
    ∃ c, e = .config c := by
  unfold Entry.ofValue Entry.ofText at h
  split at h
  · split at h
    · cases h
    · exact ⟨_, (Except.error.inj h).symm⟩
  · split at h
    · cases h
    · exact ⟨_, (Except.error.inj h).symm⟩
  · cases h
  · cases h
  · exact ⟨_, (Except.error.inj h).symm⟩

/-- How the run of a plain entry can fail: it is refused, or it slips. -/
def Refused (raw : Value) (e : Failure) : Prop :=
  (¬ Accepted raw ∧ ¬ Slips raw ∧ ∃ c, e = .config c) ∨ Slips raw ∧ e.IsStray

/-- A plain entry is accepted, refused or slips, each with an outcome of its own. -/
theorem gives_recordOf (site : Site) (nested : Request → Traced String) (i : Nat)
    (hplain : IsPlain raw) (hmodel : p.model = .dict model) :
    Gives (Refused raw) (fun _ => Accepted raw) (recordOf nested site p i raw).outcome := by
  simp only [recordOf, Traced.outcome_bind, Traced.outcome_lift]
  cases he : Entry.ofValue raw with
  | error e =>
      refine .inl ⟨?_, ?_, config_of_ofValue he⟩
      · rintro ⟨entries, hok, -⟩
        cases he.symm.trans hok
      · rintro ⟨entries, hok, -⟩
        cases he.symm.trans hok
  | ok entries =>
      have hname := hplain entries he
      have hnull : (entries.valueOf "microformat").isNull = true :=
        (Value.isNull_iff _).mpr (microformat_of_hasName hname)
      rw [Outcome.ok_bind]
      by_cases hh : isHidden entries = true
      · rw [if_pos hh]
        refine (accepted_iff he).mpr fun hshown => ?_
        cases hh.symm.trans hshown
      · have hshown : isHidden entries = false := Bool.eq_false_iff.mpr hh
        rw [if_neg hh, if_pos hnull, hmodel, Traced.outcome_bind, Traced.outcome_lift]
        by_cases hpasses : Passes entries
        · have hfilled := hpasses.gives_fillPlain hname site.settings model (placeName i)
          refine (hfilled.imp ?_).bind fun r hsuits => ?_
          · rintro e ⟨hmisfit, hstray⟩
            exact .inr ⟨(slips_iff he).mpr ⟨hshown, hpasses, hmisfit⟩, hstray⟩
          · exact (accepted_iff he).mpr fun _ => ⟨hpasses, hsuits⟩
        · obtain ⟨c, hc⟩ := exists_config_of_not_passes hname hpasses site.settings (.dict model)
            (placeName i)
          rw [hc]
          refine .inl ⟨?_, ?_, c, rfl⟩
          · exact fun hacc => hpasses ((accepted_iff he).mp hacc hshown).1
          · exact fun hslips => hpasses ((slips_iff he).mp hslips).2.1

/-- Some entry of a list slips, and all before it are accepted. -/
inductive SomeSlips : List Value → Prop
  /-- The first one. -/
  | here {raw rest} (h : Slips raw) : SomeSlips (raw :: rest)
  /-- One behind an entry that is accepted. -/
  | behind {raw rest} (h : Accepted raw) (tail : SomeSlips rest) : SomeSlips (raw :: rest)

/-- The run over a list of plain entries ends at the first one that is not accepted. The induction
is on the list; an entry that is accepted leaves the question to those behind it. -/
theorem gives_forEach (site : Site) (nested : Request → Traced String) (i : Nat)
    (hplain : ∀ raw ∈ items, IsPlain raw) (hmodel : p.model = .dict model) :
    Gives (fun e => (¬ SomeSlips items ∧ ∃ c, e = .config c) ∨ SomeSlips items ∧ e.IsStray)
      (fun _ => ¬ SomeSlips items)
      (Traced.forEach (recordOf nested site p) i items).outcome := by
  induction items generalizing i with
  | nil => exact nofun
  | cons raw rest ih =>
      obtain ⟨hraw, hrest⟩ := List.forall_mem_cons.mp hplain
      have hfirst := gives_recordOf site nested i hraw hmodel
      rw [Traced.outcome_forEach_cons]
      cases hrun : (recordOf nested site p i raw).outcome with
      | error e =>
          rw [hrun] at hfirst
          obtain ⟨hacc, hslips, hconfig⟩ | ⟨hslips, hstray⟩ := hfirst
          · refine .inl ⟨?_, hconfig⟩
            rintro (h | ⟨h, -⟩)
            · exact hslips h
            · exact hacc h
          · exact .inr ⟨.here hslips, hstray⟩
      | ok record =>
          rw [hrun] at hfirst
          have hcons : SomeSlips (raw :: rest) ↔ SomeSlips rest := by
            constructor
            · rintro (h | ⟨-, tail⟩)
              · exact absurd h (Accepted.not_slips hfirst)
              · exact tail
            · exact .behind hfirst
          rw [hcons, Outcome.ok_bind]
          exact (ih (i + 1) hrest).bind fun records hrecords => hrecords

end Card

end SemanticMarkup
