import SemanticMarkup.Proofs.Settings.Valid
import SemanticMarkup.Proofs.Steps

/-!
# Problems of settings

A reading that fails says what is wrong: there is at least one problem, and every
problem is at the place that is read, or below it. So settings that are not
loaded from their arguments are refused with problems of the arguments that were
given. There is one exception. The symbols of coordinates are counted before it
is known what kind of value they are, and a value without items cannot be counted.
-/

namespace SemanticMarkup

/-- The problem is at a place or below it. -/
def Issue.IsAt (path : List String) (p : Issue) : Prop :=
  path <+: p.path

theorem Issue.IsAt.above {path step : List String} {p : Issue} (h : p.IsAt (path ++ step)) :
    p.IsAt path :=
  (List.prefix_append path step).trans h

namespace Reading

variable {α β : Type} {about other : Issue → Prop} {path : List String}

/-- A reading that fails has problems, all of one sort. -/
structure Tells (about : Issue → Prop) (r : Reading α) : Prop where
  /-- Without problems there is a result. -/
  exists_ok : issues r = [] → ∃ a, r = .ok a
  /-- The problems are of the sort. -/
  of_issues : ∀ p ∈ issues r, about p

theorem tells_iff {r : Reading α} : Tells about r ↔
    Gives (fun problems => problems ≠ [] ∧ ∀ p ∈ problems, about p) anything r := by
  cases r with
  | ok a => exact iff_of_true ⟨fun _ => ⟨a, rfl⟩, nofun⟩ trivial
  | error problems =>
      constructor
      · intro h
        refine ⟨fun hnil => ?_, h.of_issues⟩
        obtain ⟨a, ha⟩ := h.exists_ok hnil
        cases ha
      · exact fun h => ⟨fun hnil => absurd hnil h.1, h.2⟩

theorem Tells.imp {r : Reading α} (h : Tells about r) (himp : ∀ p, about p → other p) :
    Tells other r :=
  ⟨h.exists_ok, fun p hp => himp p (h.of_issues p hp)⟩

theorem Tells.bind {r : Reading α} {next : α → Reading β} (h : Tells about r)
    (hnext : ∀ a, Tells about (next a)) : Tells about (r >>= next) :=
  tells_iff.mpr ((tells_iff.mp h).bind fun a _ => tells_iff.mp (hnext a))

theorem Tells.map {r : Reading α} (h : Tells about r) (f : α → β) : Tells about (r.map f) :=
  tells_iff.mpr ((tells_iff.mp h).map f)

theorem tells_ok (a : α) : Tells about (.ok a : Reading α) :=
  tells_iff.mpr trivial

theorem tells_error {problems : List Issue} (hsome : problems ≠ [])
    (habout : ∀ p ∈ problems, about p) : Tells about (.error problems : Reading α) :=
  tells_iff.mpr ⟨hsome, habout⟩

theorem tells_refuse (kind : IssueKind) : Tells (Issue.IsAt path) (refuse path kind : Reading α) :=
  tells_error (List.cons_ne_nil _ _) (List.forall_mem_singleton.mpr (List.prefix_refl path))

theorem tells_ite {c : Prop} [Decidable c] {r s : Reading α} (hr : Tells about r)
    (hs : Tells about s) : Tells about (if c then r else s) := by
  split
  · exact hr
  · exact hs

theorem tells_all {readings : List (Reading α)} (h : ∀ r ∈ readings, Tells about r) :
    Tells about (all readings) := by
  rw [all]
  split
  · have hitems : ∀ r ∈ readings, Gives _ anything (id r) := fun r hr => tells_iff.mp (h r hr)
    exact tells_iff.mpr ((Gives.mapM hitems).mono fun _ _ => trivial)
  · rename_i hproblems
    refine tells_error (fun hnil => hproblems (List.isEmpty_iff.mpr hnil)) fun p hp => ?_
    obtain ⟨r, hr, hp⟩ := List.mem_flatMap.mp hp
    exact (h r hr).of_issues p hp

/-- Wherever a value is read, all that is wrong with it is told of that place. -/
def Local (read : List String → Value → Reading α) : Prop :=
  ∀ path v, Tells (Issue.IsAt path) (read path v)

theorem local_text : Local text := by
  intro path v
  cases v with
  | text s => exact tells_ok s
  | bytes bs =>
      rw [text]
      split
      · exact tells_ok _
      · exact tells_refuse _
  | _ => exact tells_refuse _

theorem tells_intOfText (path : List String) (s : String) :
    Tells (Issue.IsAt path) (intOfText path s) := by
  rw [intOfText]
  split
  · exact tells_refuse _
  · exact tells_ite (tells_refuse _) (tells_ok _)

theorem tells_intOfNumber (path : List String) (v : Value) (finite : Bool) :
    Tells (Issue.IsAt path) (intOfNumber path v finite) := by
  rw [intOfNumber]
  split
  · exact tells_refuse _
  · split
    · exact tells_refuse _
    · exact tells_ite (tells_ok _) (tells_refuse _)

theorem local_int : Local int := by
  intro path v
  cases v with
  | bool b => exact tells_ok _
  | int n => exact tells_ok n
  | float x => exact tells_intOfNumber path _ x.isFinite
  | decimal d =>
      cases d with
      | finite => exact tells_intOfNumber path _ true
      | infinite negative => exact tells_intOfNumber path (.decimal (.infinite negative)) false
      | undefined negative signaling payload =>
          exact tells_intOfNumber path (.decimal (.undefined negative signaling payload)) false
  | text s => exact tells_intOfText path s
  | bytes bs =>
      rw [int]
      split
      · exact tells_intOfText path _
      · exact tells_refuse _
  | _ => exact tells_refuse _

variable {read : List String → Value → Reading α}

theorem Local.list (h : Local read) : Local fun path => list path read := by
  intro path v
  have hall (items : List Value) : Tells (Issue.IsAt path)
      (all (items.mapIdx fun i item => read (path ++ [indexName i]) item)) := by
    refine tells_all fun r hr => ?_
    obtain ⟨i, hi, rfl⟩ := List.mem_mapIdx.mp hr
    exact (h _ _).imp fun _ => Issue.IsAt.above
  cases v with
  | list items | tuple items | set items => exact hall items
  | _ => exact tells_refuse _

/-- Of an entry both the key and the value tell what is wrong with them. -/
theorem Local.dictEntry (h : Local read) (path : List String) (e : Value × Value) :
    Tells (Issue.IsAt path) (dictEntry path read e) := by
  have hkey : Tells (Issue.IsAt path) (text (path ++ [keyName e.1] ++ ["[key]"]) e.1) :=
    (local_text _ e.1).imp fun _ hp => hp.above.above
  have hvalue : Tells (Issue.IsAt path) (read (path ++ [keyName e.1]) e.2) :=
    (h _ _).imp fun _ => Issue.IsAt.above
  rw [Reading.dictEntry]
  split
  · exact tells_ok _
  · rename_i hnot
    refine tells_error (fun hnil => ?_)
      (List.forall_mem_append.mpr ⟨hkey.of_issues, hvalue.of_issues⟩)
    obtain ⟨hkeys, hvalues⟩ := List.append_eq_nil_iff.mp hnil
    obtain ⟨key, hkey⟩ := hkey.exists_ok hkeys
    obtain ⟨value, hvalue⟩ := hvalue.exists_ok hvalues
    exact hnot key value hkey hvalue

theorem Local.dict (h : Local read) : Local fun path => dict path read := by
  intro path v
  cases v with
  | dict entries =>
      refine Tells.map (tells_all fun r hr => ?_) lastNamed
      obtain ⟨e, -, rfl⟩ := List.mem_map.mp hr
      exact h.dictEntry path e
  | _ => exact tells_refuse _

end Reading

namespace Settings

open Reading

variable {α β : Type} {about : Issue → Prop} {given : String → Option Value}
  {read : List String → Value → Reading α}

theorem local_checked (h : Local read) (rule : α → Option β) : Local (checked read rule) := by
  intro path v
  have hread := h path v
  rw [checked]
  split
  · rename_i problems hproblems
    rw [hproblems] at hread
    exact tells_error (tells_iff.mp hread).1 hread.of_issues
  · split
    · exact tells_ok _
    · exact tells_refuse _

theorem local_readDepth : Local readDepth := by
  intro path v
  have hread := local_int path v
  rw [readDepth]
  split
  · rename_i problems hproblems
    rw [hproblems] at hread
    exact tells_error (tells_iff.mp hread).1 hread.of_issues
  · exact tells_ite (tells_refuse _) (tells_ok _)

/-- Reading the symbols is a fault exactly for a value that is no text and has no items. -/
theorem readSymbols_eq_fault_iff {path : List String} {v : Value} :
    readSymbols path v = Outcome.fault .wrongType ↔ ¬v.IsString ∧ count? v = none := by
  have hcounted {listed : Value} (hlisted : symbolList? v = some listed) :
      readSymbols path v = Outcome.fault .wrongType ↔ count? listed = none := by
    rw [readSymbols, hlisted]
    cases hcount : count? listed <;> simp [hcount, Outcome.fault]
  -- a text stands for a list, if for anything, and all that is left is counted as it is
  have hlist (items : Option (List Value)) (hv : symbolList? v = items.map .list) :
      readSymbols path v ≠ Outcome.fault .wrongType := by
    cases items with
    | none =>
        rw [readSymbols, hv]
        exact fun h => by cases h
    | some items => exact fun h => by cases (hcounted hv).mp h
  cases v with
  | text s => exact iff_of_false (hlist (symbolsOfText? s) rfl) fun h => h.1 (.text s)
  | garbled codes =>
      exact iff_of_false (hlist (symbolsOfCodes? codes) rfl) fun h => h.1 (.garbled codes)
  | _ => exact (hcounted rfl).trans (and_iff_right fun h => by cases h).symm

/-- The symbols tell what is wrong with them, unless reading them is a fault. -/
theorem gives_readSymbols (path : List String) (v : Value) :
    Gives (· = .fault .wrongType) (Tells (Issue.IsAt path)) (readSymbols path v) := by
  rw [readSymbols]
  split
  · exact tells_refuse (α := List String) _
  · split
    · exact rfl
    · exact tells_ite (local_text.list path _) (tells_refuse _)

/-- A problem of a setting that is given. -/
def About (given : String → Option Value) (p : Issue) : Prop :=
  ∃ name ∈ fieldNames, (given name).isSome ∧ p.IsAt [name]

theorem tells_setting {name : String} {standard : α} (h : Local read) (hname : name ∈ fieldNames) :
    Tells (About given) (setting given name standard read) := by
  rw [setting]
  split
  · exact tells_ok standard
  · rename_i v hv
    exact (h [name] v).imp fun p hp => ⟨name, hname, by rw [hv, Option.isSome_some], hp⟩

theorem gives_symbolsOf :
    Gives (· = .fault .wrongType) (Tells (About given)) (symbolsOf given) := by
  rw [symbolsOf]
  split
  · exact tells_ok standard.coordinateSymbols
  · rename_i v hv
    refine (gives_readSymbols _ v).mono fun symbols h => h.imp fun p hp => ?_
    exact ⟨_, by decide, by rw [hv, Option.isSome_some], hp⟩

theorem symbolsOf_eq_fault_iff : symbolsOf given = Outcome.fault .wrongType ↔
    ∃ v, given "coordinate_symbols" = some v ∧ ¬v.IsString ∧ count? v = none := by
  rw [symbolsOf]
  cases hgiven : given "coordinate_symbols" with
  | none => simp [Outcome.fault]
  | some v => simp [readSymbols_eq_fault_iff]

/-- Settings that are not assembled tell what is wrong with what is given. -/
theorem tells_assemble {symbols : Reading (List String)} {extras : List Issue}
    (hsymbols : Tells about symbols) (hextras : ∀ p ∈ extras, about p)
    (hgiven : ∀ p, About given p → about p) : Tells about (assemble given symbols extras) := by
  have hfield {α : Type} {read : List String → Value → Reading α} (name : String) (absent : α)
      (hname : name ∈ fieldNames) (h : Local read) :
      Tells about (setting given name absent read) :=
    (tells_setting h hname).imp hgiven
  unfold assemble
  extract_lets text environment rootPrefix defaultTemplate containerTag defaultFormat
    maxEmbedDepth coordinateFormat hemispheres dateFormat datetimeFormat booleanFormat nullDisplay
    logLevel problems
  have htext (name absent : String) (hname : name ∈ fieldNames) : Tells about (text name absent) :=
    hfield name absent hname local_text
  have henvironment : Tells about environment :=
    hfield _ _ (by decide) (local_checked local_text _)
  have hprefix : Tells about rootPrefix := hfield _ _ (by decide) (local_checked local_text _)
  have htemplate : Tells about defaultTemplate := htext _ _ (by decide)
  have htag : Tells about containerTag := htext _ _ (by decide)
  have hformat : Tells about defaultFormat := htext _ _ (by decide)
  have hdepth : Tells about maxEmbedDepth := hfield _ _ (by decide) local_readDepth
  have hcoordinate : Tells about coordinateFormat := htext _ _ (by decide)
  have hhemispheres : Tells about hemispheres :=
    hfield _ _ (by decide) (local_checked local_text.dict _)
  have hdate : Tells about dateFormat := htext _ _ (by decide)
  have hdatetime : Tells about datetimeFormat := htext _ _ (by decide)
  have hboolean : Tells about booleanFormat :=
    hfield _ _ (by decide) (local_checked local_text.list _)
  have hnull : Tells about nullDisplay := htext _ _ (by decide)
  have hlevel : Tells about logLevel := hfield _ _ (by decide) (local_checked local_text _)
  have habout : ∀ p ∈ problems, about p := by
    simp only [problems, List.forall_mem_append, and_assoc]
    exact ⟨henvironment.of_issues, hprefix.of_issues, htemplate.of_issues, htag.of_issues,
      hformat.of_issues, hdepth.of_issues, hcoordinate.of_issues, hsymbols.of_issues,
      hhemispheres.of_issues, hdate.of_issues, hdatetime.of_issues, hboolean.of_issues,
      hnull.of_issues, hlevel.of_issues, hextras⟩
  clear_value environment rootPrefix defaultTemplate containerTag defaultFormat maxEmbedDepth
    coordinateFormat hemispheres dateFormat datetimeFormat booleanFormat nullDisplay logLevel
  split
  · rename_i hproblems
    refine tells_error (fun hnil => ?_) habout
    rw [hnil] at hproblems
    cases hproblems
  · exact henvironment.bind fun _ => hprefix.bind fun _ => htemplate.bind fun _ =>
      htag.bind fun _ => hformat.bind fun _ => hdepth.bind fun _ => hcoordinate.bind fun _ =>
      hsymbols.bind fun _ => hhemispheres.bind fun _ => hdate.bind fun _ =>
      hdatetime.bind fun _ => hboolean.bind fun _ => hnull.bind fun _ => hlevel.bind fun _ =>
      tells_ok _

/-- Without variables the settings are those of the arguments. -/
theorem load_nil (arguments : Fields) : load [] arguments = (symbolsOf (argument? arguments) >>=
    fun symbols =>
      (assemble (argument? arguments) symbols (unknownArguments arguments)).outcome) :=
  rfl

/-- The arguments are refused with problems of their own, each that of a setting which is given, or
of an argument that names no setting. -/
inductive Refusal (arguments : Fields) : Failure → Prop where
  | invalid {problems : List Issue} (hsome : problems ≠ [])
      (habout : ∀ p ∈ problems, About (argument? arguments) p ∨ p ∈ unknownArguments arguments) :
      Refusal arguments (.invalid problems)

theorem outcome_assemble {arguments : Fields} {symbols : Reading (List String)}
    (hsymbols : Tells (About (argument? arguments)) symbols) :
    (∃ s, (assemble (argument? arguments) symbols (unknownArguments arguments)).outcome = .ok s) ∨
    ∃ e, (assemble (argument? arguments) symbols (unknownArguments arguments)).outcome = .error e ∧
      Refusal arguments e := by
  have htells : Tells (fun p => About (argument? arguments) p ∨ p ∈ unknownArguments arguments) _ :=
    tells_assemble (hsymbols.imp fun _ => .inl) (fun _ => .inr) fun _ => .inl
  cases hread : assemble (argument? arguments) symbols (unknownArguments arguments) with
  | ok s => exact .inl ⟨s, rfl⟩
  | error problems =>
      rw [hread] at htells
      exact .inr ⟨_, rfl, .invalid (tells_iff.mp htells).1 htells.of_issues⟩

/-- Whatever values they have, arguments give settings or are refused with their problems, unless
the symbols of coordinates are neither a text nor anything with items: then there is a fault. -/
theorem load_arguments (arguments : Fields) :
    (load [] arguments = Outcome.fault .wrongType ↔
      ∃ v, argument? arguments "coordinate_symbols" = some v ∧ ¬v.IsString ∧ count? v = none) ∧
    (load [] arguments = Outcome.fault .wrongType ∨
      (∃ s, load [] arguments = .ok s ∧ s.Valid) ∨
      ∃ e, load [] arguments = .error e ∧ Refusal arguments e) := by
  rw [← symbolsOf_eq_fault_iff]
  have hload := load_nil arguments
  have hsymbols : Gives _ _ (symbolsOf (argument? arguments)) := gives_symbolsOf
  cases hread : symbolsOf (argument? arguments) with
  | error e =>
      have he : e = .fault .wrongType := by rwa [hread] at hsymbols
      rw [hread, Outcome.error_bind, he] at hload
      rw [hload, he]
      exact ⟨iff_of_true rfl rfl, .inl rfl⟩
  | ok symbols =>
      rw [hread, Outcome.ok_bind] at hload
      rw [hread] at hsymbols
      obtain ⟨s, hs⟩ | ⟨e, he, hrefused⟩ := outcome_assemble hsymbols
      · rw [hs] at hload
        rw [hload]
        exact ⟨iff_of_false nofun nofun, .inr (.inl ⟨s, rfl, valid_of_load hload⟩)⟩
      · rw [he] at hload
        rw [hload]
        refine ⟨iff_of_false (fun hfault => ?_) nofun, .inr (.inr ⟨e, rfl, hrefused⟩)⟩
        cases hfault
        cases hrefused

/-- A number in the place of the symbols is such a fault. -/
theorem load_arguments_int : load [] [("coordinate_symbols", .int 5)] = Outcome.fault .wrongType :=
  Outcome.eq_error_of_failure? (by decide)

end Settings

end SemanticMarkup
