import SemanticMarkup.Proofs.Format.Faults
import SemanticMarkup.Proofs.Settings.Isolation

/-!
# What formatters rely on

Settings are checked when they are loaded, and formatters look up in them without
checking again. This is sound: whatever the settings were loaded from, the lists in
them are as long as they have to be after all conversions, and the mapping has all keys.
So a formatter that is made for them never fails because an item is missing, and shows
a group of a coordinate for each directive.
-/

namespace SemanticMarkup

open Stateful

namespace Settings

variable {given : String → Option Value} {s : Settings}

/-- Settings obey the rules of their fields, and have what they were given: the name of a
deployment as it is, the name of a level in capitals, and a depth that is not negative. -/
structure Sound (given : String → Option Value) (s : Settings) : Prop extends Valid s where
  environment : s.environment.name ∈ ["development", "testing", "production"]
  environmentGiven : ∀ v, given "environment" = some v →
    Reading.text ["environment"] v = .ok s.environment.name
  logLevel : s.logLevel.name ∈ ["DEBUG", "INFO", "WARNING", "ERROR", "CRITICAL"]
  logLevelGiven : ∀ v, given "log_level" = some v →
    ∃ t, Reading.text ["log_level"] v = .ok t ∧ Text.upperText t = s.logLevel.name
  depthGiven : ∀ v, given "max_embed_depth" = some v →
    Reading.int ["max_embed_depth"] v = .ok (s.maxEmbedDepth : Int)

/-- A setting that is given is what was read. -/
theorem read_of_setting {α : Type} {name : String} {standard a : α}
    {read : List String → Value → Reading α} (h : setting given name standard read = .ok a)
    {v : Value} (hv : given name = some v) : read [name] v = .ok a := by
  rw [setting, hv] at h
  exact h

theorem deployment_of_ofName? {name : String} {d : Deployment}
    (h : Deployment.ofName? name = some d) : name = d.name :=
  (beq_iff_eq.mp (List.find?_some (p := fun d : Deployment => d.name == name) h)).symm

theorem logLevel_of_ofName? {name : String} {l : LogLevel} (h : LogLevel.ofName? name = some l) :
    name = l.name :=
  (beq_iff_eq.mp (List.find?_some (p := fun l : LogLevel => l.name == name) h)).symm

theorem deployment_name_mem (d : Deployment) :
    d.name ∈ ["development", "testing", "production"] := by
  cases d <;> decide

theorem logLevel_name_mem (l : LogLevel) :
    l.name ∈ ["DEBUG", "INFO", "WARNING", "ERROR", "CRITICAL"] := by
  cases l <;> decide

/-- A depth is a number that is not negative. -/
theorem int_of_readDepth {path : List String} {v : Value} {n : Nat}
    (h : readDepth path v = .ok n) : Reading.int path v = .ok (n : Int) := by
  rw [readDepth] at h
  split at h
  · cases h
  · rename_i number hnumber
    split at h
    · cases h
    · rename_i hsign
      rw [hnumber, ← Except.ok.inj h, Int.toNat_of_nonneg (by omega)]

/-- Settings that are loaded are sound. -/
theorem sound_of_given {environment : Variables} {arguments : Fields}
    (h : load environment arguments = .ok s) :
    ∃ ambient, fromVariables environment = .ok ambient ∧ Sound (given? ambient arguments) s := by
  have hvalid := valid_of_load h
  simp only [load, Outcome.bind_eq_ok_iff, Reading.outcome_eq_ok_iff, assemble] at h
  obtain ⟨ambient, hambient, symbols, -, h⟩ := h
  refine ⟨ambient, hambient, ?_⟩
  split at h
  · cases h
  · simp only [Outcome.bind_eq_ok_iff] at h
    obtain ⟨deployment, hdeployment, _, -, _, -, _, -, _, -, depth, hdepth, _, -, _, -, _, -, _, -,
      _, -, _, -, _, -, level, hlevel, h⟩ := h
    cases h
    exact {
      hvalid with
      environment := deployment_name_mem deployment
      environmentGiven := by
        intro v hv
        obtain ⟨name, hname, hfound⟩ := of_checked (read_of_setting hdeployment hv)
        rw [hname, deployment_of_ofName? hfound]
      logLevel := logLevel_name_mem level
      logLevelGiven := by
        intro v hv
        obtain ⟨t, ht, hfound⟩ := of_checked (read_of_setting hlevel hv)
        exact ⟨t, ht, logLevel_of_ofName? hfound⟩
      depthGiven := fun v hv => int_of_readDepth (read_of_setting hdepth hv) }

end Settings

/-- Texts in a mapping of texts are found by their keys. -/
theorem Entries.named?_texts (texts : List (String × String)) (name : String) :
    Entries.named? (texts.map fun e => (.text e.1, .text e.2)) name =
      (texts.lookup name).map Value.text := by
  induction texts with
  | nil => rfl
  | cons e rest ih =>
      rw [List.map_cons, Entries.named?_cons, ih, List.lookup_cons]
      by_cases h : e.1 = name
      · subst h
        simp
      · rw [if_neg fun heq => h (Value.text.inj heq), beq_false_of_ne (Ne.symm h)]

variable {s : Settings} {g : Globals} {f : Formatter}

/-- Coordinates are complete under valid settings. -/
theorem Coordinates.complete_ofComplete (hs : s.Valid) :
    (Coordinates.ofComplete s).Complete s.coordinateSymbols where
  three := hs.coordinateSymbols
  symbols := rfl
  hemispheres := by
    intro axis negative
    have hkey : hemisphereLetter axis negative ∈ Settings.hemisphereKeys := by
      cases axis <;> cases negative <;> decide
    obtain ⟨name, hname⟩ := Option.isSome_iff_exists.mp (hs.hemispheres _ hkey)
    exact ⟨name, (Entries.named?_texts s.hemispheres _).trans (by rw [hname]; rfl)⟩

/-- A formatter that is made for valid settings is complete, also where it takes the format of
coordinates from the global settings. -/
theorem Formatter.complete_of_make (hs : s.Valid) (h : (run (make s) g).1 = .ok f) :
    f.Complete s := by
  have hcoordinates := Coordinates.complete_ofComplete hs
  -- only the usual format may be taken from elsewhere, and completeness does not depend on it
  by_cases hempty : s.coordinateFormat = ""
  · rw [run_make_of_empty hs hempty] at h
    cases hglobal : (run Globals.obtain g).1 with
    | error e =>
        rw [hglobal] at h
        cases h
    | ok usual =>
        rw [hglobal] at h
        cases h
        exact ⟨rfl, hs.booleanFormat, hcoordinates.three, hcoordinates.symbols,
          hcoordinates.hemispheres⟩
  · rw [make_eq_pure hempty hs.symbols_ne_nil hs.hemispheres_ne_nil, run_pure] at h
    cases h
    exact ⟨rfl, hs.booleanFormat, hcoordinates⟩

/-- Settings that are loaded, from whatever variables and arguments, are sound. So a formatter for
them never fails because a list is too short or a mapping has no such key, whatever value it is to
show in whatever format, and a coordinate has as many groups as its format has number directives,
each with the symbol that belongs to it. -/
theorem Settings.sound_of_load {environment : Variables} {arguments : Fields}
    (h : Settings.load environment arguments = .ok s) :
    (∃ ambient, fromVariables environment = .ok ambient ∧ Sound (given? ambient arguments) s) ∧
      (s.coordinateFormat ≠ "" → ∀ g, ∃ f, (run (Formatter.make s) g).1 = .ok f) ∧
      ∀ g f, (run (Formatter.make s) g).1 = .ok f → ∀ v format,
        f.format v format ≠ Outcome.fault .missingIndex ∧
        f.format v format ≠ Outcome.fault .missingKey ∧
        ∀ axis arguments text, Format.Asks format (.ofAxis axis) arguments → v ≠ .null →
          f.format v format = .ok text →
          Formatter.ShowsDegrees s v (f.coordinateFormat arguments) text := by
  have hvalid := valid_of_load h
  refine ⟨sound_of_given h, fun hformat g => ?_, fun g f hf v format => ?_⟩
  · rw [Formatter.make_eq_pure hformat hvalid.symbols_ne_nil hvalid.hemispheres_ne_nil, run_pure]
    exact ⟨_, rfl⟩
  have hfinds := Formatter.finds_format (Formatter.complete_of_make hvalid hf) v format
  refine ⟨fun hmissing => ?_, fun hmissing => ?_, fun axis arguments text hasks hne htext => ?_⟩
  · rw [hmissing] at hfinds
    cases hfinds
  · rw [hmissing] at hfinds
    cases hfinds
  · exact hfinds.of_ok htext axis arguments hasks hne

/-- A format of latitudes with two directives and the hemisphere. -/
def degreesAndMinutes : Value :=
  .list [.text "latitude", .text "%02d %02d h"]

theorem Settings.sound_of_load_standard :
    Settings.load [] [] = .ok standard ∧
      (run (Formatter.make standard) (.fresh [])).1 = .ok (Formatter.ofComplete standard) ∧
      (Formatter.ofComplete standard).format (.int (-45)) degreesAndMinutes = .ok "45° 00′ S" ∧
      Formatter.ShowsDegrees standard (.int (-45)) (.text "%02d %02d h") "45° 00′ S" := by
  have hload : Settings.load [] [] = .ok standard := by rfl
  have hmake : (run (Formatter.make standard) (.fresh [])).1 =
      .ok (Formatter.ofComplete standard) := by
    rw [Formatter.make_eq_pure (by decide) (by decide) (by decide), run_pure]
  have htext : (Formatter.ofComplete standard).format (.int (-45)) degreesAndMinutes =
      .ok "45° 00′ S" := Outcome.eq_ok_of_toOption (by decide +kernel)
  have hasks : Format.Asks degreesAndMinutes (.ofAxis .latitude) [.text "%02d %02d h"] :=
    ⟨"latitude", rfl, FormatName.ofText?_written .latitude⟩
  exact ⟨hload, hmake, htext,
    ((sound_of_load hload).2.2 _ _ hmake _ degreesAndMinutes).2.2 .latitude _ _ hasks nofun htext⟩

end SemanticMarkup
