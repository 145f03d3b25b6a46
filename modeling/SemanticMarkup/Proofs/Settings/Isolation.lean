import SemanticMarkup.Card.Build
import SemanticMarkup.Proofs.Session.Stateful
import SemanticMarkup.Proofs.Settings.Valid

/-!
# Settings that are given

Who is given settings does not depend on the environment and on the global
settings, except at one place: an empty format of coordinates counts as missing
and is replaced by the global one. Other settings are used as they are, empty
texts as well.

## Implementation notes

Both sides of the comparison are results only: the state that they leave may
differ, because the global settings are loaded when they are needed first.
-/

namespace SemanticMarkup

open Stateful

namespace Settings.Valid

variable {s : Settings}

theorem symbols_ne_nil (h : s.Valid) : s.coordinateSymbols ≠ [] := by
  intro hnil
  have hthree := h.coordinateSymbols
  rw [hnil] at hthree
  cases hthree

theorem hemispheres_ne_nil (h : s.Valid) : s.hemispheres ≠ [] := by
  intro hnil
  have hnorth := h.hemispheres "n" (by decide)
  rw [hnil] at hnorth
  cases hnorth

end Settings.Valid

variable {s : Settings} {g g' : Globals}

/-- Settings with symbols and hemispheres, but without a format, take the global format. -/
theorem Coordinates.ofSettings_of_empty (hformat : s.coordinateFormat = "")
    (hsymbols : s.coordinateSymbols ≠ []) (hhemispheres : s.hemispheres ≠ []) :
    ofSettings s = (do
      let usual ← Globals.obtain
      return { ofComplete s with defaultFormat := .text usual.coordinateFormat }) := by
  have hempty : (Value.text "").isTrue = false := rfl
  have hsymbols' : (textList s.coordinateSymbols).isTrue = true := by
    simp [Value.isTrue, textList, hsymbols]
  have hhemispheres' : (textDict s.hemispheres).isTrue = true := by
    simp [Value.isTrue, textDict, hhemispheres]
  rw [ofSettings, make, hformat, hempty, Bool.false_and, Bool.false_and]
  simp only [Bool.false_eq_true, if_false, orElse, hempty, hsymbols', hhemispheres', if_true,
    pure_bind]
  rfl

namespace Formatter

/-- The formatter for some settings, with a format of coordinates in the place of theirs. -/
def withCoordinateFormat (s : Settings) (format : String) : Formatter :=
  { settings := s
    coordinates := { Coordinates.ofComplete s with defaultFormat := .text format } }

/-- The formatter for settings without a format of coordinates has the global one. -/
theorem run_make_of_empty (hs : s.Valid) (hempty : s.coordinateFormat = "") (g : Globals) :
    (run (make s) g).1 = ((run Globals.obtain g).1.map Settings.coordinateFormat).map
      (withCoordinateFormat s) := by
  rw [make, Coordinates.ofSettings_of_empty hempty hs.symbols_ne_nil hs.hemispheres_ne_nil,
    run_map, run_map]
  cases (run Globals.obtain g).1 <;> rfl

/-- The formatter for settings that are valid depends on the state only where they have no format
of coordinates, and then only on the global one. -/
theorem run_make_congr (hs : s.Valid) (h : s.coordinateFormat = "" →
      (run Globals.obtain g).1.map Settings.coordinateFormat =
        (run Globals.obtain g').1.map Settings.coordinateFormat) :
    (run (make s) g).1 = (run (make s) g').1 := by
  by_cases hempty : s.coordinateFormat = ""
  · rw [run_make_of_empty hs hempty g, run_make_of_empty hs hempty g', h hempty]
  · rw [make_eq_pure hempty hs.symbols_ne_nil hs.hemispheres_ne_nil, run_pure, run_pure]

/-- What a value is shown as in a format, by the formatter that is made for some settings while the
globals are in a state. -/
def shownIn (g : Globals) (s : Settings) (v format : Value) : Outcome String := do
  let f ← (run (make s) g).1
  f.format v format

end Formatter

namespace Card

/-- What a request under some settings is rendered to while the globals are in a state. -/
def renderedIn (g : Globals) (s : Settings) (registry : Registry) (r : Request) :
    Outcome String := do
  let (site, p) ← (run (Site.prepare (some s) none registry r) g).1
  (buildAndRender site p).outcome

/-- Of the state, only the formatter depends on it. -/
theorem result_prepare (g : Globals) (s : Settings) (registry : Registry) (r : Request) :
    (run (Site.prepare (some s) none registry r) g).1 = do
      let p ← r.prepare s
      let f ← (run (Formatter.make s) g).1
      return ({ settings := s, formatter := f, registry := registry }, p) := by
  simp only [Site.prepare, Globals.obtainUnless, pure_bind]
  rw [run_bind, run_lift]
  cases r.prepare s with
  | error e => rfl
  | ok p =>
      simp only [Outcome.ok_bind, run_map]
      cases (run (Formatter.make s) g).1 <;> rfl

end Card

/-- Under loaded settings with a format of coordinates, formatting and rendering do not depend on
the environment and on the global settings. Without one they depend on the global format of
coordinates only. -/
theorem Settings.isolated {environment : Variables} {arguments : Fields}
    (hs : Settings.load environment arguments = .ok s)
    (hformat : s.coordinateFormat = "" →
      (run Globals.obtain g).1.map Settings.coordinateFormat =
        (run Globals.obtain g').1.map Settings.coordinateFormat) :
    (∀ v format, Formatter.shownIn g s v format = Formatter.shownIn g' s v format) ∧
      ∀ registry r, Card.renderedIn g s registry r = Card.renderedIn g' s registry r := by
  have hmade := Formatter.run_make_congr (Settings.valid_of_load hs) hformat
  constructor
  · intro v format
    rw [Formatter.shownIn, Formatter.shownIn, hmade]
  · intro registry r
    rw [Card.renderedIn, Card.renderedIn, Card.result_prepare, Card.result_prepare, hmade]

/-- Globals with nothing loaded, in an environment. -/
def Globals.fresh (environment : Variables) : Globals :=
  { environment := environment, loaded := none }

/-- The standard settings without a format of coordinates. -/
def Settings.formatless : Settings :=
  { standard with coordinateFormat := "" }

/-- An environment that shows coordinates as whole degrees. -/
def wholeDegrees : Variables := [("MICROFORMATS_COORDINATE_FORMAT", "%d")]

/-- An environment that shows dates as years. -/
def wholeYears : Variables := [("MICROFORMATS_DATE_FORMAT", "%Y")]

theorem Settings.isolated_standard :
    (Settings.load [] [] = .ok standard ∧
      ∀ registry r, Card.renderedIn (.fresh []) standard registry r =
        Card.renderedIn (.fresh wholeDegrees) standard registry r) ∧
    Settings.load [] [("coordinate_format", .text "")] = .ok formatless ∧
      ∀ v format, Formatter.shownIn (.fresh []) formatless v format =
        Formatter.shownIn (.fresh wholeYears) formatless v format := by
  have hstandard : Settings.load [] [] = .ok standard := by rfl
  have hformatless : Settings.load [] [("coordinate_format", .text "")] = .ok formatless := by rfl
  have hbare : (run Globals.obtain (.fresh [])).1.map Settings.coordinateFormat =
      .ok "%02.6f" := Outcome.eq_ok_of_toOption (by decide +kernel)
  have hyears : (run Globals.obtain (.fresh wholeYears)).1.map Settings.coordinateFormat =
      .ok "%02.6f" := Outcome.eq_ok_of_toOption (by decide +kernel)
  exact ⟨⟨hstandard, (isolated hstandard fun hempty => absurd hempty (by decide)).2⟩,
    hformatless, (isolated hformatless fun _ => hbare.trans hyears.symm).1⟩

/-- Without a format of coordinates, the environment decides what a latitude is shown as, although
settings are given. -/
theorem Settings.not_isolated :
    Settings.load [] [("coordinate_format", .text "")] = .ok formatless ∧
      Formatter.shownIn (.fresh []) formatless (.int 45) (.text "latitude") = .ok "45.000000°" ∧
      Formatter.shownIn (.fresh wholeDegrees) formatless (.int 45) (.text "latitude") =
        .ok "45°" :=
  ⟨by rfl, Outcome.eq_ok_of_toOption (by decide +kernel),
    Outcome.eq_ok_of_toOption (by decide +kernel)⟩

end SemanticMarkup
