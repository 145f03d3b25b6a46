import SemanticMarkup.Format.Formatter
import SemanticMarkup.Proofs.Format.Coordinates

/-!
# Look-ups of a formatter

A formatter looks up the text for a truth value and the name of a hemisphere; everything
else that a format asks for is computed. So formatting may fail for many reasons, but
not for one of these look-ups if there are two texts for the truth values and a name for
each hemisphere. A coordinate that is shown has all the groups that its format asks for.
-/

namespace SemanticMarkup

open SemanticMarkup.Number SemanticMarkup.Calendar

/-- The format of a kind of coordinate. -/
def FormatName.ofAxis : Axis → FormatName
  | .latitude => .latitude
  | .longitude => .longitude

/-- A format asks for a known way to show a value, with some arguments. -/
def Format.Asks (format : Value) (known : FormatName) (arguments : List Value) : Prop :=
  ∃ name, Format.split format = .ok (name, arguments) ∧ FormatName.ofText? name = some known

theorem Format.asks_named (known : FormatName) : Format.Asks (.text known.written) known [] :=
  ⟨known.written, rfl, FormatName.ofText?_written known⟩

theorem Format.asks_applied (known : FormatName) (arguments : List Value) :
    Format.Asks (.list (.text known.written :: arguments)) known arguments :=
  ⟨known.written, rfl, FormatName.ofText?_written known⟩

theorem Value.finds_asText (v : Value) : Outcome.Finds anything v.asText := by
  unfold asText
  split
  · exact trivial
  · exact rfl

theorem Format.finds_split (format : Value) : Outcome.Finds anything (Format.split format) := by
  unfold split
  dsimp only
  split
  · split
    · exact rfl
    · exact (Value.finds_asText _).bind fun _ _ => trivial
  · split
    · exact rfl
    · exact (Value.finds_asText _).bind fun _ _ => trivial
  · exact (Value.finds_asText _).bind fun _ _ => trivial

namespace Formatter

/-- A value that is not missing is shown in the way that the format asks for. -/
theorem format_of_asks (f : Formatter) {v format : Value} {known : FormatName}
    {arguments : List Value} (hasks : Format.Asks format known arguments)
    (hcount : arguments.length ≤ known.maxArguments) (hnull : v.isNull = false) :
    f.format v format = f.showAs known v arguments.head? := by
  obtain ⟨name, hsplit, hname⟩ := hasks
  rw [Formatter.format, hsplit, Outcome.ok_bind]
  dsimp only
  rw [hname]
  dsimp only
  rw [if_neg (Nat.not_lt.mpr hcount), hnull]
  rfl

/-- A formatter for settings, with two texts for the truth values and complete coordinates. -/
structure Complete (f : Formatter) (s : Settings) : Prop where
  settings : f.settings = s
  truth : s.booleanFormat.length = 2
  coordinates : f.coordinates.Complete s.coordinateSymbols

/-- The format of a coordinate: the first argument, or else the usual one. -/
def coordinateFormat (f : Formatter) (arguments : List Value) : Value :=
  let given := arguments.head?.getD .null
  if given.isNull then f.coordinates.defaultFormat else given

theorem finds_truthText {s : Settings} (h : s.booleanFormat.length = 2) (b : Bool) :
    Outcome.Finds anything (truthText s b) := by
  obtain ⟨no, yes, htexts⟩ := List.length_eq_two.mp h
  rw [truthText, htexts]
  cases b <;> exact trivial

theorem finds_decimalOf (v : Value) : Outcome.Finds anything (decimalOf v) := by
  refine v.finds_asText.bind fun shown _ => ?_
  cases Decimal.read? shown with
  | some d => exact trivial
  | none => exact rfl

theorem finds_integerText (d : Decimal) : Outcome.Finds anything (integerText d) := by
  unfold integerText
  split
  · exact rfl
  · exact rfl
  · split
    · exact rfl
    · exact trivial

theorem finds_placesOf (v : Value) : Outcome.Finds anything (placesOf v) := by
  unfold placesOf
  dsimp only
  split
  · exact trivial
  · exact trivial
  · split
    · exact trivial
    · exact Coordinates.isLookup_boundless _
  · exact rfl
  · split
    · exact trivial
    · exact rfl
  · next s =>
      cases readInt? s.toList with
      | some n => exact trivial
      | none => exact rfl
  · exact rfl
  · next bytes =>
      cases readInt? (String.ofList (bytes.map Char.ofNat)).toList with
      | some n => exact trivial
      | none => exact rfl
  · exact rfl

theorem finds_decimalText (d : Decimal) (places : Int) :
    Outcome.Finds anything (decimalText d places) := by
  unfold decimalText
  split
  · exact rfl
  · split
    · split
      · exact rfl
      · split
        · exact rfl
        · split
          · exact rfl
          · exact trivial
    · exact trivial

theorem finds_momentOf (found : Except EpochFault DateTime) :
    Outcome.Finds anything (momentOf found) := by
  unfold momentOf
  split
  · exact trivial
  all_goals exact rfl

theorem finds_datetimeOf (v : Value) : Outcome.Finds anything (datetimeOf v) := by
  unfold datetimeOf
  split
  · exact trivial
  · exact trivial
  · exact finds_momentOf _
  · exact finds_momentOf _
  · exact finds_momentOf _
  · split
    · exact trivial
    · exact rfl
  · exact v.finds_asText.bind fun _ _ => rfl

theorem finds_momentText (t : DateTime) (pattern : Value) (usual : String) :
    Outcome.Finds anything (momentText t pattern usual) := by
  unfold momentText
  split
  · exact trivial
  · split
    · exact trivial
    · exact rfl

variable {f : Formatter} {s : Settings}

/-- A text shows a coordinate in groups for all directives of a format. -/
def ShowsDegrees (s : Settings) (v format : Value) (text : String) : Prop :=
  ∃ x numbers, Coordinates.degrees? v = .ok (some x) ∧
    Coordinates.components (.double x) = .ok numbers ∧
    Coordinates.Grouped (Coordinates.directivesOf format) numbers s.coordinateSymbols text

/-- A coordinate is shown in groups. -/
theorem finds_showAs_ofAxis (hf : f.Complete s) (axis : Axis) (v : Value)
    (arguments : List Value) :
    Outcome.Finds (ShowsDegrees s v (f.coordinateFormat arguments))
      (f.showAs (.ofAxis axis) v arguments.head?) := by
  cases axis with
  | latitude => exact Coordinates.finds_renderValid hf.coordinates .latitude v _
  | longitude => exact Coordinates.finds_renderValid hf.coordinates .longitude v _

/-- No format fails for a look-up. -/
theorem finds_showAs (hf : f.Complete s) (name : FormatName) (v : Value)
    (arguments : List Value) : Outcome.Finds anything (f.showAs name v arguments.head?) := by
  cases name with
  | raw | html => exact v.finds_asText
  | text | ntext | email | url => exact v.finds_asText.bind fun _ _ => trivial
  | boolean =>
      rw [showAs, hf.settings]
      exact finds_truthText hf.truth _
  | integer => exact (finds_decimalOf v).bind fun d _ => finds_integerText d
  | decimal =>
      refine (finds_decimalOf v).bind fun d _ => ?_
      exact (finds_placesOf _).bind fun places _ => finds_decimalText d places
  | date => exact (finds_datetimeOf v).bind fun t _ => finds_momentText t _ _
  | datetime => exact (finds_datetimeOf v).bind fun t _ => finds_momentText t _ _
  | latitude => exact (finds_showAs_ofAxis hf .latitude v arguments).mono fun _ _ => trivial
  | longitude => exact (finds_showAs_ofAxis hf .longitude v arguments).mono fun _ _ => trivial

/-- Formatting does not fail for a look-up, and coordinates are shown in groups. -/
theorem finds_format (hf : f.Complete s) (v format : Value) :
    Outcome.Finds (fun text => ∀ axis arguments, Format.Asks format (.ofAxis axis) arguments →
        v ≠ .null → ShowsDegrees s v (f.coordinateFormat arguments) text)
      (f.format v format) := by
  rw [Formatter.format]
  refine (Format.finds_split format).eq_ok.bind fun found hfound => ?_
  obtain ⟨name, arguments⟩ := found
  dsimp only
  cases hknown : FormatName.ofText? name with
  | none => exact rfl
  | some known =>
      dsimp only
      split
      · exact rfl
      · split
        · rename_i hnull
          exact fun _ _ _ hne => absurd ((Value.isNull_iff v).mp hnull) hne
        · refine (finds_showAs hf known v arguments).eq_ok.mono fun text hshown => ?_
          intro axis given hasks _
          obtain ⟨other, hsplit, hother⟩ := hasks
          obtain ⟨rfl, rfl⟩ := Prod.mk.inj (Except.ok.inj (hfound.1.symm.trans hsplit))
          obtain rfl := Option.some.inj (hknown.symm.trans hother)
          exact (finds_showAs_ofAxis hf axis v arguments).of_ok hshown.1

end Formatter

end SemanticMarkup
