import Mathlib.Data.List.Forall2
import SemanticMarkup.Format.Coordinates
import SemanticMarkup.Proofs.Steps
import SemanticMarkup.Value.Lookup

/-!
# The groups of a coordinate

A coordinate is shown in groups, one for each number directive of its format: the number
as the directive writes it, with the symbol that is next behind it. The groups are put
together from three lists, which end with the shortest one. So the text has a group for
each directive because there are three numbers and three symbols, and no format has more
directives than that. No look-up on the way fails if every hemisphere has a name.
-/

namespace SemanticMarkup

open SemanticMarkup.Number SemanticMarkup.Text

/-- Whether a failure is that of a look-up: a list is too short, or a mapping has no such key. -/
def Failure.isLookup : Failure → Bool
  | .fault .missingIndex => true
  | .fault .missingKey => true
  | _ => false

/-- No look-up of a computation fails, and whatever it gives is good. -/
abbrev Outcome.Finds {α : Type} (good : α → Prop) : Outcome α → Prop :=
  Gives (fun e => e.isLookup = false) good

namespace Coordinates

/-- Three texts as symbols, and a text for each hemisphere. -/
structure Complete (c : Coordinates) (symbols : List String) : Prop where
  three : symbols.length = 3
  symbols : c.symbols = symbols.map Value.text
  hemispheres : ∀ axis negative, ∃ name : String,
    Entries.named? c.hemispheres (hemisphereLetter axis negative) = some (.text name)

/-- The number directives among the words of a format. -/
def directivesOf (format : Value) : List (List Char) :=
  (wordsOf format.display.toList).filter Directive.wellFormed

/-- A group is a number as its directive writes it, with its symbol behind. -/
def IsGroup (part : List Char × Quantity × String) (group : String) : Prop :=
  ∃ number, applyDirective part.1 part.2.1 = .ok number ∧ group = number ++ part.2.2

/-- A text is made of a sign, a group for each of some directives with the next number and the next
symbol, and a hemisphere. -/
def Grouped (directives : List (List Char)) (numbers : List Quantity) (symbols : List String)
    (text : String) : Prop :=
  ∃ sign shown hemisphere, text = sign ++ " ".intercalate shown ++ hemisphere ∧
    shown.length = directives.length ∧
    List.Forall₂ IsGroup (directives.zip (numbers.zip symbols)) shown ∧
    (sign = "" ∨ sign = "-") ∧ (hemisphere = "" ∨ ∃ name, hemisphere = " " ++ name)

/-- If all words but a final hemisphere have the form of directives, they are those that do. -/
theorem filter_wellFormed (sections : List (List Char)) {directives : List (List Char)}
    (hdirectives : (if (sections.getLast? == some hemisphereWord) = true then sections.dropLast
      else sections) = directives) (hall : ∀ d ∈ directives, Directive.wellFormed d = true) :
    directives = sections.filter Directive.wellFormed := by
  split at hdirectives
  · rename_i hlast
    obtain ⟨front, rfl⟩ := List.getLast?_eq_some_iff.mp (beq_iff_eq.mp hlast)
    rw [List.dropLast_concat] at hdirectives
    subst hdirectives
    have hword : [hemisphereWord].filter Directive.wellFormed = [] := rfl
    rw [List.filter_append, List.filter_eq_self.mpr hall, hword, List.append_nil]
  · subst hdirectives
    exact (List.filter_eq_self.mpr hall).symm

/-- The directives of a format are the words that have the form of one, and there are no more than
three. -/
theorem finds_read (s : String) :
    Outcome.Finds (fun plan => plan.directives =
      (wordsOf s.toList).filter Directive.wellFormed ∧ plan.directives.length ≤ 3)
      (Plan.read s) := by
  unfold Plan.read
  dsimp only
  generalize hdirectives : (if ((wordsOf s.toList).getLast? == some hemisphereWord) = true then
    (wordsOf s.toList).dropLast else wordsOf s.toList) = directives
  split
  · exact rfl
  · rename_i hcount
    split
    · exact rfl
    · rename_i hnone
      have hall : ∀ d ∈ directives, Directive.wellFormed d = true := by
        simpa using List.find?_eq_none.mp hnone
      have hfew : directives ≠ [] ∧ directives.length ≤ 3 := by simpa using hcount
      exact ⟨filter_wellFormed _ hdirectives hall, hfew.2⟩

theorem finds_planOf (format : Value) :
    Outcome.Finds (fun plan => plan.directives = directivesOf format ∧ plan.directives.length ≤ 3)
      (planOf format) := by
  unfold planOf
  split
  · exact finds_read _
  · exact finds_read _
  · dsimp only
    split
    · exact rfl
    · exact rfl
  · exact rfl

theorem finds_isNegative (q : Quantity) : Outcome.Finds anything (isNegative q) := by
  unfold isNegative
  split
  · exact trivial
  · exact trivial
  · exact rfl
  · exact trivial

theorem isLookup_boundless (undefined : Bool) :
    (Failure.fault (boundless undefined)).isLookup = false := by
  cases undefined <;> rfl

/-- There are three numbers, if there are any. -/
theorem finds_components (q : Quantity) :
    Outcome.Finds (fun numbers => numbers.length = 3) (components q) := by
  cases q with
  | integer n => exact rfl
  | double x =>
      simp only [components]
      split
      · exact isLookup_boundless _
      · split
        · exact rfl
        · exact rfl
  | decimal d =>
      simp only [components]
      split
      · exact rfl
      · split
        · exact rfl
        · exact rfl

theorem finds_applyDirective (written : List Char) (q : Quantity) :
    Outcome.Finds anything (applyDirective written q) := by
  unfold applyDirective
  dsimp only
  split
  · next fault _ => cases fault <;> exact rfl
  · split
    · exact rfl
    · split
      · next fault _ => cases fault <;> exact rfl
      · exact trivial

/-- Each group is made of the next directive, number and symbol. -/
theorem finds_groups (directives : List (List Char)) (numbers : List Quantity)
    (symbols : List String) :
    Outcome.Finds (List.Forall₂ IsGroup (directives.zip (numbers.zip symbols)))
      (groups directives numbers (symbols.map Value.text)) := by
  -- the lists get shorter together, and the first one to end is the last of the groups
  induction directives generalizing numbers symbols with
  | nil => exact .nil
  | cons directive directives ih =>
      cases numbers with
      | nil => exact .nil
      | cons q numbers =>
          cases symbols with
          | nil => exact .nil
          | cons symbol symbols =>
              refine (finds_applyDirective directive q).eq_ok.bind fun number hnumber => ?_
              refine (ih numbers symbols).bind fun shown hshown => ?_
              exact .cons ⟨number, hnumber.1, rfl⟩ hshown

/-- A hemisphere is found by its letter. -/
theorem finds_hemisphereName {c : Coordinates} {symbols : List String} (hc : c.Complete symbols)
    (axis : Axis) (negative : Bool) :
    Outcome.Finds (fun hemisphere => ∃ name, hemisphere = " " ++ name)
      (hemisphereName c axis negative) := by
  obtain ⟨name, hname⟩ := hc.hemispheres axis negative
  rw [hemisphereName, hname]
  exact ⟨name, rfl⟩

/-- The groups of the directives of a format are put together with a sign and a hemisphere. -/
theorem finds_grouped {c : Coordinates} {symbols : List String} (hc : c.Complete symbols)
    {directives : List (List Char)} (hthree : directives.length ≤ 3) (q : Quantity)
    (negative : Bool) {hemisphere : String}
    (hname : hemisphere = "" ∨ ∃ name, hemisphere = " " ++ name) :
    Outcome.Finds (fun text => ∃ numbers, components q = .ok numbers ∧
        Grouped directives numbers symbols text)
      (do
        let numbers ← components q
        let shown ← groups directives numbers c.symbols
        let sign := if negative && hemisphere == "" then "-" else ""
        return sign ++ " ".intercalate shown ++ hemisphere) := by
  refine (finds_components q).eq_ok.bind fun numbers hnumbers => ?_
  rw [hc.symbols]
  refine (finds_groups directives numbers symbols).bind fun shown hshown => ?_
  have hcount : shown.length = directives.length := by
    rw [← hshown.length_eq, List.length_zip, List.length_zip, hnumbers.2, hc.three]
    exact Nat.min_eq_left hthree
  refine ⟨numbers, hnumbers.1, _, shown, hemisphere, rfl, hcount, hshown, ?_, hname⟩
  split
  · exact .inr rfl
  · exact .inl rfl

/-- A coordinate is shown in groups for all directives of the format. -/
theorem finds_render {c : Coordinates} {symbols : List String} (hc : c.Complete symbols)
    (axis : Axis) (value format : Value) :
    Outcome.Finds (fun text => ∃ q numbers, quantity? value = some q ∧ components q = .ok numbers ∧
        Grouped (directivesOf (if format.isNull then c.defaultFormat else format)) numbers symbols
          text)
      (c.render axis value format) := by
  rw [render]
  generalize (if format.isNull then c.defaultFormat else format) = used
  refine (finds_planOf used).bind fun plan ⟨hdirectives, hthree⟩ => ?_
  rw [← hdirectives]
  cases hq : quantity? value with
  | none => exact rfl
  | some q =>
      refine (finds_isNegative q).bind fun negative _ => ?_
      dsimp only
      split
      · refine (finds_hemisphereName hc axis negative).bind fun hemisphere hname => ?_
        exact (finds_grouped hc hthree q negative (.inr hname)).mono
          fun text ⟨numbers, h⟩ => ⟨q, numbers, rfl, h⟩
      · exact (finds_grouped hc hthree q negative (.inl rfl)).mono
          fun text ⟨numbers, h⟩ => ⟨q, numbers, rfl, h⟩

theorem finds_degrees? (value : Value) : Outcome.Finds anything (degrees? value) := by
  rw [degrees?.eq_def]
  -- where the cases are compared, the conversion would be computed unless it is a variable
  obtain ⟨toDouble, h⟩ : ∃ f, f = Double.ofInt := ⟨_, rfl⟩
  rw [← h]
  clear h
  cases value with
  | int n =>
      dsimp only
      cases toDouble n with
      | infinite negative => exact rfl
      | _ => exact trivial
  | decimal d =>
      cases d with
      | undefined negative signaling payload =>
          cases signaling with
          | true => exact rfl
          | false => exact trivial
      | _ => exact trivial
  | _ => exact trivial

theorem finds_refuse {good : String → Prop} (axis : Axis) (value : Value) :
    Outcome.Finds good (refuse axis value) := by
  rw [refuse]
  split <;> exact rfl

/-- A value that stands for a number of degrees is shown in groups. -/
theorem finds_renderValid {c : Coordinates} {symbols : List String} (hc : c.Complete symbols)
    (axis : Axis) (value format : Value) :
    Outcome.Finds (fun text => ∃ x numbers, degrees? value = .ok (some x) ∧
        components (.double x) = .ok numbers ∧
        Grouped (directivesOf (if format.isNull then c.defaultFormat else format)) numbers symbols
          text)
      (c.renderValid axis value format) := by
  rw [renderValid]
  refine (finds_degrees? value).eq_ok.bind fun number hnumber => ?_
  cases number with
  | none => exact finds_refuse axis value
  | some x =>
      by_cases hrange : inRange axis x = true
      · have hshown := finds_render hc axis (.float x) format
        dsimp only
        rw [if_pos hrange]
        refine hshown.mono fun text ⟨q, numbers, hq, hnumbers, hgrouped⟩ => ?_
        cases hq
        exact ⟨x, numbers, hnumber.1, hnumbers, hgrouped⟩
      · dsimp only
        rw [if_neg hrange]
        exact finds_refuse axis value

end Coordinates

end SemanticMarkup
