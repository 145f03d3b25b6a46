import SemanticMarkup.Proofs.Format.Symmetry
import SemanticMarkup.Proofs.Number.Printed

/-!
# Minutes and seconds below sixty

The minutes and seconds of a coordinate are below sixty, also where doubles are rounded on
the way to them. Each is printed by its own directive, and nothing is carried to the next
higher group: so sixty is printed for a number that is rounded up to it.
-/

namespace SemanticMarkup

open SemanticMarkup.Number SemanticMarkup.Text

namespace Number

/-- A quotient with a power of ten is rounded when it becomes a double. -/
theorem Scientific.isRounded_toDouble (negative : Bool) (s : Scientific) :
    (s.toDouble negative).IsRounded := by
  have hpower (k : Nat) : 0 < Nat.pow 10 k := Nat.pow_pos (by decide)
  simp only [Scientific.toDouble, Double.ofRatio]
  split_ifs
  · exact Double.isRounded_zero negative
  · exact Double.isRounded_of_not_isFinite rfl
  · exact Double.isRounded_ofUnitRatio negative _ Nat.one_pos
  · exact Double.isRounded_ofUnitRatio negative _ (hpower _)

theorem isRounded_of_readDouble? {cs : List Char} {x : Double} (h : readDouble? cs = some x) :
    x.IsRounded := by
  simp only [readDouble?] at h
  split_ifs at h
  · obtain rfl := Option.some.inj h
    exact Double.isRounded_of_not_isFinite rfl
  · obtain rfl := Option.some.inj h
    exact Double.isRounded_of_not_isFinite rfl
  · obtain ⟨digits, -, h⟩ := Option.bind_eq_some_iff.mp h
    obtain ⟨s, -, rfl⟩ := Option.map_eq_some_iff.mp h
    exact s.isRounded_toDouble _

theorem Double.isRounded_ofInt (n : Int) : (Double.ofInt n).IsRounded := by
  rw [ofInt, ofRatio]
  exact isRounded_ofUnitRatio _ _ Nat.one_pos

theorem Decimal.isRounded_toDouble (d : Decimal) : d.toDouble.IsRounded := by
  cases d with
  | finite negative coefficient exponent => exact Scientific.isRounded_toDouble negative _
  | infinite | undefined => exact Double.isRounded_of_not_isFinite rfl

end Number

namespace Coordinates

variable {c : Coordinates} {axis : Axis} {format : Value}

/-- A value stands for a double that is rounded, if its own double is. -/
theorem StandsFor.isRounded {v : Value} {x : Double} (h : StandsFor v x)
    (hv : ∀ y, v = .float y → y.IsRounded) : x.IsRounded := by
  cases h with
  | int n => exact Double.isRounded_ofInt n
  | float => exact hv x rfl
  | decimal d => exact d.isRounded_toDouble
  | text s _ hread => exact isRounded_of_readDouble? hread

/-- Each group is a number that its directive writes, with its symbol behind. -/
theorem getElem?_groups {directives : List (List Char)} {numbers : List Quantity}
    {symbols : List Value} {shown : List String} {i : Nat} {group : String}
    (h : groups directives numbers symbols = .ok shown) (hgroup : shown[i]? = some group) :
    ∃ written q symbol number, directives[i]? = some written ∧ numbers[i]? = some q ∧
      symbols[i]? = some symbol ∧ applyDirective written q = .ok number ∧
      followedBy number symbol = .ok group := by
  induction directives generalizing numbers symbols shown i with
  | nil => rw [← Except.ok.inj h] at hgroup; cases hgroup
  | cons directive directives ih =>
      cases numbers with
      | nil => rw [← Except.ok.inj h] at hgroup; cases hgroup
      | cons q numbers =>
          cases symbols with
          | nil => rw [← Except.ok.inj h] at hgroup; cases hgroup
          | cons symbol symbols =>
              obtain ⟨number, hnumber, h⟩ := Outcome.bind_eq_ok_iff.mp h
              obtain ⟨first, hfirst, h⟩ := Outcome.bind_eq_ok_iff.mp h
              obtain ⟨rest, hrest, h⟩ := Outcome.bind_eq_ok_iff.mp h
              obtain rfl := Except.ok.inj h
              cases i with
              | zero =>
                  obtain rfl := Option.some.inj hgroup
                  exact ⟨directive, q, symbol, number, rfl, rfl, rfl, hnumber, hfirst⟩
              | succ i => exact ih hrest hgroup

/-- What stands behind a text is a text. -/
theorem eq_of_followedBy {s text : String} {v : Value} (h : followedBy s v = .ok text) :
    text = s ++ v.display := by
  cases v with
  | text | garbled => exact (Except.ok.inj h).symm
  | _ => cases h

theorem exists_of_hemisphereName {negative : Bool} {hemisphere : String}
    (h : c.hemisphereName axis negative = .ok hemisphere) :
    ∃ name, Entries.named? c.hemispheres (hemisphereLetter axis negative) = some name ∧
      hemisphere = " " ++ name.display := by
  rw [hemisphereName] at h
  split at h
  · cases h
  · rename_i name hname
    exact ⟨name, hname, eq_of_followedBy h⟩

/-- Whatever is shown of a value in range is made of the groups of its numbers, with the mark of its
side of the zero line. -/
theorem exists_groups_of_renderValid (hstring : format.IsString) {v : Value} {x : Double}
    (hv : StandsFor v x) (hx : inRange axis x = true) {text : String}
    (htext : c.renderValid axis v format = .ok text) :
    ∃ name numbers shown, (directiveWords format).length ≤ 3 ∧
      components (.double x) = .ok numbers ∧
      groups (directiveWords format) numbers c.symbols = .ok shown ∧
      (namesHemisphere format = true →
        Entries.named? c.hemispheres (hemisphereLetter axis x.isNegative) = some name) ∧
      text = marked (fun _ => name) x.isNegative format (" ".intercalate shown) := by
  rw [renderValid_eq_render (degrees?_eq_some_iff.mpr hv) hx, render_of_isString hstring] at htext
  obtain ⟨plan, hread, htext⟩ := Outcome.bind_eq_ok_iff.mp htext
  obtain rfl := eq_of_read hread
  obtain ⟨-, -, hfew, -⟩ := Plan.read_eq_ok_iff.mp hread
  cases hnames : namesHemisphere format with
  | true =>
      -- the sign is left out because the name of the hemisphere is never empty
      rw [hnames, if_pos rfl] at htext
      obtain ⟨hemisphere, hfound, htext⟩ := Outcome.bind_eq_ok_iff.mp htext
      obtain ⟨numbers, hnumbers, htext⟩ := Outcome.bind_eq_ok_iff.mp htext
      obtain ⟨shown, hshown, htext⟩ := Outcome.bind_eq_ok_iff.mp htext
      obtain ⟨name, hname, rfl⟩ := exists_of_hemisphereName hfound
      refine ⟨name, numbers, shown, hfew, hnumbers, hshown, fun _ => hname, ?_⟩
      rw [← Except.ok.inj htext, marked, hnames]
      simp [String.append_assoc]
  | false =>
      rw [hnames, if_neg (by simp), Outcome.pure_eq_ok, Outcome.ok_bind] at htext
      obtain ⟨numbers, hnumbers, htext⟩ := Outcome.bind_eq_ok_iff.mp htext
      obtain ⟨shown, hshown, htext⟩ := Outcome.bind_eq_ok_iff.mp htext
      refine ⟨.null, numbers, shown, hfew, hnumbers, hshown, (fun h => by cases h), ?_⟩
      rw [← Except.ok.inj htext, marked, hnames]
      simp

/-- What a directive writes of a double is made by the directive that it is read as. -/
theorem exists_of_applyDirective {written : List Char} {q : Quantity} {number : String}
    (h : applyDirective written q = .ok number) :
    ∃ d, Directive.read written = .ok d ∧ d.apply q = .ok number.toList := by
  rw [applyDirective] at h
  split at h
  · rename_i fault _
    cases fault <;> cases h
  · rename_i d hread
    split at h
    · cases h
    · split at h
      · rename_i fault _
        cases fault <;> cases h
      · rename_i cs hcs
        rw [← Except.ok.inj h, String.toList_ofList]
        exact ⟨d, hread, hcs⟩

/-- A group shows a number below sixty, as its directive prints it, with a symbol behind. Only
rounding may print it as sixty. -/
def ShowsBelowSixty (written : List Char) (symbol : Value) (value : ℚ) (group : String) : Prop :=
  ∃ d number q, Directive.read written = .ok d ∧ group = number ++ symbol.display ∧
    spelled? number.toList = some q ∧ d.Prints value q ∧ 0 ≤ q ∧ q ≤ 60 ∧
    (q = 60 ↔ (∃ capital, d.conversion = .fixed capital) ∧ 60 - 1 / (2 * 10 ^ d.places) ≤ value)

/-- A group of a plain directive shows the number below sixty that it was made of. -/
theorem showsBelowSixty {written : List Char} {symbol : Value} {number group : String} {units : Nat}
    (hplain : ∀ d, Directive.read written = .ok d → d.IsPlain)
    (hnumber : applyDirective written (.double (.finite false units)) = .ok number)
    (hgroup : followedBy number symbol = .ok group) (hunits : units < 60 * Double.one) :
    ShowsBelowSixty written symbol (units / Double.one) group := by
  obtain ⟨d, hread, happly⟩ := exists_of_applyDirective hnumber
  obtain ⟨q, hspelled, hprints⟩ := Directive.exists_spelled_of_apply (hplain d hread) happly
  have hone : (0 : ℚ) < Double.one := Nat.cast_pos.mpr Double.one_pos
  have hlt : (units : ℚ) / Double.one < (60 : Nat) := by
    rw [div_lt_iff₀ hone]
    exact_mod_cast hunits
  exact ⟨d, number, q, hread, eq_of_followedBy hgroup, hspelled, hprints,
    hprints.nonneg (div_nonneg (Nat.cast_nonneg _) hone.le), by exact_mod_cast hprints.le hlt,
    by exact_mod_cast hprints.eq_iff hlt (by decide)⟩

/-- Minutes and seconds are not negative and below sixty, and their groups show them as their
directives print them. Nothing is carried from one group to the next. -/
theorem renderValid_sexagesimal {v : Value} {x : Double} {r : ℚ} (hv : StandsFor v x)
    (hr : x.value? = some r) (hmax : |r| ≤ maxDegrees axis)
    (hrounded : ∀ y, v = .float y → y.IsRounded) (hstring : format.IsString)
    (hplain : ∀ written ∈ directiveWords format, ∀ d, Directive.read written = .ok d → d.IsPlain)
    {text : String} (htext : c.renderValid axis v format = .ok text) :
    ∃ minutes seconds name shown,
      components (.double x) = .ok [.double x.abs, .double minutes, .double seconds] ∧
      (namesHemisphere format = true →
        Entries.named? c.hemispheres (hemisphereLetter axis (decide (r < 0))) = some name) ∧
      text = marked (fun _ => name) (decide (r < 0)) format (" ".intercalate shown) ∧
      shown.length = min (directiveWords format).length c.symbols.length ∧
      ∀ i part, [minutes, seconds][i]? = some part →
        ∃ value, part.value? = some value ∧ 0 ≤ value ∧ value < 60 ∧
          ∀ group, shown[i + 1]? = some group →
            ∃ written symbol, (directiveWords format)[i + 1]? = some written ∧
              c.symbols[i + 1]? = some symbol ∧ ShowsBelowSixty written symbol value group := by
  have hx : inRange axis x = true := inRange_iff.mpr ⟨r, hr, hmax⟩
  obtain ⟨negative, units, rfl, hunits⟩ := exists_units_of_inRange hx
  have hdvd := hv.isRounded hrounded _ _ rfl
  have hcomponents := components_finite negative hdvd hunits
  obtain ⟨name, numbers, shown, hfew, hnumbers, hgroups, hname, hmarked⟩ :=
    exists_groups_of_renderValid hstring hv hx htext
  rw [Double.isNegative, isNegative_of_value? hr] at hname hmarked
  obtain rfl := Except.ok.inj (hcomponents.symm.trans hnumbers)
  have hlength : shown.length = min (directiveWords format).length c.symbols.length := by
    have hshortest := length_groups hgroups
    simp only [List.length_cons, List.length_nil] at hshortest
    omega
  refine ⟨_, _, name, shown, hcomponents, hname, hmarked, hlength, fun i part hpart => ?_⟩
  have hf := Double.isFraction_mod_one hdvd hunits
  have hminutes := Double.minuteUnits_lt hf
  have hseconds := Double.secondUnits_lt hf
  -- minutes and seconds stand behind the degrees in the list of numbers
  obtain ⟨n, rfl, hn, hnumber⟩ : ∃ n, part = .finite false n ∧ n < 60 * Double.one ∧
      [Quantity.double (.finite false units), .double (.finite false (Double.minuteUnits units)),
        .double (.finite false (Double.secondUnits units))][i + 1]? =
          some (.double (.finite false n)) := by
    obtain _ | _ | i := i
    · exact ⟨_, (Option.some.inj hpart).symm, hminutes, rfl⟩
    · exact ⟨_, (Option.some.inj hpart).symm, hseconds, rfl⟩
    · cases hpart
  have hone : (0 : ℚ) < Double.one := Nat.cast_pos.mpr Double.one_pos
  have hvalue : (n : ℚ) < 60 * Double.one := by exact_mod_cast hn
  refine ⟨n / Double.one, rfl, div_nonneg (Nat.cast_nonneg n) hone.le,
    (div_lt_iff₀ hone).mpr hvalue, fun group hgroup => ?_⟩
  obtain ⟨written, q, symbol, number, hwritten, hq, hsymbol, hmade, hbehind⟩ :=
    getElem?_groups hgroups hgroup
  obtain rfl := Option.some.inj (hnumber.symm.trans hq)
  exact ⟨written, symbol, hwritten, hsymbol,
    showsBelowSixty (hplain written (List.mem_of_getElem? hwritten)) hmade hbehind hn⟩

theorem renderValid_sexagesimal_standard :
    ∃ shown : List String,
      (ofComplete .standard).renderValid .latitude (.float (.finite false (45 * Double.one)))
        (.text "%d %.2f h") = .ok (" ".intercalate shown ++ " " ++ "N") ∧ shown.length = 2 ∧
      ∃ group value, shown[1]? = some group ∧
        ShowsBelowSixty "%.2f".toList (.text "′") value group := by
  have hdegrees : (Double.finite false (45 * Double.one)).value? = some ((45 : Nat) : ℚ) :=
    value?_eq_some_iff.mpr (Nat.cast_mul 45 Double.one)
  have hmax : |((45 : Nat) : ℚ)| ≤ maxDegrees .latitude := by
    rw [Nat.abs_cast]
    exact_mod_cast (by decide : (45 : Int) ≤ maxDegrees .latitude)
  have hrounded : (Double.finite false (45 * Double.one)).IsRounded := by
    intro negative units h
    obtain ⟨-, rfl⟩ := Double.finite.inj h
    rw [Double.one_eq]
    exact Double.spacing_dvd_mul_two_pow (by decide) _
  have hwords : directiveWords (.text "%d %.2f h") = ["%d".toList, "%.2f".toList] := by decide
  have hplain : ∀ written ∈ directiveWords (.text "%d %.2f h"), ∀ d,
      Directive.read written = .ok d → d.IsPlain := by
    rw [hwords]
    intro written hwritten d hread
    simp only [List.mem_cons, List.not_mem_nil, or_false] at hwritten
    obtain rfl | rfl := hwritten
    · exact .inl (by rw [← Except.ok.inj hread])
    · exact .inr ⟨false, by rw [← Except.ok.inj hread]⟩
  obtain ⟨text, htext⟩ : ∃ text, (ofComplete .standard).renderValid .latitude
      (.float (.finite false (45 * Double.one))) (.text "%d %.2f h") = .ok text :=
    Outcome.exists_of_isOk (by decide +kernel)
  obtain ⟨minutes, seconds, name, shown, -, hname, hall, hlength, hparts⟩ :=
    renderValid_sexagesimal (.float _) hdegrees hmax
      (fun y hy => by rw [← Value.float.inj hy]; exact hrounded) (.text _) hplain htext
  rw [decide_eq_false (not_lt.mpr (Nat.cast_nonneg 45))] at hname hall
  obtain rfl : .text "N" = name := Option.some.inj (hname (by decide))
  rw [hwords] at hlength hparts
  obtain ⟨value, -, -, -, hshows⟩ := hparts 0 minutes rfl
  obtain ⟨group, hgroup⟩ : ∃ group, shown[1]? = some group :=
    ⟨_, List.getElem?_eq_getElem (by rw [hlength]; decide)⟩
  obtain ⟨written, symbol, hwritten, hsymbol, hbelow⟩ := hshows group hgroup
  obtain rfl := Option.some.inj hwritten
  obtain rfl := Option.some.inj hsymbol
  exact ⟨shown, by rw [htext, hall]; rfl, hlength, group, value, hgroup, hbelow⟩

/-- The text below a degree is printed with sixty minutes. -/
theorem renderValid_sixty :
    (ofComplete .standard).renderValid .latitude (.text "0.99999999") (.text "%d %.2f") =
        .ok "0° 60.00′" ∧
      Possible .latitude (.text "0.99999999") ∧ spelled? "60.00".toList = some 60 := by
  refine ⟨Outcome.eq_ok_of_toOption (by decide +kernel), ?_, ?_⟩
  · exact possible_iff.mpr ⟨_, degrees?_eq_some_iff.mpr (.text _ _ rfl), by decide +kernel⟩
  · decide +kernel

end Coordinates

end SemanticMarkup
