import SemanticMarkup.Proofs.Format.Grammar

/-!
# The symmetry of coordinates

The groups of a coordinate are made of its size alone, one for each directive from the left.
The side of the zero line is told outside of them: by a minus sign in front, or by the name
of a hemisphere behind. So opposite coordinates have the same groups, and a format with more
directives continues the groups of a shorter one.
-/

namespace SemanticMarkup

open SemanticMarkup.Number SemanticMarkup.Text

namespace Coordinates

/-- The words of a format that are its directives. -/
def directiveWords (format : Value) : List (List Char) :=
  numericWords (wordsOf format.display.toList)

/-- Whether the last word of a format asks for the hemisphere. -/
def namesHemisphere (format : Value) : Bool :=
  (wordsOf format.display.toList).getLast? == some hemisphereWord

/-- A value stands for a number of degrees. -/
def HasDegrees (v : Value) (q : ℚ) : Prop :=
  ∃ x, StandsFor v x ∧ x.value? = some q

/-- The groups that a format shows of a size. -/
def sizeGroups (c : Coordinates) (units : Nat) (format : Value) : Outcome (List String) := do
  let plan ← Plan.read format.display
  let numbers ← components (.double (.finite false units))
  groups plan.directives numbers c.symbols

/-- A text with the mark of one side of the zero line. -/
def marked (names : Bool → Value) (negative : Bool) (format : Value) (body : String) : String :=
  if namesHemisphere format then body ++ " " ++ (names negative).display
  else (if negative then "-" else "") ++ body

variable {c : Coordinates} {axis : Axis} {format longer : Value}

/-- What is read of a format are its words. -/
theorem eq_of_read {p : Plan} (h : Plan.read format.display = .ok p) :
    p = ⟨directiveWords format, namesHemisphere format⟩ := by
  obtain ⟨hwords, -, -, hall⟩ := Plan.read_eq_ok_iff.mp h
  rw [directiveWords, namesHemisphere, hwords, numericWords_words hall, getLast?_words hall]

/-- A format with the first directives of another one is read if that is. -/
theorem read_of_prefix {p : Plan} (h : Plan.read longer.display = .ok p)
    (hstart : directiveWords format <+: directiveWords longer) (hne : directiveWords format ≠ []) :
    Plan.read format.display = .ok ⟨directiveWords format, namesHemisphere format⟩ := by
  obtain rfl := eq_of_read h
  obtain ⟨-, -, hfew, hall⟩ := Plan.read_eq_ok_iff.mp h
  refine Plan.read_eq_ok_iff.mpr ⟨(words_numericWords _).symm, hne, ?_, ?_⟩
  · exact hstart.length_le.trans hfew
  · exact fun d hd => hall d (hstart.subset hd)

/-- The names of the hemispheres on both sides of the zero line. -/
def Names (c : Coordinates) (axis : Axis) (names : Bool → Value) : Prop :=
  ∀ negative, Entries.named? c.hemispheres (hemisphereLetter axis negative) = some (names negative)

theorem Names.hemisphereName {names : Bool → Value} (hnames : c.Names axis names)
    (hc : c.Equipped) (negative : Bool) :
    c.hemisphereName axis negative = .ok (" " ++ (names negative).display) := by
  obtain ⟨name, hname, hshown⟩ := exists_hemisphereName hc.toNamed axis negative
  rw [hshown, Option.some.inj (hname.symm.trans (hnames negative))]

/-- A coordinate is shown by the groups of its size, with the mark of its side of the zero line. -/
theorem renderValid_eq_map (hc : c.Equipped) {names : Bool → Value} (hnames : c.Names axis names)
    (hstring : format.IsString) {v : Value} {negative : Bool} {units : Nat}
    (hv : StandsFor v (.finite negative units))
    (hx : inRange axis (.finite negative units) = true) :
    c.renderValid axis v format = (c.sizeGroups units format).map fun shown =>
      marked names (negative && units != 0) format (" ".intercalate shown) := by
  obtain ⟨_, _, hsame, hunits⟩ := exists_units_of_inRange hx
  obtain ⟨-, rfl⟩ := Double.finite.inj hsame
  obtain ⟨minutes, seconds, hcomponents⟩ := exists_components hunits
  rw [renderValid_eq_render (degrees?_eq_some_iff.mpr hv) hx, render_of_isString hstring,
    sizeGroups]
  cases hread : Plan.read format.display with
  | error e => rfl
  | ok plan =>
      obtain rfl := eq_of_read hread
      simp only [Outcome.ok_bind, Double.isNegative, hcomponents, marked]
      generalize groups (directiveWords format) _ c.symbols = made
      cases namesHemisphere format with
      | true =>
          simp only [if_true, hnames.hemisphereName hc, Outcome.ok_bind]
          cases made with
          | error e => rfl
          | ok shown => exact congrArg Except.ok (by simp [String.append_assoc])
      | false =>
          cases made with
          | error e => rfl
          | ok shown => exact congrArg Except.ok (by simp)

/-- There are as many groups as the shortest of the three lists has items. -/
theorem length_groups {directives : List (List Char)} {numbers : List Quantity}
    {symbols : List Value} {shown : List String}
    (h : groups directives numbers symbols = .ok shown) :
    shown.length = min directives.length (min numbers.length symbols.length) := by
  induction directives generalizing numbers symbols shown with
  | nil => rw [← Except.ok.inj h, List.length_nil, List.length_nil, Nat.zero_min]
  | cons directive directives ih =>
      cases numbers with
      | nil => rw [← Except.ok.inj h]; simp
      | cons q numbers =>
          cases symbols with
          | nil => rw [← Except.ok.inj h]; simp
          | cons symbol symbols =>
              obtain ⟨number, -, h⟩ := Outcome.bind_eq_ok_iff.mp h
              obtain ⟨group, -, h⟩ := Outcome.bind_eq_ok_iff.mp h
              obtain ⟨rest, hrest, h⟩ := Outcome.bind_eq_ok_iff.mp h
              simp only [← Except.ok.inj h, List.length_cons, ih hrest]
              omega

/-- The groups of the first directives are the first groups of all. -/
theorem groups_take {directives more : List (List Char)} {numbers : List Quantity}
    {symbols : List Value} {shown : List String}
    (h : groups (directives ++ more) numbers symbols = .ok shown) :
    groups directives numbers symbols = .ok (shown.take directives.length) := by
  induction directives generalizing numbers symbols shown with
  | nil => rfl
  | cons directive directives ih =>
      cases numbers with
      | nil => rw [← Except.ok.inj h]; rfl
      | cons q numbers =>
          cases symbols with
          | nil => rw [← Except.ok.inj h]; rfl
          | cons symbol symbols =>
              obtain ⟨number, hnumber, h⟩ := Outcome.bind_eq_ok_iff.mp h
              obtain ⟨group, hgroup, h⟩ := Outcome.bind_eq_ok_iff.mp h
              obtain ⟨rest, hrest, h⟩ := Outcome.bind_eq_ok_iff.mp h
              rw [groups, hnumber, Outcome.ok_bind, hgroup, Outcome.ok_bind, ih hrest,
                ← Except.ok.inj h]
              rfl

/-- The groups of a size are made by the directives of a format that was read. -/
theorem groups_of_sizeGroups {units : Nat} {numbers : List Quantity} {shown : List String}
    (h : c.sizeGroups units format = .ok shown)
    (hnumbers : components (.double (.finite false units)) = .ok numbers) :
    Plan.read format.display = .ok ⟨directiveWords format, namesHemisphere format⟩ ∧
      groups (directiveWords format) numbers c.symbols = .ok shown := by
  obtain ⟨plan, hread, h⟩ := Outcome.bind_eq_ok_iff.mp h
  obtain rfl := eq_of_read hread
  rw [hnumbers, Outcome.ok_bind] at h
  exact ⟨hread, h⟩

/-- There is a group for each directive of a format. -/
theorem length_sizeGroups (hc : c.Equipped) {units : Nat} (hunits : units ≤ 180 * Double.one)
    {shown : List String} (h : c.sizeGroups units format = .ok shown) :
    shown.length = (directiveWords format).length := by
  obtain ⟨minutes, seconds, hcomponents⟩ := exists_components hunits
  obtain ⟨hread, hgroups⟩ := groups_of_sizeGroups h (hcomponents false)
  obtain ⟨-, -, hfew, -⟩ := Plan.read_eq_ok_iff.mp hread
  have hlength := length_groups hgroups
  have hsymbols := hc.symbols
  simp only [List.length_cons, List.length_nil] at hfew hlength
  omega

/-- A format with more directives shows more groups. -/
theorem sizeGroups_take {units : Nat} (hunits : units ≤ 180 * Double.one) {shown : List String}
    (h : c.sizeGroups units longer = .ok shown)
    (hstart : directiveWords format <+: directiveWords longer) (hne : directiveWords format ≠ []) :
    c.sizeGroups units format = .ok (shown.take (directiveWords format).length) := by
  obtain ⟨minutes, seconds, hcomponents⟩ := exists_components hunits
  obtain ⟨hread, hgroups⟩ := groups_of_sizeGroups h (hcomponents false)
  rw [sizeGroups, read_of_prefix hread hstart hne, Outcome.ok_bind, hcomponents, Outcome.ok_bind]
  obtain ⟨more, hmore⟩ := hstart
  rw [← hmore] at hgroups
  exact groups_take hgroups

variable {v w : Value} {q : ℚ}

/-- The rational number of a double in units. -/
theorem value?_eq_some_iff {negative : Bool} {units : Nat} :
    (Double.finite negative units).value? = some q ↔
      (if negative then -(units : ℚ) else units) = q * Double.one := by
  have hone : (Double.one : ℚ) ≠ 0 := Nat.cast_ne_zero.mpr Double.one_pos.ne'
  rw [Double.value?, Option.some.injEq, div_eq_iff hone]

/-- A double is below zero if its rational number is. -/
theorem isNegative_of_value? {negative : Bool} {units : Nat}
    (h : (Double.finite negative units).value? = some q) :
    (negative && units != 0) = decide (q < 0) := by
  have hone : (0 : ℚ) < Double.one := Nat.cast_pos.mpr Double.one_pos
  have hunits : (0 : ℚ) ≤ units := Nat.cast_nonneg units
  have hvalue := value?_eq_some_iff.mp h
  cases negative with
  | false =>
      have hq : ¬ q < 0 := by
        intro hq
        have hlt := mul_neg_of_neg_of_pos hq hone
        rw [← hvalue] at hlt
        exact absurd hlt (not_lt.mpr hunits)
      simp [hq]
  | true =>
      have hsign : q < 0 ↔ units ≠ 0 := by
        rw [← mul_lt_mul_iff_left₀ hone, zero_mul, ← hvalue, if_pos rfl, neg_lt_zero, Nat.cast_pos,
          Nat.pos_iff_ne_zero]
      exact Bool.eq_iff_iff.mpr (by simp [hsign])

/-- The units of a double tell the size of its rational number. -/
theorem units_of_value? {negative : Bool} {units : Nat}
    (h : (Double.finite negative units).value? = some q) : (units : ℚ) = |q| * Double.one := by
  have hone : (Double.one : ℚ) ≠ 0 := Nat.cast_ne_zero.mpr Double.one_pos.ne'
  rw [← Option.some.inj h, abs_value, div_mul_cancel₀ _ hone]

/-- Opposite numbers of degrees are doubles with the same units. -/
theorem exists_opposite (hq : 0 < q) (hv : HasDegrees v q) (hw : HasDegrees w (-q)) :
    ∃ units, units ≠ 0 ∧ (Double.finite false units).value? = some q ∧
      StandsFor v (.finite false units) ∧ StandsFor w (.finite true units) := by
  obtain ⟨x, hx, hvalue⟩ := hv
  obtain ⟨y, hy, hother⟩ := hw
  cases x with
  | finite negative units =>
      cases y with
      | finite opposite others =>
          have hsame : (others : ℚ) = units := by
            rw [units_of_value? hother, units_of_value? hvalue, abs_neg]
          obtain rfl := Nat.cast_injective hsame
          have habove := isNegative_of_value? hvalue
          have hbelow := isNegative_of_value? hother
          rw [decide_eq_false (not_lt.mpr hq.le)] at habove
          rw [decide_eq_true (neg_lt_zero.mpr hq), Bool.and_eq_true, bne_iff_ne] at hbelow
          obtain ⟨rfl, hne⟩ := hbelow
          obtain rfl : negative = false := by simpa [hne] using habove
          exact ⟨others, hne, hvalue, hx, hy⟩
      | infinite | nan => cases hother
  | infinite | nan => cases hvalue

/-- Opposite coordinates differ in the mark of their side only, and a format shows the first groups
of every format that has more directives. -/
theorem renderValid_symmetric (hc : c.Equipped) {names : Bool → Value}
    (hnames : c.Names axis names) (hq : 0 < q) (hmax : q ≤ maxDegrees axis)
    (hv : HasDegrees v q) (hw : HasDegrees w (-q)) (hstring : format.IsString) :
    (namesHemisphere format = false →
      c.renderValid axis w format = (c.renderValid axis v format).map ("-" ++ ·)) ∧
    (namesHemisphere format = true → ∃ body : Outcome String,
      c.renderValid axis v format = body.map (· ++ " " ++ (names false).display) ∧
      c.renderValid axis w format = body.map (· ++ " " ++ (names true).display)) ∧
    ∀ u r longer text, HasDegrees u r → |r| ≤ maxDegrees axis → longer.IsString →
      directiveWords format ≠ [] → directiveWords format <+: directiveWords longer →
      c.renderValid axis u longer = .ok text →
      ∃ shown, shown.length = (directiveWords longer).length ∧
        text = marked names (decide (r < 0)) longer (" ".intercalate shown) ∧
        c.renderValid axis u format = .ok (marked names (decide (r < 0)) format
          (" ".intercalate (shown.take (directiveWords format).length))) := by
  obtain ⟨units, hne, hvalue, hv, hw⟩ := exists_opposite hq hv hw
  have hright : inRange axis (.finite false units) = true :=
    inRange_iff.mpr ⟨q, hvalue, by rwa [abs_of_pos hq]⟩
  have hleft : inRange axis (.finite true units) = true :=
    (inRange_finite axis true units).mpr ((inRange_finite axis false units).mp hright)
  have hsign : (units != 0) = true := bne_iff_ne.mpr hne
  -- both values are shown by the same groups, so only the marks have to be compared
  rw [renderValid_eq_map hc hnames hstring hv hright,
    renderValid_eq_map hc hnames hstring hw hleft]
  refine ⟨fun hnone => ?_, fun hsome => ?_, ?_⟩
  · cases c.sizeGroups units format with
    | error e => rfl
    | ok shown => exact congrArg Except.ok (by simp [marked, hnone, hsign])
  · refine ⟨(c.sizeGroups units format).map (String.intercalate " "), ?_⟩
    cases c.sizeGroups units format with
    | error e => exact ⟨rfl, rfl⟩
    | ok shown =>
        exact ⟨congrArg Except.ok (by simp [marked, hsome]),
          congrArg Except.ok (by simp [marked, hsome, hsign])⟩
  · rintro u r longer text ⟨x, hu, hr⟩ hmax hlonger hne hstart htext
    have hx : inRange axis x = true := inRange_iff.mpr ⟨r, hr, hmax⟩
    obtain ⟨negative, units, rfl, hunits⟩ := exists_units_of_inRange hx
    rw [renderValid_eq_map hc hnames hlonger hu hx] at htext
    cases hshown : c.sizeGroups units longer with
    | error e =>
        rw [hshown] at htext
        cases htext
    | ok shown =>
        rw [hshown] at htext
        rw [renderValid_eq_map hc hnames hstring hu hx,
          sizeGroups_take hunits hshown hstart hne, ← isNegative_of_value? hr]
        exact ⟨shown, length_sizeGroups hc hunits hshown, (Except.ok.inj htext).symm, rfl⟩

/-- A double with whole degrees. -/
theorem hasDegrees_whole (negative : Bool) (n : Nat) :
    HasDegrees (.float (.finite negative (n * Double.one))) (if negative then -(n : ℚ) else n) := by
  refine ⟨_, .float _, value?_eq_some_iff.mpr ?_⟩
  cases negative with
  | false => exact Nat.cast_mul n Double.one
  | true => rw [if_pos rfl, if_pos rfl, Nat.cast_mul, neg_mul]

theorem renderValid_symmetric_standard :
    (ofComplete .standard).renderValid .longitude (.float (.finite true (120 * Double.one)))
        (.text "%d") =
      ((ofComplete .standard).renderValid .longitude (.float (.finite false (120 * Double.one)))
        (.text "%d")).map ("-" ++ ·) ∧
    ∃ shown : List String, shown.length = 2 ∧
      (ofComplete .standard).renderValid .longitude (.float (.finite true (120 * Double.one)))
        (.text "%d") = .ok ("-" ++ " ".intercalate (shown.take 1)) := by
  obtain ⟨names, hnames⟩ : ∃ names, (ofComplete .standard).Names .longitude names :=
    ⟨fun negative => if negative then .text "W" else .text "E", fun negative => by
      cases negative <;> rfl⟩
  have hright := hasDegrees_whole false 120
  have hleft := hasDegrees_whole true 120
  rw [if_neg (by decide)] at hright
  rw [if_pos rfl] at hleft
  have hpos : (0 : ℚ) < (120 : Nat) := by norm_num
  have hmax : ((120 : Nat) : ℚ) ≤ maxDegrees .longitude := by
    exact_mod_cast (by decide : (120 : Int) ≤ maxDegrees .longitude)
  obtain ⟨hopposite, -, hlonger⟩ := renderValid_symmetric equipped_standard
    hnames hpos hmax hright hleft (.text "%d")
  obtain ⟨text, htext⟩ : ∃ text, (ofComplete .standard).renderValid .longitude
      (.float (.finite true (120 * Double.one))) (.text "%d %.2f h") = .ok text :=
    Outcome.exists_of_isOk (by decide +kernel)
  have hmaxLeft : |(-(120 : Nat) : ℚ)| ≤ maxDegrees .longitude := by
    rw [abs_neg, abs_of_pos hpos]
    exact hmax
  obtain ⟨shown, hlength, -, hshown⟩ := hlonger _ _ (.text "%d %.2f h") text hleft hmaxLeft
    (.text _) (by decide) (by decide) htext
  rw [decide_eq_true (neg_lt_zero.mpr hpos)] at hshown
  exact ⟨hopposite (by decide), shown, hlength.trans (by decide), hshown⟩

/-- The double next to a decimal may be zero although the decimal is not. -/
theorem renderValid_tiny :
    (ofComplete .standard).renderValid .latitude (.decimal (.finite false 1 (-400))) (.text "%d") =
        .ok "0°" ∧
      (ofComplete .standard).renderValid .latitude (.decimal (.finite true 1 (-400))) (.text "%d") =
        .ok "0°" ∧
      Possible .latitude (.decimal (.finite true 1 (-400))) ∧
      namesHemisphere (.text "%d") = false := by
  refine ⟨Outcome.eq_ok_of_toOption (by decide +kernel),
    Outcome.eq_ok_of_toOption (by decide +kernel), ?_, by decide⟩
  exact possible_iff.mpr ⟨_, degrees?_eq_some_iff.mpr (.decimal _ nofun), by decide +kernel⟩

end Coordinates

end SemanticMarkup
