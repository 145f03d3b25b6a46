import SemanticMarkup.Proofs.Format.Sexagesimal
import Mathlib.Data.List.TakeWhile

/-!
# Signs of coordinates

The groups of a coordinate show numbers that are not negative, so its minus sign stands in front of
them once, or not at all where the hemisphere is named. A directive with the flag `+` writes a
sign of its own all the same.

## Implementation notes

A sign belongs to the digits that follow it, whatever blanks and zeros stand between them. So the
signs of a text are those in front of its first digit.
-/

namespace SemanticMarkup

open SemanticMarkup.Number SemanticMarkup.Text

namespace Number

/-- Whether a character is a sign. -/
def isSign (c : Char) : Bool :=
  c == '-' || c == '+'

/-- The signs in front of the first digit of a text. -/
def leadingSigns (cs : List Char) : List Char :=
  (cs.takeWhile fun c => !c.isDigit).filter isSign

/-- A text starts with a digit. -/
def StartsWithDigit (cs : List Char) : Prop :=
  ∃ c rest, cs = c :: rest ∧ c.isDigit = true

theorem IsNumeral.startsWithDigit {cs : List Char} {s : Scientific} (h : IsNumeral cs s) :
    StartsWithDigit cs :=
  h.exists_cons

namespace StartsWithDigit

variable {cs : List Char}

theorem append (h : StartsWithDigit cs) (more : List Char) : StartsWithDigit (cs ++ more) := by
  obtain ⟨c, rest, rfl, hc⟩ := h
  exact ⟨c, rest ++ more, rfl, hc⟩

theorem of_digits (hne : cs ≠ []) (hdigits : ∀ c ∈ cs, c.isDigit = true) : StartsWithDigit cs := by
  obtain ⟨c, rest, rfl⟩ := List.exists_cons_of_ne_nil hne
  exact ⟨c, rest, rfl, hdigits c List.mem_cons_self⟩

theorem zeros (h : StartsWithDigit cs) (count : Nat) :
    StartsWithDigit (List.replicate count '0' ++ cs) := by
  cases count with
  | zero => exact h
  | succ count => exact ⟨'0', _, rfl, rfl⟩

theorem leadingSigns (h : StartsWithDigit cs) : leadingSigns cs = [] := by
  obtain ⟨c, rest, rfl, hc⟩ := h
  rw [Number.leadingSigns, List.takeWhile_cons_of_neg (by simp [hc]), List.filter_nil]

end StartsWithDigit

/-- In front of the digits stand no other signs than those that are written there. -/
theorem leadingSigns_append {front : List Char} (hfront : ∀ c ∈ front, c.isDigit = false)
    (cs : List Char) : leadingSigns (front ++ cs) = front.filter isSign ++ leadingSigns cs := by
  rw [leadingSigns, List.takeWhile_append_of_pos (by simpa using hfront), List.filter_append,
    leadingSigns]

/-- What stands behind a digit is no sign of it. -/
theorem leadingSigns_append_of_digit {cs : List Char} (h : ∃ c ∈ cs, c.isDigit = true)
    (back : List Char) : leadingSigns (cs ++ back) = leadingSigns cs := by
  rw [leadingSigns, leadingSigns, List.takeWhile_append, if_neg]
  intro hlength
  obtain ⟨c, hc, hdigit⟩ := h
  have hall := List.takeWhile_eq_self_iff.mp ((List.takeWhile_prefix _).eq_of_length hlength)
  simpa [hdigit] using hall c hc

namespace Directive

/-- The digits of a scientific notation are not left out. -/
theorem startsWithDigit_leadingDigits (units count : Nat) :
    StartsWithDigit (leadingDigits units count).1 := by
  simp only [leadingDigits]
  split_ifs
  · exact ⟨'0', _, rfl, rfl⟩
  · exact .of_digits Nat.toDigits_ne_nil (isDigit_toDigits _)
  · exact .of_digits (by simp [Nat.toDigits_ne_nil]) fun c hc =>
      isDigit_toDigits _ c (List.mem_of_mem_take hc)

theorem startsWithDigit_pointed {digits : List Char} (h : StartsWithDigit digits)
    (alternative : Bool) : StartsWithDigit (pointed digits alternative) := by
  obtain ⟨c, rest, rfl, hc⟩ := h
  rw [pointed.eq_def]
  cases rest with
  | nil =>
      dsimp only
      split_ifs
      · exact ⟨c, _, rfl, hc⟩
      · exact ⟨c, _, rfl, hc⟩
  | cons next rest => exact ⟨c, _, rfl, hc⟩

theorem startsWithDigit_exponentDigits (units places : Nat) (capital alternative : Bool) :
    StartsWithDigit (exponentDigits units places capital alternative) :=
  (startsWithDigit_pointed (startsWithDigit_leadingDigits units places) alternative).append _

theorem startsWithDigit_fixedDigits (units places : Nat) (alternative : Bool) :
    StartsWithDigit (fixedDigits units places alternative) :=
  (isNumeral_fixedDigits units places alternative).startsWithDigit

/-- The digits in front of the point stay when zeros behind it are dropped. -/
theorem startsWithDigit_whole {cs : List Char} (h : StartsWithDigit cs) :
    StartsWithDigit (cs.takeWhile (· != '.')) := by
  obtain ⟨c, rest, rfl, hc⟩ := h
  have hpoint : (c != '.') = true := by
    rw [bne_iff_ne]
    rintro rfl
    cases hc
  exact ⟨c, _, List.takeWhile_cons_of_pos hpoint, hc⟩

theorem startsWithDigit_generalDigits (units significant : Nat) (capital alternative : Bool) :
    StartsWithDigit (generalDigits units significant capital alternative) := by
  have hleading := startsWithDigit_leadingDigits units (max significant 1 - 1)
  rw [generalDigits]
  generalize leadingDigits units (max significant 1 - 1) = leading at hleading ⊢
  dsimp only
  by_cases hfixed : -4 ≤ leading.2 ∧ leading.2 < (max significant 1 : Nat)
  · rw [if_pos hfixed]
    have htext := startsWithDigit_fixedDigits units
      (((max significant 1 : Nat) : Int) - 1 - leading.2).toNat alternative
    split_ifs
    · exact htext
    · exact startsWithDigit_whole htext
    · exact (startsWithDigit_whole htext).append _
  · rw [if_neg hfixed]
    obtain ⟨c, rest, hcons, hc⟩ := hleading
    refine (startsWithDigit_pointed ?_ alternative).append _
    rw [hcons]
    split_ifs
    · exact ⟨c, rest, rfl, hc⟩
    · exact ⟨c, _, rfl, hc⟩

theorem isSign_of_mem_flagSign {d : Directive} {c : Char} (h : c ∈ d.flagSign) :
    isSign c = true ∧ c.isDigit = false := by
  obtain hnone | hplus := d.flagSign_cases
  · rw [hnone] at h
    cases h
  · rw [hplus, List.mem_singleton] at h
    rw [h]
    decide

/-- What is printed of a number that is not negative has a digit, and no other sign in front of it
than the flag asks for. -/
theorem leadingSigns_layOut (d : Directive) {digits : List Char} (h : StartsWithDigit digits) :
    (∃ c ∈ layOut d { negative := false, mark := [], digits := digits }, c.isDigit = true) ∧
      leadingSigns (layOut d { negative := false, mark := [], digits := digits }) =
        d.flagSign := by
  obtain ⟨front, zeros, back, hlayOut⟩ := exists_layOut d digits
  have hrow := h.zeros zeros
  have hdigit : ∃ c ∈ List.replicate front ' ' ++ (d.flagSign ++ (List.replicate zeros '0' ++
      digits)), c.isDigit = true := by
    obtain ⟨c, rest, hcons, hc⟩ := hrow
    exact ⟨c, by simp [hcons], hc⟩
  have hblanks : ∀ c ∈ List.replicate front ' ', c.isDigit = false := fun c hc => by
    rw [List.eq_of_mem_replicate hc]
    rfl
  rw [hlayOut]
  constructor
  · obtain ⟨c, hc, hcdigit⟩ := hdigit
    exact ⟨c, List.mem_append_left _ hc, hcdigit⟩
  · rw [leadingSigns_append_of_digit hdigit, leadingSigns_append hblanks,
      leadingSigns_append fun c hc => (isSign_of_mem_flagSign hc).2, hrow.leadingSigns,
      List.filter_eq_self.mpr fun c hc => (isSign_of_mem_flagSign hc).1, List.append_nil,
      List.filter_replicate_of_neg (by decide), List.nil_append]

/-- A directive writes a double that is not negative by digits, octal and hexadecimal ones not at
all. -/
theorem exists_digits_of_apply {d : Directive} {units : Nat} {cs : List Char}
    (h : d.apply (.double (.finite false units)) = .ok cs) :
    ∃ digits, StartsWithDigit digits ∧
      cs = layOut d { negative := false, mark := [], digits := digits } := by
  have hdouble (hpieces : piecesOf d (.double (.finite false units)) =
      .ok (doublePieces d (.finite false units))) :
      ∃ digits, StartsWithDigit digits ∧
        cs = layOut d { negative := false, mark := [], digits := digits } := by
    rw [apply, hpieces] at h
    refine ⟨_, ?_, (Except.ok.inj h).symm⟩
    split
    · exact startsWithDigit_exponentDigits ..
    · exact startsWithDigit_generalDigits ..
    · exact startsWithDigit_fixedDigits ..
  cases hconversion : d.conversion with
  | integer =>
      rw [apply, piecesOf_integer hconversion] at h
      exact ⟨_, .zeros (.of_digits Nat.toDigits_ne_nil (isDigit_toDigits _)) _,
        (Except.ok.inj h).symm⟩
  | octal | hexadecimal =>
      simp only [apply, piecesOf, hconversion] at h
      cases h
  | exponent | fixed | general =>
      exact hdouble (by simp only [piecesOf, hconversion, toDouble?_double])

end Directive

end Number

namespace Coordinates

variable {c : Coordinates} {axis : Axis} {format : Value}

/-- A group shows a number, with a symbol behind, under no sign but the one that the flag of its
directive asks for. -/
def ShowsUnsigned (written : List Char) (symbol : Value) (group : String) : Prop :=
  ∃ d number, Directive.read written = .ok d ∧ group = number ++ symbol.display ∧
    (∃ c ∈ number.toList, c.isDigit = true) ∧ leadingSigns group.toList = d.flagSign ∧
    group.toList.head? ≠ some '-'

theorem showsUnsigned {written : List Char} {symbol : Value} {number group : String} {units : Nat}
    (hnumber : applyDirective written (.double (.finite false units)) = .ok number)
    (hgroup : followedBy number symbol = .ok group) : ShowsUnsigned written symbol group := by
  obtain ⟨d, hread, happly⟩ := exists_of_applyDirective hnumber
  obtain ⟨digits, hdigits, hlayOut⟩ := Directive.exists_digits_of_apply happly
  obtain ⟨hdigit, hsigns⟩ := Directive.leadingSigns_layOut d hdigits
  rw [← hlayOut] at hdigit hsigns
  have hall : leadingSigns group.toList = d.flagSign := by
    rw [eq_of_followedBy hgroup, String.toList_append, leadingSigns_append_of_digit hdigit, hsigns]
  refine ⟨d, number, hread, eq_of_followedBy hgroup, hdigit, hall, fun hminus => ?_⟩
  obtain ⟨rest, hrest⟩ := List.head?_eq_some_iff.mp hminus
  have hmem : '-' ∈ leadingSigns group.toList := by
    rw [hrest]
    exact List.mem_cons_self
  obtain hnone | hplus := d.flagSign_cases
  · rw [hall, hnone] at hmem
    cases hmem
  · rw [hall, hplus] at hmem
    exact absurd hmem (by decide)

theorem ShowsUnsigned.exists_digit {written : List Char} {symbol : Value} {group : String}
    (h : ShowsUnsigned written symbol group) : ∃ c ∈ group.toList, c.isDigit = true := by
  obtain ⟨-, number, -, rfl, ⟨c, hc, hdigit⟩, -, -⟩ := h
  refine ⟨c, ?_, hdigit⟩
  rw [String.toList_append]
  exact List.mem_append_left _ hc

/-- The signs of a coordinate are its own and those of its first group. -/
theorem leadingSigns_marked (name : Value) (negative : Bool) {first : String}
    (hdigit : ∃ c ∈ first.toList, c.isDigit = true) {shown : List String}
    (hfirst : shown[0]? = some first) :
    leadingSigns (marked (fun _ => name) negative format (" ".intercalate shown)).toList =
      (if negative = true ∧ namesHemisphere format = false then ['-'] else []) ++
        leadingSigns first.toList := by
  obtain ⟨back, hback⟩ : ∃ back, " ".intercalate shown = first ++ back := by
    cases shown with
    | nil => cases hfirst
    | cons group rest =>
        obtain rfl := Option.some.inj hfirst
        cases rest with
        | nil => exact ⟨"", by rw [String.intercalate_singleton, String.append_empty]⟩
        | cons next rest => exact ⟨_, String.intercalate_cons_cons.trans
            (String.append_assoc ..)⟩
  have hbody (back : List Char) :
      leadingSigns (first.toList ++ back) = leadingSigns first.toList :=
    leadingSigns_append_of_digit hdigit back
  have hminus : ∀ c ∈ "-".toList, c.isDigit = false := List.forall_mem_singleton.mpr rfl
  rw [marked, hback]
  cases namesHemisphere format with
  | true =>
      rw [if_pos rfl, if_neg (by simp), List.nil_append]
      simp only [String.toList_append, List.append_assoc]
      exact hbody _
  | false =>
      rw [if_neg (by simp), String.toList_append, String.toList_append]
      cases negative with
      | true =>
          rw [if_pos rfl, if_pos (by simp), leadingSigns_append hminus, hbody]
          rfl
      | false =>
          rw [if_neg (by simp), if_neg (by simp)]
          exact hbody _

/-- The groups of a coordinate show numbers without a minus sign. The sign of the coordinate stands
in front of them, if the hemisphere is not named. -/
theorem renderValid_signs {v : Value} {x : Double} {r : ℚ} (hv : StandsFor v x)
    (hr : x.value? = some r) (hmax : |r| ≤ maxDegrees axis)
    (hrounded : ∀ y, v = .float y → y.IsRounded) (hstring : format.IsString) {text : String}
    (htext : c.renderValid axis v format = .ok text) :
    ∃ (name : Value) (shown : List String),
      text = marked (fun _ => name) (decide (r < 0)) format (" ".intercalate shown) ∧
      shown.length = min (directiveWords format).length c.symbols.length ∧
      (∀ (i : Nat) (group : String), shown[i]? = some group →
        ∃ written symbol, (directiveWords format)[i]? = some written ∧
          c.symbols[i]? = some symbol ∧ ShowsUnsigned written symbol group) ∧
      ∀ first : String, shown[0]? = some first → leadingSigns text.toList =
        (if r < 0 ∧ namesHemisphere format = false then ['-'] else []) ++
          leadingSigns first.toList := by
  have hx : inRange axis x = true := inRange_iff.mpr ⟨r, hr, hmax⟩
  obtain ⟨negative, units, rfl, hunits⟩ := exists_units_of_inRange hx
  obtain ⟨name, numbers, shown, hfew, hnumbers, hgroups, -, hmarked⟩ :=
    exists_groups_of_renderValid hstring hv hx htext
  have hcomponents := components_finite negative (hv.isRounded hrounded _ _ rfl) hunits
  obtain rfl := Except.ok.inj (hcomponents.symm.trans hnumbers)
  rw [Double.isNegative, isNegative_of_value? hr] at hmarked
  have hlength : shown.length = min (directiveWords format).length c.symbols.length := by
    have hshortest := length_groups hgroups
    simp only [List.length_cons, List.length_nil] at hshortest
    omega
  have hshows : ∀ (i : Nat) (group : String), shown[i]? = some group →
      ∃ written symbol, (directiveWords format)[i]? = some written ∧
        c.symbols[i]? = some symbol ∧ ShowsUnsigned written symbol group := by
    intro i group hgroup
    obtain ⟨written, q, symbol, number, hwritten, hq, hsymbol, hmade, hbehind⟩ :=
      getElem?_groups hgroups hgroup
    -- none of the numbers is negative
    obtain ⟨n, rfl⟩ : ∃ n, q = .double (.finite false n) := by
      have hmem := List.mem_of_getElem? hq
      simp only [List.mem_cons, List.not_mem_nil, or_false] at hmem
      obtain rfl | rfl | rfl := hmem
      all_goals exact ⟨_, rfl⟩
    exact ⟨written, symbol, hwritten, hsymbol, showsUnsigned hmade hbehind⟩
  refine ⟨name, shown, hmarked, hlength, hshows, fun first hfirst => ?_⟩
  obtain ⟨_, _, -, -, hunsigned⟩ := hshows 0 first hfirst
  rw [hmarked, leadingSigns_marked name _ hunsigned.exists_digit hfirst]
  simp only [decide_eq_true_eq]

theorem renderValid_signs_standard :
    ∃ (text : String) (shown : List String),
      (ofComplete .standard).renderValid .latitude (.float (.finite true (45 * Double.one)))
        (.text "%d %.2f") = .ok text ∧
      text = "-" ++ " ".intercalate shown ∧ shown.length = 2 ∧
      leadingSigns text.toList = ['-'] ∧
      ∃ seconds, shown[1]? = some seconds ∧ ShowsUnsigned "%.2f".toList (.text "′") seconds := by
  obtain ⟨x, hx, hdegrees⟩ := hasDegrees_whole true 45
  cases hx
  have hnegative : (-((45 : Nat) : ℚ)) < 0 := by norm_num
  rw [if_pos rfl] at hdegrees
  have hmax : |-((45 : Nat) : ℚ)| ≤ maxDegrees .latitude := by
    rw [abs_neg, Nat.abs_cast]
    exact_mod_cast (by decide : (45 : Int) ≤ maxDegrees .latitude)
  have hrounded : (Double.finite true (45 * Double.one)).IsRounded := by
    intro negative units h
    obtain ⟨-, rfl⟩ := Double.finite.inj h
    rw [Double.one_eq]
    exact Double.spacing_dvd_mul_two_pow (by decide) _
  have hwords : directiveWords (.text "%d %.2f") = ["%d".toList, "%.2f".toList] := by decide
  have hnames : namesHemisphere (.text "%d %.2f") = false := by decide
  obtain ⟨text, htext⟩ : ∃ text, (ofComplete .standard).renderValid .latitude
      (.float (.finite true (45 * Double.one))) (.text "%d %.2f") = .ok text :=
    Outcome.exists_of_isOk (by decide +kernel)
  obtain ⟨name, shown, hall, hlength, hgroups, hsigns⟩ := renderValid_signs (.float _) hdegrees hmax
    (fun y hy => by rw [← Value.float.inj hy]; exact hrounded) (.text _) htext
  rw [hwords] at hlength hgroups
  have htwo : shown.length = 2 := hlength
  obtain ⟨first, seconds, rfl⟩ := List.length_eq_two.mp htwo
  obtain ⟨_, _, hwritten, -, d, -, hread, -, -, hfirst, -⟩ := hgroups 0 first rfl
  obtain rfl := Option.some.inj hwritten
  obtain ⟨_, _, hwritten, hsymbol, hseconds⟩ := hgroups 1 seconds rfl
  obtain rfl := Option.some.inj hwritten
  obtain rfl := Option.some.inj hsymbol
  refine ⟨text, _, htext, ?_, htwo, ?_, seconds, rfl, hseconds⟩
  · rw [hall, marked, hnames, decide_eq_true hnegative]
    rfl
  · rw [hsigns first rfl, if_pos ⟨hnegative, hnames⟩, hfirst, ← Except.ok.inj hread]
    rfl

/-- The flag `+` writes a second sign behind that of the coordinate, and a sign where the hemisphere
is named. -/
theorem renderValid_doubleSign :
    (ofComplete .standard).renderValid .latitude (.float (.finite true (45 * Double.one)))
        (.text "%+d") = .ok "-+45°" ∧ leadingSigns "-+45°".toList = ['-', '+'] ∧
      (ofComplete .standard).renderValid .latitude (.float (.finite false (45 * Double.one)))
        (.text "%+d h") = .ok "+45° N" ∧ leadingSigns "+45° N".toList = ['+'] :=
  ⟨Outcome.eq_ok_of_toOption (by decide +kernel), by decide,
    Outcome.eq_ok_of_toOption (by decide +kernel), by decide⟩

end Coordinates

end SemanticMarkup
