import SemanticMarkup.Proofs.Format.Grammar

/-!
# The validation of coordinates

Under a format of the grammar a latitude or longitude is shown for every value that stands
for a possible number of degrees. All other values are refused, but for three kinds: an
integer beyond the doubles, a signaling decimal, and a collection with an integer that is
too long to be written in the refusal.
-/

namespace SemanticMarkup

open SemanticMarkup.Number SemanticMarkup.Text

namespace Coordinates

variable {axis : Axis} {v : Value}

/-- The values that end the validation in another fault than the refusal. -/
inductive Escapes : Value → Fault → Prop
  | tooLarge (n : Int) (h : (Double.ofInt n).isFinite = false) : Escapes (.int n) .overflow
  | signaling (negative : Bool) (payload : Nat) :
      Escapes (.decimal (.undefined negative true payload)) .wrongValue
  | unwritable (v : Value) (hint : ∀ n, v ≠ .int n) (h : v.isWritable = false) :
      Escapes v .wrongValue

theorem two_pow_le_ten_pow {k m : Nat} (h : k ≤ m) : 2 ^ k ≤ 10 ^ m :=
  (Nat.pow_le_pow_left (by decide) k).trans (Nat.pow_le_pow_right (by decide) h)

/-- An integer with a finite double next to it can be written. -/
theorem isWritable_int {n : Int} (h : (Double.ofInt n).isFinite = true) :
    (Value.int n).isWritable = true := by
  have hsmall : n.natAbs < 10 ^ digitLimit :=
    (Double.natAbs_lt_of_isFinite h).trans_le (two_pow_le_ten_pow (by decide))
  rw [Value.isWritable, decide_eq_true_eq]
  exact (Nat.length_toDigits_le_iff (by decide) (by decide)).mpr hsmall

/-- The conversion to a double fails for the integers beyond them and for signaling decimals. -/
theorem gives_degrees? (v : Value) :
    Gives (fun e => ∃ fault, e = .fault fault ∧ Escapes v fault) anything (degrees? v) := by
  cases v with
  | int n =>
      rw [degrees?_int]
      cases hfinite : (Double.ofInt n).isFinite with
      | true => exact trivial
      | false => exact ⟨_, rfl, .tooLarge n hfinite⟩
  | decimal d =>
      cases d with
      | undefined negative signaling payload =>
          cases signaling with
          | true => exact ⟨_, rfl, .signaling negative payload⟩
          | false => exact trivial
      | _ => exact trivial
  | _ => exact trivial

/-- A value that is not written is a collection. -/
theorem degrees?_of_not_isWritable (hint : ∀ n, v ≠ .int n) (h : v.isWritable = false) :
    degrees? v = .ok none := by
  cases v with
  | int n => exact absurd rfl (hint n)
  | float | decimal | text => cases h
  | _ => rfl

theorem degrees?_of_escapes {fault : Fault} (h : Escapes v fault) :
    degrees? v = Outcome.fault fault ∨
      degrees? v = .ok none ∧ v.isWritable = false ∧ fault = .wrongValue := by
  cases h with
  | tooLarge n hlarge => exact .inl (by rw [degrees?_int, hlarge]; rfl)
  | signaling negative payload => exact .inl rfl
  | unwritable _ hint hlong => exact .inr ⟨degrees?_of_not_isWritable hint hlong, hlong, rfl⟩

theorem renderValid_of_escapes {fault : Fault} (h : Escapes v fault) (c : Coordinates)
    (axis : Axis) (format : Value) : c.renderValid axis v format = Outcome.fault fault := by
  obtain hv | ⟨hv, hlong, rfl⟩ := degrees?_of_escapes h
  · rw [renderValid, hv]
    rfl
  · rw [renderValid, hv]
    exact if_neg (by simp [hlong])

/-- A value that does not escape is written in its refusal. -/
theorem isWritable_of_not_escapes (h : ∀ fault, ¬ Escapes v fault) : v.isWritable = true := by
  by_cases hint : ∃ n, v = .int n
  · obtain ⟨n, rfl⟩ := hint
    refine isWritable_int ?_
    by_contra hlarge
    exact h _ (.tooLarge n (Bool.eq_false_iff.mpr hlarge))
  · by_contra hlong
    exact h _ (.unwritable v (not_exists.mp hint) (Bool.eq_false_iff.mpr hlong))

theorem renderValid_of_not_possible (hv : ¬ Possible axis v) (h : ∀ fault, ¬ Escapes v fault)
    (c : Coordinates) (format : Value) :
    c.renderValid axis v format = .error (.coordinate axis v.display) := by
  have hrefuse : refuse axis v = .error (.coordinate axis v.display) :=
    if_pos (isWritable_of_not_escapes h)
  have hdegrees := gives_degrees? v
  rw [renderValid]
  cases hnumber : degrees? v with
  | error e =>
      rw [hnumber] at hdegrees
      obtain ⟨fault, -, hfault⟩ := hdegrees
      exact absurd hfault (h fault)
  | ok number =>
      cases number with
      | none => exact hrefuse
      | some x =>
          have hrange : ¬ inRange axis x = true :=
            fun hrange => hv (possible_iff.mpr ⟨x, hnumber, hrange⟩)
          exact (if_neg hrange).trans hrefuse

/-- Under a format of the grammar the possible values are shown, and all other values are refused
but those that escape. -/
theorem renderValid_total {c : Coordinates} {format : Value} (hc : c.Named)
    (hstring : format.IsString) (hmoderate : Moderate format) (hformat : Grammatical format) :
    ∀ axis v,
      (Possible axis v → ∃ text, c.renderValid axis v format = .ok text) ∧
      (¬ Possible axis v → (∀ fault, ¬ Escapes v fault) →
        c.renderValid axis v format = .error (.coordinate axis v.display)) ∧
      ∀ fault, Escapes v fault → c.renderValid axis v format = Outcome.fault fault := by
  intro axis v
  refine ⟨fun hv => ?_, fun hv h => renderValid_of_not_possible hv h c format,
    fun fault h => renderValid_of_escapes h c axis format⟩
  obtain ⟨x, hx, hrange⟩ := possible_iff.mp hv
  rw [renderValid_eq_render hx hrange]
  exact Outcome.exists_of_accepts (accepts_render hc hstring hmoderate axis hrange)
    (shows_of_grammatical hformat)

theorem renderValid_total_standard :
    (∃ text, (ofComplete .standard).renderValid .longitude (.int 120) (.text "%02d %.3f h") =
        .ok text) ∧
      (ofComplete .standard).renderValid .longitude (.bool true) (.text "%02d %.3f h") =
        .error (.coordinate .longitude "True") ∧
      (ofComplete .standard).renderValid .longitude (.int (10 ^ 400)) (.text "%02d %.3f h") =
        Outcome.fault .overflow := by
  have hmoderate : Moderate (.text "%02d %.3f h") := moderate_of_length (by decide +kernel)
  have hgrammatical : Grammatical (.text "%02d %.3f h") :=
    (grammatical_iff_reads hmoderate).mpr (by decide +kernel)
  have htotal := renderValid_total equipped_standard.toNamed (.text _) hmoderate hgrammatical
  refine ⟨(htotal _ _).1 possible_degrees, (htotal _ _).2.1 ?_ ?_,
    (htotal _ _).2.2 _ (.tooLarge _ (by decide +kernel))⟩
  · rintro ⟨x, q, h, -⟩
    cases h
  · intro fault h
    cases h with
    | unwritable _ _ hlong => cases hlong

/-- A signaling decimal is no possible latitude, and it is not refused. -/
theorem renderValid_signaling :
    (ofComplete .standard).renderValid .latitude (.decimal (.undefined false true 0)) (.text "%d") =
        Outcome.fault .wrongValue ∧
      ¬ Possible .latitude (.decimal (.undefined false true 0)) ∧
      Moderate (.text "%d") ∧ Grammatical (.text "%d") := by
  have hmoderate : Moderate (.text "%d") := moderate_of_length (by decide +kernel)
  refine ⟨rfl, ?_, hmoderate, (grammatical_iff_reads hmoderate).mpr (by decide +kernel)⟩
  rintro ⟨x, q, h, -⟩
  cases h with
  | decimal _ hquiet => exact hquiet false 0 rfl

end Coordinates

end SemanticMarkup
