import SemanticMarkup.Proofs.Record.Reads
import SemanticMarkup.Settings.Loading

/-!
# Settings that are loaded

Whatever arguments and variables they are loaded from, settings obey the rules of
their fields: there are three symbols, a name for each hemisphere, two texts for
the truth values and a start of the root types that is not empty. All other
fields may hold any text, an empty one as well.
-/

namespace SemanticMarkup

/-- Reading a list keeps the number of its items. -/
theorem Reading.length_of_all {α : Type} {readings : List (Reading α)} {as : List α}
    (h : Reading.all readings = .ok as) : as.length = readings.length := by
  rw [Reading.all_eq_ok_iff.mp h, List.length_map]

namespace Settings

/-- The rules of the fields are obeyed. -/
structure Valid (s : Settings) : Prop where
  rootPrefix : s.rootPrefix ≠ ""
  coordinateSymbols : s.coordinateSymbols.length = 3
  hemispheres : ∀ k ∈ hemisphereKeys, (s.hemispheres.lookup k).isSome = true
  booleanFormat : s.booleanFormat.length = 2

variable {α β : Type} {given : String → Option Value} {name : String} {path : List String}

/-- A setting has its usual value, or one that was read. -/
theorem of_setting {standard a : α} {read : List String → Value → Reading α}
    (h : setting given name standard read = .ok a) :
    a = standard ∨ ∃ v, read [name] v = .ok a := by
  rw [setting] at h
  split at h
  · exact .inl (Except.ok.inj h).symm
  · exact .inr ⟨_, h⟩

/-- A value that is read and checked has the meaning that the rule gives it. -/
theorem of_checked {read : List String → Value → Reading α} {rule : α → Option β} {v : Value}
    {b : β} (h : checked read rule path v = .ok b) :
    ∃ a, read path v = .ok a ∧ rule a = some b := by
  rw [checked] at h
  split at h
  · cases h
  · rename_i a ha
    split at h
    · rename_i found hfound
      exact ⟨a, ha, by rw [hfound, Except.ok.inj h]⟩
    · cases h

theorem of_keepIf {condition : α → Bool} {a b : α} (h : keepIf condition a = some b) :
    condition b = true := by
  rw [keepIf] at h
  split at h
  · rename_i ha
    rw [← Option.some.inj h]
    exact ha
  · cases h

/-- A setting that is kept under a condition meets it, if its usual value does. -/
theorem condition_of_setting {standard a : α} {read : List String → Value → Reading α}
    {condition : α → Bool} (hstandard : condition standard = true)
    (h : setting given name standard (checked read (keepIf condition)) = .ok a) :
    condition a = true := by
  obtain rfl | ⟨v, hv⟩ := of_setting h
  · exact hstandard
  · obtain ⟨b, -, hb⟩ := of_checked hv
    exact of_keepIf hb

/-- As many texts are read as a value has items. -/
theorem length_of_texts {v : Value} {ss : List String} {n : Nat} (h : texts path v = .ok ss)
    (hcount : count? v = some n) : ss.length = n := by
  cases v with
  | list items | tuple items | set items =>
      cases hcount
      have hlength := Reading.length_of_all h
      rwa [List.length_mapIdx] at hlength
  | dict entries => cases h
  | bytes bs => cases h
  | _ => cases hcount

/-- Three symbols are read, or none. -/
theorem length_of_readSymbols {v : Value} {ss : List String}
    (h : readSymbols path v = .ok (.ok ss)) : ss.length = 3 := by
  rw [readSymbols] at h
  split at h
  · cases h
  · split at h
    · cases h
    · rename_i n hn
      rw [Except.ok.injEq] at h
      split at h
      · rename_i hthree
        rw [← hthree]
        exact length_of_texts h hn
      · cases h

theorem length_of_symbolsOf {ss : List String} (h : symbolsOf given = .ok (.ok ss)) :
    ss.length = 3 := by
  rw [symbolsOf] at h
  split at h
  · cases h
    rfl
  · exact length_of_readSymbols h

/-- Settings that are loaded obey the rules of their fields. -/
theorem valid_of_load {environment : Variables} {arguments : Fields} {s : Settings}
    (h : load environment arguments = .ok s) : s.Valid := by
  simp only [load, Outcome.bind_eq_ok_iff, Reading.outcome_eq_ok_iff, assemble] at h
  obtain ⟨ambient, -, symbols, hsymbols, h⟩ := h
  split at h
  · cases h
  · simp only [Outcome.bind_eq_ok_iff] at h
    obtain ⟨_, -, start, hstart, _, -, _, -, _, -, _, -, _, -, three, hthree, names, hnames, _, -,
      _, -, two, htwo, _, -, _, -, h⟩ := h
    cases h
    have hprefix := condition_of_setting (by decide) hstart
    have hkeys := condition_of_setting (by decide) hnames
    have hpair := condition_of_setting rfl htwo
    exact {
      rootPrefix := by simpa using hprefix
      coordinateSymbols := length_of_symbolsOf (hsymbols.trans (congrArg Except.ok hthree))
      hemispheres := List.all_eq_true.mp hkeys
      booleanFormat := by simpa using hpair }

end Settings

end SemanticMarkup
