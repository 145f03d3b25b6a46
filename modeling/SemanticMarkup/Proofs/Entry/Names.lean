import SemanticMarkup.Entry.Rules
import SemanticMarkup.Proofs.Text.Pieces
import SemanticMarkup.Value.Lookup

/-!
# Names and rules

What a hyphenated name consists of, and what the rules of plain entries tell
about the fields of a faultless one.
-/

namespace SemanticMarkup

open SemanticMarkup.Text

theorem isBlank_of_isSmallLetter {c : Char} (h : isSmallLetter c = true) : isBlank c = false := by
  simp only [isSmallLetter, Bool.and_eq_true, decide_eq_true_eq] at h
  have hlow : 97 ≤ c.toNat := h.1
  have hhigh : c.toNat ≤ 122 := h.2
  exact isBlank_of_visible (by omega) (by omega)

/-- A hyphenated name consists of small letters and hyphens. -/
theorem mem_of_isHyphenated {cs : List Char} (h : isHyphenated cs = true) {c : Char} (hc : c ∈ cs) :
    c = '-' ∨ isSmallLetter c = true := by
  simp only [isHyphenated, Bool.and_eq_true, List.all_eq_true] at h
  have hjoin : ['-'].intercalate (cs.splitOn '-') = cs := List.intercalate_splitOn '-'
  rw [← hjoin] at hc
  obtain hc | ⟨piece, hp, hc⟩ := mem_intercalate hc
  · exact .inl (List.mem_singleton.mp hc)
  · exact .inr ((h.2 piece hp).2 c hc)

theorem isBlank_of_isHyphenated {cs : List Char} (h : isHyphenated cs = true) :
    ∀ c ∈ cs, isBlank c = false := by
  intro c hc
  obtain rfl | hsmall := mem_of_isHyphenated h hc
  · decide
  · exact isBlank_of_isSmallLetter hsmall

/-- Something stands behind the first hyphen of a hyphenated name. -/
theorem cutAt_of_isHyphenated {cs : List Char} (h : isHyphenated cs = true) :
    ∃ rest, (cutAt '-' cs).2 = some rest ∧ rest ≠ [] := by
  simp only [isHyphenated, Bool.and_eq_true, decide_eq_true_eq, List.all_eq_true] at h
  obtain ⟨hlength, hwords⟩ := h
  rw [splitOn_eq_cutAt] at hlength hwords
  cases hcut : (cutAt '-' cs).2 with
  | none => simp [hcut] at hlength
  | some rest =>
      refine ⟨rest, rfl, ?_⟩
      rintro rfl
      rw [hcut] at hwords
      have hempty := hwords [] (List.mem_cons_of_mem _ (List.mem_singleton.mpr rfl))
      simp at hempty

/-- A hyphenated property shows an attribute. -/
theorem attributeOfProperty?_of_isHyphenated {property : String}
    (h : isHyphenated property.toList = true) :
    ∃ name, attributeOfProperty? property = some name ∧ name ≠ "" := by
  obtain ⟨rest, hrest, hne⟩ := cutAt_of_isHyphenated h
  refine ⟨_, by rw [attributeOfProperty?, hrest]; rfl, ?_⟩
  intro hempty
  have hnil := congrArg String.toList hempty
  rw [String.toList_ofList] at hnil
  exact replaceChar_ne_nil (by simp) hne hnil

namespace Rules

/-- A field of a faultless plain entry obeys its rule, and so does a missing one. -/
theorem plain_of_faults {entries : Entries} (h : faults entries = [])
    (hm : entries.valueOf "microformat" = .null) {name : String} {rule : Rule}
    (hrule : (plain.find? fun r => (Value.text name).sameKey (.text r.1)) = some (name, rule))
    (hnull : rule .null = none) : rule (entries.valueOf name) = none := by
  have hplain : entries.hasName "microformat" = false := by
    rw [Bool.eq_false_iff]
    intro hn
    obtain ⟨v, hv⟩ := Option.isSome_iff_exists.mp hn
    rw [Entries.valueOf_eq_of_named? hv] at hm
    subst hm
    have hfault := fieldFault_of_faults_eq_nil h (Entries.mem_of_named? hv)
    rw [hn, if_pos rfl] at hfault
    cases hfault
  cases hv : Entries.named? entries name with
  | none => rwa [Entries.valueOf_eq_null_of_named? hv]
  | some v =>
      have hfault := fieldFault_of_faults_eq_nil h (Entries.mem_of_named? hv)
      rw [hplain, if_neg Bool.false_ne_true, fieldFault, hrule] at hfault
      rwa [Entries.valueOf_eq_of_named? hv]

/-- A nullable field that obeys its rule is missing or obeys the rule for values. -/
theorem nullable_eq_none_iff {rule : Rule} {v : Value} :
    nullable rule v = none ↔ v = .null ∨ rule v = none ∧ v ≠ .null := by
  cases v <;> simp [nullable]

theorem hyphenated_eq_none_iff {v : Value} :
    hyphenated v = none ↔ ∃ s, v = .text s ∧ isHyphenated s.toList = true := by
  cases v <;> simp [hyphenated]

theorem filledText_eq_none_iff {v : Value} :
    filledText v = none ↔ (∃ s, v = .text s ∧ s ≠ "") ∨ ∃ codes, v = .garbled codes := by
  cases v <;> simp [filledText]

/-- A faultless plain entry has no property, or a hyphenated name as one. -/
theorem property_of_faults {entries : Entries} (h : faults entries = [])
    (hm : entries.valueOf "microformat" = .null) :
    entries.valueOf "property" = .null ∨
      ∃ s, entries.valueOf "property" = .text s ∧ isHyphenated s.toList = true := by
  have hrule := plain_of_faults h hm (show _ = some ("property", nullable hyphenated) from rfl) rfl
  obtain hnull | ⟨hname, -⟩ := nullable_eq_none_iff.mp hrule
  · exact .inl hnull
  · exact .inr (hyphenated_eq_none_iff.mp hname)

end Rules

end SemanticMarkup
