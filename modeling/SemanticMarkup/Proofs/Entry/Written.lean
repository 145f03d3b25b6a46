import SemanticMarkup.Entry.Parse
import SemanticMarkup.Proofs.Entry.Names

/-!
# Shorthand entries as they are written

A shorthand whose parts follow the grammar is read from its written form, part
by part: no part but the label can hold a colon, so each ends at the next one.
-/

namespace SemanticMarkup

open SemanticMarkup.Text

theorem mem_of_isPath {cs : List Char} (h : isPath cs = true) {c : Char} (hc : c ∈ cs) :
    c = '.' ∨ isWordChar c = true := by
  rw [isPath, List.all_eq_true] at h
  have hjoin : ['.'].intercalate (cs.splitOn '.') = cs := List.intercalate_splitOn '.'
  rw [← hjoin] at hc
  obtain hc | ⟨piece, hp, hc⟩ := mem_intercalate hc
  · exact .inl (List.mem_singleton.mp hc)
  · have hword := h piece hp
    rw [isWord, Bool.and_eq_true, List.all_eq_true] at hword
    exact .inr (hword.2 c hc)

theorem mem_of_isWord {cs : List Char} (h : isWord cs = true) {c : Char} (hc : c ∈ cs) :
    isWordChar c = true := by
  rw [isWord, Bool.and_eq_true, List.all_eq_true] at h
  exact h.2 c hc

theorem ne_nil_of_isPath {cs : List Char} (h : isPath cs = true) : cs ≠ [] := by
  rintro rfl
  exact absurd h (by decide)

/-- A word is a path of one segment. -/
theorem isPath_of_isWord {cs : List Char} (h : isWord cs = true) : isPath cs = true := by
  have hpoint : '.' ∉ cs := fun hmem => absurd (mem_of_isWord h hmem) (by decide)
  rw [isPath, List.splitOn_eq_singleton hpoint, List.all_cons, h]
  rfl

theorem isWordChar_of_isSmallLetter {c : Char} (h : isSmallLetter c = true) :
    isWordChar c = true := by
  have hlower : c.isLower = true := h
  have halpha : c.isAlpha = true := by
    change (c.isUpper || c.isLower) = true
    rw [hlower, Bool.or_true]
  have halphanum : c.isAlphanum = true := by
    change (c.isAlpha || c.isDigit) = true
    rw [halpha, Bool.true_or]
  simp only [isSmallLetter, Bool.and_eq_true, decide_eq_true_eq] at h
  have hhigh : c.toNat ≤ 122 := h.2
  exact isWordChar_of_isAlphanum halphanum (by omega)

/-- The attribute that a hyphenated property shows is a word. -/
theorem isWord_attributeOfProperty? {property : String}
    (h : isHyphenated property.toList = true) :
    ∃ name, attributeOfProperty? property = some name ∧ isWord name.toList = true := by
  obtain ⟨rest, hrest, hne⟩ := cutAt_of_isHyphenated h
  refine ⟨_, by rw [attributeOfProperty?, hrest]; rfl, ?_⟩
  rw [String.toList_ofList, isWord, Bool.and_eq_true, Bool.not_eq_true', List.isEmpty_eq_false_iff,
    List.all_eq_true]
  refine ⟨replaceChar_ne_nil (by simp) hne, fun c hc => ?_⟩
  obtain ⟨d, hd, hc⟩ := List.mem_flatMap.mp hc
  split at hc
  · rw [List.mem_singleton.mp hc]
    decide
  · rename_i hhyphen
    rw [List.mem_singleton.mp hc]
    obtain rfl | hsmall := mem_of_isHyphenated h (mem_cutAt hrest hd)
    · exact absurd rfl hhyphen
    · exact isWordChar_of_isSmallLetter hsmall

namespace Shorthand

/-- The parts of a shorthand follow the grammar, whichever of them are missing. -/
structure PartsFit (s : Shorthand) : Prop where
  property : isHyphenated s.property.toList = true
  path : ∀ path ∈ s.path, isPath path.toList = true
  format : ∀ format ∈ s.format, isWord format.toList = true
  label : ∀ label ∈ s.label, '\n' ∉ label.toList

/-- The parts of a shorthand follow the grammar, and each stands behind the one before it. -/
structure WellFormed (s : Shorthand) : Prop where
  property : isHyphenated s.property.toList = true
  path : ∀ path ∈ s.path, isPath path.toList = true
  format : ∀ format ∈ s.format, isWord format.toList = true
  label : ∀ label ∈ s.label, '\n' ∉ label.toList
  path_of_format : s.format.isSome = true → s.path.isSome = true
  format_of_label : s.label.isSome = true → s.format.isSome = true

instance decidableWellFormed (s : Shorthand) : Decidable s.WellFormed :=
  decidable_of_iff (isHyphenated s.property.toList = true ∧
      (∀ path ∈ s.path, isPath path.toList = true) ∧
      (∀ format ∈ s.format, isWord format.toList = true) ∧
      (∀ label ∈ s.label, '\n' ∉ label.toList) ∧
      (s.format.isSome = true → s.path.isSome = true) ∧
      (s.label.isSome = true → s.format.isSome = true))
    ⟨fun ⟨property, path, format, label, path_of_format, format_of_label⟩ =>
        ⟨property, path, format, label, path_of_format, format_of_label⟩,
      fun h => ⟨h.property, h.path, h.format, h.label, h.path_of_format, h.format_of_label⟩⟩

theorem WellFormed.partsFit {s : Shorthand} (h : s.WellFormed) : s.PartsFit :=
  ⟨h.property, h.path, h.format, h.label⟩

/-- The path that a shorthand stands for is one, whether it is written or not. -/
theorem PartsFit.isPath_resolvedPath {s : Shorthand} (h : s.PartsFit) :
    isPath s.resolvedPath.toList = true := by
  cases hp : s.path with
  | some path =>
      rw [resolvedPath, hp, Option.getD_some]
      exact h.path path hp
  | none =>
      obtain ⟨name, hname, hword⟩ := isWord_attributeOfProperty? h.property
      rw [resolvedPath, hp, hname]
      exact isPath_of_isWord hword

/-- The format that a shorthand stands for is a word, whether it is written or not. -/
theorem PartsFit.isWord_resolvedFormat {s : Shorthand} (h : s.PartsFit) :
    isWord s.resolvedFormat.toList = true := by
  cases hf : s.format with
  | some format =>
      rw [resolvedFormat, hf, Option.getD_some]
      exact h.format format hf
  | none =>
      rw [resolvedFormat, hf]
      decide

theorem takePart_last {fits : List Char → Bool} {cs : List Char} (hfits : fits cs = true)
    (hcolon : ':' ∉ cs) : takePart fits (some cs) = (some cs, none) := by
  simp only [takePart, cutAt_of_not_mem hcolon, hfits, if_true]

theorem takePart_append {fits : List Char → Bool} {cs : List Char} (hfits : fits cs = true)
    (hcolon : ':' ∉ cs) (rest : List Char) :
    takePart fits (some (cs ++ ':' :: rest)) = (some cs, some rest) := by
  simp only [takePart, cutAt_append hcolon, hfits, if_true]

section Parts

variable {cs : List Char}

theorem not_mem_of_isHyphenated (h : isHyphenated cs = true) {c : Char}
    (hc : isSmallLetter c = false)
    (hne : c ≠ '-') : c ∉ cs := by
  intro hmem
  obtain rfl | hsmall := mem_of_isHyphenated h hmem
  · exact hne rfl
  · rw [hc] at hsmall
    cases hsmall

theorem not_mem_of_isPath (h : isPath cs = true) {c : Char} (hc : isWordChar c = false)
    (hne : c ≠ '.') : c ∉ cs := by
  intro hmem
  obtain rfl | hword := mem_of_isPath h hmem
  · exact hne rfl
  · rw [hc] at hword
    cases hword

theorem not_mem_of_isWord (h : isWord cs = true) {c : Char} (hc : isWordChar c = false) :
    c ∉ cs := by
  intro hmem
  rw [mem_of_isWord h hmem] at hc
  cases hc

end Parts

/-- The parts that are written are the first ones. -/
theorem WellFormed.parts {s : Shorthand} (h : s.WellFormed) :
    s.path = none ∧ s.format = none ∧ s.label = none ∨
      (∃ path, s.path = some path ∧ s.format = none ∧ s.label = none) ∨
      (∃ path format, s.path = some path ∧ s.format = some format ∧ s.label = none) ∨
      ∃ path format label, s.path = some path ∧ s.format = some format ∧ s.label = some label := by
  have hpath := h.path_of_format
  have hformat := h.format_of_label
  cases hp : s.path with
  | none =>
      cases hf : s.format with
      | some format =>
          rw [hp, hf] at hpath
          exact absurd (hpath rfl) Bool.false_ne_true
      | none =>
          cases hl : s.label with
          | some label =>
              rw [hf, hl] at hformat
              exact absurd (hformat rfl) Bool.false_ne_true
          | none => exact .inl ⟨rfl, rfl, rfl⟩
  | some path =>
      cases hf : s.format with
      | none =>
          cases hl : s.label with
          | some label =>
              rw [hf, hl] at hformat
              exact absurd (hformat rfl) Bool.false_ne_true
          | none => exact .inr (.inl ⟨path, rfl, rfl, rfl⟩)
      | some format =>
          cases hl : s.label with
          | none => exact .inr (.inr (.inl ⟨path, format, rfl, rfl, rfl⟩))
          | some label => exact .inr (.inr (.inr ⟨path, format, label, rfl, rfl, rfl⟩))

/-- The property is read, and what stands behind its colon is left for the other parts. -/
theorem read?_of_cutAt {s : String} {property : List Char} {rest : Option (List Char)}
    (hcut : cutAt ':' s.toList = (property, rest)) (hproperty : isHyphenated property = true)
    (hline : ∀ cs, rest = some cs → '\n' ∉ cs) :
    read? s =
      let (path, afterPath) := takePart isPath rest
      let (format, label) :=
        if path.isSome then takePart isWord afterPath else (none, afterPath)
      some {
        property := String.ofList property
        path := path.map String.ofList
        format := format.map String.ofList
        label := label.map String.ofList } := by
  have hany : (rest.any fun cs => cs.contains '\n') = false := by
    cases rest with
    | none => rfl
    | some cs => simpa using hline cs rfl
  simp only [read?, hcut, hproperty, hany, Bool.not_true, Bool.or_self, Bool.false_eq_true,
    if_false]

section Arities

variable {property path format label : String}

theorem cutAt_written_property (h : isHyphenated property.toList = true) :
    cutAt ':' (written ⟨property, none, none, none⟩).toList = (property.toList, none) := by
  have hwritten : (written ⟨property, none, none, none⟩).toList = property.toList := by
    simp [written]
  rw [hwritten]
  exact cutAt_of_not_mem (not_mem_of_isHyphenated h (by decide) (by decide))

/-- The property ends at the first colon. -/
theorem cutAt_written_path (h : isHyphenated property.toList = true) (path : String)
    (format label : Option String) :
    cutAt ':' (written ⟨property, some path, format, label⟩).toList =
      (property.toList, some ([':'].intercalate
        (path.toList :: ([format, label].filterMap id).map String.toList))) := by
  have hwritten : (written ⟨property, some path, format, label⟩).toList =
      property.toList ++ ':' :: [':'].intercalate
        (path.toList :: ([format, label].filterMap id).map String.toList) := by
    rw [written, String.toList_intercalate]
    exact intercalate_cons_cons _ _ _ _
  rw [hwritten]
  exact cutAt_append (not_mem_of_isHyphenated h (by decide) (by decide)) _

theorem read?_written_property (h : isHyphenated property.toList = true) :
    read? (written ⟨property, none, none, none⟩) = some ⟨property, none, none, none⟩ := by
  rw [read?_of_cutAt (cutAt_written_property h) h nofun]
  simp [takePart]

theorem read?_written_path (h : isHyphenated property.toList = true)
    (hpath : isPath path.toList = true) :
    read? (written ⟨property, some path, none, none⟩) = some ⟨property, some path, none, none⟩ := by
  have hcolon : ':' ∉ path.toList := not_mem_of_isPath hpath (by decide) (by decide)
  have hline : ∀ cs, some path.toList = some cs → '\n' ∉ cs := by
    rintro cs ⟨⟩
    exact not_mem_of_isPath hpath (by decide) (by decide)
  have hcut : cutAt ':' (written ⟨property, some path, none, none⟩).toList =
      (property.toList, some path.toList) := by
    rw [cutAt_written_path h path none none]
    exact congrArg (fun rest => (property.toList, some rest)) List.intercalate_singleton
  rw [read?_of_cutAt hcut h hline, takePart_last hpath hcolon]
  simp [takePart]

theorem read?_written_format (h : isHyphenated property.toList = true)
    (hpath : isPath path.toList = true) (hformat : isWord format.toList = true) :
    read? (written ⟨property, some path, some format, none⟩) =
      some ⟨property, some path, some format, none⟩ := by
  have hcolon : ':' ∉ path.toList := not_mem_of_isPath hpath (by decide) (by decide)
  have hend : ':' ∉ format.toList := not_mem_of_isWord hformat (by decide)
  have hrest : [':'].intercalate
      (path.toList :: ([some format, none].filterMap id).map String.toList) =
      path.toList ++ ':' :: format.toList := by
    simp only [List.filterMap_cons, List.filterMap_nil, id, List.map_cons, List.map_nil,
      intercalate_cons_cons, List.intercalate_singleton]
  have hline : ∀ cs, some (path.toList ++ ':' :: format.toList) = some cs → '\n' ∉ cs := by
    rintro cs ⟨⟩
    rw [List.mem_append, List.mem_cons, not_or, not_or]
    exact ⟨not_mem_of_isPath hpath (by decide) (by decide), by decide,
      not_mem_of_isWord hformat (by decide)⟩
  have hcut := cutAt_written_path h path (some format) none
  rw [hrest] at hcut
  rw [read?_of_cutAt hcut h hline, takePart_append hpath hcolon]
  simp [takePart_last hformat hend]

theorem read?_written_label (h : isHyphenated property.toList = true)
    (hpath : isPath path.toList = true) (hformat : isWord format.toList = true)
    (hlabel : '\n' ∉ label.toList) :
    read? (written ⟨property, some path, some format, some label⟩) =
      some ⟨property, some path, some format, some label⟩ := by
  have hcolon : ':' ∉ path.toList := not_mem_of_isPath hpath (by decide) (by decide)
  have hend : ':' ∉ format.toList := not_mem_of_isWord hformat (by decide)
  have hrest : [':'].intercalate
      (path.toList :: ([some format, some label].filterMap id).map String.toList) =
      path.toList ++ ':' :: (format.toList ++ ':' :: label.toList) := by
    simp only [List.filterMap_cons, List.filterMap_nil, id, List.map_cons, List.map_nil,
      intercalate_cons_cons, List.intercalate_singleton]
  have hline : ∀ cs, some (path.toList ++ ':' :: (format.toList ++ ':' :: label.toList)) = some cs →
      '\n' ∉ cs := by
    rintro cs ⟨⟩
    rw [List.mem_append, List.mem_cons, List.mem_append, List.mem_cons, not_or, not_or, not_or,
      not_or]
    exact ⟨not_mem_of_isPath hpath (by decide) (by decide), by decide,
      not_mem_of_isWord hformat (by decide), by decide, hlabel⟩
  have hcut := cutAt_written_path h path (some format) (some label)
  rw [hrest] at hcut
  rw [read?_of_cutAt hcut h hline, takePart_append hpath hcolon]
  simp [takePart_append hformat hend]

end Arities

/-- A shorthand that follows the grammar is read from its written form. -/
theorem read?_written {s : Shorthand} (h : s.WellFormed) : read? s.written = some s := by
  have hparts := h.parts
  obtain ⟨property, path, format, label⟩ := s
  obtain ⟨rfl, rfl, rfl⟩ | ⟨path, rfl, rfl, rfl⟩ | ⟨path, format, rfl, rfl, rfl⟩ |
    ⟨path, format, label, rfl, rfl, rfl⟩ := hparts
  · exact read?_written_property h.property
  · exact read?_written_path h.property (h.path path rfl)
  · exact read?_written_format h.property (h.path path rfl) (h.format format rfl)
  · exact read?_written_label h.property (h.path path rfl) (h.format format rfl) (h.label label rfl)

theorem ofText_written {s : Shorthand} (h : s.WellFormed) :
    Entry.ofText s.written = .ok (Entry.ofShorthand s) := by
  rw [Entry.ofText, read?_written h]

/-- A shorthand that follows the grammar is an entry as a text. -/
theorem ofValue_written {s : Shorthand} (h : s.WellFormed) :
    Entry.ofValue (.text s.written) = .ok (Entry.ofShorthand s) := by
  rw [Entry.ofValue, ofText_written h]

end Shorthand

end SemanticMarkup
