import SemanticMarkup.Proofs.Entry.Written

/-!
# Writing and reading shorthands

Reading undoes writing for shorthands that follow the grammar, and writing
undoes reading for every text that is read. A property alone stands for itself
with its attribute, which is a word of the grammar, and with the plain format.
-/

namespace SemanticMarkup

open SemanticMarkup.Text

namespace Shorthand

/-- The entry with some parts of a shorthand. -/
def parts (property path format : String) (label : Option String) : Entries :=
  Entries.ofFields [("property", .text property), ("attribute", .text path),
    ("format", .text format), ("label", Record.textValue label)]

theorem ofText_written_parts {s : Shorthand} (h : s.WellFormed) :
    Entry.ofText s.written = .ok (parts s.property s.resolvedPath s.resolvedFormat s.label) :=
  ofText_written h

section Written

variable (property path format label : String)

theorem written_property : written ⟨property, none, none, none⟩ = property :=
  String.intercalate_singleton

theorem written_path : written ⟨property, some path, none, none⟩ = property ++ ":" ++ path := by
  have hparts : written ⟨property, some path, none, none⟩ = ":".intercalate [property, path] := rfl
  rw [hparts, String.intercalate_cons_cons, String.intercalate_singleton]

theorem written_format :
    written ⟨property, some path, some format, none⟩ =
      property ++ ":" ++ path ++ ":" ++ format := by
  have hparts : written ⟨property, some path, some format, none⟩ =
      ":".intercalate [property, path, format] := rfl
  rw [hparts, String.intercalate_cons_cons, String.intercalate_cons_cons,
    String.intercalate_singleton]
  simp only [String.append_assoc]

theorem written_label :
    written ⟨property, some path, some format, some label⟩ =
      property ++ ":" ++ path ++ ":" ++ format ++ ":" ++ label := by
  have hparts : written ⟨property, some path, some format, some label⟩ =
      ":".intercalate [property, path, format, label] := rfl
  rw [hparts, String.intercalate_cons_cons, String.intercalate_cons_cons,
    String.intercalate_cons_cons, String.intercalate_singleton]
  simp only [String.append_assoc]

end Written

section Grammar

variable {property path format label : String} (hproperty : isHyphenated property.toList = true)
  (hpath : isPath path.toList = true) (hformat : isWord format.toList = true)
  (hlabel : '\n' ∉ label.toList)

include hproperty

theorem wellFormed_property : WellFormed ⟨property, none, none, none⟩ :=
  ⟨hproperty, nofun, nofun, nofun, nofun, nofun⟩

include hpath

theorem wellFormed_path : WellFormed ⟨property, some path, none, none⟩ where
  property := hproperty
  path := by
    rintro _ ⟨⟩
    exact hpath
  format := nofun
  label := nofun
  path_of_format := nofun
  format_of_label := nofun

include hformat

theorem wellFormed_format : WellFormed ⟨property, some path, some format, none⟩ where
  property := hproperty
  path := (wellFormed_path hproperty hpath).path
  format := by
    rintro _ ⟨⟩
    exact hformat
  label := nofun
  path_of_format := fun _ => rfl
  format_of_label := nofun

include hlabel

theorem wellFormed_label : WellFormed ⟨property, some path, some format, some label⟩ where
  property := hproperty
  path := (wellFormed_path hproperty hpath).path
  format := (wellFormed_format hproperty hpath hformat).format
  label := by
    rintro _ ⟨⟩
    exact hlabel
  path_of_format := fun _ => rfl
  format_of_label := fun _ => rfl

end Grammar

/-- Reading a written shorthand gives back its parts: those that are written, the plain format
where none is, and the attribute of the property where none is. -/
theorem ofText_parts {property path format label : String}
    (hproperty : isHyphenated property.toList = true) (hpath : isPath path.toList = true)
    (hformat : isWord format.toList = true) (hlabel : '\n' ∉ label.toList) :
    Entry.ofText (property ++ ":" ++ path ++ ":" ++ format ++ ":" ++ label) =
        .ok (parts property path format (some label)) ∧
      Entry.ofText (property ++ ":" ++ path ++ ":" ++ format) =
        .ok (parts property path format none) ∧
      Entry.ofText (property ++ ":" ++ path) = .ok (parts property path "text" none) ∧
      ∃ name, attributeOfProperty? property = some name ∧ isPath name.toList = true ∧
        Entry.ofText property = .ok (parts property name "text" none) ∧
        Entry.ofText (property ++ ":" ++ name) = Entry.ofText property ∧
        Entry.ofText (property ++ ":" ++ name ++ ":text") = Entry.ofText property := by
  obtain ⟨name, hname, hword⟩ := isWord_attributeOfProperty? hproperty
  have hnamed := isPath_of_isWord hword
  have hlone : Entry.ofText property = .ok (parts property name "text" none) := by
    have h := ofText_written_parts (wellFormed_property hproperty)
    rw [written_property, resolvedPath, hname] at h
    exact h
  have hattribute := ofText_written_parts (wellFormed_path hproperty hnamed)
  have htext : isWord "text".toList = true := by decide
  have hboth := ofText_written_parts (wellFormed_format hproperty hnamed htext)
  have hone := ofText_written_parts (wellFormed_path hproperty hpath)
  have htwo := ofText_written_parts (wellFormed_format hproperty hpath hformat)
  have hall := ofText_written_parts (wellFormed_label hproperty hpath hformat hlabel)
  rw [written_path] at hattribute hone
  rw [written_format] at hboth htwo
  rw [written_label] at hall
  have hjoined : property ++ ":" ++ name ++ ":text" = property ++ ":" ++ name ++ ":" ++ "text" := by
    have hend : ":text" = ":" ++ "text" := by decide
    rw [hend, ← String.append_assoc]
  refine ⟨hall, htwo, hone, name, hname, hnamed, hlone, hattribute.trans hlone.symm, ?_⟩
  rw [hjoined]
  exact hboth.trans hlone.symm

/-- A label may hold what the other parts must not. -/
theorem ofText_parts_colons :
    isHyphenated "p-note".toList = true ∧ isPath "note.text".toList = true ∧
      isWord "ntext".toList = true ∧ '\n' ∉ " a:b. c:".toList ∧
      Entry.ofText ("p-note" ++ ":" ++ "note.text" ++ ":" ++ "ntext" ++ ":" ++ " a:b. c:") =
        .ok (parts "p-note" "note.text" "ntext" (some " a:b. c:")) := by
  have hproperty : isHyphenated "p-note".toList = true := by decide
  have hpath : isPath "note.text".toList = true := by decide
  have hformat : isWord "ntext".toList = true := by decide
  have hlabel : '\n' ∉ " a:b. c:".toList := by decide
  exact ⟨hproperty, hpath, hformat, hlabel, (ofText_parts hproperty hpath hformat hlabel).1⟩

/-- A part of a shorthand with the colon in front of it, if it is there. -/
def behindColon : Option (List Char) → List Char
  | none => []
  | some cs => ':' :: cs

/-- The written form is the property and the other parts, each behind its colon. -/
theorem toList_written (s : Shorthand) :
    s.written.toList = s.property.toList ++ (behindColon (s.path.map String.toList) ++
      (behindColon (s.format.map String.toList) ++ behindColon (s.label.map String.toList))) := by
  obtain ⟨property, path, format, label⟩ := s
  cases path <;> cases format <;> cases label <;> simp [written, behindColon]

theorem append_behindColon_cutAt (cs : List Char) :
    (cutAt ':' cs).1 ++ behindColon (cutAt ':' cs).2 = cs := by
  have hjoin := cutAt_join ':' cs
  cases hcut : cutAt ':' cs with
  | mk before after =>
      rw [hcut] at hjoin
      cases after with
      | none => exact (List.append_nil before).trans hjoin
      | some rest => exact hjoin

/-- Nothing is lost when a part is taken off the front. -/
theorem behindColon_takePart (fits : List Char → Bool) (rest : Option (List Char)) :
    behindColon (takePart fits rest).1 ++ behindColon (takePart fits rest).2 =
      behindColon rest := by
  cases rest with
  | none => rfl
  | some cs =>
      rw [takePart]
      split
      · exact congrArg (':' :: ·) (append_behindColon_cutAt cs)
      · rfl

theorem fits_of_takePart {fits : List Char → Bool} {rest : Option (List Char)} {part : List Char}
    (h : (takePart fits rest).1 = some part) : fits part = true := by
  cases rest with
  | none => cases h
  | some cs =>
      rw [takePart] at h
      split at h
      · rename_i hfits
        rwa [← Option.some.inj h]
      · cases h

/-- A text that is read is a hyphenated property, alone or with one line behind its colon. -/
theorem cutAt_of_read? {s : String} {short : Shorthand} (h : read? s = some short) :
    isHyphenated (cutAt ':' s.toList).1 = true ∧
      ∀ rest, (cutAt ':' s.toList).2 = some rest → '\n' ∉ rest := by
  cases hcut : cutAt ':' s.toList with
  | mk property rest =>
      simp only [read?, hcut] at h
      split at h
      · cases h
      · rename_i hread
        rw [Bool.or_eq_true, not_or, Bool.not_eq_true', Bool.not_eq_false] at hread
        refine ⟨hread.1, fun cs hcs hline => hread.2 ?_⟩
        dsimp only at hcs
        subst hcs
        exact List.contains_iff_mem.mpr hline

/-- No character is in the parts of a shorthand that is not in its text. -/
theorem not_mem_of_behindColon {part : List Char} {rest : Option (List Char)} {before : List Char}
    {c : Char} (h : before ++ behindColon (some part) = behindColon rest)
    (hrest : ∀ cs, rest = some cs → c ∉ cs) (hc : c ≠ ':') : c ∉ part := by
  intro hmem
  have hall : c ∈ behindColon rest := by
    rw [← h]
    exact List.mem_append_right _ (List.mem_cons_of_mem _ hmem)
  cases rest with
  | none => cases hall
  | some cs =>
      obtain rfl | hin := List.mem_cons.mp hall
      · exact hc rfl
      · exact hrest cs rfl hin

/-- What stands behind the property is taken apart into three parts, and joined again it is
the same. -/
theorem exists_parts_of_rest (rest : Option (List Char)) :
    ∃ path format label, (∀ cs, path = some cs → isPath cs = true) ∧
      (∀ cs, format = some cs → isWord cs = true) ∧
      behindColon path ++ (behindColon format ++ behindColon label) = behindColon rest ∧
      takePart isPath rest = (path, (takePart isPath rest).2) ∧
      (if path.isSome then takePart isWord (takePart isPath rest).2
        else (none, (takePart isPath rest).2)) = (format, label) := by
  have htaken := behindColon_takePart isPath rest
  cases hpath : takePart isPath rest with
  | mk path afterPath =>
      rw [hpath] at htaken
      have hfits : ∀ cs, path = some cs → isPath cs = true := by
        rintro cs rfl
        exact fits_of_takePart (congrArg Prod.fst hpath)
      by_cases hsome : path.isSome = true
      · refine ⟨path, (takePart isWord afterPath).1, (takePart isWord afterPath).2, hfits,
          fun cs hcs => fits_of_takePart hcs, ?_, rfl, if_pos hsome⟩
        rw [behindColon_takePart]
        exact htaken
      · exact ⟨path, none, afterPath, hfits, nofun, htaken, rfl, if_neg hsome⟩

theorem toList_map_ofList (part : Option (List Char)) :
    (part.map String.ofList).map String.toList = part := by
  cases part with
  | none => rfl
  | some cs => exact congrArg some String.toList_ofList

/-- The parts that are read follow the grammar, and writing them restores the text. -/
theorem partsFit_of_read? {s : String} {short : Shorthand} (h : read? s = some short) :
    short.PartsFit ∧ short.written = s := by
  obtain ⟨hproperty, hline⟩ := cutAt_of_read? h
  have htext := append_behindColon_cutAt s.toList
  cases hcut : cutAt ':' s.toList with
  | mk property rest =>
      rw [hcut] at hproperty hline htext
      obtain ⟨path, format, label, hpath, hformat, hjoin, htake, hlast⟩ := exists_parts_of_rest rest
      rw [read?_of_cutAt hcut hproperty hline, htake] at h
      dsimp only at h
      rw [hlast] at h
      obtain rfl := (Option.some.inj h).symm
      constructor
      · exact {
          property := by rwa [String.toList_ofList]
          path := by
            intro name hname
            obtain ⟨cs, hcs, rfl⟩ := Option.map_eq_some_iff.mp hname
            rw [String.toList_ofList]
            exact hpath cs hcs
          format := by
            intro name hname
            obtain ⟨cs, hcs, rfl⟩ := Option.map_eq_some_iff.mp hname
            rw [String.toList_ofList]
            exact hformat cs hcs
          label := by
            intro text htext
            obtain ⟨cs, rfl, rfl⟩ := Option.map_eq_some_iff.mp htext
            rw [← List.append_assoc] at hjoin
            rw [String.toList_ofList]
            exact not_mem_of_behindColon hjoin hline (by decide) }
      · apply String.toList_injective
        rw [toList_written, String.toList_ofList, toList_map_ofList, toList_map_ofList,
          toList_map_ofList, hjoin]
        exact htext

end Shorthand

end SemanticMarkup
