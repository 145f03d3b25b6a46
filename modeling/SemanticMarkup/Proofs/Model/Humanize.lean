import SemanticMarkup.ModelAccess
import SemanticMarkup.Proofs.Markup.Escape
import SemanticMarkup.Proofs.Entry.Names
import SemanticMarkup.Proofs.Model.Capitals

/-!
# The words of a name as a label

A label that is made of a name consists of blanks, of characters of the name and
of capitals of these. So the label of an attribute, whose name is made of word
characters and points, stands for itself in markup.
-/

namespace SemanticMarkup

open SemanticMarkup.Text

namespace Text

/-- A word stands somewhere in the text. -/
theorem isInfix_of_mem_wordsFrom {word cs w : List Char} (h : w ∈ wordsFrom word cs) :
    w <:+: word.reverse ++ cs := by
  induction cs generalizing word with
  | nil =>
      rw [wordsFrom] at h
      split at h
      · cases h
      · obtain rfl := List.mem_singleton.mp h
        exact (List.prefix_append _ _).isInfix
  | cons c rest ih =>
      have hnext : w ∈ wordsFrom [] rest → w <:+: word.reverse ++ c :: rest := by
        intro hw
        apply (ih hw).trans
        rw [List.reverse_nil, List.nil_append]
        exact ⟨word.reverse ++ [c], [], by simp⟩
      rw [wordsFrom] at h
      split at h
      · split at h
        · exact hnext h
        · obtain rfl | h := List.mem_cons.mp h
          · exact (List.prefix_append _ _).isInfix
          · exact hnext h
      · have hlonger := ih h
        rwa [List.reverse_cons, List.append_assoc, List.singleton_append] at hlonger

end Text

namespace ModelAccess

theorem mem_spaceCapitals {cs : List Char} {c : Char} (h : c ∈ spaceCapitals cs) :
    c = ' ' ∨ c ∈ cs := by
  induction cs with
  | nil => exact .inr h
  | cons before rest ih =>
      cases rest with
      | nil => exact .inr h
      | cons after rest =>
          have hlater :
              c ∈ spaceCapitals (after :: rest) → c = ' ' ∨ c ∈ before :: after :: rest := by
            intro hc
            obtain hc | hc := ih hc
            · exact .inl hc
            · exact .inr (List.mem_cons_of_mem _ hc)
          rw [spaceCapitals] at h
          split at h
          · obtain rfl | h := List.mem_cons.mp h
            · exact .inr List.mem_cons_self
            · obtain rfl | h := List.mem_cons.mp h
              · exact .inl rfl
              · exact hlater h
          · obtain rfl | h := List.mem_cons.mp h
            · exact .inr List.mem_cons_self
            · exact hlater h

/-- A label consists of blanks, of characters of the name and of their capitals. -/
theorem mem_humanize {name : String} {c : Char} (h : c ∈ (humanize name).toList) :
    c = ' ' ∨ c ∈ name.toList ∨ ∃ d ∈ name.toList, c ∈ upper d := by
  have hspaced : ∀ d, d ∈ (spaceCapitals name.toList).map (fun c =>
      if separatesWords c then ' ' else c) → d = ' ' ∨ d ∈ name.toList := by
    intro d hd
    obtain ⟨e, he, rfl⟩ := List.mem_map.mp hd
    split
    · exact .inl rfl
    · exact mem_spaceCapitals he
  rw [humanize, String.toList_ofList] at h
  obtain h | ⟨piece, hp, hc⟩ := mem_intercalate h
  · exact .inl (List.mem_singleton.mp h)
  · obtain ⟨w, hw, rfl⟩ := List.mem_map.mp hp
    have hword : ∀ d ∈ w, d = ' ' ∨ d ∈ name.toList := by
      intro d hd
      exact hspaced d ((isInfix_of_mem_wordsFrom hw).subset hd)
    cases w with
    | nil => cases hc
    | cons first rest =>
        rw [capitalizeWord, List.mem_append] at hc
        obtain hc | hc := hc
        · obtain rfl | hf := hword first List.mem_cons_self
          · exact .inl (by simpa [upper] using hc)
          · exact .inr (.inr ⟨first, hf, hc⟩)
        · obtain hd | hd := hword c (List.mem_cons_of_mem _ hc)
          · exact .inl hd
          · exact .inr (.inl hd)

end ModelAccess

namespace Markup

/-- Whether a character stands for itself in markup. -/
def isPlainChar (c : Char) : Bool :=
  c != '&' && !isMarkupChar c

/-- Text of characters that stand for themselves is not changed by escaping. -/
theorem escape_of_isPlainChar {s : String} (h : ∀ c ∈ s.toList, isPlainChar c = true) :
    escape s = s := by
  apply String.toList_inj.mp
  rw [toList_escape]
  generalize s.toList = cs at h
  induction cs with
  | nil => rfl
  | cons c rest ih =>
      obtain ⟨hc, hrest⟩ := List.forall_mem_cons.mp h
      have hsame : escapedChar valueQuotes c = [c] := by
        obtain ⟨rfl, -⟩ | ⟨rfl, -⟩ | ⟨rfl, -⟩ | ⟨rfl, -⟩ | ⟨rfl, -⟩ | ⟨-, -, hkept⟩ :=
          escapedChar_cases valueQuotes c
        · exact absurd hc (by decide)
        · exact absurd hc (by decide)
        · exact absurd hc (by decide)
        · exact absurd hc (by decide)
        · exact absurd hc (by decide)
        · exact hkept
      rw [List.flatMap_cons, hsame, ih hrest, List.singleton_append]

theorem isPlainChar_of_toNat {c : Char} (h : 62 < c.toNat) : isPlainChar c = true := by
  have hne : ∀ d : Char, d.toNat ≤ 62 → c ≠ d := by
    rintro d hd rfl
    omega
  simp only [isPlainChar, isMarkupChar, Bool.and_eq_true, bne_iff_ne, Bool.not_eq_true',
    Bool.or_eq_false_iff, beq_eq_false_iff_ne]
  exact ⟨hne _ (by decide), ⟨⟨hne _ (by decide), hne _ (by decide)⟩, hne _ (by decide)⟩,
    hne _ (by decide)⟩

theorem isPlainChar_of_isWordChar {c : Char} (h : isWordChar c = true) : isPlainChar c = true := by
  have hne : ∀ d : Char, isWordChar d = false → c ≠ d := by
    rintro d hd rfl
    rw [h] at hd
    cases hd
  simp only [isPlainChar, isMarkupChar, Bool.and_eq_true, bne_iff_ne, Bool.not_eq_true',
    Bool.or_eq_false_iff, beq_eq_false_iff_ne]
  exact ⟨hne _ (by decide), ⟨⟨hne _ (by decide), hne _ (by decide)⟩, hne _ (by decide)⟩,
    hne _ (by decide)⟩

/-- The capitals of a character that stands for itself stand for themselves. -/
theorem isPlainChar_of_mem_upper {c d : Char} (h : isPlainChar d = true) (hc : c ∈ upper d) :
    isPlainChar c = true := by
  obtain hsame | ⟨-, hcapital⟩ := upper_cases d
  · rw [hsame] at hc
    rwa [List.mem_singleton.mp hc]
  · have hcode := (hcapital c hc).1
    simp only [isCapitalCode, Bool.and_eq_true, Bool.or_eq_true, decide_eq_true_eq] at hcode
    apply isPlainChar_of_toNat
    omega

end Markup

end SemanticMarkup
