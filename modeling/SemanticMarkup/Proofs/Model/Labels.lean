import Mathlib.Data.List.Chain
import SemanticMarkup.Proofs.Markup.Classes
import SemanticMarkup.Proofs.Model.Humanize

/-!
# The normal form of a label

A label is a row of words with single blanks between them. Each word is not
empty, has no separators, starts with its own capital and has no place where a
capital starts a further word. Whatever name a label is made of, it has this
form, and from a label of this form the same label is made.
-/

namespace SemanticMarkup

open SemanticMarkup.Text

namespace ModelAccess

section Separators

variable {a b c : Char}

theorem separatesWords_eq_false_iff :
    separatesWords c = false ↔ (c ≠ '-' ∧ c ≠ '_' ∧ c ≠ '.') ∧ isBlank c = false := by
  simp only [separatesWords, Bool.or_eq_false_iff, beq_eq_false_iff_ne, and_assoc, ne_eq]

/-- No letter or digit separates words. -/
theorem separatesWords_of_isAlphanum (h : c.isAlphanum = true) : separatesWords c = false := by
  have hcode : 48 ≤ c.toNat ∧ c.toNat ≤ 57 ∨ 65 ≤ c.toNat ∧ c.toNat ≤ 90 ∨
      97 ≤ c.toNat ∧ c.toNat ≤ 122 := by
    obtain hupper | hlower | hdigit := isAlphanum_iff.mp h
    · exact .inr (.inl (isUpper_iff.mp hupper))
    · exact .inr (.inr (isLower_iff.mp hlower))
    · exact .inl (isDigit_iff.mp hdigit)
  have hne : ∀ d : Char, d.toNat = 45 ∨ d.toNat = 46 ∨ d.toNat = 95 → c ≠ d := by
    rintro d hd rfl
    omega
  apply separatesWords_eq_false_iff.mpr
  exact ⟨⟨hne _ (by decide), hne _ (by decide), hne _ (by decide)⟩,
    isBlank_of_visible (by omega) (by omega)⟩

theorem startsCapital_separator_left (h : separatesWords a = true) : startsCapital a b = false := by
  rw [Bool.eq_false_iff]
  intro hstart
  simp only [startsCapital, Bool.and_eq_true, Bool.or_eq_true] at hstart
  have halphanum : a.isAlphanum = true := isAlphanum_iff.mpr (.inr hstart.1)
  rw [separatesWords_of_isAlphanum halphanum] at h
  cases h

theorem startsCapital_separator_right (h : separatesWords b = true) :
    startsCapital a b = false := by
  rw [Bool.eq_false_iff]
  intro hstart
  simp only [startsCapital, Bool.and_eq_true] at hstart
  have halphanum : b.isAlphanum = true := isAlphanum_iff.mpr (.inl hstart.2)
  rw [separatesWords_of_isAlphanum halphanum] at h
  cases h

/-- What the upper-case table makes of a character separates words only if the character does. -/
theorem separatesWords_of_mem_upper (h : separatesWords c = false) (ha : a ∈ upper c) :
    separatesWords a = false := by
  obtain hsame | ⟨-, hcapital⟩ := upper_cases c
  · rw [hsame] at ha
    rwa [List.mem_singleton.mp ha]
  · have hcode := (hcapital a ha).1
    simp only [isCapitalCode, Bool.and_eq_true, Bool.or_eq_true, decide_eq_true_eq,
      Bool.not_eq_true'] at hcode
    obtain ⟨-, ⟨hlow, hhigh⟩ | ⟨hlarge, hblank⟩⟩ := hcode
    · exact separatesWords_of_isAlphanum (isAlphanum_iff.mpr (.inl (isUpper_iff.mpr ⟨hlow, hhigh⟩)))
    · have hne : ∀ d : Char, d.toNat < 128 → a ≠ d := by
        rintro d hd rfl
        omega
      apply separatesWords_eq_false_iff.mpr
      exact ⟨⟨hne _ (by decide), hne _ (by decide), hne _ (by decide)⟩, hblank⟩

end Separators

/-- A text in which no capital starts a further word. -/
def IsRun (cs : List Char) : Prop :=
  cs.IsChain fun a b => startsCapital a b = false

section Runs

variable {cs rest : List Char} {c : Char}

theorem exists_spaceCapitals_cons (c : Char) (cs : List Char) :
    ∃ tail, spaceCapitals (c :: cs) = c :: tail := by
  cases cs with
  | nil => exact ⟨[], rfl⟩
  | cons after rest =>
      rw [spaceCapitals]
      split
      · exact ⟨_, rfl⟩
      · exact ⟨_, rfl⟩

/-- Behind the blanks that end them no words are left to be found. -/
theorem isRun_spaceCapitals (cs : List Char) : IsRun (spaceCapitals cs) := by
  induction cs with
  | nil => exact .nil
  | cons before rest ih =>
      cases rest with
      | nil => exact .singleton before
      | cons after rest =>
          obtain ⟨tail, htail⟩ := exists_spaceCapitals_cons after rest
          rw [IsRun, htail] at ih
          rw [IsRun, spaceCapitals, htail]
          split
          · rw [List.isChain_cons_cons, List.isChain_cons_cons]
            exact ⟨startsCapital_separator_right rfl, startsCapital_separator_left rfl, ih⟩
          · rename_i hnone
            exact List.isChain_cons_cons.mpr ⟨Bool.eq_false_iff.mpr hnone, ih⟩

theorem spaceCapitals_of_isRun (h : IsRun cs) : spaceCapitals cs = cs := by
  induction cs with
  | nil => rfl
  | cons before rest ih =>
      cases rest with
      | nil => rfl
      | cons after rest =>
          obtain ⟨hnone, htail⟩ := List.isChain_cons_cons.mp h
          rw [spaceCapitals, hnone, if_neg Bool.false_ne_true, ih htail]

/-- Between two runs a separator keeps a further word from starting. -/
theorem IsRun.append_separator (h : IsRun cs) (hsep : separatesWords c = true)
    (hrest : IsRun rest) : IsRun (cs ++ c :: rest) := by
  rw [IsRun, List.isChain_append]
  refine ⟨h, ?_, ?_⟩
  · apply List.IsChain.cons hrest
    intro b _
    exact startsCapital_separator_left hsep
  · intro a _ b hb
    rw [List.head?_cons, Option.mem_some_iff] at hb
    subst hb
    exact startsCapital_separator_right hsep

theorem IsRun.intercalate {pieces : List (List Char)} (hsep : separatesWords c = true)
    (h : ∀ piece ∈ pieces, IsRun piece) : IsRun ([c].intercalate pieces) := by
  induction pieces with
  | nil => exact .nil
  | cons piece rest ih =>
      obtain ⟨hpiece, hrest⟩ := List.forall_mem_cons.mp h
      cases rest with
      | nil =>
          rw [List.intercalate_singleton]
          exact hpiece
      | cons next rest =>
          rw [intercalate_cons_cons]
          exact hpiece.append_separator hsep (ih hrest)

end Runs

/-- A word of a name: it has no separators, and no further word starts in it. -/
structure IsSingle (w : List Char) : Prop where
  filled : w ≠ []
  closed : ∀ c ∈ w, separatesWords c = false
  run : IsRun w

/-- A word of a label, which also starts with its own capital. -/
structure IsTitled (w : List Char) : Prop extends IsSingle w where
  capital : capitalizeWord w = w

section Words

variable {w : List Char} {words : List (List Char)}

/-- A capital at the front of a word starts no word behind itself. -/
theorem IsSingle.isRun_capitalizeWord (h : IsSingle w) : IsRun (capitalizeWord w) := by
  cases w with
  | nil => exact h.run
  | cons c rest =>
      obtain hsame | ⟨-, hcapital⟩ := upper_cases c
      · rw [capitalizeWord, hsame]
        exact h.run
      · have hnone : ∀ a ∈ upper c, ∀ b, startsCapital a b = false := by
          intro a ha b
          obtain ⟨hcode, hfixed⟩ := hcapital a ha
          rw [startsCapital, isLower_of_upper hfixed, isDigit_of_isCapitalCode hcode]
          rfl
        rw [capitalizeWord, IsRun, List.isChain_append]
        refine ⟨?_, h.run.tail, fun a ha b _ => hnone a (List.mem_of_mem_getLast? ha) b⟩
        apply List.Pairwise.isChain
        rw [List.pairwise_iff_forall_sublist]
        intro a b hpair
        exact hnone a (hpair.subset List.mem_cons_self) b

theorem IsSingle.isTitled (h : IsSingle w) : IsTitled (capitalizeWord w) where
  run := h.isRun_capitalizeWord
  filled := by
    cases w with
    | nil => exact h.filled
    | cons c rest => exact List.append_ne_nil_of_left_ne_nil (upper_ne_nil c) rest
  closed := by
    cases w with
    | nil => exact h.closed
    | cons c rest =>
        obtain ⟨hc, hrest⟩ := List.forall_mem_cons.mp h.closed
        intro a ha
        obtain ha | ha := List.mem_append.mp ha
        · exact separatesWords_of_mem_upper hc ha
        · exact hrest a ha
  capital := by
    cases w with
    | nil => rfl
    | cons c rest =>
        rw [capitalizeWord]
        cases hupper : upper c with
        | nil => exact absurd hupper (upper_ne_nil c)
        | cons first others =>
            have hfirst := upper_of_mem_upper (hupper ▸ List.mem_cons_self : first ∈ upper c)
            rw [List.cons_append, capitalizeWord, hfirst, List.singleton_append]

/-- A name with blanks for the separators and a blank in front of each capital that starts a
word. -/
def separated (cs : List Char) : List Char :=
  (spaceCapitals cs).map fun c => if separatesWords c then ' ' else c

theorem humanize_eq (name : String) :
    humanize name =
      String.ofList ([' '].intercalate ((wordsOf (separated name.toList)).map capitalizeWord)) :=
  rfl

/-- The words that are found in a name. -/
theorem isSingle_of_mem_wordsOf {cs : List Char} (h : w ∈ wordsOf (separated cs)) : IsSingle w where
  filled := ne_nil_of_mem_wordsFrom h
  closed := by
    intro c hc
    have hblank := not_isBlank_of_mem_wordsFrom (by simp) h c hc
    have hmem : c ∈ separated cs := (isInfix_of_mem_wordsFrom h).subset hc
    obtain ⟨d, -, rfl⟩ := List.mem_map.mp hmem
    split
    · rename_i hsep
      rw [if_pos hsep] at hblank
      cases hblank
    · rename_i hsep
      exact Bool.eq_false_iff.mpr hsep
  run := by
    refine List.IsChain.infix ?_ (isInfix_of_mem_wordsFrom h)
    rw [List.reverse_nil, List.nil_append, separated, List.isChain_map]
    refine (isRun_spaceCapitals cs).imp fun a b hnone => ?_
    split
    · exact startsCapital_separator_left rfl
    · split
      · exact startsCapital_separator_right rfl
      · exact hnone

theorem wordsOf_intercalate_of_isSingle (h : ∀ w ∈ words, IsSingle w) :
    wordsOf ([' '].intercalate words) = words := by
  rw [wordsOf_intercalate_blank]
  induction words with
  | nil => rfl
  | cons w rest ih =>
      obtain ⟨hw, hrest⟩ := List.forall_mem_cons.mp h
      have hblank : ∀ c ∈ w, isBlank c = false :=
        fun c hc => (separatesWords_eq_false_iff.mp (hw.closed c hc)).2
      rw [List.flatMap_cons, wordsOf_of_not_isBlank hw.filled hblank, ih hrest,
        List.singleton_append]

theorem separated_intercalate {sep : Char} (hsep : separatesWords sep = true)
    (h : ∀ w ∈ words, IsSingle w) :
    separated ([sep].intercalate words) = [' '].intercalate words := by
  have hrun : IsRun ([sep].intercalate words) := .intercalate hsep fun w hw => (h w hw).run
  have hsame : words.map (List.map fun c => if separatesWords c then ' ' else c) = words := by
    refine (List.map_congr_left fun w hw => ?_).trans (List.map_id words)
    refine (List.map_congr_left fun c hc => ?_).trans (List.map_id w)
    rw [(h w hw).closed c hc, if_neg Bool.false_ne_true]
    rfl
  rw [separated, spaceCapitals_of_isRun hrun, map_intercalate, if_pos hsep, hsame]

/-- The label of words with separators between them. -/
theorem humanize_intercalate {sep : Char} (hsep : separatesWords sep = true)
    (h : ∀ w ∈ words, IsSingle w) :
    humanize (String.ofList ([sep].intercalate words)) =
      String.ofList ([' '].intercalate (words.map capitalizeWord)) := by
  rw [humanize_eq, String.toList_ofList, separated_intercalate hsep h,
    wordsOf_intercalate_of_isSingle h]

end Words

/-- A text without hyphens, underscores and points, whose blanks stand alone and between other
characters. -/
structure IsTidy (cs : List Char) : Prop where
  unmarked : ∀ c ∈ cs, c ≠ '-' ∧ c ≠ '_' ∧ c ≠ '.'
  alone : cs.IsChain fun a b => ¬(isBlank a = true ∧ isBlank b = true)
  front : ∀ c ∈ cs.head?, isBlank c = false
  back : ∀ c ∈ cs.getLast?, isBlank c = false

section Tidy

variable {cs rest w : List Char} {words : List (List Char)}

theorem IsSingle.isTidy (h : IsSingle w) : IsTidy w := by
  have hclosed := fun c hc => separatesWords_eq_false_iff.mp (h.closed c hc)
  constructor
  · exact fun c hc => (hclosed c hc).1
  · apply List.Pairwise.isChain
    rw [List.pairwise_iff_forall_sublist]
    intro a b hpair hblank
    rw [(hclosed a (hpair.subset List.mem_cons_self)).2] at hblank
    cases hblank.1
  · exact fun c hc => (hclosed c (List.mem_of_mem_head? hc)).2
  · exact fun c hc => (hclosed c (List.mem_of_mem_getLast? hc)).2

theorem IsTidy.append_blank (h : IsTidy cs) (hcs : cs ≠ []) (hrest : IsTidy rest)
    (hne : rest ≠ []) : IsTidy (cs ++ ' ' :: rest) := by
  constructor
  · intro c hc
    obtain hc | hc := List.mem_append.mp hc
    · exact h.unmarked c hc
    · obtain rfl | hc := List.mem_cons.mp hc
      · decide
      · exact hrest.unmarked c hc
  · rw [List.isChain_append]
    refine ⟨h.alone, hrest.alone.cons fun b hb hblank => ?_, fun a ha b _ hblank => ?_⟩
    · rw [hrest.front b hb] at hblank
      cases hblank.2
    · rw [h.back a ha] at hblank
      cases hblank.1
  · rw [List.head?_append_of_ne_nil _ hcs]
    exact h.front
  · rw [List.getLast?_append_of_ne_nil _ (List.cons_ne_nil _ _), List.getLast?_cons_of_ne_nil hne]
    exact hrest.back

theorem intercalate_ne_nil {sep : Char} (hne : words ≠ []) (h : ∀ w ∈ words, IsSingle w) :
    [sep].intercalate words ≠ [] := by
  cases words with
  | nil => exact absurd rfl hne
  | cons w rest =>
      have hw := (h w List.mem_cons_self).filled
      cases rest with
      | nil =>
          rw [List.intercalate_singleton]
          exact hw
      | cons next rest =>
          rw [intercalate_cons_cons]
          exact List.append_ne_nil_of_left_ne_nil hw _

theorem isTidy_intercalate (h : ∀ w ∈ words, IsSingle w) : IsTidy ([' '].intercalate words) := by
  induction words with
  | nil => exact ⟨nofun, .nil, nofun, nofun⟩
  | cons w rest ih =>
      obtain ⟨hw, hrest⟩ := List.forall_mem_cons.mp h
      cases rest with
      | nil =>
          rw [List.intercalate_singleton]
          exact hw.isTidy
      | cons next rest =>
          rw [intercalate_cons_cons]
          exact hw.isTidy.append_blank hw.filled (ih hrest)
            (intercalate_ne_nil (List.cons_ne_nil _ _) hrest)

end Tidy

/-- Every label is a row of words with blanks between them. -/
theorem exists_humanize_eq (name : String) : ∃ words : List (List Char),
    (∀ w ∈ words, IsTitled w) ∧ humanize name = String.ofList ([' '].intercalate words) := by
  refine ⟨_, ?_, humanize_eq name⟩
  intro w hw
  obtain ⟨v, hv, rfl⟩ := List.mem_map.mp hw
  exact (isSingle_of_mem_wordsOf hv).isTitled

theorem isTidy_humanize (name : String) : IsTidy (humanize name).toList := by
  obtain ⟨words, hwords, hname⟩ := exists_humanize_eq name
  rw [hname, String.toList_ofList]
  exact isTidy_intercalate fun w hw => (hwords w hw).toIsSingle

/-- A label is its own label. -/
theorem humanize_humanize (name : String) : humanize (humanize name) = humanize name := by
  obtain ⟨words, hwords, hname⟩ := exists_humanize_eq name
  have hsame : words.map capitalizeWord = words :=
    (List.map_congr_left fun w hw => (hwords w hw).capital).trans (List.map_id words)
  rw [hname, humanize_intercalate rfl fun w hw => (hwords w hw).toIsSingle, hsame]

end ModelAccess

end SemanticMarkup
