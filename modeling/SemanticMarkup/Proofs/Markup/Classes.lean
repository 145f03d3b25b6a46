import SemanticMarkup.Markup.Attributes
import SemanticMarkup.Proofs.Text.Pieces
import SemanticMarkup.Value.Lookup

/-!
# Classes

A class value is a text of words. Reading it gives the words, writing them gives
a text with the same words, and adding a class that is there changes no word.
-/

namespace SemanticMarkup

namespace Text

/-- A blank ends the word before it. -/
theorem wordsFrom_append_blank (word cs rest : List Char) :
    wordsFrom word (cs ++ ' ' :: rest) = wordsFrom word cs ++ wordsOf rest := by
  induction cs generalizing word with
  | nil => cases word <;> rfl
  | cons c cs ih =>
      simp only [List.cons_append, wordsFrom, ih]
      by_cases hc : isBlank c = true
      · rw [if_pos hc, if_pos hc]
        cases word <;> rfl
      · rw [if_neg hc, if_neg hc]

/-- The words of texts with blanks between them are those of each text. -/
theorem wordsOf_intercalate_blank (pieces : List (List Char)) :
    wordsOf ([' '].intercalate pieces) = pieces.flatMap wordsOf := by
  induction pieces with
  | nil => rfl
  | cons piece rest ih =>
      cases rest with
      | nil => rw [List.intercalate_singleton, List.flatMap_cons, List.flatMap_nil, List.append_nil]
      | cons next rest =>
          rw [intercalate_cons_cons, wordsOf, wordsFrom_append_blank, ih]
          rfl

/-- No word has a blank in it. -/
theorem not_isBlank_of_mem_wordsFrom {word cs w : List Char}
    (hword : ∀ c ∈ word, isBlank c = false) (h : w ∈ wordsFrom word cs) :
    ∀ c ∈ w, isBlank c = false := by
  induction cs generalizing word with
  | nil =>
      rw [wordsFrom] at h
      split at h
      · cases h
      · rw [List.mem_singleton] at h
        subst h
        exact fun c hc => hword c (List.mem_reverse.mp hc)
  | cons c rest ih =>
      rw [wordsFrom] at h
      split at h
      · split at h
        · exact ih (by simp) h
        · obtain rfl | h := List.mem_cons.mp h
          · exact fun c hc => hword c (List.mem_reverse.mp hc)
          · exact ih (by simp) h
      · rename_i hc
        exact ih (List.forall_mem_cons.mpr ⟨Bool.eq_false_iff.mpr hc, hword⟩) h

/-- A text without blanks continues the word before it. -/
theorem wordsFrom_of_not_isBlank {word cs : List Char} (h : ∀ c ∈ cs, isBlank c = false) :
    wordsFrom word cs = wordsFrom (cs.reverse ++ word) [] := by
  induction cs generalizing word with
  | nil => rfl
  | cons c rest ih =>
      obtain ⟨hc, hrest⟩ := List.forall_mem_cons.mp h
      have hcons : wordsFrom word (c :: rest) = wordsFrom (c :: word) rest := by
        simp only [wordsFrom, hc, Bool.false_eq_true, if_false]
      rw [hcons, ih hrest, List.reverse_cons, List.append_assoc, List.singleton_append]

/-- A text without blanks is its only word. -/
theorem wordsOf_of_not_isBlank {cs : List Char} (hne : cs ≠ []) (h : ∀ c ∈ cs, isBlank c = false) :
    wordsOf cs = [cs] := by
  rw [wordsOf, wordsFrom_of_not_isBlank h, List.append_nil, wordsFrom, List.reverse_reverse]
  cases hr : cs.reverse with
  | nil => exact absurd (List.reverse_eq_nil_iff.mp hr) hne
  | cons c rest => rfl

/-- The words of a text without blanks. -/
theorem words_of_not_isBlank {s : String} (hne : s ≠ "") (h : ∀ c ∈ s.toList, isBlank c = false) :
    words s = [s] := by
  have hs : s.toList ≠ [] := fun hn => hne (String.toList_eq_nil_iff.mp hn)
  rw [words, wordsOf_of_not_isBlank hs h, List.map_singleton, String.ofList_toList]

theorem wordsFrom_ne_nil {word : List Char} (h : word ≠ []) (cs : List Char) :
    wordsFrom word cs ≠ [] := by
  have hword : word.isEmpty = false := by simpa using h
  induction cs generalizing word with
  | nil => simp [wordsFrom, hword]
  | cons c rest ih =>
      rw [wordsFrom]
      split
      · rw [if_neg (Bool.eq_false_iff.mp hword)]
        exact List.cons_ne_nil _ _
      · exact ih (List.cons_ne_nil _ _) rfl

/-- A text that starts with no blank has words. -/
theorem words_ne_nil {s : String} {c : Char} {rest : List Char} (hs : s.toList = c :: rest)
    (hc : isBlank c = false) : words s ≠ [] := by
  have hstart : wordsOf s.toList = wordsFrom [c] rest := by
    rw [hs, wordsOf, wordsFrom, if_neg (Bool.eq_false_iff.mp hc)]
  rw [words, hstart]
  exact fun hnil => wordsFrom_ne_nil (List.cons_ne_nil _ _) rest (List.map_eq_nil_iff.mp hnil)

/-- A word is its only word. -/
theorem words_of_mem_words {s w : String} (h : w ∈ words s) : words w = [w] := by
  obtain ⟨cs, hcs, rfl⟩ := List.mem_map.mp h
  rw [words, String.toList_ofList, wordsOf_of_not_isBlank (ne_nil_of_mem_wordsFrom hcs)
    (not_isBlank_of_mem_wordsFrom (by simp) hcs), List.map_singleton]

/-- The words of texts that are joined by blanks are those of each text. -/
theorem words_joined_blank (texts : List String) :
    words (" ".intercalate texts) = texts.flatMap words := by
  have hsep : " ".toList = [' '] := rfl
  rw [words, String.toList_intercalate, hsep, wordsOf_intercalate_blank, List.map_flatMap,
    List.flatMap_map]
  rfl

/-- Words that are joined by blanks are read as they were. -/
theorem words_joined_of_forall {classes : List String} (h : ∀ word ∈ classes, words word = [word]) :
    words (" ".intercalate classes) = classes := by
  rw [words_joined_blank]
  induction classes with
  | nil => rfl
  | cons word rest ih =>
      obtain ⟨hword, hrest⟩ := List.forall_mem_cons.mp h
      rw [List.flatMap_cons, hword, ih hrest, List.singleton_append]

theorem words_joined_words (s : String) : words (" ".intercalate (words s)) = words s :=
  words_joined_of_forall fun _ hw => words_of_mem_words hw

end Text

namespace Markup

open SemanticMarkup.Text

/-- What is among words with further ones: the words, and those of the text. -/
theorem mem_withWords {classes : List String} {css w : String} :
    w ∈ withWords classes css ↔ w ∈ classes ∨ w ∈ words css := by
  rw [withWords]
  generalize words css = new
  induction new generalizing classes with
  | nil => simp
  | cons word rest ih =>
      rw [List.foldl_cons, ih]
      by_cases hw : word ∈ classes
      · rw [if_pos hw, List.mem_cons]
        constructor
        · rintro (h | h)
          · exact .inl h
          · exact .inr (.inr h)
        · rintro (h | rfl | h)
          · exact .inl h
          · exact .inl hw
          · exact .inr h
      · rw [if_neg hw, List.mem_append, List.mem_singleton, List.mem_cons, or_assoc]

/-- Words that are there are not added. -/
theorem withWords_of_subset {classes : List String} {css : String}
    (h : ∀ w ∈ words css, w ∈ classes) : withWords classes css = classes := by
  rw [withWords]
  generalize words css = new at h
  induction new with
  | nil => rfl
  | cons word rest ih =>
      obtain ⟨hw, hrest⟩ := List.forall_mem_cons.mp h
      rw [List.foldl_cons, if_pos hw]
      exact ih hrest

/-- The words of a class text. -/
theorem classWords_text (css : String) : classWords (.text css) = .ok (words css) := by
  by_cases h : css = ""
  · subst h
    rfl
  · simp [classWords, Value.isTrue, h]

/-! ## Class values -/

section Values

variable {v : Value}

/-- The classes that a text or a list of texts holds: the words of the text, or the items of the
list that are not empty. -/
inductive HoldsClasses : Value → List String → Prop
  | text {v : Value} (hv : v.IsString) : HoldsClasses v (words v.display)
  | list {items : List Value} (hitems : ∀ item ∈ items, item.IsString) :
      HoldsClasses (.list items) ((items.map Value.display).filter (· != ""))

theorem isTrue_of_isString (h : v.IsString) : v.isTrue = (v.display != "") := by
  cases h with
  | text s => rfl
  | garbled codes =>
      have hempty : (codes.map Value.characterOf).isEmpty = codes.isEmpty := List.isEmpty_map
      have hdisplay : (String.ofList (codes.map Value.characterOf) == "") = codes.isEmpty := by
        rw [← hempty, Bool.eq_iff_iff, beq_iff_eq, List.isEmpty_iff, String.ofList_eq_empty_iff]
      rw [Value.isTrue, Value.display, bne, hdisplay]

theorem classWords_of_isString (h : v.IsString) : classWords v = .ok (words v.display) := by
  cases h with
  | text s => exact classWords_text s
  | garbled codes => cases codes <;> rfl

/-- The classes that a value holds are read off it. -/
theorem HoldsClasses.classWords {classes : List String} (h : HoldsClasses v classes) :
    classWords v = .ok classes := by
  cases h with
  | text hv => exact classWords_of_isString hv
  | @list items hitems =>
      have hfilter : items.filter Value.isTrue = items.filter ((· != "") ∘ Value.display) :=
        List.filter_congr fun item hitem => isTrue_of_isString (hitems item hitem)
      have hwords : Markup.classWords (.list items) =
          (items.filter Value.isTrue).mapM Value.asText := by
        cases items <;> rfl
      have htexts : ∀ item ∈ items.filter Value.isTrue, item.asText = pure item.display :=
        fun item hitem => (hitems item (List.mem_filter.mp hitem).1).asText
      rw [hwords, Outcome.mapM_congr htexts, List.mapM_pure, hfilter, List.filter_map]
      rfl

end Values

/-! ## Class texts among options -/

/-- A class text writes its words. -/
theorem optionAttributes_class (css : String) :
    optionAttributes (.text "class", .text css) =
      .ok (if (words css).isEmpty then []
        else [.text (quotedAttribute "class" (" ".intercalate (words css)))]) := by
  simp only [optionAttributes, classWords_text, Outcome.ok_bind]
  rfl

/-- A class text may be replaced by its words. -/
theorem tagAttributes_putName_class {options : Entries} {css : String}
    (h : ∀ e ∈ options, e.1 = .text "class" → e.2 = .text css)
    (hmem : ∃ e ∈ options, e.1 = .text "class") :
    tagAttributes (options.putName "class" (.text (" ".intercalate (words css)))) =
      tagAttributes options := by
  have hsame : ∀ e ∈ options, optionAttributes
      (if e.1 = .text "class" then (e.1, .text (" ".intercalate (words css))) else e) =
        optionAttributes e := by
    rintro ⟨k, v⟩ he
    by_cases hk : k = .text "class"
    · have hv := h _ he hk
      dsimp only at hk hv
      subst hk hv
      rw [if_pos rfl, optionAttributes_class, optionAttributes_class, words_joined_words]
    · rw [if_neg hk]
  have hall := Outcome.mapM_congr hsame
  rw [tagAttributes, tagAttributes, Entries.putName_of_mem _ hmem, List.mapM_map]
  exact congrArg (· >>= fun attributes => attributes.flatten.mapM Value.asText >>=
    fun texts => pure (String.join (texts.map (" " ++ ·)))) hall

/-- The options that have some classes and nothing else. -/
def classOption (classes : List String) : Entries :=
  [(.text "class", .text (" ".intercalate classes))]

/-- The attribute that writes some classes, with a blank in front. -/
def classAttribute (classes : List String) : String :=
  " " ++ quotedAttribute "class" (" ".intercalate classes)

section Options

variable {classes : List String}

theorem tagAttributes_classOption (hne : classes ≠ []) (h : ∀ word ∈ classes, words word = [word]) :
    tagAttributes (classOption classes) = .ok (classAttribute classes) := by
  have hfull : classes.isEmpty = false := by simpa using hne
  have hsome := optionAttributes_class (" ".intercalate classes)
  rw [words_joined_of_forall h, hfull, if_neg Bool.false_ne_true] at hsome
  rw [tagAttributes, classOption, List.mapM_cons, hsome, List.mapM_nil]
  simp only [Outcome.ok_bind, Outcome.pure_eq_ok, List.flatten_cons, List.flatten_nil,
    List.append_nil, List.mapM_cons, List.mapM_nil, Value.asText_text, List.map_cons, List.map_nil,
    String.join_cons, String.join_nil, String.append_empty, classAttribute]

theorem addClass_nil (css : String) : addClass [] css = .ok (classOption (withWords [] css)) := rfl

/-- A class is added behind those that are there. -/
theorem addClass_classOption (h : ∀ word ∈ classes, words word = [word]) (css : String) :
    addClass (classOption classes) css = .ok (classOption (withWords classes css)) := by
  have hvalue : (classOption classes).valueOf "class" = .text (" ".intercalate classes) := rfl
  rw [addClass, hvalue, classWords_text, words_joined_of_forall h]
  rfl

end Options

end Markup

end SemanticMarkup
