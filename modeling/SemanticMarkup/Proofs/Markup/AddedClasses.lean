import SemanticMarkup.Proofs.Markup.Classes

/-!
# Adding a class

A class value is a text or a list of texts. Adding a class keeps the words that are there and
puts the new ones behind them, each once. A word is new here unless it is a class of its own:
the words of a text are, but the items of a list are taken whole, and a word inside an item of
several words is added once more. What was added is there when it is added again, so that a
second time only makes the blanks single.
-/

namespace SemanticMarkup

namespace Text

/-- A text of words with single blanks between them and none around them. -/
def IsTidy (s : String) : Prop :=
  " ".intercalate (words s) = s

instance (s : String) : Decidable (IsTidy s) :=
  inferInstanceAs (Decidable (" ".intercalate (words s) = s))

theorem toList_words (s : String) : (words s).map String.toList = wordsOf s.toList := by
  rw [words, List.map_map]
  exact (List.map_congr_left fun cs _ => String.toList_ofList).trans (List.map_id _)

theorem isTidy_iff (s : String) : IsTidy s ↔ [' '].intercalate (wordsOf s.toList) = s.toList := by
  rw [IsTidy, ← String.toList_inj, String.toList_intercalate, toList_words]
  rfl

theorem length_intercalate_cons_cons (piece next : List Char) (pieces : List (List Char)) :
    ([' '].intercalate (piece :: next :: pieces)).length =
      piece.length + ([' '].intercalate (next :: pieces)).length + 1 := by
  rw [intercalate_cons_cons, List.length_append, List.length_cons, Nat.add_assoc]

/-- Words with single blanks between them are no longer than the text that they are read from. -/
theorem length_intercalate_wordsFrom_le (word cs : List Char) :
    ([' '].intercalate (wordsFrom word cs)).length ≤ word.length + cs.length := by
  induction cs generalizing word with
  | nil =>
      rw [wordsFrom]
      split
      · exact Nat.zero_le _
      · simp
  | cons c rest ih =>
      have hrest := ih []
      have hlonger := ih (c :: word)
      rw [wordsFrom]
      simp only [List.length_cons, List.length_nil] at hrest hlonger ⊢
      split
      · split
        · omega
        · cases hwords : wordsFrom [] rest with
          | nil =>
              rw [List.intercalate_singleton, List.length_reverse]
              omega
          | cons next pieces =>
              rw [length_intercalate_cons_cons, List.length_reverse, ← hwords]
              omega
      · omega

theorem length_intercalate_wordsOf_le (cs : List Char) :
    ([' '].intercalate (wordsOf cs)).length ≤ cs.length := by
  have hle := length_intercalate_wordsFrom_le [] cs
  rwa [List.length_nil, Nat.zero_add] at hle

theorem length_intercalate_pos {piece : List Char} {pieces : List (List Char)}
    (h : ∀ p ∈ piece :: pieces, p ≠ []) : 0 < ([' '].intercalate (piece :: pieces)).length := by
  have hpiece := List.length_pos_iff.mpr (h piece List.mem_cons_self)
  cases pieces with
  | nil => rwa [List.intercalate_singleton]
  | cons next others =>
      rw [length_intercalate_cons_cons]
      omega

/-- Two rows of pieces joined by a blank have as much text as both and the blank. -/
theorem intercalate_append {front back : List (List Char)} (hfront : front ≠ [])
    (hback : back ≠ []) :
    [' '].intercalate (front ++ back) =
      [' '].intercalate front ++ ' ' :: [' '].intercalate back := by
  induction front with
  | nil => exact absurd rfl hfront
  | cons piece rest ih =>
      cases rest with
      | nil =>
          obtain ⟨next, others, rfl⟩ := List.exists_cons_of_ne_nil hback
          rw [List.singleton_append, intercalate_cons_cons, List.intercalate_singleton]
      | cons next others =>
          rw [List.cons_append, List.cons_append, intercalate_cons_cons, ← List.cons_append,
            ih (List.cons_ne_nil _ _), intercalate_cons_cons, List.append_assoc, List.cons_append]

/-- Texts in a row are tidy as a whole if each of them is. The first one takes at most its own
length as words, and so do the others, so that nothing can make up for a blank that is lost. -/
theorem intercalate_flatMap_wordsOf_iff {pieces : List (List Char)} (hne : ∀ p ∈ pieces, p ≠ []) :
    [' '].intercalate (pieces.flatMap wordsOf) = [' '].intercalate pieces ↔
      ∀ p ∈ pieces, [' '].intercalate (wordsOf p) = p := by
  induction pieces with
  | nil => simp
  | cons p rest ih =>
      obtain ⟨hp, hrest⟩ := List.forall_mem_cons.mp hne
      rw [List.forall_mem_cons, ← ih hrest, List.flatMap_cons]
      cases rest with
      | nil => simp
      | cons next others =>
          have hlength : ([' '].intercalate ((next :: others).flatMap wordsOf)).length ≤
              ([' '].intercalate (next :: others)).length := by
            rw [← wordsOf_intercalate_blank]
            exact length_intercalate_wordsOf_le _
          have hword := length_intercalate_wordsOf_le p
          have hsome := length_intercalate_pos hrest
          generalize (next :: others).flatMap wordsOf = back at hlength ⊢
          rw [intercalate_cons_cons]
          constructor
          · intro heq
            have htotal := congrArg List.length heq
            rw [List.length_append, List.length_cons] at htotal
            obtain ⟨hfront, hback⟩ : wordsOf p ≠ [] ∧ back ≠ [] := by
              constructor
              · intro hnil
                rw [hnil, List.nil_append] at htotal
                omega
              · intro hnil
                rw [hnil, List.append_nil] at htotal
                omega
            rw [intercalate_append hfront hback] at heq htotal
            rw [List.length_append, List.length_cons] at htotal
            obtain ⟨hfirst, hothers⟩ := List.append_inj heq (by omega)
            exact ⟨hfirst, (List.cons.inj hothers).2⟩
          · rintro ⟨hfirst, hothers⟩
            have hfront : wordsOf p ≠ [] := by
              intro hnil
              rw [hnil] at hfirst
              exact hp hfirst.symm
            have hback : back ≠ [] := by
              intro hnil
              rw [hnil] at hothers
              rw [← hothers] at hsome
              exact Nat.lt_irrefl 0 hsome
            rw [intercalate_append hfront hback, hfirst, hothers]

/-- Texts that are joined by blanks are tidy if each of them is. -/
theorem joined_flatMap_words_iff {texts : List String} (hne : ∀ s ∈ texts, s ≠ "") :
    " ".intercalate (texts.flatMap words) = " ".intercalate texts ↔ ∀ s ∈ texts, IsTidy s := by
  have hwords : (texts.flatMap words).map String.toList =
      (texts.map String.toList).flatMap wordsOf := by
    simp only [List.map_flatMap, List.flatMap_map, toList_words]
  have hne' : ∀ cs ∈ texts.map String.toList, cs ≠ [] := by
    simpa using hne
  have hpieces := intercalate_flatMap_wordsOf_iff hne'
  rw [← String.toList_inj, String.toList_intercalate, String.toList_intercalate, hwords]
  refine hpieces.trans ?_
  simp only [List.forall_mem_map, isTidy_iff]

/-- Words are tidy. -/
theorem isTidy_of_words {s : String} (h : words s = [s]) : IsTidy s := by
  rw [IsTidy, h, String.intercalate_singleton]

end Text

namespace Markup

open SemanticMarkup.Text

/-- Words with those of a text: behind the ones that are there come the new ones, each once. -/
theorem withWords_eq (classes : List String) (css : String) :
    withWords classes css = classes ++ ((words css).filter (· ∉ classes)).eraseDups := by
  rw [withWords]
  generalize words css = new
  induction new generalizing classes with
  | nil => simp
  | cons word rest ih =>
      rw [List.foldl_cons, ih]
      by_cases hw : word ∈ classes
      · rw [if_pos hw, List.filter_cons_of_neg (by simpa using hw)]
      · rw [if_neg hw, List.filter_cons_of_pos (by simpa using hw), List.eraseDups_cons,
          List.filter_filter, List.append_assoc, List.singleton_append]
        congr 3
        refine List.filter_congr fun w _ => ?_
        rw [Bool.eq_iff_iff]
        simp [and_comm]

/-- The classes that options have under a class value: those that it holds, or none where there is
no value. -/
inductive HasClasses : Value → List String → Prop
  | none : HasClasses .null []
  | held {v : Value} {classes : List String} (h : HoldsClasses v classes) : HasClasses v classes

/-- The words of a class value. -/
def wordsIn : Value → List String
  | .null => []
  | .list items => items.flatMap fun v => words v.display
  | v => words v.display

section Values

variable {v : Value} {classes : List String}

theorem HasClasses.classWords (h : HasClasses v classes) : classWords v = .ok classes := by
  cases h with
  | none => rfl
  | held h => exact h.classWords

theorem HasClasses.ne_empty (h : HasClasses v classes) : ∀ c ∈ classes, c ≠ "" := by
  intro c hc
  cases h with
  | none => cases hc
  | held h =>
      cases h with
      | text hv =>
          rintro rfl
          cases words_of_mem_words hc
      | list hitems => exact bne_iff_ne.mp (List.mem_filter.mp hc).2

/-- The words of a class value are those of its classes. -/
theorem HasClasses.wordsIn_eq (h : HasClasses v classes) : wordsIn v = classes.flatMap words := by
  have htext (s : String) : words s = (words s).flatMap words := by
    rw [← words_joined_blank, words_joined_words]
  cases h with
  | none => rfl
  | held h =>
      cases h with
      | text hv => cases hv <;> exact htext _
      | @list items hitems =>
          clear hitems
          rw [wordsIn]
          induction items with
          | nil => rfl
          | cons v rest ih =>
              rw [List.flatMap_cons, ih, List.map_cons]
              by_cases hv : v.display = ""
              · rw [List.filter_cons_of_neg (by simpa using hv), hv]
                rfl
              · rw [List.filter_cons_of_pos (by simpa using hv), List.flatMap_cons]

end Values

section AddClass

variable {options result : Entries} {classes : List String} {css : String}

theorem words_of_mem_new {w : String}
    (h : w ∈ ((words css).filter (· ∉ classes)).eraseDups) : words w = [w] :=
  words_of_mem_words (List.mem_filter.mp (List.mem_eraseDups.mp h)).1

/-- The words of the new class text. -/
theorem words_joined_withWords (classes : List String) (css : String) :
    words (" ".intercalate (withWords classes css)) =
      classes.flatMap words ++ ((words css).filter (· ∉ classes)).eraseDups := by
  have hnew : (((words css).filter (· ∉ classes)).eraseDups).flatMap words =
      ((words css).filter (· ∉ classes)).eraseDups := by
    rw [← words_joined_blank, words_joined_of_forall fun w hw => words_of_mem_new hw]
  rw [withWords_eq, words_joined_blank, List.flatMap_append, hnew]

/-- The new class text is tidy if the classes are: the new words are. -/
theorem isTidy_joined_withWords_iff (hne : ∀ c ∈ classes, c ≠ "") (css : String) :
    IsTidy (" ".intercalate (withWords classes css)) ↔ ∀ c ∈ classes, IsTidy c := by
  have hnew : ∀ w ∈ ((words css).filter (· ∉ classes)).eraseDups, words w = [w] :=
    fun w hw => words_of_mem_new hw
  have hall : ∀ s ∈ withWords classes css, s ≠ "" := by
    rw [withWords_eq]
    intro s hs
    obtain hs | hs := List.mem_append.mp hs
    · exact hne s hs
    · rintro rfl
      cases hnew _ hs
  rw [IsTidy, words_joined_blank, joined_flatMap_words_iff hall, withWords_eq,
    List.forall_mem_append]
  exact and_iff_left fun w hw => isTidy_of_words (hnew w hw)

/-- No word of a text is new where the words are those of the new class text. -/
theorem withWords_words_joined (classes : List String) (css : String) :
    withWords (words (" ".intercalate (withWords classes css))) css =
      words (" ".intercalate (withWords classes css)) := by
  refine withWords_of_subset fun w hw => ?_
  rw [words_joined_blank]
  exact List.mem_flatMap.mpr ⟨w, mem_withWords.mpr (.inr hw),
    by rw [words_of_mem_words hw]; exact List.mem_singleton_self w⟩

/-- The new words are those that the class value did not have exactly if each word of the text that
the value has is a class of its own. -/
theorem new_eq_iff (classes : List String) (css : String) :
    ((words css).filter (· ∉ classes)).eraseDups =
        ((words css).filter (· ∉ classes.flatMap words)).eraseDups ↔
      ∀ w ∈ words css, w ∈ classes.flatMap words → w ∈ classes := by
  constructor
  · intro heq w hw hold
    by_cases hclass : w ∈ classes
    · exact hclass
    · have hmem : w ∈ ((words css).filter (· ∉ classes)).eraseDups :=
        List.mem_eraseDups.mpr (List.mem_filter.mpr ⟨hw, by simpa using hclass⟩)
      rw [heq, List.mem_eraseDups, List.mem_filter] at hmem
      exact absurd hold (by simpa using hmem.2)
  · intro h
    congr 1
    refine List.filter_congr fun w hw => ?_
    have hiff : w ∈ classes ↔ w ∈ classes.flatMap words := by
      refine ⟨fun hclass => List.mem_flatMap.mpr ⟨w, hclass, ?_⟩, h w hw⟩
      rw [words_of_mem_words hw]
      exact List.mem_singleton_self w
    simp only [hiff]

/-- The class text is put where the class value was. -/
theorem addClass_eq (h : HasClasses (options.valueOf "class") classes) (css : String) :
    addClass options css =
      .ok (options.putName "class" (.text (" ".intercalate (withWords classes css)))) := by
  rw [addClass, h.classWords]
  rfl

/-- Adding a class once more only makes the blanks single. -/
theorem addClass_again_iff (h : HasClasses (options.valueOf "class") classes)
    (hresult : addClass options css = .ok result) :
    addClass result css = .ok result ↔ ∀ c ∈ classes, IsTidy c := by
  rw [← isTidy_joined_withWords_iff h.ne_empty css]
  rw [addClass_eq h, Except.ok.injEq] at hresult
  subst hresult
  have hvalue := Entries.valueOf_putName_self options "class"
  rw [addClass, hvalue, classWords_text, Outcome.ok_bind, withWords_words_joined,
    Entries.putName_putName, Outcome.pure_eq_ok, Except.ok.injEq]
  constructor
  · intro heq
    have htexts := congrArg (fun entries : Entries => entries.valueOf "class") heq
    rw [hvalue, hvalue] at htexts
    exact Value.text.inj htexts
  · intro htidy
    rw [IsTidy] at htidy
    rw [htidy]

/-- Adding a class to options whose class value is a text, a list of texts or none: the class value
becomes a text, at its old place or as the last one, and all other entries stay. Its words are the
old ones and then, each once, the words of the class text that are no class of their own; these
are the words that did not occur yet exactly if none of them hides in an item of several words.
Adding the class again changes nothing exactly if the blanks between words are single. -/
theorem addClass_words (h : HasClasses (options.valueOf "class") classes) (css : String) :
    ∃ result text, addClass options css = .ok result ∧ result.valueOf "class" = .text text ∧
      result.dropName "class" = options.dropName "class" ∧
      result.map Prod.fst = options.map Prod.fst ++
        (if options.hasName "class" then [] else [.text "class"]) ∧
      words text = wordsIn (options.valueOf "class") ++
        ((words css).filter (· ∉ classes)).eraseDups ∧
      (words text = wordsIn (options.valueOf "class") ++
          ((words css).filter (· ∉ wordsIn (options.valueOf "class"))).eraseDups ↔
        ∀ w ∈ words css, w ∈ wordsIn (options.valueOf "class") → w ∈ classes) ∧
      (addClass result css = .ok result ↔ ∀ c ∈ classes, IsTidy c) := by
  have hresult := addClass_eq h css
  refine ⟨_, _, hresult, Entries.valueOf_putName_self _ _ _, Entries.dropName_putName _,
    Entries.keys_putName _, ?_, ?_, addClass_again_iff h hresult⟩
  · rw [words_joined_withWords, h.wordsIn_eq]
  · rw [words_joined_withWords, h.wordsIn_eq, List.append_cancel_left_eq]
    exact new_eq_iff _ css

/-- Options with a class list, one item of which has two words. -/
def pairedOptions : Entries :=
  [(.text "class", .list [.text "a b", .text "c"]), (.text "id", .int 5)]

theorem addClass_words_pairedOptions :
    HasClasses (pairedOptions.valueOf "class") ["a b", "c"] ∧
    ∃ result text, addClass pairedOptions "d c d" = .ok result ∧
      result.valueOf "class" = .text text ∧ words text = ["a", "b", "c", "d"] ∧
      addClass result "d c d" = .ok result := by
  have hclasses : HasClasses (pairedOptions.valueOf "class") ["a b", "c"] := by
    refine .held (.list fun v hv => ?_)
    rw [List.mem_cons, List.mem_singleton] at hv
    obtain rfl | rfl := hv
    · exact .text _
    · exact .text _
  obtain ⟨result, text, hresult, htext, -, -, hwords, -, hagain⟩ :=
    addClass_words hclasses "d c d"
  refine ⟨hclasses, result, text, hresult, htext, hwords.trans (by decide +kernel), hagain.mpr ?_⟩
  decide +kernel

/-- A word in an item of two words is added once more. -/
theorem addClass_repeats :
    addClass [(.text "class", .list [.text "a b"])] "a" =
        .ok [(.text "class", .text "a b a")] ∧
      words "a b a" ≠ wordsIn (.list [.text "a b"]) ++
        ((words "a").filter (· ∉ wordsIn (.list [.text "a b"]))).eraseDups :=
  ⟨by rfl, by decide +kernel⟩

end AddClass

end Markup

end SemanticMarkup
