import SemanticMarkup.Proofs.Model.Labels
import SemanticMarkup.Proofs.Record.Spelling

/-!
# Labels of joined words

A name joins words, with separators between them or with capitals at their
fronts. All these joinings have one label, the words with capitals. Only the
capitals need care: a word that is a single letter does not end in front of the
next capital, so between other words it makes one word with it. The words of a
property behind its first one make the path of a record and its label.
-/

namespace SemanticMarkup

open SemanticMarkup.Text

namespace ModelAccess

/-- A word with an ASCII capital at its front. -/
def titled : List Char → List Char
  | [] => []
  | c :: rest => c.toUpper :: rest

/-- Whether a text is a word of a name: a small letter with small letters and digits behind it. -/
def isNameWord : List Char → Bool
  | [] => false
  | c :: rest => isSmallLetter c && rest.all fun d => isSmallLetter d || d.isDigit

section Words

variable {w : List Char} {c : Char}

theorem isSmallLetter_eq_isLower (c : Char) : isSmallLetter c = c.isLower := rfl

/-- Behind a character of a word a capital starts the next word. -/
theorem mem_of_isNameWord (h : isNameWord w = true) (hc : c ∈ w) :
    (c.isLower || c.isDigit) = true := by
  cases w with
  | nil => cases hc
  | cons first rest =>
      rw [isNameWord, Bool.and_eq_true, List.all_eq_true] at h
      obtain rfl | hc := List.mem_cons.mp hc
      · rw [← isSmallLetter_eq_isLower, h.1, Bool.true_or]
      · exact h.2 c hc

theorem isSingle_of_isNameWord (h : isNameWord w = true) : IsSingle w where
  filled := by
    rintro rfl
    cases h
  closed := by
    intro c hc
    apply separatesWords_of_isAlphanum
    have hkind := mem_of_isNameWord h hc
    rw [Bool.or_eq_true] at hkind
    exact isAlphanum_iff.mpr (.inr hkind)
  run := by
    apply List.Pairwise.isChain
    rw [List.pairwise_iff_forall_sublist]
    intro a b hpair
    have hb : b ∈ w := hpair.subset (List.mem_cons_of_mem _ List.mem_cons_self)
    rw [startsCapital, isUpper_of_isLower_or_isDigit (mem_of_isNameWord h hb), Bool.and_false]

theorem capitalizeWord_of_isNameWord (h : isNameWord w = true) : capitalizeWord w = titled w := by
  cases w with
  | nil => rfl
  | cons c rest =>
      rw [isNameWord, Bool.and_eq_true, isSmallLetter, Bool.and_eq_true, decide_eq_true_eq,
        decide_eq_true_eq] at h
      have hhigh : c.toNat ≤ 122 := h.1.2
      rw [capitalizeWord, upper_ascii (by omega)]
      rfl

theorem isTitled_of_isNameWord (h : isNameWord w = true) : IsTitled (titled w) := by
  rw [← capitalizeWord_of_isNameWord h]
  exact (isSingle_of_isNameWord h).isTitled

end Words

/-- The label of words of a name with separators between them. -/
theorem humanize_intercalate_of_isNameWord {sep : Char} (hsep : separatesWords sep = true)
    {words : List (List Char)} (h : ∀ w ∈ words, isNameWord w = true) :
    humanize (String.ofList ([sep].intercalate words)) =
      String.ofList ([' '].intercalate (words.map titled)) := by
  rw [humanize_intercalate hsep fun w hw => isSingle_of_isNameWord (h w hw)]
  congr 2
  exact List.map_congr_left fun w hw => capitalizeWord_of_isNameWord (h w hw)

section Capitals

variable {pieces : List (List Char)}

/-- One text ends, and the next one starts with a capital, so that a word starts there. -/
def Meet (before after : List Char) : Prop :=
  ∀ a ∈ before.getLast?, ∀ b ∈ after.head?, startsCapital a b = true

theorem spaceCapitals_append {piece rest : List Char} {c : Char} (hne : piece ≠ [])
    (hrun : IsRun piece) (hmeet : ∀ a ∈ piece.getLast?, startsCapital a c = true) :
    spaceCapitals (piece ++ c :: rest) = piece ++ ' ' :: spaceCapitals (c :: rest) := by
  induction piece with
  | nil => exact absurd rfl hne
  | cons a tail ih =>
      cases tail with
      | nil =>
          have hstart : startsCapital a c = true := hmeet a rfl
          rw [List.singleton_append, spaceCapitals, if_pos hstart]
          rfl
      | cons b tail =>
          obtain ⟨hnone, htail⟩ := List.isChain_cons_cons.mp hrun
          have hlater := ih (List.cons_ne_nil _ _) htail fun x hx =>
            hmeet x (by rwa [List.getLast?_cons_cons])
          rw [List.cons_append, List.cons_append] at hlater
          rw [List.cons_append, List.cons_append, spaceCapitals, hnone, if_neg Bool.false_ne_true,
            hlater]
          rfl

/-- Where texts meet at capitals, blanks are put between them. -/
theorem spaceCapitals_flatten (hruns : ∀ piece ∈ pieces, IsSingle piece)
    (hmeet : pieces.IsChain Meet) : spaceCapitals pieces.flatten = [' '].intercalate pieces := by
  induction pieces with
  | nil => rfl
  | cons piece rest ih =>
      obtain ⟨hpiece, hrest⟩ := List.forall_mem_cons.mp hruns
      cases rest with
      | nil =>
          rw [List.flatten_cons, List.flatten_nil, List.append_nil, List.intercalate_singleton]
          exact spaceCapitals_of_isRun hpiece.run
      | cons next rest =>
          obtain ⟨hfirst, htail⟩ := List.isChain_cons_cons.mp hmeet
          obtain ⟨c, others, rfl⟩ :=
            List.exists_cons_of_ne_nil (hrest next List.mem_cons_self).filled
          have hlater := ih hrest htail
          rw [List.flatten_cons, List.cons_append] at hlater
          rw [List.flatten_cons, List.flatten_cons, List.cons_append,
            spaceCapitals_append hpiece.filled hpiece.run fun a ha => hfirst a ha c rfl, hlater,
            intercalate_cons_cons]

/-- A text that ends as a word of a name does meets the capital of such a word. -/
theorem meet_titled {before w : List Char} (h : isNameWord w = true)
    (hback : ∀ a ∈ before.getLast?, (a.isLower || a.isDigit) = true) : Meet before (titled w) := by
  cases w with
  | nil => cases h
  | cons c rest =>
      intro a ha b hb
      rw [titled, List.head?_cons, Option.mem_some_iff] at hb
      subst hb
      rw [isNameWord, Bool.and_eq_true, isSmallLetter_eq_isLower] at h
      rw [startsCapital, hback a ha, isUpper_toUpper h.1]
      rfl

/-- Only a single letter is no longer small behind its capital. -/
theorem getLast?_titled {w : List Char} (h : isNameWord w = true) (hlong : 2 ≤ w.length) :
    ∀ a ∈ (titled w).getLast?, (a.isLower || a.isDigit) = true := by
  match w, hlong with
  | c :: d :: rest, _ =>
      intro a ha
      rw [titled, List.getLast?_cons_cons] at ha
      exact mem_of_isNameWord h (List.mem_cons_of_mem _ (List.mem_of_mem_getLast? ha))

theorem isChain_meet {before : List Char} {words : List (List Char)}
    (h : ∀ w ∈ words, isNameWord w = true) (hlong : ∀ w ∈ words.dropLast, 2 ≤ w.length)
    (hback : ∀ a ∈ before.getLast?, (a.isLower || a.isDigit) = true) :
    (before :: words.map titled).IsChain Meet := by
  induction words generalizing before with
  | nil => exact .singleton before
  | cons w rest ih =>
      obtain ⟨hw, hrest⟩ := List.forall_mem_cons.mp h
      rw [List.map_cons, List.isChain_cons_cons]
      refine ⟨meet_titled hw hback, ?_⟩
      cases rest with
      | nil => exact .singleton _
      | cons next rest =>
          rw [List.dropLast_cons_cons, List.forall_mem_cons] at hlong
          exact ih hrest hlong.2 (getLast?_titled hw hlong.1)

/-- A text falls into pieces that meet at capitals. -/
theorem exists_pieces {cs : List Char} (hne : cs ≠ []) : ∃ pieces : List (List Char),
    pieces.flatten = cs ∧ (∀ piece ∈ pieces, piece ≠ [] ∧ IsRun piece) ∧ pieces.IsChain Meet := by
  induction cs with
  | nil => exact absurd rfl hne
  | cons a rest ih =>
      cases rest with
      | nil =>
          refine ⟨[[a]], rfl, ?_, .singleton _⟩
          exact List.forall_mem_singleton.mpr ⟨List.cons_ne_nil _ _, .singleton a⟩
      | cons b rest =>
          obtain ⟨pieces, hflat, hpieces, hmeet⟩ := ih (List.cons_ne_nil _ _)
          cases pieces with
          | nil => cases hflat
          | cons piece others =>
              obtain ⟨⟨hfilled, hrun⟩, hothers⟩ := List.forall_mem_cons.mp hpieces
              obtain ⟨c, tail, rfl⟩ := List.exists_cons_of_ne_nil hfilled
              obtain rfl : c = b := (List.cons.inj hflat).1
              cases hstart : startsCapital a c with
              | true =>
                  refine ⟨[a] :: (c :: tail) :: others, congrArg (List.cons a) hflat, ?_, ?_⟩
                  · exact List.forall_mem_cons.mpr
                      ⟨⟨List.cons_ne_nil _ _, .singleton a⟩, hpieces⟩
                  · refine List.isChain_cons_cons.mpr ⟨?_, hmeet⟩
                    rintro _ ⟨⟩ _ ⟨⟩
                    exact hstart
              | false =>
                  refine ⟨(a :: c :: tail) :: others, congrArg (List.cons a) hflat, ?_, ?_⟩
                  · exact List.forall_mem_cons.mpr
                      ⟨⟨List.cons_ne_nil _ _, List.isChain_cons_cons.mpr ⟨hstart, hrun⟩⟩, hothers⟩
                  · obtain ⟨hfirst, hlater⟩ := List.isChain_cons.mp hmeet
                    exact hlater.cons hfirst

/-- The pieces of words in a row are words. -/
theorem exists_single_pieces {words : List (List Char)} (hwords : ∀ w ∈ words, IsSingle w)
    (hne : words ≠ []) : ∃ pieces : List (List Char), pieces.flatten = words.flatten ∧
      (∀ piece ∈ pieces, IsSingle piece) ∧ pieces.IsChain Meet := by
  obtain ⟨w, rest, rfl⟩ := List.exists_cons_of_ne_nil hne
  have hfilled : (w :: rest).flatten ≠ [] := by
    rw [List.flatten_cons]
    exact List.append_ne_nil_of_left_ne_nil (hwords w List.mem_cons_self).filled _
  obtain ⟨pieces, hflat, hpieces, hmeet⟩ := exists_pieces hfilled
  refine ⟨pieces, hflat, fun piece hp => ?_, hmeet⟩
  obtain ⟨hne, hrun⟩ := hpieces piece hp
  refine ⟨hne, fun c hc => ?_, hrun⟩
  have hmem : c ∈ pieces.flatten := List.mem_flatten.mpr ⟨piece, hp, hc⟩
  rw [hflat] at hmem
  obtain ⟨source, hsource, hc⟩ := List.mem_flatten.mp hmem
  exact (hwords source hsource).closed c hc

/-- The label of a text that falls into pieces. -/
theorem humanize_pieces (hpieces : ∀ piece ∈ pieces, IsSingle piece)
    (hmeet : pieces.IsChain Meet) :
    humanize (String.ofList pieces.flatten) =
      String.ofList ([' '].intercalate (pieces.map capitalizeWord)) := by
  have hrun : IsRun ([' '].intercalate pieces) :=
    .intercalate rfl fun piece hp => (hpieces piece hp).run
  have hspaced : separated pieces.flatten = separated ([' '].intercalate pieces) := by
    rw [separated, separated, spaceCapitals_flatten hpieces hmeet, spaceCapitals_of_isRun hrun]
  calc humanize (String.ofList pieces.flatten)
      = humanize (String.ofList ([' '].intercalate pieces)) := by
        rw [humanize_eq, humanize_eq, String.toList_ofList, String.toList_ofList, hspaced]
    _ = String.ofList ([' '].intercalate (pieces.map capitalizeWord)) :=
        humanize_intercalate rfl hpieces

/-- A piece between two others does not end with the capital at its front. -/
theorem Meet.two_le_length {first piece after : List Char} (hfirst : first ≠ [])
    (hpiece : piece ≠ []) (hafter : after ≠ []) (hfront : Meet first piece)
    (hback : Meet piece after) : 2 ≤ piece.length := by
  obtain ⟨c, tail, rfl⟩ := List.exists_cons_of_ne_nil hpiece
  obtain ⟨d, others, rfl⟩ := List.exists_cons_of_ne_nil hafter
  cases tail with
  | cons b tail => exact Nat.le_add_left 2 _
  | nil =>
      have hcapital := hfront _ (List.getLast?_eq_some_getLast hfirst) c rfl
      have hsmall := hback c rfl d rfl
      rw [startsCapital, Bool.and_eq_true] at hcapital hsmall
      rw [isUpper_of_isLower_or_isDigit hsmall.1] at hcapital
      cases hcapital.2

theorem length_le_length_capitalizeWord (w : List Char) :
    w.length ≤ (capitalizeWord w).length := by
  cases w with
  | nil => exact Nat.le_refl 0
  | cons c rest =>
      have hupper : 0 < (upper c).length := List.length_pos_of_ne_nil (upper_ne_nil c)
      rw [capitalizeWord, List.length_append, List.length_cons]
      omega

theorem length_titled (w : List Char) : (titled w).length = w.length := by
  cases w <;> rfl

/-- If pieces are words with capitals, the words between the others are no single letters. -/
theorem two_le_of_isChain_meet {first : List Char} {words : List (List Char)} (hfirst : first ≠ [])
    (hpieces : ∀ piece ∈ pieces, piece ≠ []) (hmeet : (first :: pieces).IsChain Meet)
    (hwords : words.map titled = pieces.map capitalizeWord) :
    ∀ w ∈ words.dropLast, 2 ≤ w.length := by
  induction pieces generalizing first words with
  | nil =>
      rw [List.map_eq_nil_iff.mp hwords]
      exact nofun
  | cons piece rest ih =>
      obtain ⟨hpiece, hrest⟩ := List.forall_mem_cons.mp hpieces
      obtain ⟨w, words, rfl, hw, hwords⟩ := List.map_eq_cons_iff.mp hwords
      obtain ⟨hfront, hlater⟩ := List.isChain_cons_cons.mp hmeet
      cases words with
      | nil => exact nofun
      | cons next words =>
          rw [List.dropLast_cons_cons, List.forall_mem_cons]
          refine ⟨?_, ih hpiece hrest hlater hwords⟩
          obtain ⟨after, more, rfl, -, -⟩ := List.map_eq_cons_iff.mp hwords.symm
          have hback := (List.isChain_cons_cons.mp hlater).1
          calc 2 ≤ piece.length :=
                hfront.two_le_length hfirst hpiece (hrest after List.mem_cons_self) hback
            _ ≤ (capitalizeWord piece).length := length_le_length_capitalizeWord piece
            _ = w.length := by rw [← hw, length_titled]

/-- Words that are joined by capitals have the label of the words exactly if the words between the
first and the last one are no single letters. -/
theorem humanize_flatten_iff {w : List Char} {words : List (List Char)}
    (h : ∀ v ∈ w :: words, isNameWord v = true) :
    humanize (String.ofList (w ++ (words.map titled).flatten)) =
        String.ofList ([' '].intercalate ((w :: words).map titled)) ↔
      ∀ v ∈ words.dropLast, 2 ≤ v.length := by
  obtain ⟨hw, hwords⟩ := List.forall_mem_cons.mp h
  have htitled : ∀ v ∈ w :: words, IsSingle (titled v) :=
    fun v hv => (isTitled_of_isNameWord (h v hv)).toIsSingle
  have hsources : ∀ source ∈ w :: words.map titled, IsSingle source := by
    rw [List.forall_mem_cons, List.forall_mem_map]
    exact ⟨isSingle_of_isNameWord hw, (List.forall_mem_cons.mp htitled).2⟩
  rw [← List.flatten_cons]
  constructor
  · intro hlabel
    obtain ⟨pieces, hflat, hsingle, hmeet⟩ := exists_single_pieces hsources (List.cons_ne_nil _ _)
    rw [← hflat, humanize_pieces hsingle hmeet, String.ofList_inj] at hlabel
    have hlabels : ∀ label ∈ pieces.map capitalizeWord, IsSingle label :=
      List.forall_mem_map.mpr fun piece hp => (hsingle piece hp).isTitled.toIsSingle
    have hsame := congrArg wordsOf hlabel
    rw [wordsOf_intercalate_of_isSingle hlabels,
      wordsOf_intercalate_of_isSingle (List.forall_mem_map.mpr htitled)] at hsame
    obtain ⟨first, others, rfl, -, hothers⟩ := List.map_eq_cons_iff.mp hsame
    obtain ⟨hfirst, hrest⟩ := List.forall_mem_cons.mp hsingle
    exact two_le_of_isChain_meet hfirst.filled (fun p hp => (hrest p hp).filled) hmeet hothers.symm
  · intro hlong
    have hmeet : (w :: words.map titled).IsChain Meet :=
      isChain_meet hwords hlong fun a ha => mem_of_isNameWord hw (List.mem_of_mem_getLast? ha)
    have hcapitals : (words.map titled).map capitalizeWord = words.map titled := by
      refine (List.map_congr_left fun v hv => ?_).trans (List.map_id _)
      obtain ⟨u, hu, rfl⟩ := List.mem_map.mp hv
      exact (isTitled_of_isNameWord (hwords u hu)).capital
    rw [humanize_pieces hsources hmeet, List.map_cons, hcapitals, capitalizeWord_of_isNameWord hw,
      List.map_cons]

end Capitals

/-- A word with an ASCII capital at its front, as a text. -/
def capitalized (word : String) : String :=
  String.ofList (titled word.toList)

/-- Words in a row, all but the first with capitals. -/
def camelJoined : List String → String
  | [] => ""
  | first :: rest => first ++ String.join (rest.map capitalized)

section Texts

variable {words : List String}

theorem joined_capitalized (words : List String) :
    " ".intercalate (words.map capitalized) =
      String.ofList ([' '].intercalate ((words.map String.toList).map titled)) := by
  have hblank : " ".toList = [' '] := rfl
  have htitled : String.toList ∘ capitalized = titled ∘ String.toList :=
    funext fun w => String.toList_ofList
  rw [intercalate_eq_ofList hblank, List.map_map, List.map_map, htitled]

theorem humanize_joined {sep : String} {c : Char} (hsep : sep.toList = [c])
    (hc : separatesWords c = true) (h : ∀ w ∈ words, isNameWord w.toList = true) :
    humanize (sep.intercalate words) = " ".intercalate (words.map capitalized) := by
  rw [intercalate_eq_ofList hsep, joined_capitalized]
  exact humanize_intercalate_of_isNameWord hc (List.forall_mem_map.mpr h)

theorem humanize_camelJoined_iff (h : ∀ w ∈ words, isNameWord w.toList = true) :
    humanize (camelJoined words) = " ".intercalate (words.map capitalized) ↔
      ∀ w ∈ words.tail.dropLast, 2 ≤ w.length := by
  cases words with
  | nil => exact iff_of_true rfl nofun
  | cons first rest =>
      have hcamel : camelJoined (first :: rest) =
          String.ofList (first.toList ++ ((rest.map String.toList).map titled).flatten) := by
        apply String.toList_inj.mp
        rw [camelJoined, String.toList_append, String.toList_join, String.toList_ofList,
          List.flatMap_map, List.map_map, ← List.flatMap_def]
        congr 2
        exact funext fun w => String.toList_ofList
      have hwords : ∀ v ∈ first.toList :: rest.map String.toList, isNameWord v = true := by
        rw [← List.map_cons (f := String.toList), List.forall_mem_map]
        exact h
      rw [hcamel, joined_capitalized, List.map_cons, humanize_flatten_iff hwords,
        ← List.map_dropLast, List.forall_mem_map]
      exact Iff.rfl

end Texts

/-- Whether a text consists of small letters, and of one at least. -/
def isLetters (cs : List Char) : Bool :=
  !cs.isEmpty && cs.all isSmallLetter

section Properties

variable {first : String} {rest : List String}

theorem isNameWord_of_isLetters {cs : List Char} (h : isLetters cs = true) :
    isNameWord cs = true := by
  rw [isLetters, Bool.and_eq_true] at h
  obtain ⟨hne, hall⟩ := h
  cases cs with
  | nil => cases hne
  | cons c rest =>
      rw [List.all_cons, Bool.and_eq_true, List.all_eq_true] at hall
      rw [isNameWord, Bool.and_eq_true, List.all_eq_true]
      refine ⟨hall.1, fun d hd => ?_⟩
      rw [hall.2 d hd, Bool.true_or]

theorem not_mem_of_isLetters {cs : List Char} (h : isLetters cs = true) : '-' ∉ cs := by
  rw [isLetters, Bool.and_eq_true, List.all_eq_true] at h
  intro hmem
  cases h.2 '-' hmem

theorem toList_joined_hyphen (words : List String) :
    ("-".intercalate words).toList = ['-'].intercalate (words.map String.toList) := by
  have hhyphen : "-".toList = ['-'] := rfl
  rw [intercalate_eq_ofList hhyphen, String.toList_ofList]

/-- Two or more words of letters with hyphens between them are a property. -/
theorem isHyphenated_joined (hrest : rest ≠ [])
    (h : ∀ w ∈ first :: rest, isLetters w.toList = true) :
    isHyphenated ("-".intercalate (first :: rest)).toList = true := by
  have hclosed : ∀ piece ∈ (first :: rest).map String.toList, '-' ∉ piece :=
    List.forall_mem_map.mpr fun w hw => not_mem_of_isLetters (h w hw)
  have hsplit : ("-".intercalate (first :: rest)).toList.splitOn '-' =
      (first :: rest).map String.toList := by
    rw [toList_joined_hyphen]
    exact List.splitOn_intercalate '-' hclosed (List.cons_ne_nil _ _)
  rw [isHyphenated, hsplit, Bool.and_eq_true, decide_eq_true_eq, List.all_eq_true]
  refine ⟨?_, List.forall_mem_map.mpr h⟩
  rw [List.length_map, List.length_cons]
  have hlength := List.length_pos_of_ne_nil hrest
  omega

/-- The path of a property consists of the words behind its first one. -/
theorem attributeOfProperty?_joined (hrest : rest ≠ [])
    (h : ∀ w ∈ first :: rest, isLetters w.toList = true) :
    attributeOfProperty? ("-".intercalate (first :: rest)) = some ("_".intercalate rest) := by
  obtain ⟨hfirst, hlater⟩ := List.forall_mem_cons.mp h
  obtain ⟨second, others, rfl⟩ := List.exists_cons_of_ne_nil hrest
  have hclosed : ∀ piece ∈ (second :: others).map String.toList, '-' ∉ piece :=
    List.forall_mem_map.mpr fun w hw => not_mem_of_isLetters (hlater w hw)
  have hcut : (cutAt '-' ("-".intercalate (first :: second :: others)).toList).2 =
      some (['-'].intercalate ((second :: others).map String.toList)) := by
    rw [toList_joined_hyphen, List.map_cons, List.map_cons, intercalate_cons_cons,
      cutAt_append (not_mem_of_isLetters hfirst)]
  have hunderscore : "_".toList = ['_'] := rfl
  rw [attributeOfProperty?, hcut, Option.map_some, replaceChar_intercalate hclosed,
    intercalate_eq_ofList hunderscore]

/-- A property of joined words as an entry without further parts. -/
def bare (words : List String) : Shorthand :=
  ⟨"-".intercalate words, none, none, none⟩

theorem resolvedPath_bare (hrest : rest ≠ [])
    (h : ∀ w ∈ first :: rest, isLetters w.toList = true) :
    (bare (first :: rest)).resolvedPath = "_".intercalate rest := by
  have hattribute := attributeOfProperty?_joined hrest h
  rw [Shorthand.resolvedPath, bare, hattribute]
  rfl

theorem recordsOf_property (site : Site) {p : Prepared} {model : Entries}
    (hmodel : p.model = .dict model) (hdepth : p.depth ≤ site.settings.maxEmbedDepth)
    (hrest : rest ≠ []) (h : ∀ w ∈ first :: rest, isLetters w.toList = true) :
    (Card.recordsOf site (p.withList [.text ("-".intercalate (first :: rest))])).outcome =
      .ok [(bare (first :: rest)).record model] := by
  have hwf : (bare (first :: rest)).WellFormed :=
    ⟨isHyphenated_joined hrest h, nofun, nofun, nofun, nofun, nofun⟩
  have hwritten : (bare (first :: rest)).written = "-".intercalate (first :: rest) :=
    String.intercalate_singleton
  have hrecords := Card.outcome_recordsOf_texts site (List.forall_mem_singleton.mpr hwf) hmodel
    hdepth
  rwa [List.map_singleton, List.map_singleton, hwritten, Shorthand.filled_text rfl] at hrecords

end Properties

/-- The label of a name. Words that are joined by underscores, hyphens or points have one label,
the words with capitals and single blanks between them; joined by capitals they have it exactly if
no word between the first and the last one is a single letter. The label of any name is its own
label and tidy. A property without further parts makes a record whose path and label are the words
behind its first one. -/
theorem labels (site : Site) :
    (∀ words : List String, (∀ w ∈ words, isNameWord w.toList = true) →
      humanize ("_".intercalate words) = " ".intercalate (words.map capitalized) ∧
      humanize ("-".intercalate words) = " ".intercalate (words.map capitalized) ∧
      humanize (".".intercalate words) = " ".intercalate (words.map capitalized) ∧
      (humanize (camelJoined words) = " ".intercalate (words.map capitalized) ↔
        ∀ w ∈ words.tail.dropLast, 2 ≤ w.length)) ∧
    (∀ name : String, humanize (humanize name) = humanize name ∧ IsTidy (humanize name).toList) ∧
    (∀ (p : Prepared) (model : Entries) (first : String) (rest : List String),
      p.model = .dict model → p.depth ≤ site.settings.maxEmbedDepth → rest ≠ [] →
      (∀ w ∈ first :: rest, isLetters w.toList = true) →
      ∃ r : Record,
        (Card.recordsOf site (p.withList [.text ("-".intercalate (first :: rest))])).outcome =
          .ok [r] ∧
        r.path = some ("_".intercalate rest) ∧
        r.label = some (" ".intercalate (rest.map capitalized))) := by
  refine ⟨fun words h => ⟨?_, ?_, ?_, ?_⟩, fun name => ?_, ?_⟩
  · exact humanize_joined (c := '_') rfl rfl h
  · exact humanize_joined (c := '-') rfl rfl h
  · exact humanize_joined (c := '.') rfl rfl h
  · exact humanize_camelJoined_iff h
  · exact ⟨humanize_humanize name, isTidy_humanize name⟩
  · intro p model first rest hmodel hdepth hrest h
    have hrecords := recordsOf_property site hmodel hdepth hrest h
    have hwords : ∀ w ∈ rest, isNameWord w.toList = true :=
      fun w hw => isNameWord_of_isLetters (h w (List.mem_cons_of_mem _ hw))
    have hlabel : humanize ("_".intercalate rest) = " ".intercalate (rest.map capitalized) :=
      humanize_joined (c := '_') rfl rfl hwords
    have hpath := resolvedPath_bare hrest h
    exact ⟨_, hrecords, congrArg some hpath,
      congrArg some ((congrArg humanize hpath).trans hlabel)⟩

/-- The joinings of three words with a digit among them, and a property of three words. -/
theorem labels_givenX2Name :
    (∀ w ∈ ["given", "x2", "name"], isNameWord w.toList = true) ∧
      humanize "given_x2_name" = "Given X2 Name" ∧ humanize "given-x2-name" = "Given X2 Name" ∧
      humanize "given.x2.name" = "Given X2 Name" ∧ humanize "givenX2Name" = "Given X2 Name" ∧
      humanize (humanize " aBC..d ") = humanize " aBC..d " ∧
      (∀ w ∈ ["p", "given", "name"], isLetters w.toList = true) ∧
      Card.personRequest.depth ≤ Settings.standard.maxEmbedDepth ∧
      ∃ r : Record,
        (Card.recordsOf (Site.ofComplete .standard)
          (Card.personRequest.withList [.text "p-given-name"])).outcome = .ok [r] ∧
        r.path = some "given_name" ∧ r.label = some "Given Name" := by
  obtain ⟨hjoined, hany, hproperty⟩ := labels (Site.ofComplete .standard)
  have hwords : ∀ w ∈ ["given", "x2", "name"], isNameWord w.toList = true := by decide
  have hletters : ∀ w ∈ ["p", "given", "name"], isLetters w.toList = true := by decide
  have hdepth : Card.personRequest.depth ≤ Settings.standard.maxEmbedDepth := by decide
  obtain ⟨hsnake, hhyphen, hpoint, hcamel⟩ := hjoined _ hwords
  exact ⟨hwords, hsnake, hhyphen, hpoint, hcamel.mpr (by decide), (hany " aBC..d ").1, hletters,
    hdepth, hproperty Card.personRequest _ "p" ["given", "name"] rfl hdepth (List.cons_ne_nil _ _)
      hletters⟩

/-- A single letter between two words that are joined by capitals makes one word with the next
one. -/
theorem humanize_aBC :
    (∀ w ∈ ["a", "b", "c"], isNameWord w.toList = true) ∧ camelJoined ["a", "b", "c"] = "aBC" ∧
      " ".intercalate (["a", "b", "c"].map capitalized) = "A B C" ∧ humanize "aBC" = "A BC" ∧
      humanize (camelJoined ["a", "b", "c"]) ≠
        " ".intercalate (["a", "b", "c"].map capitalized) := by
  decide

end ModelAccess

end SemanticMarkup
