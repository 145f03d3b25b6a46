import SemanticMarkup.Proofs.Json.Trailing

/-!
# How long the strings of a JSON text are

A string takes at least the characters that it holds, and its quotes. So there is less to see in the
strings that a text lists than in the text: every character counts that is not blank.
-/

namespace SemanticMarkup

open SemanticMarkup.Text

namespace Text

variable {cs rest : List Char}

/-- The number of characters that are not blank. -/
def visible (cs : List Char) : Nat :=
  cs.countP fun c => !isBlank c

theorem visible_append (cs rest : List Char) : visible (cs ++ rest) = visible cs + visible rest :=
  List.countP_append

theorem visible_cons (c : Char) (cs : List Char) : visible (c :: cs) = visible [c] + visible cs :=
  visible_append [c] cs

theorem visible_singleton_le (c : Char) : visible [c] ≤ 1 :=
  List.countP_le_length

theorem visible_cons_of_not {c : Char} (h : isBlank c = false) (cs : List Char) :
    visible (c :: cs) = visible cs + 1 :=
  List.countP_cons_of_pos (by rw [h]; rfl)

theorem visible_le_of_suffix (h : rest <:+ cs) : visible rest ≤ visible cs :=
  h.sublist.countP_le

theorem visible_eq_zero (h : ∀ c ∈ cs, isBlank c = true) : visible cs = 0 := by
  refine List.countP_eq_zero.mpr fun c hc => ?_
  rw [h c hc]
  exact Bool.false_ne_true

theorem visible_trimLeft (cs : List Char) : visible (trimLeft cs) = visible cs := by
  have hblank : visible (cs.takeWhile isBlank) = 0 :=
    visible_eq_zero fun c hc => List.all_eq_true.mp List.all_takeWhile c hc
  calc visible (trimLeft cs)
    _ = visible (cs.takeWhile isBlank) + visible (trimLeft cs) := by rw [hblank, Nat.zero_add]
    _ = visible (cs.takeWhile isBlank ++ trimLeft cs) := (visible_append _ _).symm
    _ = visible cs := by rw [trimLeft, List.takeWhile_append_dropWhile]

theorem visible_reverse (cs : List Char) : visible cs.reverse = visible cs :=
  List.countP_reverse

/-- Only blanks are lost at the ends. -/
theorem visible_trim (cs : List Char) : visible (trim cs) = visible cs := by
  rw [trim, visible_reverse, visible_trimLeft, visible_reverse, visible_trimLeft]

/-- Cutting a text loses one character for each cut. -/
theorem visible_splitOn {sep : Char} (hsep : isBlank sep = false) (cs : List Char) :
    ((cs.splitOn sep).map visible).sum + (cs.splitOn sep).length = visible cs + 1 := by
  induction cs with
  | nil => rfl
  | cons c cs ih =>
      rw [List.splitOn_cons_eq_if_modifyHead]
      split
      · rename_i hc
        obtain rfl := beq_iff_eq.mp hc
        rw [visible_cons_of_not hsep, ← ih, List.map_cons, List.sum_cons, List.length_cons]
        have hnil : visible [] = 0 := rfl
        omega
      · obtain ⟨piece, pieces, hpieces⟩ :=
          List.exists_cons_of_ne_nil (List.splitOn_ne_nil sep cs)
        rw [hpieces] at ih ⊢
        rw [List.modifyHead_cons, visible_cons, List.map_cons, List.sum_cons, visible_cons,
          List.length_cons]
        rw [List.map_cons, List.sum_cons, List.length_cons] at ih
        omega

end Text

namespace Json

variable {cs rest after : List Char} {fuel start : Nat} {f : Nat → Char} {v : Value}

/-- An escape is longer than the character it stands for. -/
theorem CodeStep.visible_le (hf : ∀ c : Char, f c.toNat = c) {code : Nat}
    (h : CodeStep cs code after) : visible (f code :: after) ≤ visible cs := by
  have hcode := visible_singleton_le (f code)
  have hback (more : List Char) : visible ('\x5c' :: more) = visible more + 1 :=
    visible_cons_of_not (by decide) more
  cases h with
  | unit h =>
      have hafter := visible_le_of_suffix (suffix_of_readUnits h)
      rw [visible_cons, hback]
      omega
  | @letter c _ _ hc h =>
      have hafter := visible_le_of_suffix (List.suffix_cons c after)
      rw [visible_cons, hback]
      omega
  | plain rest hquote hback h => rw [hf]

/-- The characters of a string stand between its quotes. -/
theorem visible_of_readCodes (hf : ∀ c : Char, f c.toNat = c) {codes : List Nat}
    (h : readCodes start fuel cs = .ok (codes, rest)) :
    visible (codes.map f) + visible rest < visible cs := by
  induction fuel generalizing cs codes with
  | zero => cases h
  | succ fuel ih =>
      obtain ⟨rfl, rfl⟩ | ⟨code, after, others, hstep, hothers, rfl⟩ := readCodes_succ_iff.mp h
      · rw [visible_cons_of_not (by decide)]
        have hnil : visible ([].map f) = 0 := rfl
        omega
      · have hcode := hstep.visible_le hf
        have hrest := ih hothers
        rw [visible_cons] at hcode
        rw [List.map_cons, visible_cons]
        omega

/-- The characters of a string, with its quotes, are fewer than those of the text it is read
from. -/
theorem visible_of_readValue_ofCodes (hf : ∀ c : Char, f c.toNat = c)
    (h : readValue fuel cs = .ok (v, rest)) (hv : v.IsString) :
    ∃ codes, v = Value.ofCodes codes ∧ visible (codes.map f) + visible rest + 2 ≤ visible cs := by
  obtain ⟨more, rfl, hstring⟩ := exists_string_of_readValue h hv
  obtain ⟨codes, hcodes, rfl⟩ := readString_eq_ok_iff.mp hstring
  have hlt := visible_of_readCodes hf hcodes
  rw [visible_cons_of_not (by decide)]
  exact ⟨codes, rfl, by omega⟩

theorem ofCodes_eq_text {codes : List Nat} {s : String} (h : Value.ofCodes codes = .text s) :
    s.toList = codes.map Char.ofNat := by
  unfold Value.ofCodes at h
  split at h
  · rw [← Value.text.inj h, String.toList_ofList]
  · cases h

/-- The characters of all texts. -/
def visibleIn (ss : List String) : Nat :=
  (ss.map fun s => visible s.toList).sum

/-- The texts of a list stand in the text that it is read from. -/
theorem visible_of_readElements {ss : List String}
    (h : readElements fuel cs = .ok (ss.map .text, after)) :
    visibleIn ss + visible after ≤ visible cs := by
  induction fuel generalizing cs ss with
  | zero => cases h
  | succ fuel ih =>
      obtain ⟨value, rest, others, hvalue, hstep, hitems⟩ := readElements_succ_iff.mp h
      obtain ⟨s, ss, rfl, rfl, rfl⟩ := List.map_eq_cons_iff.mp hitems
      obtain ⟨codes, hcodes, hfirst⟩ :=
        visible_of_readValue_ofCodes Char.ofNat_toNat hvalue (.text s)
      rw [← ofCodes_eq_text hcodes.symm] at hfirst
      have hsum : visibleIn (s :: ss) = visible s.toList + visibleIn ss := by
        rw [visibleIn, List.map_cons, List.sum_cons, visibleIn]
      have hback {c : Char} {more : List Char} (h : skipSpaces rest = c :: more) :
          visible more ≤ visible rest :=
        visible_le_of_suffix (tail_suffix (h ▸ skipSpaces_suffix (List.suffix_refl rest)))
      rw [hsum]
      generalize hothers : ss.map Value.text = others at hstep
      cases hstep with
      | last h =>
          have hafter := hback h
          have hnone : visibleIn ss = 0 := by rw [List.map_eq_nil_iff.mp hothers]; rfl
          omega
      | @next more _ _ hcomma h =>
          subst hothers
          have hnext := ih h
          have hmore := hback hcomma
          have hskip := visible_le_of_suffix (skipSpaces_suffix (List.suffix_refl more))
          omega

/-- So do they with the brackets, if the whole text is a list. -/
theorem visible_of_read {ss : List String} (h : read cs = .ok (.list (ss.map .text)))
    (hss : ss ≠ []) : visibleIn ss < visible cs := by
  obtain ⟨-, rest, hread, -⟩ := read_eq_ok_iff.mp h
  have hcs := visible_le_of_suffix (skipSpaces_suffix (List.suffix_refl cs))
  obtain ⟨more, hmore, ⟨hnil, -⟩ | helements⟩ := exists_elements_of_readValue hread
  · exact absurd (List.map_eq_nil_iff.mp hnil) hss
  · have hinner := visible_of_readElements helements
    have hskip := visible_le_of_suffix (skipSpaces_suffix (List.suffix_refl more))
    rw [hmore, visible_cons_of_not (by decide)] at hcs
    omega

theorem isJson_of_read (h : read cs = .ok v) : IsJson v := by
  obtain ⟨-, rest, hread, -⟩ := read_eq_ok_iff.mp h
  exact isJson_of_readValue hread

theorem isJson_of_mem_read {items : List Value} (h : read cs = .ok (.list items)) :
    ∀ item ∈ items, IsJson item := by
  obtain ⟨-, rest, hread, -⟩ := read_eq_ok_iff.mp h
  obtain ⟨more, -, ⟨rfl, -⟩ | helements⟩ := exists_elements_of_readValue hread
  · exact nofun
  · exact isJson_of_readElements helements

/-- A string as a whole text, with blanks around its quotes. -/
theorem visible_of_read_ofCodes (hf : ∀ c : Char, f c.toNat = c)
    (h : read cs = .ok v) (hv : v.IsString) :
    ∃ codes, v = Value.ofCodes codes ∧ visible (codes.map f) + 2 ≤ visible cs := by
  obtain ⟨-, rest, hread, -⟩ := read_eq_ok_iff.mp h
  obtain ⟨codes, rfl, hle⟩ := visible_of_readValue_ofCodes hf hread hv
  have hcs := visible_le_of_suffix (skipSpaces_suffix (List.suffix_refl cs))
  exact ⟨codes, rfl, by omega⟩

theorem head_trim_of_skipSpaces {c : Char} (h : (skipSpaces cs).head? = some c)
    (hc : isBlank c = false) : (trim cs).head? = some c := by
  obtain ⟨more, hmore⟩ := List.head?_eq_some_iff.mp h
  refine head_trim ?_
  rw [← trimLeft_skipSpaces, hmore, trimLeft, List.dropWhile_cons_of_neg (by rw [hc]; decide)]
  rfl

theorem head_trim_of_read_string (h : read cs = .ok v) (hv : v.IsString) :
    (trim cs).head? = some '\x22' := by
  obtain ⟨-, rest, hread, -⟩ := read_eq_ok_iff.mp h
  obtain ⟨more, hmore, -⟩ := exists_string_of_readValue hread hv
  exact head_trim_of_skipSpaces (by rw [hmore]; rfl) (by decide)

/-- Nothing is read from one word only. -/
theorem skipSpaces_of_read_null (h : read cs = .ok .null) :
    ∃ rest, skipSpaces cs = "null".toList ++ rest ∧ IsSpaces rest := by
  obtain ⟨-, rest, hread, hrest⟩ := read_eq_ok_iff.mp h
  refine ⟨rest, ?_, hrest⟩
  generalize hv : Value.null = v at hread
  generalize skipSpaces cs = text at hread
  cases readValue_succ_iff.mp hread with
  | string h =>
      obtain ⟨codes, -, rfl⟩ := readString_eq_ok_iff.mp h
      have hstring := isString_ofCodes codes
      rw [← hv] at hstring
      cases hstring
  | noMembers | members | noElements | elements => cases hv
  | word hstart h =>
      subst hv
      obtain ⟨w, hfind, hw⟩ := Option.map_eq_some_iff.mp h
      have hmem := List.mem_of_find?_eq_some hfind
      have hprefix := List.find?_some hfind
      simp only [wordValues, List.mem_cons, List.not_mem_nil, or_false] at hmem
      obtain rfl | rfl | rfl | rfl | rfl | rfl := hmem <;> cases hw
      obtain ⟨back, hback⟩ := List.isPrefixOf_iff_prefix.mp hprefix
      rw [← hback]
      rfl
  | number hstart hword h =>
      subst hv
      cases isNumber_of_readNumber h

end Json

end SemanticMarkup
