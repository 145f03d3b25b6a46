import SemanticMarkup.Yaml.Value

/-!
# Scalars without a tag

A scalar that is written plainly and has no tag gets one by its form, so most of what
goes wrong with a tag of its own does not happen: a truth value is always one of the
words for it, and there are digits where a number is read. What is left are numbers
that are too great and dates that do not exist.
-/

namespace SemanticMarkup.Yaml

open SemanticMarkup.Number SemanticMarkup.Text

variable {α β : Type} {cs : List Char} {codes : List Nat}

/-- Why a scalar may be refused although its form fits its tag. -/
def IsMisfit : Refusal → Prop
  | .malformed => True
  | .fault f => f = .wrongValue ∨ f = .overflow

/-- A reader that only refuses misfits. -/
def Fits (made : Except Refusal α) : Prop :=
  ∀ r, made = .error r → IsMisfit r

namespace Fits

theorem ok (a : α) : Fits (.ok a) := nofun

theorem error {r : Refusal} (h : IsMisfit r) : Fits (.error r : Except Refusal α) := by
  intro other hother
  rw [← Except.error.inj hother]
  exact h

theorem bind {first : Except Refusal α} {next : α → Except Refusal β} (hfirst : Fits first)
    (hnext : ∀ a, Fits (next a)) : Fits (first >>= next) := by
  cases first with
  | error r => exact .error (hfirst r rfl)
  | ok a => exact hnext a

end Fits

theorem fits_found (o : Option α) : Fits (found o) := by
  cases o with
  | none => exact .error (.inl rfl)
  | some a => exact .ok a

theorem takeSign_of_ne_nil (h : cs ≠ []) : takeSign cs = .ok (readSign cs) := by
  rw [takeSign, if_neg (mt List.isEmpty_iff.mp h)]

/-! ## Integers -/

theorem fits_readMagnitude (h : cs ≠ []) : Fits (readMagnitude cs) := by
  unfold readMagnitude
  split
  · exact absurd rfl h
  · exact .ok 0
  · exact fits_found _
  · exact fits_found _
  · exact fits_found _
  · split
    · exact fits_found _
    · exact fits_found _

/-- The first piece of a text starts as the text does. -/
theorem head_of_splitOn {sep d : Char} {piece : List Char} {pieces : List (List Char)}
    (h : cs.splitOn sep = (d :: piece) :: pieces) : ∃ rest, cs = d :: rest := by
  cases cs with
  | nil => cases h
  | cons c rest =>
      rw [List.splitOn_cons_eq_if_modifyHead] at h
      split at h
      · cases h
      · obtain ⟨first, others, hrest⟩ := List.exists_cons_of_ne_nil (List.splitOn_ne_nil sep rest)
        rw [hrest, List.modifyHead_cons] at h
        cases h
        exact ⟨rest, rfl⟩

theorem head_of_isDecimal (h : isDecimal cs = true) :
    ∃ d rest, cs = d :: rest ∧ d.isDigit = true := by
  cases cs with
  | nil => cases h
  | cons d rest => exact ⟨d, rest, rfl, (Bool.and_eq_true_iff.mp h).1⟩

theorem head_of_isSexagesimal (h : isSexagesimal cs = true) :
    ∃ d rest, cs = d :: rest ∧ d.isDigit = true := by
  unfold isSexagesimal at h
  split at h
  · rename_i first second others heq
    obtain ⟨d, piece, rfl, hd⟩ := head_of_isDecimal (Bool.and_eq_true_iff.mp h).1
    obtain ⟨rest, hrest⟩ := head_of_splitOn heq
    exact ⟨d, rest, hrest, hd⟩
  · cases h

/-- Behind its sign an integer starts with a digit. -/
theorem head_of_isInteger (h : isInteger cs = true) :
    ∃ d rest, unsigned cs = d :: rest ∧ d.isDigit = true := by
  unfold isInteger at h
  split at h
  · rename_i heq
    exact ⟨_, _, heq, rfl⟩
  · rename_i heq
    exact ⟨_, _, heq, rfl⟩
  · rename_i heq
    exact ⟨_, _, heq, rfl⟩
  · rename_i heq
    exact ⟨_, _, heq, rfl⟩
  · obtain h | h := Bool.or_eq_true_iff.mp h
    · exact head_of_isDecimal h
    · exact head_of_isSexagesimal h

theorem dense_cons {c : Char} (hc : c ≠ '_') (rest : List Char) :
    dense (c :: rest) = c :: dense rest :=
  List.filter_cons_of_pos (bne_iff_ne.mpr hc)

/-- Without its underscores a number still has its sign in front of its first digit. -/
theorem readSign_dense {d : Char} {rest : List Char} (h : unsigned cs = d :: rest)
    (hd : d.isDigit = true) : ∃ negative, readSign (dense cs) = (negative, d :: dense rest) := by
  have hplain : d ≠ '_' ∧ d ≠ '-' ∧ d ≠ '+' := by
    refine ⟨?_, ?_, ?_⟩ <;> rintro rfl <;> cases hd
  obtain ⟨hunderscore, hminus, hplus⟩ := hplain
  unfold unsigned at h
  split at h
  · rw [h, dense_cons (by decide), dense_cons hunderscore]
    exact ⟨true, rfl⟩
  · rw [h, dense_cons (by decide), dense_cons hunderscore]
    exact ⟨false, rfl⟩
  · rw [h, dense_cons hunderscore]
    refine ⟨false, ?_⟩
    unfold readSign
    split
    · exact absurd (List.cons.inj ‹_›).1 hminus
    · exact absurd (List.cons.inj ‹_›).1 hplus
    · rfl

theorem fits_readInteger (h : isInteger cs = true) : Fits (readInteger cs) := by
  obtain ⟨d, rest, hunsigned, hd⟩ := head_of_isInteger h
  obtain ⟨negative, hsign⟩ := readSign_dense hunsigned hd
  have hdense : dense cs ≠ [] := by
    intro hnil
    rw [hnil] at hsign
    cases hsign
  have hread : readInteger cs = (readMagnitude (d :: dense rest) >>= fun n =>
      pure (if negative = true then -n else n)) := by
    rw [readInteger, takeSign_of_ne_nil hdense, hsign]
    rfl
  rw [hread]
  exact .bind (fits_readMagnitude (List.cons_ne_nil _ _)) fun n => .ok _

/-! ## Doubles -/

theorem fits_timesWhole (x factor : Double) : Fits (timesWhole x factor) := by
  cases factor with
  | finite negative units => exact .ok _
  | infinite negative => exact .error (.inr rfl)
  | nan => exact .error (.inr rfl)

theorem fits_sumSixties (sum : Double) (unit : Nat) (groups : List Double) :
    Fits (sumSixties sum unit groups) := by
  induction groups generalizing sum unit with
  | nil => exact .ok sum
  | cons group rest ih =>
      rw [sumSixties, timesRounded]
      exact .bind (fits_timesWhole group _) fun part => ih _ _

/-- A double is never read from nothing, since it has a point. -/
theorem fits_readFloat (h : '.' ∈ cs) : Fits (readFloat cs) := by
  have hdense : lowered (dense cs) ≠ [] := by
    have hmem : '.' ∈ dense cs := List.mem_filter.mpr ⟨h, by decide⟩
    exact mt List.map_eq_nil_iff.mp (List.ne_nil_of_mem hmem)
  unfold readFloat
  refine .bind (takeSign_of_ne_nil hdense ▸ .ok _) fun signed => ?_
  obtain ⟨negative, body⟩ := signed
  dsimp only
  have hvalue (x : Double) :
      Fits (pure (if negative = true then x.neg else x) : Except Refusal Double) := .ok _
  split
  · exact hvalue _
  · split
    · exact hvalue _
    · split
      · refine (fits_found _).bind fun groups => ?_
        exact (fits_sumSixties _ _ _).bind hvalue
      · exact (fits_found _).bind hvalue

/-! ## The form of a scalar -/

theorem getLast_charsOf (h : codes.getLast? ≠ some 0x0A) :
    (charsOf codes).getLast? ≠ some '\n' := by
  intro hlast
  rw [charsOf, List.getLast?_map] at hlast
  obtain ⟨code, hcode, hchar⟩ := Option.map_eq_some_iff.mp hlast
  split at hchar
  · rename_i hvalid
    have hnat : (Char.ofNat code).toNat = code := by
      rw [Char.ofNat, dif_pos hvalid]
      rfl
    rw [← hnat, hchar] at hcode
    exact h hcode
  · exact absurd hchar (by decide)

theorem point_mem_of_isDouble (h : isDouble cs = true) : '.' ∈ unsigned cs := by
  have hjoin := cutAt_join '.' (unsigned cs)
  unfold isDouble at h
  dsimp only at h
  generalize cutAt '.' (unsigned cs) = cut at h hjoin
  obtain ⟨whole, fraction⟩ := cut
  cases fraction with
  | none => cases h
  | some fraction =>
      rw [← hjoin]
      exact List.mem_append_right whole List.mem_cons_self

theorem unsigned_suffix (cs : List Char) : unsigned cs <:+ cs := by
  unfold unsigned
  split
  · exact List.suffix_cons _ _
  · exact List.suffix_cons _ _
  · exact List.suffix_refl _

theorem lookup_of_mem_boolWords {word : String} (h : boolWords.contains word = true) :
    ∃ b, truthWords.lookup (String.ofList (lowered word.toList)) = some b := by
  have hall : ∀ word ∈ boolWords,
      (truthWords.lookup (String.ofList (lowered word.toList))).isSome = true := by decide
  exact Option.isSome_iff_exists.mp (hall word (List.contains_iff_mem.mp h))

/-- A scalar whose tag comes from its form only fails for its value: one case for each form. -/
theorem fits_scalarValue_ofPlain (h : codes.getLast? ≠ some 0x0A) :
    Fits (scalarValue (.ofPlain (charsOf codes)) codes) := by
  have hbody : withoutFinalBreak (charsOf codes) = charsOf codes := if_neg (getLast_charsOf h)
  unfold Tag.ofPlain
  rw [hbody]
  dsimp only
  split
  · exact .ok _
  split
  · rename_i hbool
    obtain ⟨b, hb⟩ := lookup_of_mem_boolWords hbool
    rw [String.toList_ofList] at hb
    unfold scalarValue
    dsimp only
    rw [hb]
    exact .ok _
  split
  · rename_i hdouble
    have hpoint := (unsigned_suffix _).subset (point_mem_of_isDouble hdouble)
    exact (fits_readFloat hpoint).bind fun x => .ok _
  split
  · rename_i hinteger
    exact (fits_readInteger hinteger).bind fun n => .ok _
  split
  · exact .error trivial
  split
  · exact .ok _
  split
  · rename_i hevident
    cases hread : Timestamp.read? (charsOf codes) with
    | none =>
        rw [hread] at hevident
        cases hevident
    | some t =>
        unfold scalarValue
        dsimp only
        rw [hbody, hread]
        exact fits_found t.value?
  split
  · exact .error trivial
  split
  · exact .error trivial
  · exact .ok _

end SemanticMarkup.Yaml
