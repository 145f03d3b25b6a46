import SemanticMarkup.Failure
import SemanticMarkup.Json.Reader
import SemanticMarkup.Proofs.Steps

/-!
# Where a JSON text goes wrong

The readers of JSON only move forwards: what they leave is an end of the text they
were given. So a fault is placed inside the text, and an integer that is too long
to be read is written somewhere in it. Only an object, which starts with a brace,
is read as a mapping.
-/

namespace SemanticMarkup.Json

open SemanticMarkup.Number SemanticMarkup.Text

variable {α β : Type} {whole cs rest : List Char}

/-- Why a text may be refused: at a place in it, or for a row of digits in it. -/
def MayRefuse (whole : List Char) : Refusal → Prop
  | .malformed fault => fault.remaining ≤ whole.length
  | .hugeInteger => HasLongRow whole

/-- A reader inside a text that leaves an end of the text, or refuses it for a reason in it. -/
abbrev Within (whole : List Char) (r : Except Refusal (α × List Char)) : Prop :=
  Gives (MayRefuse whole) (fun found => found.2 <:+ whole) r

theorem Within.ok {a : α} (h : rest <:+ whole) : Within whole (.ok (a, rest)) := h

theorem Within.refuse {problem : String} (h : rest <:+ whole) :
    Within whole (Json.refuse problem rest : Except Refusal (α × List Char)) :=
  h.length_le

/-- A reader behind another one starts where that one has ended. -/
theorem Within.bind {r : Except Refusal (α × List Char)}
    {f : α × List Char → Except Refusal (β × List Char)} (hr : Within whole r)
    (hf : ∀ a rest, rest <:+ whole → Within whole (f (a, rest))) : Within whole (r >>= f) :=
  Gives.bind hr fun found hfound => hf found.1 found.2 hfound

theorem skipSpaces_suffix (h : cs <:+ whole) : skipSpaces cs <:+ whole :=
  (List.dropWhile_suffix _).trans h

theorem tail_suffix {c : Char} (h : c :: rest <:+ whole) : rest <:+ whole :=
  (List.suffix_cons c rest).trans h

/-! ## Strings -/

theorem within_joinUnit {unit : Nat} (h : rest <:+ whole) : Within whole (joinUnit unit rest) := by
  unfold joinUnit
  split
  · split
    · rename_i second _
      have hsecond : second <:+ whole := tail_suffix (tail_suffix h)
      split
      · exact .refuse (tail_suffix h)
      · split
        · exact .ok ((List.drop_suffix 4 second).trans hsecond)
        · exact .ok h
    · exact .ok h
  · exact .ok h

theorem within_readUnits (h : rest <:+ whole) : Within whole (readUnits rest) := by
  have hdigits : rest.drop 1 <:+ whole := (List.drop_suffix 1 rest).trans h
  unfold readUnits
  dsimp only
  split
  · exact .refuse h
  · split
    · exact .refuse h
    · exact within_joinUnit ((List.drop_suffix 4 _).trans hdigits)

/-- A string that does not end is reported at its opening quote. -/
theorem within_readCodes {start : Nat} (hstart : start ≤ whole.length) (fuel : Nat)
    (h : cs <:+ whole) : Within whole (readCodes start fuel cs) := by
  induction fuel generalizing cs with
  | zero => exact hstart
  | succ fuel ih =>
      unfold readCodes
      split
      · exact hstart
      · exact .ok (tail_suffix h)
      · exact hstart
      · refine Within.bind (within_readUnits (tail_suffix h)) fun code rest hrest => ?_
        exact Within.bind (ih hrest) fun codes rest hrest => .ok hrest
      · have hrest := tail_suffix (tail_suffix h)
        split
        · exact .refuse h
        · exact Within.bind (ih hrest) fun codes rest hrest => .ok hrest
      · split
        · exact .refuse h
        · exact Within.bind (ih (tail_suffix h)) fun codes rest hrest => .ok hrest

theorem within_readString {quote : Char} (h : quote :: rest <:+ whole) :
    Within whole (readString rest) := by
  have hlength : rest.length + 1 ≤ whole.length := h.length_le
  refine Within.bind (within_readCodes hlength _ (tail_suffix h)) fun codes rest hrest => ?_
  exact .ok hrest

/-! ## Words and numbers -/

theorem suffix_of_readWord {found : Value × List Char} (h : cs <:+ whole)
    (hword : readWord? cs = some found) : found.2 <:+ whole := by
  obtain ⟨w, -, rfl⟩ := Option.map_eq_some_iff.mp hword
  exact (List.drop_suffix _ cs).trans h

theorem spanDigits_suffix (h : cs <:+ whole) : (spanDigits cs).2 <:+ whole :=
  (List.dropWhile_suffix _).trans h

theorem spanFraction_suffix (h : cs <:+ whole) : (spanFraction cs).2 <:+ whole := by
  unfold spanFraction
  split
  · dsimp only
    split
    · exact h
    · exact spanDigits_suffix (tail_suffix h)
  · exact h

theorem readSign_suffix (h : cs <:+ whole) : (readSign cs).2 <:+ whole := by
  unfold readSign
  split
  · exact tail_suffix h
  · exact tail_suffix h
  · exact h

theorem spanPower_suffix (h : cs <:+ whole) : (spanPower cs).2 <:+ whole := by
  unfold spanPower
  split
  · dsimp only
    split
    · split
      · exact h
      · exact spanDigits_suffix (readSign_suffix (tail_suffix h))
    · exact h
  · exact List.nil_suffix

/-- The digits in front of the point are a row of the text; if they are refused they are too
many. -/
theorem within_readNumber (h : cs <:+ whole) : Within whole (readNumber cs) := by
  unfold readNumber
  dsimp only
  generalize hunsigned : (if (cs.head? == some '-') = true then cs.drop 1 else cs) = unsigned
  have hunsigned : unsigned <:+ whole := by
    rw [← hunsigned]
    split
    · exact (List.drop_suffix 1 cs).trans h
    · exact h
  generalize hparts : (if (unsigned.head? == some '0') = true then (['0'], unsigned.drop 1)
    else spanDigits unsigned) = parts
  have hafter : parts.2 <:+ whole := by
    rw [← hparts]
    split
    · exact (List.drop_suffix 1 unsigned).trans hunsigned
    · exact spanDigits_suffix hunsigned
  have hrow (hlong : digitLimit < parts.1.length) : HasLongRow whole := by
    rw [← hparts] at hlong
    split at hlong
    · exact absurd hlong (Nat.not_lt_of_le (show 1 ≤ digitLimit by decide))
    · exact ⟨_, (List.takeWhile_prefix _).isInfix.trans hunsigned.isInfix, List.all_takeWhile,
        hlong⟩
  have hpower : (spanPower (spanFraction parts.2).2).2 <:+ whole :=
    spanPower_suffix (spanFraction_suffix hafter)
  split
  · exact .refuse h
  · split
    · split
      · exact hrow ‹_›
      · exact .ok hpower
    · exact .ok hpower

/-- A value that is written as a word. -/
inductive IsWord : Value → Prop
  | null : IsWord .null
  | bool (b : Bool) : IsWord (.bool b)
  | float (x : Double) : IsWord (.float x)

/-- A value that is written as a number. -/
inductive IsNumber : Value → Prop
  | int (n : Int) : IsNumber (.int n)
  | float (x : Double) : IsNumber (.float x)

theorem isWord_of_readWord {v : Value} (h : readWord? cs = some (v, rest)) : IsWord v := by
  obtain ⟨w, hfind, hw⟩ := Option.map_eq_some_iff.mp h
  have hmem : w ∈ wordValues := List.mem_of_find?_eq_some hfind
  have hvalue : w.2 = v := congrArg Prod.fst hw
  simp only [wordValues, List.mem_cons, List.not_mem_nil, or_false] at hmem
  rcases hmem with rfl | rfl | rfl | rfl | rfl | rfl <;> cases hvalue <;> constructor

theorem isNumber_of_readNumber {v : Value} (h : readNumber cs = .ok (v, rest)) : IsNumber v := by
  unfold readNumber at h
  dsimp only at h
  generalize (if (cs.head? == some '-') = true then cs.drop 1 else cs) = unsigned at h
  generalize (if (unsigned.head? == some '0') = true then (['0'], unsigned.drop 1)
    else spanDigits unsigned) = parts at h
  split at h
  · cases h
  · split at h
    · split at h
      · cases h
      · cases h
        exact .int _
    · cases h
      exact .float _

/-! ## Values -/

section Readers

variable {fuel : Nat}

theorem within_readValue_succ
    (hmembers : ∀ {cs}, cs <:+ whole → Within whole (readMembers fuel cs))
    (helements : ∀ {cs}, cs <:+ whole → Within whole (readElements fuel cs))
    (h : cs <:+ whole) : Within whole (readValue (fuel + 1) cs) := by
  unfold readValue
  split
  · exact within_readString h
  · have hrest := skipSpaces_suffix (tail_suffix h)
    split
    · rename_i heq
      exact .ok (tail_suffix (heq ▸ hrest))
    · exact Within.bind (hmembers hrest) fun entries after hafter => .ok hafter
  · have hrest := skipSpaces_suffix (tail_suffix h)
    split
    · rename_i heq
      exact .ok (tail_suffix (heq ▸ hrest))
    · exact Within.bind (helements hrest) fun items after hafter => .ok hafter
  · split
    · exact suffix_of_readWord h ‹_›
    · exact within_readNumber h

theorem within_readMembers_succ
    (hvalue : ∀ {cs}, cs <:+ whole → Within whole (readValue fuel cs))
    (hmembers : ∀ {cs}, cs <:+ whole → Within whole (readMembers fuel cs))
    (h : cs <:+ whole) : Within whole (readMembers (fuel + 1) cs) := by
  unfold readMembers
  split
  · refine Within.bind (within_readString h) fun name rest hname => ?_
    have hname := skipSpaces_suffix hname
    dsimp only
    split
    · rename_i heq
      have hcolon := skipSpaces_suffix (tail_suffix (heq ▸ hname))
      refine Within.bind (hvalue hcolon) fun value rest hrest => ?_
      have hrest := skipSpaces_suffix hrest
      dsimp only
      split
      · rename_i heq
        exact .ok (tail_suffix (heq ▸ hrest))
      · rename_i heq
        have hcomma := skipSpaces_suffix (tail_suffix (heq ▸ hrest))
        exact Within.bind (hmembers hcomma) fun entries after hafter => .ok hafter
      · exact .refuse hrest
    · exact .refuse hname
  · exact .refuse h

theorem within_readElements_succ
    (hvalue : ∀ {cs}, cs <:+ whole → Within whole (readValue fuel cs))
    (helements : ∀ {cs}, cs <:+ whole → Within whole (readElements fuel cs))
    (h : cs <:+ whole) : Within whole (readElements (fuel + 1) cs) := by
  unfold readElements
  refine Within.bind (hvalue h) fun value rest hrest => ?_
  have hrest := skipSpaces_suffix hrest
  dsimp only
  split
  · rename_i heq
    exact .ok (tail_suffix (heq ▸ hrest))
  · rename_i heq
    have hcomma := skipSpaces_suffix (tail_suffix (heq ▸ hrest))
    exact Within.bind (helements hcomma) fun values after hafter => .ok hafter
  · exact .refuse hrest

end Readers

/-- The readers of values, members and elements call each other; by induction on the number of
calls none of them leaves the text. -/
theorem within_readers (whole : List Char) (fuel : Nat) :
    (∀ {cs}, cs <:+ whole → Within whole (readValue fuel cs)) ∧
    (∀ {cs}, cs <:+ whole → Within whole (readMembers fuel cs)) ∧
    (∀ {cs}, cs <:+ whole → Within whole (readElements fuel cs)) := by
  induction fuel with
  | zero => exact ⟨.refuse, .refuse, .refuse⟩
  | succ fuel ih =>
      obtain ⟨hvalue, hmembers, helements⟩ := ih
      exact ⟨within_readValue_succ hmembers helements, within_readMembers_succ hvalue hmembers,
        within_readElements_succ hvalue helements⟩

/-- A whole text: a fault is placed in it, and an integer is only refused for its length. -/
theorem gives_read (cs : List Char) : Gives (MayRefuse cs) anything (read cs) := by
  unfold read
  split
  · exact Nat.le_refl _
  · refine Gives.bind ((within_readers cs _).1 (skipSpaces_suffix (List.suffix_refl cs)))
      fun found hfound => ?_
    dsimp only
    split
    · exact trivial
    · exact (skipSpaces_suffix hfound).length_le

/-! ## Objects -/

theorem readString_ne_dict {entries : Entries} : readString cs ≠ .ok (.dict entries, rest) := by
  intro h
  obtain ⟨found, -, hfound⟩ := Outcome.bind_eq_ok_iff.mp h
  have hcodes : Value.ofCodes found.1 = .dict entries := congrArg Prod.fst (Except.ok.inj hfound)
  unfold Value.ofCodes at hcodes
  split at hcodes <;> cases hcodes

/-- Only a text that starts with a brace is read as a mapping. -/
theorem head_of_readValue_dict {fuel : Nat} {entries : Entries}
    (h : readValue fuel cs = .ok (.dict entries, rest)) : cs.head? = some '\x7b' := by
  cases fuel with
  | zero => cases h
  | succ fuel =>
      unfold readValue at h
      split at h
      · exact absurd h readString_ne_dict
      · rfl
      · split at h
        · cases h
        · obtain ⟨found, -, hfound⟩ := Outcome.bind_eq_ok_iff.mp h
          cases hfound
      · split at h
        · cases h
          cases isWord_of_readWord ‹_›
        · cases isNumber_of_readNumber h

/-- A text that is read as a mapping starts with a brace, spaces apart. -/
theorem head_of_read_dict {entries : Entries} (h : read cs = .ok (.dict entries)) :
    (skipSpaces cs).head? = some '\x7b' := by
  unfold read at h
  split at h
  · cases h
  · obtain ⟨found, hread, hrest⟩ := Outcome.bind_eq_ok_iff.mp h
    obtain ⟨v, rest⟩ := found
    change (if (skipSpaces rest).isEmpty = true then _ else _) = _ at hrest
    split at hrest
    · cases hrest
      exact head_of_readValue_dict hread
    · cases hrest

end SemanticMarkup.Json
