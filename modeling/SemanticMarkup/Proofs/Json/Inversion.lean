import SemanticMarkup.Proofs.Json.Faults

/-!
# What one step of the JSON readers does

A reader that succeeds with one more unit of fuel has done one of a few things: it has
found a character or an escape, a whole value, or the parts of a member or an element in
front of the rest. What each step can do is said here once, so that whatever is proved of
all texts that are read is proved by the steps.
-/

namespace SemanticMarkup.Json

open SemanticMarkup.Number SemanticMarkup.Text

variable {fuel start : Nat} {cs rest after : List Char} {v : Value}

/-- A character or an escape inside a string, with its code point. -/
inductive CodeStep : List Char → Nat → List Char → Prop
  | unit {rest after : List Char} {code : Nat} (h : readUnits ('u' :: rest) = .ok (code, after)) :
      CodeStep ('\x5c' :: 'u' :: rest) code after
  | letter {c : Char} {code : Nat} (rest : List Char) (hc : c ≠ 'u')
      (h : letterEscape? c = some code) : CodeStep ('\x5c' :: c :: rest) code rest
  | plain {c : Char} (rest : List Char) (hquote : c ≠ '\x22') (hback : c ≠ '\x5c')
      (h : ¬c.toNat < 0x20) : CodeStep (c :: rest) c.toNat rest

theorem readCodes_succ_iff {codes : List Nat} :
    readCodes start (fuel + 1) cs = .ok (codes, rest) ↔
      (cs = '\x22' :: rest ∧ codes = []) ∨
      ∃ code after others, CodeStep cs code after ∧
        readCodes start fuel after = .ok (others, rest) ∧ codes = code :: others := by
  constructor
  · intro h
    unfold readCodes at h
    split at h
    · cases h
    · cases h
      exact .inl ⟨rfl, rfl⟩
    · cases h
    · obtain ⟨⟨code, after⟩, hunit, h⟩ := Outcome.bind_eq_ok_iff.mp h
      obtain ⟨⟨others, found⟩, hothers, h⟩ := Outcome.bind_eq_ok_iff.mp h
      cases h
      exact .inr ⟨code, after, others, .unit hunit, hothers, rfl⟩
    · rename_i c more hc
      split at h
      · cases h
      · rename_i code hcode
        obtain ⟨⟨others, found⟩, hothers, h⟩ := Outcome.bind_eq_ok_iff.mp h
        cases h
        exact .inr ⟨code, more, others, .letter more (fun hu => hc hu) hcode, hothers, rfl⟩
    · rename_i c more hquote hnil hunit hback
      split at h
      · cases h
      · rename_i hlow
        obtain ⟨⟨others, found⟩, hothers, h⟩ := Outcome.bind_eq_ok_iff.mp h
        cases h
        refine .inr ⟨c.toNat, more, others, .plain more hquote ?_ hlow, hothers, rfl⟩
        rintro rfl
        cases more with
        | nil => exact hnil rfl rfl
        | cons d more => exact hback d more rfl rfl
  · rintro (⟨rfl, rfl⟩ | ⟨code, after, others, hstep, hothers, rfl⟩)
    · rfl
    · cases hstep with
      | unit h =>
          rw [readCodes, h]
          change readCodes start fuel after >>= _ = _
          rw [hothers]
          rfl
      | letter rest hc h =>
          rw [readCodes, h]
          · change readCodes start fuel after >>= _ = _
            rw [hothers]
            rfl
          · exact hc
      | plain rest hquote hback h =>
          rw [readCodes, if_neg h, hothers]
          · rfl
          · exact hquote
          · exact fun hc _ => hback hc
          · exact fun _ hc _ => hback hc
          · exact fun _ _ hc _ => hback hc

theorem readString_eq_ok_iff : readString cs = .ok (v, rest) ↔
    ∃ codes, readCodes (cs.length + 1) (cs.length + 1) cs = .ok (codes, rest) ∧
      v = Value.ofCodes codes := by
  constructor
  · intro h
    obtain ⟨⟨codes, found⟩, hcodes, h⟩ := Outcome.bind_eq_ok_iff.mp h
    cases h
    exact ⟨codes, hcodes, rfl⟩
  · rintro ⟨codes, hcodes, rfl⟩
    rw [readString, hcodes]
    rfl

/-- The text starts with no string, object or array. -/
def StartsPlain (cs : List Char) : Prop :=
  ∀ c ∈ cs.head?, c ≠ '\x22' ∧ c ≠ '\x7b' ∧ c ≠ '['

/-- What a value starts with decides how it is read. -/
inductive ValueStep (fuel : Nat) : List Char → Value → List Char → Prop
  | string {more rest : List Char} {v : Value} (h : readString more = .ok (v, rest)) :
      ValueStep fuel ('\x22' :: more) v rest
  | noMembers {more rest : List Char} (h : skipSpaces more = '\x7d' :: rest) :
      ValueStep fuel ('\x7b' :: more) (.dict []) rest
  | members {more rest : List Char} {entries : Entries}
      (hopen : ∀ after, skipSpaces more ≠ '\x7d' :: after)
      (h : readMembers fuel (skipSpaces more) = .ok (entries, rest)) :
      ValueStep fuel ('\x7b' :: more) (.dict (Entries.ofPairs entries)) rest
  | noElements {more rest : List Char} (h : skipSpaces more = ']' :: rest) :
      ValueStep fuel ('[' :: more) (.list []) rest
  | elements {more rest : List Char} {items : List Value}
      (hopen : ∀ after, skipSpaces more ≠ ']' :: after)
      (h : readElements fuel (skipSpaces more) = .ok (items, rest)) :
      ValueStep fuel ('[' :: more) (.list items) rest
  | word {cs rest : List Char} {v : Value} (hstart : StartsPlain cs)
      (h : readWord? cs = some (v, rest)) : ValueStep fuel cs v rest
  | number {cs rest : List Char} {v : Value} (hstart : StartsPlain cs)
      (hword : readWord? cs = none) (h : readNumber cs = .ok (v, rest)) : ValueStep fuel cs v rest

theorem readValue_of_startsPlain (h : StartsPlain cs) :
    readValue (fuel + 1) cs = (readWord? cs).elim (readNumber cs) .ok := by
  rw [readValue]
  · cases readWord? cs <;> rfl
  · rintro more rfl
    exact (h _ rfl).1 rfl
  · rintro more rfl
    exact (h _ rfl).2.1 rfl
  · rintro more rfl
    exact (h _ rfl).2.2 rfl

theorem valueStep_of_readValue (h : readValue (fuel + 1) cs = .ok (v, rest)) :
    ValueStep fuel cs v rest := by
  unfold readValue at h
  split at h
  · exact .string h
  · split at h
    · rename_i hclosed
      cases h
      exact .noMembers hclosed
    · rename_i hopen
      obtain ⟨⟨entries, after⟩, hmembers, h⟩ := Outcome.bind_eq_ok_iff.mp h
      cases h
      exact .members hopen hmembers
  · split at h
    · rename_i hclosed
      cases h
      exact .noElements hclosed
    · rename_i hopen
      obtain ⟨⟨items, after⟩, helements, h⟩ := Outcome.bind_eq_ok_iff.mp h
      cases h
      exact .elements hopen helements
  · rename_i hquote hbrace hbracket
    have hstart : StartsPlain cs := by
      intro c hc
      obtain ⟨more, rfl⟩ := List.head?_eq_some_iff.mp hc
      refine ⟨?_, ?_, ?_⟩ <;> rintro rfl
      · exact hquote _ rfl
      · exact hbrace _ rfl
      · exact hbracket _ rfl
    split at h
    · rename_i hword
      cases h
      exact .word hstart hword
    · exact .number hstart ‹_› h

theorem readValue_of_valueStep (h : ValueStep fuel cs v rest) :
    readValue (fuel + 1) cs = .ok (v, rest) := by
  cases h with
  | string h => exact h
  | noMembers h =>
      rw [readValue, h]
      rfl
  | members hopen h =>
      rw [readValue]
      split
      · exact absurd ‹_› (hopen _)
      · rw [h]
        rfl
  | noElements h =>
      rw [readValue, h]
      rfl
  | elements hopen h =>
      rw [readValue]
      split
      · exact absurd ‹_› (hopen _)
      · rw [h]
        rfl
  | word hstart h => rw [readValue_of_startsPlain hstart, h, Option.elim_some]
  | number hstart hword h => rw [readValue_of_startsPlain hstart, hword, Option.elim_none, h]

/-- A value is read by one of the steps. -/
theorem readValue_succ_iff : readValue (fuel + 1) cs = .ok (v, rest) ↔ ValueStep fuel cs v rest :=
  ⟨valueStep_of_readValue, readValue_of_valueStep⟩

/-- Behind a member comes the closing brace, or a comma with the other members. -/
inductive MembersStep (fuel : Nat) (rest : List Char) : Entries → List Char → Prop
  | last {after : List Char} (h : skipSpaces rest = '\x7d' :: after) :
      MembersStep fuel rest [] after
  | next {more after : List Char} {entries : Entries} (hcomma : skipSpaces rest = ',' :: more)
      (h : readMembers fuel (skipSpaces more) = .ok (entries, after)) :
      MembersStep fuel rest entries after

theorem readMembers_succ_iff {entries : Entries} :
    readMembers (fuel + 1) cs = .ok (entries, after) ↔
      ∃ more name named colon value rest others, cs = '\x22' :: more ∧
        readString more = .ok (name, named) ∧ skipSpaces named = ':' :: colon ∧
        readValue fuel (skipSpaces colon) = .ok (value, rest) ∧
        MembersStep fuel rest others after ∧ entries = (name, value) :: others := by
  constructor
  · intro h
    unfold readMembers at h
    split at h
    · rename_i more
      obtain ⟨⟨name, named⟩, hname, h⟩ := Outcome.bind_eq_ok_iff.mp h
      dsimp only at h
      split at h
      · rename_i colon hcolon
        obtain ⟨⟨value, rest⟩, hvalue, h⟩ := Outcome.bind_eq_ok_iff.mp h
        dsimp only at h
        split at h
        · rename_i hclosed
          cases h
          exact ⟨more, name, named, colon, value, rest, [], rfl, hname, hcolon, hvalue,
            .last hclosed, rfl⟩
        · rename_i next hcomma
          obtain ⟨⟨others, found⟩, hothers, h⟩ := Outcome.bind_eq_ok_iff.mp h
          cases h
          exact ⟨more, name, named, colon, value, rest, others, rfl, hname, hcolon, hvalue,
            .next hcomma hothers, rfl⟩
        · cases h
      · cases h
    · cases h
  · rintro ⟨more, name, named, colon, value, rest, others, rfl, hname, hcolon, hvalue, hstep, rfl⟩
    rw [readMembers, hname]
    dsimp only [bind, Except.bind]
    rw [hcolon]
    change readValue fuel (skipSpaces colon) >>= _ = _
    rw [hvalue]
    dsimp only [bind, Except.bind]
    cases hstep with
    | last h =>
        rw [h]
        rfl
    | next hcomma h =>
        rw [hcomma]
        change readMembers fuel (skipSpaces _) >>= _ = _
        rw [h]
        rfl

/-- Behind an element comes the closing bracket, or a comma with the other elements. -/
inductive ElementsStep (fuel : Nat) (rest : List Char) : List Value → List Char → Prop
  | last {after : List Char} (h : skipSpaces rest = ']' :: after) : ElementsStep fuel rest [] after
  | next {more after : List Char} {items : List Value} (hcomma : skipSpaces rest = ',' :: more)
      (h : readElements fuel (skipSpaces more) = .ok (items, after)) :
      ElementsStep fuel rest items after

theorem readElements_succ_iff {items : List Value} :
    readElements (fuel + 1) cs = .ok (items, after) ↔
      ∃ value rest others, readValue fuel cs = .ok (value, rest) ∧
        ElementsStep fuel rest others after ∧ items = value :: others := by
  constructor
  · intro h
    unfold readElements at h
    obtain ⟨⟨value, rest⟩, hvalue, h⟩ := Outcome.bind_eq_ok_iff.mp h
    dsimp only at h
    split at h
    · rename_i hclosed
      cases h
      exact ⟨value, rest, [], hvalue, .last hclosed, rfl⟩
    · rename_i next hcomma
      obtain ⟨⟨others, found⟩, hothers, h⟩ := Outcome.bind_eq_ok_iff.mp h
      cases h
      exact ⟨value, rest, others, hvalue, .next hcomma hothers, rfl⟩
    · cases h
  · rintro ⟨value, rest, others, hvalue, hstep, rfl⟩
    rw [readElements, hvalue]
    dsimp only [bind, Except.bind]
    cases hstep with
    | last h =>
        rw [h]
        rfl
    | next hcomma h =>
        rw [hcomma]
        change readElements fuel (skipSpaces _) >>= _ = _
        rw [h]
        rfl

/-- The kinds of values that JSON has. -/
inductive IsJson : Value → Prop
  | string {v : Value} (h : v.IsString) : IsJson v
  | dict (entries : Entries) : IsJson (.dict entries)
  | list (items : List Value) : IsJson (.list items)
  | word {v : Value} (h : IsWord v) : IsJson v
  | number {v : Value} (h : IsNumber v) : IsJson v

theorem isString_ofCodes (codes : List Nat) : (Value.ofCodes codes).IsString := by
  unfold Value.ofCodes
  split
  · exact .text _
  · exact .garbled _

theorem isJson_of_readValue (h : readValue fuel cs = .ok (v, rest)) : IsJson v := by
  cases fuel with
  | zero => cases h
  | succ fuel =>
      cases readValue_succ_iff.mp h with
      | string h =>
          obtain ⟨codes, -, rfl⟩ := readString_eq_ok_iff.mp h
          exact .string (isString_ofCodes codes)
      | noMembers => exact .dict []
      | members => exact .dict _
      | noElements => exact .list []
      | elements => exact .list _
      | word hstart h => exact .word (isWord_of_readWord h)
      | number hstart hword h => exact .number (isNumber_of_readNumber h)

/-- Only a text that starts with a quote is read as a string. -/
theorem exists_string_of_readValue (h : readValue fuel cs = .ok (v, rest)) (hv : v.IsString) :
    ∃ more, cs = '\x22' :: more ∧ readString more = .ok (v, rest) := by
  cases fuel with
  | zero => cases h
  | succ fuel =>
      cases readValue_succ_iff.mp h with
      | @string more _ _ h => exact ⟨more, rfl, h⟩
      | noMembers | members | noElements | elements => cases hv
      | word hstart h => cases isWord_of_readWord h <;> cases hv
      | number hstart hword h => cases isNumber_of_readNumber h <;> cases hv

/-- Only a text that starts with a bracket is read as a list. -/
theorem exists_elements_of_readValue {items : List Value}
    (h : readValue (fuel + 1) cs = .ok (.list items, rest)) : ∃ more, cs = '[' :: more ∧
      (items = [] ∧ skipSpaces more = ']' :: rest ∨
        readElements fuel (skipSpaces more) = .ok (items, rest)) := by
  generalize hitems : Value.list items = v at h
  cases readValue_succ_iff.mp h with
  | string h =>
      obtain ⟨codes, -, rfl⟩ := readString_eq_ok_iff.mp h
      have hstring := isString_ofCodes codes
      rw [← hitems] at hstring
      cases hstring
  | noMembers | members => cases hitems
  | @noElements more _ h =>
      cases hitems
      exact ⟨more, rfl, .inl ⟨rfl, h⟩⟩
  | @elements more _ _ hopen h =>
      cases hitems
      exact ⟨more, rfl, .inr h⟩
  | word hstart h =>
      subst hitems
      cases isWord_of_readWord h
  | number hstart hword h =>
      subst hitems
      cases isNumber_of_readNumber h

theorem isJson_of_readElements {items : List Value}
    (h : readElements fuel cs = .ok (items, after)) : ∀ item ∈ items, IsJson item := by
  induction fuel generalizing cs items with
  | zero => cases h
  | succ fuel ih =>
      obtain ⟨value, rest, others, hvalue, hstep, rfl⟩ := readElements_succ_iff.mp h
      refine List.forall_mem_cons.mpr ⟨isJson_of_readValue hvalue, ?_⟩
      cases hstep with
      | last h => exact nofun
      | next hcomma h => exact ih h

end SemanticMarkup.Json
