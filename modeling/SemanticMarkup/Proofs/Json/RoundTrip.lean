import SemanticMarkup.Proofs.Json.Data
import SemanticMarkup.Proofs.Number.Printed
import SemanticMarkup.Value.Text

/-!
# JSON is read back

What is written as JSON is read back, as far as JSON has the kinds of values: nothing, truth values,
integers, strings, lists, and mappings with strings as names. Tuples come back as lists, names that
are numbers come back as strings.

## Implementation notes

The readers of values, members and elements call each other with one unit of fuel less. Each of
them leaves at least one character behind, so the length of the text is fuel enough.
-/

namespace SemanticMarkup.Json

open SemanticMarkup.Number SemanticMarkup.Text

/-! ## Integers and words -/

/-- Whether a character may continue a number. -/
def continuesNumber (c : Char) : Bool :=
  c.isDigit || c == '.' || c == 'e' || c == 'E'

/-- No number goes on in a text. -/
abbrev Closes (rest : List Char) : Prop :=
  Directive.Stops continuesNumber rest

variable {rest : List Char}

theorem Closes.digits (h : Closes rest) : Directive.Stops Char.isDigit rest := by
  intro c hc
  have hcont := h c hc
  simp only [continuesNumber, Bool.or_eq_false_iff] at hcont
  exact hcont.1.1.1

theorem Closes.cons {c : Char} (h : continuesNumber c = false) (more : List Char) :
    Closes (c :: more) := by
  intro d hd
  rw [← Option.some.inj hd]
  exact h

theorem Closes.spanFraction (h : Closes rest) : spanFraction rest = ([], rest) := by
  rw [Json.spanFraction]
  rintro more rfl
  exact absurd (h '.' rfl) (by decide)

theorem Closes.spanPower (h : Closes rest) : spanPower rest = (none, rest) := by
  cases rest with
  | nil => rfl
  | cons c rest =>
      rw [Json.spanPower, if_neg]
      rintro (rfl | rfl)
      · exact absurd (h 'e' rfl) (by decide)
      · exact absurd (h 'E' rfl) (by decide)

/-- No numeral but that of zero starts with a zero. -/
theorem head?_toDigits {n : Nat} (h : 0 < n) : (Nat.toDigits 10 n).head? ≠ some '0' := by
  induction n using Nat.strongRecOn with
  | _ n ih =>
      obtain hlt | hle := Nat.lt_or_ge n 10
      · rw [Nat.toDigits_of_lt_base hlt]
        exact (by decide : ∀ n, n < 10 → 0 < n → [n.digitChar].head? ≠ some '0') n hlt h
      · rw [Nat.toDigits_of_base_le (by decide) hle,
          List.head?_append_of_ne_nil _ Nat.toDigits_ne_nil]
        exact ih (n / 10) (Nat.div_lt_self h (by decide)) (Nat.div_pos hle (by decide))

/-- The digits in front of a text that does not go on with digits. -/
theorem span_toDigits (n : Nat) (hrest : Closes rest) :
    (if (Nat.toDigits 10 n ++ rest).head? == some '0' then
        (['0'], (Nat.toDigits 10 n ++ rest).drop 1)
      else spanDigits (Nat.toDigits 10 n ++ rest)) = (Nat.toDigits 10 n, rest) := by
  obtain rfl | hpos := Nat.eq_zero_or_pos n
  · rfl
  · have hhead : (Nat.toDigits 10 n ++ rest).head? ≠ some '0' := by
      rw [List.head?_append_of_ne_nil _ Nat.toDigits_ne_nil]
      exact head?_toDigits hpos
    rw [if_neg (by simpa using hhead)]
    exact IsNumeral.spanDigits_append (isDigit_toDigits n) hrest.digits

/-- A numeral starts with a digit. -/
theorem exists_cons_toDigits (n : Nat) :
    ∃ c more, Nat.toDigits 10 n = c :: more ∧ c.isDigit = true := by
  obtain ⟨c, more, hcons⟩ := List.exists_cons_of_ne_nil (Nat.toDigits_ne_nil (b := 10) (n := n))
  exact ⟨c, more, hcons, isDigit_toDigits n c (by rw [hcons]; exact List.mem_cons_self)⟩

theorem ne_of_isDigit {c other : Char} (h : c.isDigit = true) (hother : other.isDigit = false) :
    c ≠ other := by
  rintro rfl
  rw [h] at hother
  cases hother

/-- An integer starts with a minus or a digit. -/
theorem exists_cons_intText (n : Int) :
    ∃ c more, intText n = c :: more ∧ (c = '-' ∨ c.isDigit = true) := by
  cases n with
  | ofNat k =>
      obtain ⟨c, more, hcons, hc⟩ := exists_cons_toDigits k
      exact ⟨c, more, hcons, .inr hc⟩
  | negSucc k => exact ⟨'-', _, rfl, .inl rfl⟩

/-- The digits behind a sign make an integer. -/
theorem readNumber_toDigits {cs : List Char} {n : Nat} (hdigits : digitCount n ≤ digitLimit)
    (hrest : Closes rest) (hcs : cs = Nat.toDigits 10 n ++ rest ∨
      cs = '-' :: (Nat.toDigits 10 n ++ rest)) :
    readNumber cs = .ok (.int (if cs.head? == some '-' then -(n : Int) else n), rest) := by
  have hunsigned : (if cs.head? == some '-' then cs.drop 1 else cs) =
      Nat.toDigits 10 n ++ rest := by
    obtain rfl | rfl := hcs
    · obtain ⟨c, more, hcons, hc⟩ := exists_cons_toDigits n
      rw [hcons, List.cons_append, List.head?_cons, if_neg]
      simpa using ne_of_isDigit hc (by decide)
    · rfl
  have hne : (Nat.toDigits 10 n).isEmpty = false := by simp [Nat.toDigits_ne_nil]
  simp only [readNumber, hunsigned, span_toDigits n hrest, hrest.spanFraction, hrest.spanPower, hne,
    digitsToNat_toDigits]
  exact if_neg (Nat.not_lt.mpr hdigits)

/-- An integer is read back. -/
theorem readNumber_intText {n : Int} (hdigits : digitCount n.natAbs ≤ digitLimit)
    (hrest : Closes rest) : readNumber (intText n ++ rest) = .ok (.int n, rest) := by
  cases n with
  | ofNat k =>
      obtain ⟨c, more, hcons, hc⟩ := exists_cons_toDigits k
      have hsign : ¬ ((Nat.toDigits 10 k ++ rest).head? == some '-') = true := by
        rw [hcons, List.cons_append, List.head?_cons]
        simpa using ne_of_isDigit hc (by decide)
      have hread : readNumber (Nat.toDigits 10 k ++ rest) = _ :=
        readNumber_toDigits hdigits hrest (.inl rfl)
      rw [intText, hread, if_neg hsign]
      rfl
  | negSucc k =>
      exact readNumber_toDigits (n := k + 1) hdigits hrest (.inr rfl)

/-- An integer is no word. -/
theorem readWord?_intText (n : Int) (rest : List Char) : readWord? (intText n ++ rest) = none := by
  cases n with
  | ofNat k =>
      obtain ⟨c, more, hcons, hc⟩ := exists_cons_toDigits k
      have hne (letter : Char) (hletter : letter.isDigit = false) : letter ≠ c :=
        (ne_of_isDigit hc hletter).symm
      rw [intText, hcons]
      simp [readWord?, wordValues, hne 'n' (by decide), hne 't' (by decide), hne 'f' (by decide),
        hne 'N' (by decide), hne 'I' (by decide), hne '-' (by decide)]
  | negSucc k =>
      obtain ⟨c, more, hcons, hc⟩ := exists_cons_toDigits (k + 1)
      have hne : 'I' ≠ c := (ne_of_isDigit hc (by decide)).symm
      rw [intText, hcons]
      simp [readWord?, wordValues, hne]

/-! ## First characters -/

/-- Whether a character can be the first one of a value: it is no space, it closes no list, and it
is no mark in front of a whole text. -/
def opens (c : Char) : Bool :=
  !isSpace c && c != ']' && c != byteOrderMark

theorem opens_of_isDigit {c : Char} (h : c.isDigit = true) : opens c = true := by
  have hspace : isSpace c = false := by
    simp [isSpace, ne_of_isDigit h (show (' ').isDigit = false by decide),
      ne_of_isDigit h (show ('\t').isDigit = false by decide),
      ne_of_isDigit h (show ('\n').isDigit = false by decide),
      ne_of_isDigit h (show ('\r').isDigit = false by decide)]
  simp [opens, hspace, ne_of_isDigit h (show (']').isDigit = false by decide),
    ne_of_isDigit h (show byteOrderMark.isDigit = false by decide)]

theorem writeInt_eq_ok_iff {n : Int} {cs : List Char} :
    writeInt n = .ok cs ↔ digitCount n.natAbs ≤ digitLimit ∧ intText n = cs := by
  simp only [writeInt, Value.isWritable, decide_eq_true_eq]
  split
  · simp [*]
  · simp [*]

/-- What is written of data starts with a character that opens a value. -/
theorem exists_cons_of_write {v : Value} (h : isKept v = true) {cs : List Char}
    (hcs : write v = .ok cs) : ∃ c more, cs = c :: more ∧ opens c = true := by
  cases v with
  | null => exact ⟨'n', _, (Except.ok.inj hcs).symm, by decide⟩
  | bool b =>
      cases b with
      | false => exact ⟨'f', _, (Except.ok.inj hcs).symm, by decide⟩
      | true => exact ⟨'t', _, (Except.ok.inj hcs).symm, by decide⟩
  | int n =>
      obtain ⟨-, rfl⟩ := writeInt_eq_ok_iff.mp hcs
      obtain ⟨c, more, hcons, rfl | hc⟩ := exists_cons_intText n
      · exact ⟨'-', more, hcons, by decide⟩
      · exact ⟨c, more, hcons, opens_of_isDigit hc⟩
  | text | garbled => exact ⟨doubleQuote, _, (Except.ok.inj hcs).symm, by decide⟩
  | list items =>
      obtain ⟨parts, -, hcs⟩ := Outcome.bind_eq_ok_iff.mp hcs
      exact ⟨'[', _, (Except.ok.inj hcs).symm, by decide⟩
  | dict entries =>
      obtain ⟨parts, -, hcs⟩ := Outcome.bind_eq_ok_iff.mp hcs
      exact ⟨'\x7b', _, (Except.ok.inj hcs).symm, by decide⟩
  | _ => cases h

theorem skipSpaces_of_opens {c : Char} (h : opens c = true) (more : List Char) :
    skipSpaces (c :: more) = c :: more := by
  have hspace : isSpace c = false := by
    simp only [opens, Bool.and_eq_true, Bool.not_eq_true'] at h
    exact h.1.1
  rw [skipSpaces, List.dropWhile_cons_of_neg (by simp [hspace])]

/-! ## Values -/

/-- A string that JSON keeps is written by its code points. -/
theorem exists_codes_of_isKeptString {v : Value} (h : isKeptString v = true) :
    ∃ codes, Unpaired codes ∧ Value.ofCodes codes = v ∧ write v = .ok (writeCodes codes) ∧
      writeKey v = .ok (writeCodes codes) := by
  cases v with
  | text s => exact ⟨_, unpaired_toNat s.toList, ofCodes_toNat s, rfl, rfl⟩
  | garbled codes =>
      obtain ⟨hunpaired, hinvalid⟩ := (Bool.and_eq_true _ _).mp h
      rw [Bool.not_eq_true'] at hinvalid
      refine ⟨codes, of_decide_eq_true hunpaired, ?_, rfl, rfl⟩
      rw [Value.ofCodes, if_neg (Bool.eq_false_iff.mp hinvalid)]
  | _ => cases h

/-- A string is read back. -/
theorem readString_of_isKeptString {v : Value} {codes : List Nat} (hcodes : Unpaired codes)
    (hv : Value.ofCodes codes = v) (rest : List Char) :
    readString (codes.flatMap writeCode ++ [doubleQuote] ++ rest) = .ok (v, rest) := by
  rw [List.append_assoc, List.singleton_append, readString_writeCodes hcodes, hv]

theorem readValue_of_isKeptString {v : Value} (h : isKeptString v = true) {cs : List Char}
    (hcs : write v = .ok cs) (fuel : Nat) : readValue (fuel + 1) (cs ++ rest) = .ok (v, rest) := by
  obtain ⟨codes, hcodes, hv, hwrite, -⟩ := exists_codes_of_isKeptString h
  obtain rfl := Except.ok.inj (hcs.symm.trans hwrite)
  exact readString_of_isKeptString hcodes hv rest

/-- An integer is read back as a value: it starts as no string, list or mapping does, and it is no
word. -/
theorem readValue_intText {n : Int} (hdigits : digitCount n.natAbs ≤ digitLimit)
    (hrest : Closes rest) (fuel : Nat) :
    readValue (fuel + 1) (intText n ++ rest) = .ok (.int n, rest) := by
  have hword := readWord?_intText n rest
  have hnumber := readNumber_intText hdigits hrest
  obtain ⟨c, more, hcons, hc⟩ := exists_cons_intText n
  have hne {other : Char} (hminus : '-' ≠ other) (hdigit : other.isDigit = false) : c ≠ other := by
    obtain rfl | hc := hc
    · exact hminus
    · exact ne_of_isDigit hc hdigit
  rw [hcons, List.cons_append] at hword hnumber ⊢
  rw [readValue, hword]
  · exact hnumber
  · exact fun _ h => hne (by decide) (by decide) (List.cons.inj h).1
  · exact fun _ h => hne (by decide) (by decide) (List.cons.inj h).1
  · exact fun _ h => hne (by decide) (by decide) (List.cons.inj h).1

/-- Parts in a row start with the first one. -/
theorem exists_intercalate_cons (sep part : List Char) (parts : List (List Char)) :
    ∃ back, sep.intercalate (part :: parts) = part ++ back := by
  cases parts with
  | nil => exact ⟨[], List.intercalate_singleton.trans (List.append_nil part).symm⟩
  | cons next parts => exact ⟨_, List.intercalate_cons_cons.trans (List.append_assoc ..)⟩

theorem writeItems_cons_eq_ok {v : Value} {vs : List Value} {parts : List (List Char)}
    (h : writeItems (v :: vs) = .ok parts) :
    ∃ item others, write v = .ok item ∧ writeItems vs = .ok others ∧ parts = item :: others := by
  obtain ⟨item, hitem, h⟩ := Outcome.bind_eq_ok_iff.mp h
  obtain ⟨others, hothers, h⟩ := Outcome.bind_eq_ok_iff.mp h
  exact ⟨item, others, hitem, hothers, (Except.ok.inj h).symm⟩

theorem writeEntries_cons_eq_ok {k v : Value} {entries : List (Value × Value)}
    {parts : List (List Char)} (h : writeEntries ((k, v) :: entries) = .ok parts) :
    ∃ key item others, writeKey k = .ok key ∧ write v = .ok item ∧
      writeEntries entries = .ok others ∧ parts = (key ++ ':' :: ' ' :: item) :: others := by
  obtain ⟨key, hkey, h⟩ := Outcome.bind_eq_ok_iff.mp h
  obtain ⟨item, hitem, h⟩ := Outcome.bind_eq_ok_iff.mp h
  obtain ⟨others, hothers, h⟩ := Outcome.bind_eq_ok_iff.mp h
  exact ⟨key, item, others, hkey, hitem, hothers, (Except.ok.inj h).symm⟩

theorem skipSpaces_blank {c : Char} (h : opens c = true) (more : List Char) :
    skipSpaces (' ' :: c :: more) = c :: more := by
  have hblank : skipSpaces (' ' :: c :: more) = skipSpaces (c :: more) :=
    List.dropWhile_cons_of_pos (by decide)
  rw [hblank, skipSpaces_of_opens h]

/-- The reader of a list turns to its elements, if there are any. -/
theorem readValue_bracket {c : Char} (h : opens c = true) (more : List Char) (fuel : Nat) :
    readValue (fuel + 1) ('[' :: c :: more) =
      (readElements fuel (c :: more)).map fun found => (.list found.1, found.2) := by
  rw [readValue, skipSpaces_of_opens h]
  split
  · rename_i heq
    rw [(List.cons.inj heq).1] at h
    exact absurd h (by decide)
  · cases readElements fuel (c :: more) <;> rfl

/-- The reader of a mapping turns to its members, if there are any. -/
theorem readValue_brace (more : List Char) (fuel : Nat) :
    readValue (fuel + 1) ('\x7b' :: doubleQuote :: more) =
      (readMembers fuel (doubleQuote :: more)).map fun found =>
        (.dict (Entries.ofPairs found.1), found.2) := by
  change readMembers fuel (doubleQuote :: more) >>= _ = _
  cases readMembers fuel (doubleQuote :: more) <;> rfl

section Steps

variable {v name : Value} {cs more : List Char} {fuel : Nat} {c : Char}

theorem readElements_last (h : readValue fuel cs = .ok (v, ']' :: rest)) :
    readElements (fuel + 1) cs = .ok ([v], rest) := by
  rw [readElements, h]
  rfl

theorem readElements_next (h : readValue fuel cs = .ok (v, ',' :: ' ' :: c :: more))
    (hc : opens c = true) :
    readElements (fuel + 1) cs =
      (readElements fuel (c :: more)).map fun found => (v :: found.1, found.2) := by
  rw [readElements, h]
  change readElements fuel (skipSpaces (' ' :: c :: more)) >>= _ = _
  rw [skipSpaces_blank hc]
  cases readElements fuel (c :: more) <;> rfl

theorem readMembers_last (hname : readString cs = .ok (name, ':' :: ' ' :: c :: more))
    (hc : opens c = true) (hv : readValue fuel (c :: more) = .ok (v, '\x7d' :: rest)) :
    readMembers (fuel + 1) (doubleQuote :: cs) = .ok ([(name, v)], rest) := by
  change readMembers (fuel + 1) ('\x22' :: cs) = _
  rw [readMembers, hname]
  change readValue fuel (skipSpaces (' ' :: c :: more)) >>= _ = _
  rw [skipSpaces_blank hc, hv]
  rfl

theorem readMembers_next {d : Char} {back : List Char}
    (hname : readString cs = .ok (name, ':' :: ' ' :: c :: more)) (hc : opens c = true)
    (hv : readValue fuel (c :: more) = .ok (v, ',' :: ' ' :: d :: back)) (hd : opens d = true) :
    readMembers (fuel + 1) (doubleQuote :: cs) =
      (readMembers fuel (d :: back)).map fun found => ((name, v) :: found.1, found.2) := by
  change readMembers (fuel + 1) ('\x22' :: cs) = _
  rw [readMembers, hname]
  change readValue fuel (skipSpaces (' ' :: c :: more)) >>= _ = _
  rw [skipSpaces_blank hc, hv]
  change readMembers fuel (skipSpaces (' ' :: d :: back)) >>= _ = _
  rw [skipSpaces_blank hd]
  cases readMembers fuel (d :: back) <;> rfl

end Steps

/-- What is written of elements starts with what is written of the first one. -/
theorem exists_cons_of_writeItems {items : List Value} (hne : items ≠ [])
    (hkept : areKept items = true) {parts : List (List Char)}
    (hparts : writeItems items = .ok parts) :
    ∃ c more, [',', ' '].intercalate parts = c :: more ∧ opens c = true := by
  obtain ⟨v, vs, rfl⟩ := List.exists_cons_of_ne_nil hne
  obtain ⟨item, others, hitem, -, rfl⟩ := writeItems_cons_eq_ok hparts
  obtain ⟨c, more, rfl, hc⟩ := exists_cons_of_write ((Bool.and_eq_true _ _).mp hkept).1 hitem
  obtain ⟨back, hback⟩ := exists_intercalate_cons [',', ' '] (c :: more) others
  exact ⟨c, more ++ back, hback, hc⟩

/-- What is written of members starts with a quote. -/
theorem exists_cons_of_writeEntries {entries : List (Value × Value)} (hne : entries ≠ [])
    (hkept : areKeptMembers entries = true) {parts : List (List Char)}
    (hparts : writeEntries entries = .ok parts) :
    ∃ more, [',', ' '].intercalate parts = doubleQuote :: more := by
  obtain ⟨⟨k, v⟩, rest, rfl⟩ := List.exists_cons_of_ne_nil hne
  obtain ⟨key, item, others, hkey, -, -, rfl⟩ := writeEntries_cons_eq_ok hparts
  have hname : isKeptString k = true := by
    simp only [areKeptMembers, Bool.and_eq_true] at hkept
    exact hkept.1.1
  obtain ⟨codes, -, -, -, hwrite⟩ := exists_codes_of_isKeptString hname
  obtain rfl := Except.ok.inj (hkey.symm.trans hwrite)
  obtain ⟨back, hback⟩ :=
    exists_intercalate_cons [',', ' '] (writeCodes codes ++ ':' :: ' ' :: item) others
  exact ⟨_, hback⟩

/-- A part in front of others is separated from them. -/
theorem intercalate_cons {parts : List (List Char)} {c : Char} {more : List Char}
    (hparts : [',', ' '].intercalate parts = c :: more) (part : List Char) :
    [',', ' '].intercalate (part :: parts) = part ++ ',' :: ' ' :: c :: more := by
  cases parts with
  | nil => cases hparts
  | cons next parts =>
      rw [List.intercalate_cons_cons, hparts, List.append_assoc]
      rfl

theorem enclose_append (left right : Char) (parts : List (List Char)) (rest : List Char) :
    enclose left right parts ++ rest = left :: ([',', ' '].intercalate parts ++ right :: rest) := by
  rw [enclose, List.append_assoc]
  rfl

theorem length_intercalate_lt {left right : Char} {parts : List (List Char)} {fuel : Nat}
    (h : (enclose left right parts).length ≤ fuel + 1) :
    ([',', ' '].intercalate parts).length < fuel := by
  simp only [enclose, List.length_cons, List.length_append, List.length_nil] at h
  omega

-- The induction is on the data. The fuel is bounded by the text that is left: a bracket or a
-- separator is gone whenever one reader calls another one with less fuel.
mutual

/-- Data is read back from its JSON. -/
theorem readValue_write (v : Value) {cs rest : List Char} {fuel : Nat} (hkept : isKept v = true)
    (hcs : write v = .ok cs) (hfuel : cs.length ≤ fuel) (hrest : Closes rest) :
    readValue fuel (cs ++ rest) = .ok (v, rest) := by
  obtain ⟨fuel, rfl⟩ : ∃ less, fuel = less + 1 := by
    obtain ⟨c, more, rfl, -⟩ := exists_cons_of_write hkept hcs
    exact Nat.exists_eq_add_one.mpr (Nat.lt_of_lt_of_le (Nat.succ_pos _) hfuel)
  cases v with
  | null =>
      obtain rfl := Except.ok.inj hcs
      rfl
  | bool b =>
      cases b with
      | false =>
          obtain rfl := Except.ok.inj hcs
          rfl
      | true =>
          obtain rfl := Except.ok.inj hcs
          rfl
  | int n =>
      obtain ⟨hdigits, rfl⟩ := writeInt_eq_ok_iff.mp hcs
      exact readValue_intText hdigits hrest fuel
  | text s => exact readValue_of_isKeptString rfl hcs fuel
  | garbled codes =>
      have hstring : isKeptString (.garbled codes) = true := hkept
      exact readValue_of_isKeptString hstring hcs fuel
  | list items =>
      obtain ⟨parts, hparts, hcs⟩ := Outcome.bind_eq_ok_iff.mp hcs
      obtain rfl := Except.ok.inj hcs
      by_cases hne : items = []
      · subst hne
        obtain rfl := Except.ok.inj hparts
        rfl
      · have hread : readElements fuel ([',', ' '].intercalate parts ++ ']' :: rest) =
            .ok (items, rest) :=
          readElements_write items hne hkept hparts (length_intercalate_lt hfuel)
        obtain ⟨c, more, hcons, hc⟩ := exists_cons_of_writeItems hne hkept hparts
        rw [hcons, List.cons_append] at hread
        rw [enclose_append, hcons, List.cons_append, readValue_bracket hc, hread]
        rfl
  | dict entries =>
      obtain ⟨parts, hparts, hcs⟩ := Outcome.bind_eq_ok_iff.mp hcs
      obtain rfl := Except.ok.inj hcs
      obtain ⟨hmembers, hdistinct⟩ := (Bool.and_eq_true _ _).mp hkept
      by_cases hne : entries = []
      · subst hne
        obtain rfl := Except.ok.inj hparts
        rfl
      · have hread : readMembers fuel ([',', ' '].intercalate parts ++ '\x7d' :: rest) =
            .ok (entries, rest) :=
          readMembers_write entries hne hmembers hparts (length_intercalate_lt hfuel)
        obtain ⟨more, hcons⟩ := exists_cons_of_writeEntries hne hmembers hparts
        rw [hcons, List.cons_append] at hread
        rw [enclose_append, hcons, List.cons_append, readValue_brace, hread, Except.map,
          ofPairs_of_distinctKeys (of_decide_eq_true hdistinct)]
  | _ => cases hkept

theorem readElements_write (items : List Value) {parts : List (List Char)} {rest : List Char}
    {fuel : Nat} (hne : items ≠ []) (hkept : areKept items = true)
    (hparts : writeItems items = .ok parts)
    (hfuel : ([',', ' '].intercalate parts).length < fuel) :
    readElements fuel ([',', ' '].intercalate parts ++ ']' :: rest) = .ok (items, rest) := by
  cases items with
  | nil => exact absurd rfl hne
  | cons v vs =>
      obtain ⟨fuel, rfl⟩ := Nat.exists_eq_add_one.mpr (Nat.zero_lt_of_lt hfuel)
      obtain ⟨item, others, hitem, hothers, rfl⟩ := writeItems_cons_eq_ok hparts
      obtain ⟨hv, hvs⟩ := (Bool.and_eq_true _ _).mp hkept
      by_cases hlast : vs = []
      · subst hlast
        obtain rfl := Except.ok.inj hothers
        rw [List.intercalate_singleton] at hfuel ⊢
        exact readElements_last
          (readValue_write v hv hitem (Nat.le_of_lt_succ hfuel) (.cons (by decide) _))
      · obtain ⟨c, more, hcons, hc⟩ := exists_cons_of_writeItems hlast hvs hothers
        rw [intercalate_cons hcons] at hfuel ⊢
        simp only [List.length_append, List.length_cons] at hfuel
        have hfirst : readValue fuel (item ++ ',' :: ' ' :: c :: (more ++ ']' :: rest)) =
            .ok (v, ',' :: ' ' :: c :: (more ++ ']' :: rest)) :=
          readValue_write v hv hitem (by omega) (.cons (by decide) _)
        have hrest : readElements fuel ([',', ' '].intercalate others ++ ']' :: rest) =
            .ok (vs, rest) :=
          readElements_write vs hlast hvs hothers (by rw [hcons, List.length_cons]; omega)
        rw [hcons, List.cons_append] at hrest
        rw [List.append_assoc, List.cons_append, List.cons_append, List.cons_append,
          readElements_next hfirst hc, hrest]
        rfl

theorem readMembers_write (entries : List (Value × Value)) {parts : List (List Char)}
    {rest : List Char} {fuel : Nat} (hne : entries ≠ []) (hkept : areKeptMembers entries = true)
    (hparts : writeEntries entries = .ok parts)
    (hfuel : ([',', ' '].intercalate parts).length < fuel) :
    readMembers fuel ([',', ' '].intercalate parts ++ '\x7d' :: rest) = .ok (entries, rest) := by
  cases entries with
  | nil => exact absurd rfl hne
  | cons e entries =>
      obtain ⟨k, v⟩ := e
      obtain ⟨fuel, rfl⟩ := Nat.exists_eq_add_one.mpr (Nat.zero_lt_of_lt hfuel)
      obtain ⟨key, item, others, hkey, hitem, hothers, rfl⟩ := writeEntries_cons_eq_ok hparts
      simp only [areKeptMembers, Bool.and_eq_true] at hkept
      obtain ⟨⟨hk, hv⟩, hentries⟩ := hkept
      obtain ⟨codes, hcodes, hname, -, hwrite⟩ := exists_codes_of_isKeptString hk
      obtain rfl := Except.ok.inj (hkey.symm.trans hwrite)
      obtain ⟨c, more, hopen, hc⟩ := exists_cons_of_write hv hitem
      have hstring (back : List Char) :
          readString (codes.flatMap writeCode ++ [doubleQuote] ++ ':' :: ' ' :: (item ++ back)) =
            .ok (k, ':' :: ' ' :: c :: (more ++ back)) := by
        rw [hopen]
        exact readString_of_isKeptString hcodes hname _
      have hpart (back : List Char) : writeCodes codes ++ ':' :: ' ' :: item ++ back =
          doubleQuote ::
            (codes.flatMap writeCode ++ [doubleQuote] ++ ':' :: ' ' :: (item ++ back)) := by
        rw [List.append_assoc]
        rfl
      by_cases hlast : entries = []
      · subst hlast
        obtain rfl := Except.ok.inj hothers
        rw [List.intercalate_singleton] at hfuel ⊢
        simp only [List.length_append, List.length_cons] at hfuel
        have hfirst : readValue fuel (item ++ '\x7d' :: rest) = .ok (v, '\x7d' :: rest) :=
          readValue_write v hv hitem (by omega) (.cons (by decide) _)
        rw [hopen] at hfirst
        rw [hpart, readMembers_last (hstring _) hc hfirst]
      · obtain ⟨back, hcons⟩ := exists_cons_of_writeEntries hlast hentries hothers
        rw [intercalate_cons hcons] at hfuel ⊢
        simp only [List.length_append, List.length_cons] at hfuel
        have hfirst : readValue fuel
            (item ++ ',' :: ' ' :: doubleQuote :: (back ++ '\x7d' :: rest)) =
              .ok (v, ',' :: ' ' :: doubleQuote :: (back ++ '\x7d' :: rest)) :=
          readValue_write v hv hitem (by omega) (.cons (by decide) _)
        have hrest : readMembers fuel ([',', ' '].intercalate others ++ '\x7d' :: rest) =
            .ok (entries, rest) :=
          readMembers_write entries hlast hentries hothers
            (by rw [hcons, List.length_cons]; omega)
        rw [hcons, List.cons_append] at hrest
        rw [hopen] at hfirst
        rw [List.append_assoc, List.cons_append, List.cons_append, List.cons_append, hpart,
          readMembers_next (hstring _) hc hfirst (by decide), hrest]
        rfl

end

/-- Data that JSON keeps is what its JSON is read as. -/
theorem read_of_write {v : Value} (hkept : isKept v = true) {cs : List Char}
    (hcs : write v = .ok cs) : read cs = .ok v := by
  obtain ⟨c, more, hcons, hc⟩ := exists_cons_of_write hkept hcs
  have hmark : ¬ (cs.head? == some byteOrderMark) = true := by
    rw [hcons, List.head?_cons]
    simp only [opens, Bool.and_eq_true, bne_iff_ne] at hc
    simpa using hc.2
  have hread : readValue (2 * cs.length + 2) (cs ++ []) = .ok (v, []) :=
    readValue_write v hkept hcs (by omega) nofun
  rw [List.append_nil] at hread
  have hskip : skipSpaces cs = cs := by
    rw [hcons, skipSpaces_of_opens hc]
  rw [read, if_neg hmark, hskip, hread]
  rfl

end SemanticMarkup.Json
