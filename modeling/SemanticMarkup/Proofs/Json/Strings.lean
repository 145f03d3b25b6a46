import SemanticMarkup.Json.Reader
import SemanticMarkup.Json.Writer
import Mathlib.Data.List.Chain
import Mathlib.Tactic.SplitIfs

/-!
# JSON strings are read back

A string is written in ASCII: each code point as itself, as a letter behind a backslash, or as
one or two 16-bit units. The reader gives the code points back, unless the first half of a pair
stands before a second half: these are read as one code point.
-/

namespace SemanticMarkup.Json

open SemanticMarkup.Text

/-! ## Units -/

theorem hexField_succ {width : Nat} (h : 0 < width) (n : Nat) :
    hexField (width + 1) n = hexField width (n / 16) ++ [(n % 16).digitChar] := by
  simp only [hexField]
  obtain hn | hn := Nat.lt_or_ge n 16
  · obtain ⟨width, rfl⟩ := Nat.exists_eq_add_one.mpr h
    rw [Nat.toDigits_of_lt_base hn, Nat.div_eq_of_lt hn, Nat.mod_eq_of_lt hn]
    simp [List.replicate_succ']
  · rw [Nat.toDigits_of_base_le (by decide) hn]
    simp

theorem hexDigit?_digitChar {d : Nat} (h : d < 16) : hexDigit? d.digitChar = some d :=
  (by decide : ∀ d, d < 16 → hexDigit? d.digitChar = some d) d h

/-- The four digits of a unit. -/
theorem hexField_four {unit : Nat} (h : unit < 0x10000) :
    hexField 4 unit = [(unit / 16 / 16 / 16).digitChar, (unit / 16 / 16 % 16).digitChar,
      (unit / 16 % 16).digitChar, (unit % 16).digitChar] := by
  have hfirst : unit / 16 / 16 / 16 < 16 := by omega
  rw [hexField_succ (by decide), hexField_succ (by decide), hexField_succ (by decide), hexField,
    Nat.toDigits_of_lt_base hfirst]
  rfl

theorem length_hexField_four {unit : Nat} (h : unit < 0x10000) : (hexField 4 unit).length = 4 := by
  rw [hexField_four h]
  rfl

theorem hexUnit?_hexField {unit : Nat} (h : unit < 0x10000) :
    hexUnit? (hexField 4 unit) = some unit := by
  rw [hexField_four h]
  simp only [hexUnit?]
  rw [hexDigit?_digitChar (by omega), hexDigit?_digitChar (by omega),
    hexDigit?_digitChar (by omega), hexDigit?_digitChar (by omega)]
  simp only [Option.bind_eq_bind, Option.bind_some, Option.pure_def, Option.some.injEq]
  omega

/-- The first half of a pair of units. -/
def IsHigh (code : Nat) : Prop :=
  0xD800 ≤ code ∧ code < 0xDC00

/-- The second half of a pair of units. -/
def IsLow (code : Nat) : Prop :=
  0xDC00 ≤ code ∧ code < 0xE000

instance (code : Nat) : Decidable (IsHigh code) :=
  inferInstanceAs (Decidable (_ ∧ _))

instance (code : Nat) : Decidable (IsLow code) :=
  inferInstanceAs (Decidable (_ ∧ _))

/-- A text does not start with the escape of a second half. -/
def StartsNoLow (cs : List Char) : Prop :=
  ∀ second, cs = backslash :: 'u' :: second →
    ∃ unit, hexUnit? (second.take 4) = some unit ∧ ¬ IsLow unit

variable {unit low code : Nat} {after rest : List Char}

theorem take_hexField (h : unit < 0x10000) (after : List Char) :
    (hexField 4 unit ++ after).take 4 = hexField 4 unit :=
  List.take_left' (length_hexField_four h)

theorem drop_hexField (h : unit < 0x10000) (after : List Char) :
    (hexField 4 unit ++ after).drop 4 = after :=
  List.drop_left' (length_hexField_four h)

/-- A unit that is no first half is read alone, and so is a first half without a second one. -/
theorem readUnits_single (h : unit < 0x10000) (hafter : after ≠ [])
    (hpair : IsHigh unit → StartsNoLow after) :
    readUnits ('u' :: (hexField 4 unit ++ after)) = .ok (unit, after) := by
  have hlength : ¬ (hexField 4 unit ++ after).length ≤ 4 := by
    have hpos := List.length_pos_iff.mpr hafter
    rw [List.length_append, length_hexField_four h]
    omega
  simp only [readUnits, List.drop_succ_cons, List.drop_zero, if_neg hlength, take_hexField h,
    drop_hexField h, hexUnit?_hexField h, joinUnit]
  split
  · rename_i hhigh
    split
    · rename_i second
      obtain ⟨other, hother, hlow⟩ := hpair ⟨hhigh.1, hhigh.2.1⟩ second rfl
      rw [hother]
      exact if_neg hlow
    · rfl
  · rfl

/-- Two halves are read as one code point. -/
theorem readUnits_pair (hhigh : IsHigh unit) (hlow : IsLow low) (hafter : after ≠ []) :
    readUnits ('u' :: (hexField 4 unit ++ (unitEscape low ++ after))) =
      .ok (0x10000 + (unit - 0xD800) * 0x400 + (low - 0xDC00), after) := by
  have hunit : unit < 0x10000 := by have := hhigh.2; omega
  have hsecond : low < 0x10000 := by have := hlow.2; omega
  have hpos := List.length_pos_iff.mpr hafter
  have hrest : 6 < (unitEscape low ++ after).length := by
    simp only [unitEscape, List.cons_append, List.length_cons, List.length_append,
      length_hexField_four hsecond]
    omega
  have hlength : ¬ (hexField 4 unit ++ (unitEscape low ++ after)).length ≤ 4 := by
    rw [List.length_append]
    omega
  simp only [readUnits, List.drop_succ_cons, List.drop_zero, if_neg hlength, take_hexField hunit,
    drop_hexField hunit, hexUnit?_hexField hunit, joinUnit]
  rw [if_pos ⟨hhigh.1, hhigh.2, hrest⟩]
  simp only [unitEscape, List.cons_append, backslash, take_hexField hsecond, drop_hexField hsecond,
    hexUnit?_hexField hsecond]
  exact if_pos hlow

/-! ## Code points -/

/-- The four forms of a code point. -/
theorem writeCode_cases (code : Nat) :
    (∃ letter, letter ≠ 'u' ∧ letterEscape? letter = some code ∧
        writeCode code = [backslash, letter]) ∨
      (0x20 ≤ code ∧ code ≤ 0x7E ∧ code ≠ 0x22 ∧ code ≠ 0x5C ∧
        writeCode code = [Char.ofNat code]) ∨
      (code < 0x10000 ∧ writeCode code = unitEscape code) ∨
      (0x10000 ≤ code ∧ writeCode code =
        unitEscape (0xD800 + (code - 0x10000) / 0x400) ++ unitEscape (0xDC00 + code % 0x400)) := by
  generalize hwrite : writeCode code = written
  unfold writeCode at hwrite
  split_ifs at hwrite with hquote hslash hfeed hreturn htab hform hback hplain hunit <;>
    subst hwrite
  · exact .inl ⟨doubleQuote, by decide, by rw [hquote]; rfl, rfl⟩
  · exact .inl ⟨backslash, by decide, by rw [hslash]; rfl, rfl⟩
  · exact .inl ⟨'n', by decide, by rw [hfeed]; rfl, rfl⟩
  · exact .inl ⟨'r', by decide, by rw [hreturn]; rfl, rfl⟩
  · exact .inl ⟨'t', by decide, by rw [htab]; rfl, rfl⟩
  · exact .inl ⟨'f', by decide, by rw [hform]; rfl, rfl⟩
  · exact .inl ⟨'b', by decide, by rw [hback]; rfl, rfl⟩
  · exact .inr (.inl ⟨hplain.1, hplain.2, hquote, hslash, rfl⟩)
  · exact .inr (.inr (.inl ⟨hunit, rfl⟩))
  · exact .inr (.inr (.inr ⟨Nat.le_of_not_lt hunit, rfl⟩))

theorem toNat_ofNat {code : Nat} (h : code ≤ 0x7E) : (Char.ofNat code).toNat = code := by
  have hvalid : code.isValidChar := .inl (by omega)
  rw [Char.ofNat, dif_pos hvalid]
  rfl

theorem unitEscape_append (unit : Nat) (after : List Char) :
    unitEscape unit ++ after = '\x5c' :: 'u' :: (hexField 4 unit ++ after) := rfl

theorem isHigh_half (h : 0x10000 ≤ code) (hmax : code < 0x110000) :
    IsHigh (0xD800 + (code - 0x10000) / 0x400) := by
  constructor <;> omega

theorem isLow_half (code : Nat) : IsLow (0xDC00 + code % 0x400) := by
  constructor <;> omega

/-- A code point that is no second half does not start with one. -/
theorem startsNoLow_writeCode (hmax : code < 0x110000) (hlow : ¬ IsLow code) (back : List Char) :
    StartsNoLow (writeCode code ++ back) := by
  intro second heq
  obtain ⟨letter, hletter, -, hwrite⟩ | ⟨-, hplain, -, hslash, hwrite⟩ | ⟨hunit, hwrite⟩ |
    ⟨hpair, hwrite⟩ := writeCode_cases code
  · rw [hwrite] at heq
    exact absurd (List.cons.inj (List.cons.inj heq).2).1 hletter
  · rw [hwrite] at heq
    have hcode := toNat_ofNat hplain
    rw [(List.cons.inj heq).1] at hcode
    exact absurd hcode.symm hslash
  · rw [hwrite, unitEscape_append] at heq
    obtain rfl := (List.cons.inj (List.cons.inj heq).2).2
    exact ⟨code, by rw [take_hexField hunit, hexUnit?_hexField hunit], hlow⟩
  · have hhigh := isHigh_half hpair hmax
    have hunit : 0xD800 + (code - 0x10000) / 0x400 < 0x10000 := by have := hhigh.2; omega
    rw [hwrite, List.append_assoc, unitEscape_append] at heq
    obtain rfl := (List.cons.inj (List.cons.inj heq).2).2
    refine ⟨_, by rw [take_hexField hunit, hexUnit?_hexField hunit], fun hsecond => ?_⟩
    have := hhigh.2
    have := hsecond.1
    omega

/-- One code point is read back, and the rest behind it. -/
theorem readCodes_writeCode {start fuel : Nat} {back : List Char} (hmax : code < 0x110000)
    (hback : back ≠ []) (hpair : IsHigh code → StartsNoLow back) :
    readCodes start (fuel + 1) (writeCode code ++ back) =
      (readCodes start fuel back).map fun found => (code :: found.1, found.2) := by
  have hread {found : Except Refusal (List Nat × List Char)} :
      (found >>= fun found => pure (code :: found.1, found.2)) =
        found.map fun found => (code :: found.1, found.2) := by
    cases found <;> rfl
  obtain ⟨letter, hletter, hcode, hwrite⟩ | ⟨hlow, hplain, hquote, hslash, hwrite⟩ |
    ⟨hunit, hwrite⟩ | ⟨hlarge, hwrite⟩ := writeCode_cases code
  · rw [hwrite]
    change readCodes start (fuel + 1) ('\x5c' :: letter :: back) = _
    rw [readCodes]
    · rw [hcode]
      exact hread
    · exact hletter
  · have hnat := toNat_ofNat hplain
    have hnoQuote : Char.ofNat code ≠ '\x22' := fun h => hquote (by rw [← hnat, h]; rfl)
    have hnoSlash : Char.ofNat code ≠ '\x5c' := fun h => hslash (by rw [← hnat, h]; rfl)
    rw [hwrite, List.singleton_append, readCodes, hnat, if_neg (Nat.not_lt.mpr hlow)]
    · exact hread
    · exact hnoQuote
    · exact fun h _ => hnoSlash h
    · exact fun _ h _ => hnoSlash h
    · exact fun _ _ h _ => hnoSlash h
  · rw [hwrite, unitEscape_append, readCodes, readUnits_single hunit hback hpair]
    exact hread
  · have hhigh := isHigh_half hlarge hmax
    have hlow := isLow_half code
    have hcode : 0x10000 + (0xD800 + (code - 0x10000) / 0x400 - 0xD800) * 0x400 +
        (0xDC00 + code % 0x400 - 0xDC00) = code := by
      omega
    rw [hwrite, List.append_assoc, unitEscape_append, readCodes, readUnits_pair hhigh hlow hback,
      hcode]
    exact hread

/-! ## Rows of code points -/

/-- Code points in range, none of them the first half of a pair in front of a second half. -/
def Unpaired (codes : List Nat) : Prop :=
  (∀ code ∈ codes, code < 0x110000) ∧ codes.IsChain fun code next => ¬ (IsHigh code ∧ IsLow next)

instance (codes : List Nat) : Decidable (Unpaired codes) :=
  inferInstanceAs (Decidable (_ ∧ _))

theorem startsNoLow_quote (rest : List Char) : StartsNoLow (doubleQuote :: rest) :=
  fun _ heq => absurd (List.cons.inj heq).1 (by decide)

/-- What a first half stands before does not start with a second half. -/
theorem startsNoLow_codes {codes : List Nat} (h : Unpaired (code :: codes)) (hhigh : IsHigh code)
    (rest : List Char) : StartsNoLow (codes.flatMap writeCode ++ doubleQuote :: rest) := by
  obtain ⟨hall, hchain⟩ := h
  cases codes with
  | nil => exact startsNoLow_quote rest
  | cons next codes =>
      have hlow : ¬ IsLow next := fun hlow => (List.isChain_cons_cons.mp hchain).1 ⟨hhigh, hlow⟩
      rw [List.flatMap_cons, List.append_assoc]
      exact startsNoLow_writeCode (hall next (by simp)) hlow _

theorem Unpaired.tail {codes : List Nat} (h : Unpaired (code :: codes)) : Unpaired codes :=
  ⟨fun other hother => h.1 other (List.mem_cons_of_mem _ hother), h.2.tail⟩

theorem writeCode_ne_nil (code : Nat) : writeCode code ≠ [] := by
  obtain ⟨letter, -, -, hwrite⟩ | ⟨-, -, -, -, hwrite⟩ | ⟨-, hwrite⟩ | ⟨-, hwrite⟩ :=
    writeCode_cases code
  all_goals
    rw [hwrite]
    exact List.cons_ne_nil _ _

/-- Code points in quotes are read back. -/
theorem readCodes_flatMap {codes : List Nat} (h : Unpaired codes) {start fuel : Nat}
    (hfuel : (codes.flatMap writeCode).length < fuel) (rest : List Char) :
    readCodes start fuel (codes.flatMap writeCode ++ doubleQuote :: rest) = .ok (codes, rest) := by
  induction codes generalizing fuel with
  | nil =>
      obtain ⟨fuel, rfl⟩ := Nat.exists_eq_add_one.mpr hfuel
      rfl
  | cons code codes ih =>
      have hpos := List.length_pos_iff.mpr (writeCode_ne_nil code)
      rw [List.flatMap_cons, List.length_append] at hfuel
      obtain ⟨fuel, rfl⟩ := Nat.exists_eq_add_one.mpr (Nat.zero_lt_of_lt hfuel)
      rw [List.flatMap_cons, List.append_assoc,
        readCodes_writeCode (h.1 code List.mem_cons_self) (by simp) fun hhigh =>
          startsNoLow_codes h hhigh rest,
        ih h.tail (by omega)]
      rfl

/-- A string is read back behind its opening quote. -/
theorem readString_writeCodes {codes : List Nat} (h : Unpaired codes) (rest : List Char) :
    readString (codes.flatMap writeCode ++ doubleQuote :: rest) =
      .ok (Value.ofCodes codes, rest) := by
  have hfuel : (codes.flatMap writeCode).length <
      (codes.flatMap writeCode ++ doubleQuote :: rest).length + 1 := by
    rw [List.length_append]
    omega
  rw [readString, readCodes_flatMap h hfuel]
  rfl

theorem isValidChar_toNat (c : Char) : c.toNat.isValidChar :=
  c.valid

/-- No character is half of a pair. -/
theorem not_isHigh_toNat (c : Char) : ¬ IsHigh c.toNat := by
  obtain h | ⟨h, -⟩ := isValidChar_toNat c
  · exact fun hhigh => absurd hhigh.1 (Nat.not_le.mpr h)
  · exact fun hhigh => by have := hhigh.2; omega

theorem unpaired_toNat (cs : List Char) : Unpaired (cs.map Char.toNat) := by
  constructor
  · intro code hcode
    obtain ⟨c, -, rfl⟩ := List.mem_map.mp hcode
    obtain h | ⟨-, h⟩ := isValidChar_toNat c
    · omega
    · exact h
  · rw [List.isChain_map]
    exact (List.pairwise_of_forall fun c _ h => not_isHigh_toNat c h.1).isChain

/-- The code points of a text are that text. -/
theorem ofCodes_toNat (s : String) : Value.ofCodes (s.toList.map Char.toNat) = .text s := by
  have hall : (s.toList.map Char.toNat).all (fun code => decide code.isValidChar) = true := by
    simp only [List.all_map, List.all_eq_true, Function.comp_apply, decide_eq_true_eq]
    exact fun c _ => isValidChar_toNat c
  have hcomp : Char.ofNat ∘ Char.toNat = id := funext Char.ofNat_toNat
  rw [Value.ofCodes, if_pos hall, List.map_map, hcomp, List.map_id, String.ofList_toList]

end SemanticMarkup.Json
