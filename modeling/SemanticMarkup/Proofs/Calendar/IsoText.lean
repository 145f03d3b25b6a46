import SemanticMarkup.Calendar.Iso
import SemanticMarkup.Proofs.Calendar.Days
import SemanticMarkup.Proofs.Number.Fixed

/-!
# Reading the ISO text of a time

The ISO text of a date is read as the start of the date, and that of a time as the time. Only an
offset of less than a second is not kept: it is read as no distance from universal time.
-/

namespace SemanticMarkup.Calendar

open SemanticMarkup.Text SemanticMarkup.Number

theorem length_zeroField {width n : Nat} (hwidth : 0 < width) (h : n < 10 ^ width) :
    (zeroField width n).length = width := by
  have hdigits : (Nat.toDigits 10 n).length ≤ width := Decimal.digitCount_le_of_lt hwidth h
  rw [zeroField, List.length_append, List.length_replicate, Nat.sub_add_cancel hdigits]

/-- A field is read up to its width. -/
theorem readField?_zeroField {width n : Nat} (hwidth : 0 < width) (h : n < 10 ^ width)
    (rest : List Char) : readField? width (zeroField width n ++ rest) = some (n, rest) := by
  have hlength := length_zeroField hwidth h
  have htake : (zeroField width n ++ rest).take width = zeroField width n :=
    List.take_left' hlength
  have hdigits : (zeroField width n).all Char.isDigit = true :=
    List.all_eq_true.mpr (Directive.isDigit_zeroField width n)
  have hvalue : (zeroField width n).foldl (fun n c => 10 * n + (c.toNat - 48)) 0 = n :=
    digitsToNat_zeroField width n
  rw [readField?, htake, if_pos ⟨hlength, hdigits⟩, hvalue, List.drop_left' hlength]

/-- A field starts with a digit, so not with the letter of a week. -/
theorem exists_zeroField_cons (width n : Nat) :
    ∃ digit more, zeroField width n = digit :: more ∧ digit ≠ 'W' := by
  obtain ⟨digit, more, hcons⟩ := List.exists_cons_of_ne_nil (Directive.zeroField_ne_nil width n)
  refine ⟨digit, more, hcons, ?_⟩
  rintro rfl
  have hdigit := Directive.isDigit_zeroField width n 'W' (hcons ▸ List.mem_cons_self)
  exact absurd hdigit (by decide)

/-! ## Dates -/

namespace Date

variable {d : Date}

theorem Proper.month_lt (h : d.Proper) : d.month < 10 ^ 2 :=
  Nat.lt_of_le_of_lt h.month_le (by decide)

theorem Proper.day_lt (h : d.Proper) : d.day < 10 ^ 2 :=
  Nat.lt_of_le_of_lt (Nat.le_trans h.day_le (daysInMonth_bounds _ _).2) (by decide)

theorem year_lt (h : d.isValid = true) : d.year < 10 ^ 4 :=
  Nat.lt_succ_of_le (isValid_iff.mp h).2

theorem length_isoText (h : d.isValid = true) : d.isoText.length = 10 := by
  have hproper := (isValid_iff.mp h).1
  simp only [isoText, List.length_append, List.length_cons,
    length_zeroField (by decide) (year_lt h), length_zeroField (by decide) hproper.month_lt,
    length_zeroField (by decide) hproper.day_lt]

/-- The hyphen behind the year and the digit behind it tell that the date has ten characters. -/
theorem dateLength_isoText (h : d.isValid = true) (rest : List Char) :
    dateLength (d.isoText ++ rest) = some 10 := by
  have hyear := length_zeroField (by decide) (year_lt h)
  have hlength : (d.isoText ++ rest).length ≠ 7 := by
    rw [List.length_append, length_isoText h]
    omega
  obtain ⟨digit, more, hmonth, hweek⟩ := exists_zeroField_cons 2 d.month
  have hhyphen : (d.isoText ++ rest)[4]? = some '-' := by
    simp [isoText, hyear]
  have hbehind : (d.isoText ++ rest)[5]? = some digit := by
    simp [isoText, List.getElem?_append, hyear, hmonth]
  have hletter : (d.isoText ++ rest)[5]? ≠ some 'W' := by
    rw [hbehind]
    exact fun h => hweek (Option.some.inj h)
  rw [dateLength]
  dsimp only
  rw [if_neg hlength, if_pos hhyphen, if_neg hletter]

theorem readDate?_isoText (h : d.isValid = true) : readDate? d.isoText = some d := by
  have hproper := (isValid_iff.mp h).1
  have hday := readField?_zeroField (by decide) hproper.day_lt []
  rw [List.append_nil] at hday
  have hweek : (zeroField 2 d.month).head?.getD '-' ≠ 'W' := by
    obtain ⟨digit, more, hmonth, hne⟩ := exists_zeroField_cons 2 d.month
    rw [hmonth]
    exact hne
  rw [isoText, List.append_assoc, readDate?, readField?_zeroField (by decide) (year_lt h)]
  simp [hweek, readField?_zeroField (by decide) hproper.month_lt, hday, h]

end Date

/-! ## Times of day -/

section Clock

variable {parts : List Nat} {colons : Bool} {n micros : Nat}

/-- The seconds, with the microseconds if there are any. -/
def secondsText (second micros : Nat) : List Char :=
  zeroField 2 second ++ if micros = 0 then [] else '.' :: zeroField 6 micros

/-- Behind a part and a colon the next part follows. -/
theorem readClock?_colon (atEnd : Bool) (k : Nat) (hn : n < 10 ^ 2)
    (hcolons : parts = [] ∨ colons = true) {more : List Char} (hmore : more ≠ []) :
    readClock? atEnd (k + 1) colons parts (zeroField 2 n ++ ':' :: more) =
      readClock? atEnd k true (parts ++ [n]) more := by
  obtain ⟨c, cs, rfl⟩ := List.exists_cons_of_ne_nil hmore
  have hnext : (if (parts ++ [n]).length = 1 then ':' == ':' else colons) = true := by
    obtain rfl | rfl := hcolons
    · rfl
    · split <;> rfl
  rw [readClock?, readField?_zeroField (by decide) hn]
  simp only [hnext]
  rfl

theorem readFraction?_zeroField (hmicros : micros < 10 ^ 6) :
    readFraction? (zeroField 6 micros) = some (micros, []) := by
  have hfield := readField?_zeroField (by decide) hmicros []
  rw [List.append_nil] at hfield
  rw [readFraction?, length_zeroField (by decide) hmicros, Nat.min_self]
  simp [hfield]

/-- With the seconds the time of day ends. -/
theorem readClock?_seconds (atEnd : Bool) (k : Nat) (colons : Bool) (parts : List Nat)
    (hn : n < 10 ^ 2) (hmicros : micros < 10 ^ 6) :
    readClock? atEnd (k + 1) colons parts (secondsText n micros) =
      some ⟨parts ++ [n], micros, !atEnd⟩ := by
  obtain rfl | hpos := Nat.eq_zero_or_pos micros
  · rw [secondsText, if_pos rfl, readClock?, readField?_zeroField (by decide) hn]
  · obtain ⟨digit, more, hmore, -⟩ := exists_zeroField_cons 6 micros
    have hfraction := readFraction?_zeroField hmicros
    rw [secondsText, if_neg (Nat.ne_of_gt hpos), readClock?, readField?_zeroField (by decide) hn,
      hmore]
    rw [hmore] at hfraction
    have hpoint : ('.' == ':') = false := by decide
    simp [hfraction, hpoint]

theorem secondsText_ne_nil (second micros : Nat) : secondsText second micros ≠ [] :=
  List.append_ne_nil_of_left_ne_nil (Directive.zeroField_ne_nil 2 second) _

/-- Hours, minutes and seconds are read as they are. -/
theorem readClock?_full (atEnd : Bool) {hour minute second : Nat} (hhour : hour < 10 ^ 2)
    (hminute : minute < 10 ^ 2) (hsecond : second < 10 ^ 2) (hmicros : micros < 10 ^ 6) :
    readClock? atEnd 3 false []
        (zeroField 2 hour ++ ':' :: (zeroField 2 minute ++ ':' :: secondsText second micros)) =
      some ⟨[hour, minute, second], micros, !atEnd⟩ := by
  have hmore : zeroField 2 minute ++ ':' :: secondsText second micros ≠ [] :=
    List.append_ne_nil_of_left_ne_nil (Directive.zeroField_ne_nil 2 minute) _
  rw [readClock?_colon atEnd 2 hhour (.inl rfl) hmore,
    readClock?_colon atEnd 1 hminute (.inr rfl) (secondsText_ne_nil second micros),
    readClock?_seconds atEnd 0 true _ hsecond hmicros]
  rfl

/-- Hours and minutes alone are read as they are. -/
theorem readClock?_short (atEnd : Bool) {hour minute : Nat} (hhour : hour < 10 ^ 2)
    (hminute : minute < 10 ^ 2) :
    readClock? atEnd 3 false [] (zeroField 2 hour ++ ':' :: zeroField 2 minute) =
      some ⟨[hour, minute], 0, !atEnd⟩ := by
  have hlast := readClock?_seconds atEnd 1 true [hour] hminute (show 0 < 10 ^ 6 by decide)
  rw [secondsText, if_pos rfl, List.append_nil] at hlast
  rw [readClock?_colon atEnd 2 hhour (.inl rfl) (Directive.zeroField_ne_nil 2 minute)]
  exact hlast

end Clock

/-! ## Offsets -/

/-- An offset as its text keeps it: less than a second is dropped. -/
def wholeOffset (offset : Int) : Int :=
  if offset.natAbs < 1000000 then 0 else offset

/-- An offset is read from its sign and its time of day. -/
theorem readOffset?_sign {sign : Char} (hsign : sign ≠ 'Z') {rest : List Char} {parts : List Nat}
    {seconds micros : Nat} (hread : readClock? true 3 false [] rest = some ⟨parts, micros, false⟩)
    (hseconds : parts[0]?.getD 0 * 3600 + parts[1]?.getD 0 * 60 + parts[2]?.getD 0 = seconds)
    (hday : seconds * 1000000 + micros < 86400000000) :
    readOffset? (sign :: rest) =
      let size : Int := if seconds = 0 then 0 else seconds * 1000000 + micros
      some (if sign = '-' then -size else size) := by
  have hbelow : (if seconds = 0 then (0 : Int) else seconds * 1000000 + micros) < 86400000000 := by
    split
    · decide
    · omega
  rw [readOffset?.eq_3 _ _ (fun h _ => hsign h) hsign, hread, Option.bind_some]
  simp only [hseconds, Bool.false_eq_true, if_false, if_pos hbelow]

/-- Seconds and microseconds behind the sign of an offset are read as what its text keeps. -/
theorem readOffset?_signed {offset : Int} (h : offset.natAbs < 86400000000) {rest : List Char}
    {parts : List Nat} {micros : Nat} (hmicros : offset.natAbs % 1000000 = micros)
    (hread : readClock? true 3 false [] rest = some ⟨parts, micros, false⟩)
    (hseconds : parts[0]?.getD 0 * 3600 + parts[1]?.getD 0 * 60 + parts[2]?.getD 0 =
      offset.natAbs / 1000000) :
    readOffset? ((if offset < 0 then '-' else '+') :: rest) = some (wholeOffset offset) := by
  have hsize : offset.natAbs / 1000000 * 1000000 + micros < 86400000000 := by omega
  have hsign : (if offset < 0 then '-' else '+') ≠ 'Z' := by
    split <;> decide
  have hminus : (if offset < 0 then '-' else '+') = '-' ↔ offset < 0 := by
    split <;> simp [*]
  rw [readOffset?_sign hsign hread hseconds hsize, wholeOffset]
  simp only [hminus]
  congr 1
  split <;> split <;> split <;> omega

/-- The text of an offset below a day is read as the offset that it keeps. -/
theorem readOffset?_offsetText {offset : Int} (h : offset.natAbs < 86400000000) :
    readOffset? (DateTime.offsetText [':'] offset) = some (wholeOffset offset) := by
  have hhour : offset.natAbs / 1000000 / 3600 < 10 ^ 2 := by omega
  have hminute : offset.natAbs / 1000000 / 60 % 60 < 10 ^ 2 := by omega
  have hsecond : offset.natAbs / 1000000 % 60 < 10 ^ 2 := by omega
  have hmicros : offset.natAbs % 1000000 < 10 ^ 6 := Nat.mod_lt _ (by decide)
  rw [DateTime.offsetText]
  split
  · rename_i hwhole
    have hread := readClock?_short true hhour hminute
    rw [List.cons_append, List.cons_append, List.append_assoc, List.singleton_append]
    refine readOffset?_signed h hwhole.2 hread ?_
    simp only [List.getElem?_cons_zero, List.getElem?_cons_succ, List.getElem?_nil,
      Option.getD_some, Option.getD_none]
    omega
  · have hread := readClock?_full true hhour hminute hsecond hmicros
    rw [secondsText] at hread
    simp only [List.cons_append, List.append_assoc, List.nil_append]
    refine readOffset?_signed h rfl hread ?_
    simp only [List.getElem?_cons_zero, List.getElem?_cons_succ, Option.getD_some]
    omega

/-! ## Times -/

theorem startsOffset_of_isDigit {c : Char} (h : c.isDigit = true) : startsOffset c = false := by
  cases hstarts : startsOffset c with
  | false => rfl
  | true =>
      simp only [startsOffset, Bool.or_eq_true, beq_iff_eq] at hstarts
      obtain (rfl | rfl) | rfl := hstarts <;> exact absurd h (by decide)

theorem startsOffset_zeroField (width n : Nat) :
    ∀ c ∈ zeroField width n, startsOffset c = false :=
  fun c hc => startsOffset_of_isDigit (Directive.isDigit_zeroField width n c hc)

theorem startsOffset_secondsText (second micros : Nat) :
    ∀ c ∈ secondsText second micros, startsOffset c = false := by
  rw [secondsText, List.forall_mem_append]
  refine ⟨startsOffset_zeroField 2 second, ?_⟩
  split
  · exact nofun
  · exact List.forall_mem_cons.mpr ⟨rfl, startsOffset_zeroField 6 micros⟩

namespace DateTime

variable {t : DateTime}

/-- The time of day. -/
def clockText (t : DateTime) : List Char :=
  zeroField 2 t.hour ++ ':' :: (zeroField 2 t.minute ++ ':' :: secondsText t.second t.microsecond)

/-- The offset, if there is one. -/
def zoneText (t : DateTime) : List Char :=
  match t.offset with
  | none => []
  | some offset => offsetText [':'] offset

theorem isoText_eq (between : Char) (t : DateTime) :
    t.isoText between = t.date.isoText ++ between :: (t.clockText ++ t.zoneText) := by
  rw [isoText, clockText, zoneText, secondsText]
  cases t.offset <;> simp only [List.append_assoc, List.cons_append]

theorem startsOffset_clockText (t : DateTime) : ∀ c ∈ t.clockText, startsOffset c = false := by
  rw [clockText, List.forall_mem_append, List.forall_mem_cons, List.forall_mem_append,
    List.forall_mem_cons]
  exact ⟨startsOffset_zeroField 2 t.hour, rfl, startsOffset_zeroField 2 t.minute, rfl,
    startsOffset_secondsText t.second t.microsecond⟩

theorem isValid_iff : t.isValid = true ↔ t.date.isValid = true ∧ t.hour < 24 ∧ t.minute < 60 ∧
    t.second < 60 ∧ t.microsecond < 1000000 := by
  simp only [isValid, Bool.and_eq_true, decide_eq_true_eq, and_assoc]

/-- The offset of the time is less than a day. -/
def OffsetFits (t : DateTime) : Prop :=
  ∀ offset ∈ t.offset, offset.natAbs < 86400000000

/-- A time with the offset that its text keeps. -/
def kept (t : DateTime) : DateTime :=
  { t with offset := t.offset.map wholeOffset }

/-- An offset of a second or more is kept. -/
theorem kept_eq (h : ∀ offset ∈ t.offset, offset = 0 ∨ 1000000 ≤ offset.natAbs) : t.kept = t := by
  have hwhole : t.offset.map wholeOffset = t.offset := by
    cases hzone : t.offset with
    | none => rfl
    | some offset =>
        rw [Option.map_some, wholeOffset]
        obtain rfl | hlarge := h offset hzone
        · rfl
        · rw [if_neg (Nat.not_lt.mpr hlarge)]
  rw [kept, hwhole]

theorem head?_offsetText (separator : List Char) (offset : Int) :
    (offsetText separator offset).head? = some (if offset < 0 then '-' else '+') := by
  rw [offsetText]
  split <;> rfl

theorem stops_zoneText (t : DateTime) : Directive.Stops (!startsOffset ·) t.zoneText := by
  rw [zoneText]
  split
  · exact nofun
  · intro c hc
    obtain rfl := Option.some.inj ((head?_offsetText _ _).symm.trans hc)
    split <;> rfl

theorem readTime?_isoText (h : t.isValid = true) (hoffset : t.OffsetFits) :
    readTime? t.date (t.clockText ++ t.zoneText) = some t.kept := by
  obtain ⟨-, hhour, hminute, hsecond, hmicros⟩ := isValid_iff.mp h
  have hclock : ∀ c ∈ t.clockText, (!startsOffset c) = true := by
    intro c hc
    rw [startsOffset_clockText t c hc, Bool.not_false]
  have hread (atEnd : Bool) : readClock? atEnd 3 false [] t.clockText =
      some ⟨[t.hour, t.minute, t.second], t.microsecond, !atEnd⟩ :=
    readClock?_full atEnd (by omega) (by omega) (by omega) hmicros
  -- whether the parts make a time does not depend on the offset
  have htime (offset : Option Int) : ({ t with offset := offset } : DateTime).isValid = true := h
  rw [readTime?, Directive.takeWhile_run hclock t.stops_zoneText,
    Directive.dropWhile_run hclock t.stops_zoneText]
  dsimp only
  rw [hread, Option.bind_some, kept]
  cases hzone : t.offset with
  | none =>
      have hnone : t.zoneText = [] := by rw [zoneText, hzone]
      rw [hnone]
      exact if_pos (htime none)
  | some offset =>
      have hsome : t.zoneText = offsetText [':'] offset := by rw [zoneText, hzone]
      have hnonempty : ¬(offsetText [':'] offset).isEmpty = true := by
        rw [List.isEmpty_iff, ← List.head?_eq_none_iff, head?_offsetText]
        exact Option.some_ne_none _
      rw [hsome, if_neg hnonempty, readOffset?_offsetText (hoffset offset hzone), Option.bind_some]
      exact if_pos (htime (some (wholeOffset offset)))

/-- The ISO text of a time is read as the time, with the offset that the text keeps. -/
theorem ofIso?_isoText (between : Char) (h : t.isValid = true) (hoffset : t.OffsetFits) :
    ofIso? (String.ofList (t.isoText between)) = some t.kept := by
  have hdate := (isValid_iff.mp h).1
  have hlength := t.date.length_isoText hdate
  rw [ofIso?, String.toList_ofList, isoText_eq, Date.dateLength_isoText hdate, Option.bind_some,
    List.take_left' hlength, List.drop_left' hlength, Date.readDate?_isoText hdate,
    Option.bind_some, if_neg]
  · exact readTime?_isoText h hoffset
  · rw [List.length_append, hlength]
    omega

/-- The ISO text of a date is read as the start of the date. -/
theorem ofIso?_date {d : Date} (h : d.isValid = true) :
    ofIso? (String.ofList d.isoText) = some d.midnight := by
  have hlength := d.length_isoText h
  have hdate := Date.dateLength_isoText h []
  rw [List.append_nil] at hdate
  rw [ofIso?, String.toList_ofList, if_neg (by omega), hdate, Option.bind_some, ← hlength,
    List.take_length, List.drop_length, Date.readDate?_isoText h, Option.bind_some]

end DateTime

end SemanticMarkup.Calendar
