import SemanticMarkup.Calendar.Civil
import SemanticMarkup.Number.Rounding
import SemanticMarkup.Text.Uppercase

/-!
# Date patterns

A pattern such as `%b %d, %Y` shows the parts of a moment. A percent sign starts
a field: flags for padding (`-` none, `_` blanks, `0` zeros) and case (`^`
capitals, `#` the opposite case), a least width, a modifier (`E` or `O`) and a
letter. What is no field is shown as it stands. Names are English.

## Implementation notes

The offset, the name of the zone and the microseconds (`%z`, `%Z` and `%f`,
without flags) are put into the pattern before the other fields are read.
-/

namespace SemanticMarkup.Calendar

open SemanticMarkup.Text

/-- The names of the days of the week, from Monday. -/
def dayNames : List String :=
  ["Monday", "Tuesday", "Wednesday", "Thursday", "Friday", "Saturday", "Sunday"]

/-- The names of the months. -/
def monthNames : List String :=
  ["January", "February", "March", "April", "May", "June", "July", "August", "September",
    "October", "November", "December"]

namespace DateTime

/-- The name of the day of the week. -/
def dayName (t : DateTime) : List Char :=
  (dayNames[t.date.weekday]?.getD "").toList

/-- The name of the month. -/
def monthName (t : DateTime) : List Char :=
  (monthNames[t.date.month - 1]?.getD "").toList

/-- The hour of the twelve-hour clock. -/
def hour12 (t : DateTime) : Nat :=
  if t.hour % 12 = 0 then 12 else t.hour % 12

/-- The day of the week, Sunday being 0. -/
def sundayWeekday (t : DateTime) : Nat :=
  (t.date.weekday + 1) % 7

/-- The half of the day. -/
def dayHalf (t : DateTime) : List Char :=
  if t.hour < 12 then ['A', 'M'] else ['P', 'M']

/-- The offset without separators; nothing without an offset. -/
def compactOffset (t : DateTime) : List Char :=
  match t.offset with
  | none => []
  | some offset => offsetText [] offset

/-- The name of the zone: the offset behind the name of universal time. -/
def zoneName (t : DateTime) : List Char :=
  match t.offset with
  | none => []
  | some 0 => "UTC".toList
  | some offset => "UTC".toList ++ offsetText [':'] offset

end DateTime

/-- A pattern with the offset, the zone and the microseconds put in. -/
def fillPattern (t : DateTime) : List Char → List Char
  | [] => []
  | '%' :: 'z' :: rest => t.compactOffset ++ fillPattern t rest
  | '%' :: 'Z' :: rest => t.zoneName ++ fillPattern t rest
  | '%' :: 'f' :: rest => zeroField 6 t.microsecond ++ fillPattern t rest
  | '%' :: c :: rest => '%' :: c :: fillPattern t rest
  | c :: rest => c :: fillPattern t rest

/-- How a field is padded. -/
inductive Padding where
  /-- As is usual for the field. -/
  | usual
  /-- Not at all (`-`). -/
  | bare
  /-- With blanks (`_`). -/
  | blanks
  /-- With zeros (`0`). -/
  | zeros
  deriving DecidableEq, Repr

/-- The flags of a field. -/
structure FieldFlags where
  /-- The padding. -/
  padding : Padding
  /-- Whether letters become capitals. -/
  capitals : Bool
  /-- Whether letters change their case. -/
  swapped : Bool
  deriving DecidableEq, Repr

/-- No flags. -/
def FieldFlags.none : FieldFlags := ⟨.usual, false, false⟩

/-- Reads flags; of several paddings the last one counts. -/
def readFlags (flags : FieldFlags) : List Char → FieldFlags × List Char
  | '-' :: rest => readFlags { flags with padding := .bare } rest
  | '_' :: rest => readFlags { flags with padding := .blanks } rest
  | '0' :: rest => readFlags { flags with padding := .zeros } rest
  | '^' :: rest => readFlags { flags with capitals := true } rest
  | '#' :: rest => readFlags { flags with swapped := true } rest
  | cs => (flags, cs)

/-- Reading flags does not lengthen the text. -/
theorem length_readFlags_le (flags : FieldFlags) (cs : List Char) :
    (readFlags flags cs).2.length ≤ cs.length := by
  fun_induction readFlags flags cs with
  | case6 => simp
  | _ => simp_all; omega

/-- The content of a field before it is padded. -/
inductive FieldContent where
  /-- A number with a least number of digits, and whether it is usually padded with blanks. -/
  | number (digits value : Nat) (blanks : Bool)
  /-- A signed number without a least number of digits. -/
  | signed (value : Int)
  /-- A text. -/
  | text (cs : List Char)
  /-- A text whose letters the flags do not touch. -/
  | plain (cs : List Char)
  /-- A text whose letters are made small. -/
  | small (cs : List Char)
  /-- The name of the zone, which is not known here. -/
  | zone
  /-- Nothing, whatever the width. -/
  | nothing
  deriving DecidableEq, Repr

/-- The day as month, day and year with slashes. -/
def slashedDay (t : DateTime) : List Char :=
  zeroField 2 t.date.month ++ '/' :: zeroField 2 t.date.day ++ '/'
    :: zeroField 2 (t.date.year % 100)

/-- Hours and minutes. -/
def shortClock (t : DateTime) : List Char :=
  zeroField 2 t.hour ++ ':' :: zeroField 2 t.minute

/-- Hours, minutes and seconds. -/
def longClock (t : DateTime) : List Char :=
  shortClock t ++ ':' :: zeroField 2 t.second

/-- A number with a blank in the place of a leading zero. -/
def blankField (n : Nat) : List Char :=
  if n < 10 then ' ' :: Nat.toDigits 10 n else Nat.toDigits 10 n

/-- The date and time in one line. -/
def fullText (t : DateTime) : List Char :=
  t.dayName.take 3 ++ ' ' :: t.monthName.take 3 ++ ' ' :: blankField t.date.day
    ++ ' ' :: longClock t ++ ' ' :: Nat.toDigits 10 t.date.year

/-- The modifiers that a letter does not admit. -/
def refusedModifiers (letter : Char) : List Char :=
  if letter ∈ ['%', 'a', 'A', 'D', 'F'] then ['E', 'O']
  else if letter ∈ ['b', 'h', 'B', 'd', 'e', 'H', 'I', 'k', 'l', 'j', 'M', 'm', 'S', 'U', 'W', 'V',
      'g', 'G', 'w'] then ['E']
  else if letter ∈ ['c', 'x', 'X', 'Y'] then ['O']
  else []

/-- What a letter shows of a moment, if it shows anything. -/
def contentOf? (t : DateTime) (flags : FieldFlags) (letter : Char) : Option FieldContent :=
  let name (cs : List Char) : FieldContent :=
    .text (if flags.swapped then cs.map Char.toUpper else cs)
  match letter with
  | '%' => some (.plain ['%'])
  | 'n' => some (.plain ['\n'])
  | 't' => some (.plain ['\t'])
  | 'a' => some (name (t.dayName.take 3))
  | 'A' => some (name t.dayName)
  | 'b' | 'h' => some (name (t.monthName.take 3))
  | 'B' => some (name t.monthName)
  | 'c' => some (.text (fullText t))
  | 'C' => some (.number 1 (t.date.year / 100) false)
  | 'd' => some (.number 2 t.date.day false)
  | 'D' | 'x' => some (.text (slashedDay t))
  | 'e' => some (.number 2 t.date.day true)
  | 'F' => some (.text (Nat.toDigits 10 t.date.year ++ '-' :: zeroField 2 t.date.month
      ++ '-' :: zeroField 2 t.date.day))
  | 'g' => some (.number 2 (t.date.isoWeek.1 % 100) false)
  | 'G' => some (.number 1 t.date.isoWeek.1 false)
  | 'H' => some (.number 2 t.hour false)
  | 'I' => some (.number 2 t.hour12 false)
  | 'j' => some (.number 3 t.date.dayOfYear false)
  | 'k' => some (.number 2 t.hour true)
  | 'l' => some (.number 2 t.hour12 true)
  | 'm' => some (.number 2 t.date.month false)
  | 'M' => some (.number 2 t.minute false)
  | 'p' => some (if flags.swapped then .small t.dayHalf else .text t.dayHalf)
  | 'P' => some (.small t.dayHalf)
  | 'r' => some (.text (zeroField 2 t.hour12 ++ ':' :: zeroField 2 t.minute
      ++ ':' :: zeroField 2 t.second ++ ' ' :: t.dayHalf))
  | 'R' => some (.text (shortClock t))
  | 's' => some (.signed t.wallSeconds)
  | 'S' => some (.number 2 t.second false)
  | 'T' | 'X' => some (.text (longClock t))
  | 'u' => some (.number 1 (t.date.weekday + 1) false)
  | 'U' => some (.number 2 ((t.date.dayOfYear - 1 + 7 - t.sundayWeekday) / 7) false)
  | 'V' => some (.number 2 t.date.isoWeek.2 false)
  | 'w' => some (.number 1 t.sundayWeekday false)
  | 'W' => some (.number 2 ((t.date.dayOfYear - 1 + 7 - t.date.weekday) / 7) false)
  | 'y' => some (.number 2 (t.date.year % 100) false)
  | 'Y' => some (.number 1 t.date.year false)
  | 'z' => some .nothing
  | 'Z' => some .zone
  | _ => none

/-- A text filled up on the left to a width. -/
def padText (flags : FieldFlags) (width : Nat) (cs : List Char) : List Char :=
  List.replicate (width - cs.length) (if flags.padding = .zeros then '0' else ' ') ++ cs

/-- The capital of a character that has a single one; any other character stays. -/
def capital (c : Char) : Char :=
  match upper c with
  | [single] => single
  | _ => c

/-- A text in capitals, if the flags ask for it. -/
def capitalized (flags : FieldFlags) (cs : List Char) : List Char :=
  if flags.capitals then cs.map capital else cs

/-- A field laid out. -/
def layOutField (flags : FieldFlags) (width : Nat) : FieldContent → List Char
  | .number digits value blanks =>
      let shown := Nat.toDigits 10 value
      let missing := max digits width - shown.length
      let padding := if blanks ∧ flags.padding = .usual then .blanks else flags.padding
      match padding with
      | .bare => padText flags width shown
      | .blanks => List.replicate missing ' ' ++ shown
      | _ => List.replicate missing '0' ++ shown
  | .signed value => padText flags width (intText value)
  | .text cs => padText flags width (capitalized flags cs)
  | .plain cs => padText flags width cs
  | .small cs => padText flags width (cs.map Char.toLower)
  | .zone => if flags.padding = .bare then [] else padText flags width []
  | .nothing => []

/-- A width, cut where it exceeds the limit. -/
def readWidth (limit : Nat) (cs : List Char) : Nat :=
  cs.foldl (fun n c => min limit (10 * n + (c.toNat - 48))) 0

/-- Shows one field. `cs` is what follows the percent sign; the result is the text shown and
what follows the field. -/
def showField (t : DateTime) (limit : Nat) (cs : List Char) : List Char × List Char :=
  let read := readFlags .none cs
  let widthDigits := read.2.takeWhile Char.isDigit
  let afterWidth := read.2.dropWhile Char.isDigit
  let width := readWidth limit widthDigits
  let modifier := match afterWidth with
    | 'E' :: _ => some 'E'
    | 'O' :: _ => some 'O'
    | _ => none
  let tail := if modifier.isSome then afterWidth.drop 1 else afterWidth
  let unread (taken : Nat) : List Char :=
    padText read.1 width (capitalized read.1 ('%' :: cs.take taken))
  match tail with
  | [] => (unread cs.length, [])
  | letter :: rest =>
      let taken := cs.length - rest.length
      if modifier.any fun m => m ∈ refusedModifiers letter then
        if letter = '%' then (padText read.1 width ['%'], rest)
        else if read.1.swapped ∧ (letter = 'b' ∨ letter = 'h') then
          (padText read.1 width
              (capitalized { read.1 with capitals := true } ('%' :: cs.take taken)),
            rest)
        else (unread taken, rest)
      else match contentOf? t read.1 letter with
        | some content => (layOutField read.1 width content, rest)
        | none => (unread taken, rest)

/-- What follows a field is no longer than what follows its percent sign. -/
theorem length_showField_le (t : DateTime) (limit : Nat) (cs : List Char) :
    (showField t limit cs).2.length ≤ cs.length := by
  have hf := length_readFlags_le .none cs
  have hd : ∀ l : List Char, (l.dropWhile Char.isDigit).length ≤ l.length := fun l =>
    (List.dropWhile_sublist _).length_le
  have hw := hd (readFlags .none cs).2
  simp only [showField]
  generalize (readFlags .none cs).2.dropWhile Char.isDigit = afterWidth at *
  generalize hm : (match afterWidth with
    | 'E' :: _ => some 'E' | 'O' :: _ => some 'O' | _ => none) = modifier
  have ht : (if modifier.isSome = true then afterWidth.drop 1 else afterWidth).length
      ≤ afterWidth.length := by
    split <;> simp
  generalize (if modifier.isSome = true then afterWidth.drop 1 else afterWidth) = tail at *
  cases tail with
  | nil => simp
  | cons letter rest =>
      simp only [List.length_cons] at ht
      have hr : rest.length ≤ cs.length := by omega
      dsimp only
      repeat' split
      all_goals exact hr

/-- Shows a pattern in which all fields are still to be read. -/
def showPattern (t : DateTime) (limit : Nat) : List Char → List Char
  | [] => []
  | '%' :: rest =>
      let shown := showField t limit rest
      shown.1 ++ showPattern t limit shown.2
  | c :: rest => c :: showPattern t limit rest
termination_by cs => cs.length
decreasing_by
  · exact Nat.lt_succ_of_le (length_showField_le t limit rest)
  · simp

/-- The least of 1024, 2048, 4096, … that is not below a number. -/
def roomFor (n : Nat) : Nat :=
  1024 * Nat.pow 2 (Number.bitLength ((n - 1) / 1024))

/-- A moment shown by a pattern, which ends at its first null character. A text that is very
much longer than its pattern is not shown at all. -/
def DateTime.show (t : DateTime) (pattern : String) : String :=
  let filled := fillPattern t (pattern.toList.takeWhile (· != '\x00'))
  let room := roomFor (256 * filled.length)
  let shown := showPattern t room filled
  if shown.length < room then String.ofList shown else ""

end SemanticMarkup.Calendar
