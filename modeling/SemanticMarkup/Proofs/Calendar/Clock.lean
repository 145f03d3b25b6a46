import Mathlib.Logic.Function.Iterate
import SemanticMarkup.Calendar.Epoch
import SemanticMarkup.Proofs.Calendar.Days

/-!
# The sequence of seconds

The clock goes from second to second and carries over to the minute, the hour and the day. The
moment that lies a number of seconds after the start of 1970 is the one that the clock shows when
it has gone so many steps; for a negative number it has so many steps to go. A number of seconds
that leads to a year from 2 to 9999 names this moment.
-/

namespace SemanticMarkup.Calendar.DateTime

/-- A whole second of a day, of the last year of the calendar or of a later one, without offset. -/
structure IsCivil (t : DateTime) : Prop where
  date : t.date.Proper
  hour : t.hour < 24
  minute : t.minute < 60
  second : t.second < 60
  microsecond : t.microsecond = 0
  offset : t.offset = none

/-- The following second. -/
def next (t : DateTime) : DateTime :=
  if t.second < 59 then { t with second := t.second + 1 }
  else if t.minute < 59 then { t with minute := t.minute + 1, second := 0 }
  else if t.hour < 23 then { t with hour := t.hour + 1, minute := 0, second := 0 }
  else { t with date := t.date.next, hour := 0, minute := 0, second := 0 }

/-- The start of 1970. -/
def epoch : DateTime :=
  ({ year := 1970, month := 1, day := 1 } : Date).midnight

/-- A moment lies a number of seconds after the start of 1970, or before it if the number is
negative. -/
inductive IsAfterEpoch : DateTime → Int → Prop
  /-- The start of 1970 itself. -/
  | epoch : IsAfterEpoch epoch 0
  /-- The following second lies one second later. -/
  | later {t : DateTime} {n : Int} : IsAfterEpoch t n → IsAfterEpoch t.next (n + 1)
  /-- The second before lies one second earlier. -/
  | earlier {t : DateTime} {n : Int} :
      t.IsCivil → IsAfterEpoch t.next (n + 1) → IsAfterEpoch t n

variable {t : DateTime} {n : Int}

theorem IsCivil.midnight {d : Date} (h : d.Proper) : d.midnight.IsCivil :=
  have hzero : (0 : Nat) < 60 := by decide
  ⟨h, (by decide : 0 < 24), hzero, hzero, rfl, rfl⟩

/-! ## The following second -/

theorem IsCivil.next (h : t.IsCivil) : t.next.IsCivil := by
  have hzero : (0 : Nat) < 60 := by decide
  rw [DateTime.next]
  split
  · rename_i hsecond
    exact { h with second := Nat.succ_lt_succ hsecond }
  · split
    · rename_i hminute
      exact { h with minute := Nat.succ_lt_succ hminute, second := hzero }
    · split
      · rename_i hhour
        exact { h with hour := Nat.succ_lt_succ hhour, minute := hzero, second := hzero }
      · have hhour : (0 : Nat) < 24 := by decide
        exact { h with date := h.date.next, hour := hhour, minute := hzero, second := hzero }

/-- The following second is one second further from the start of 1970. -/
theorem wallSeconds_next (h : t.IsCivil) : t.next.wallSeconds = t.wallSeconds + 1 := by
  have hsecond := h.second
  have hminute := h.minute
  have hhour := h.hour
  have hday := Date.ordinal_next h.date
  rw [next]
  split
  · simp only [wallSeconds]
    omega
  · split
    · simp only [wallSeconds]
      omega
    · split
      · simp only [wallSeconds]
        omega
      · simp only [wallSeconds, hday]
        omega

theorem IsCivil.iterate (h : t.IsCivil) (k : Nat) : (DateTime.next^[k] t).IsCivil := by
  induction k with
  | zero => exact h
  | succ k ih =>
      rw [Function.iterate_succ_apply']
      exact ih.next

theorem wallSeconds_iterate (h : t.IsCivil) (k : Nat) :
    (DateTime.next^[k] t).wallSeconds = t.wallSeconds + k := by
  induction k with
  | zero => exact (Int.add_zero _).symm
  | succ k ih =>
      rw [Function.iterate_succ_apply', wallSeconds_next (h.iterate k), ih, Int.natCast_succ,
        Int.add_assoc]

/-! ## The second with a number -/

/-- The seconds of a day before a moment. -/
def clock (t : DateTime) : Nat :=
  t.hour * 3600 + t.minute * 60 + t.second

theorem clock_lt (h : t.IsCivil) : t.clock < 86400 := by
  have hhour := h.hour
  have hminute := h.minute
  have hsecond := h.second
  rw [clock]
  omega

theorem wallSeconds_eq (t : DateTime) :
    t.wallSeconds = (t.date.ordinal - epochOrdinal) * 86400 + t.clock := by
  simp only [wallSeconds, clock]
  omega

theorem wallSeconds_div (h : t.IsCivil) :
    t.wallSeconds / 86400 = t.date.ordinal - epochOrdinal := by
  have hclock := clock_lt h
  rw [wallSeconds_eq]
  omega

theorem wallSeconds_mod (h : t.IsCivil) : t.wallSeconds % 86400 = t.clock := by
  have hclock := clock_lt h
  rw [wallSeconds_eq]
  omega

theorem clock_parts (h : t.IsCivil) :
    t.clock / 3600 = t.hour ∧ t.clock / 60 % 60 = t.minute ∧ t.clock % 60 = t.second := by
  have hminute := h.minute
  have hsecond := h.second
  rw [clock]
  omega

/-- The civil second with a number. -/
def civil (n : Int) : DateTime :=
  { date := Date.ofOrdinal (n / 86400 + epochOrdinal).toNat
    hour := (n % 86400).toNat / 3600
    minute := (n % 86400).toNat / 60 % 60
    second := (n % 86400).toNat % 60
    microsecond := 0
    offset := none }

theorem civil_wallSeconds (h : t.IsCivil) : civil t.wallSeconds = t := by
  obtain ⟨hhour, hminute, hsecond⟩ := clock_parts h
  simp only [civil, wallSeconds_div h, wallSeconds_mod h, Int.toNat_natCast, Int.sub_add_cancel,
    hhour, hminute, hsecond, Date.ofOrdinal_ordinal h.date]
  rw [← h.microsecond, ← h.offset]

/-- Civil seconds with one number are the same second. -/
theorem wallSeconds_inj {other : DateTime} (h : t.IsCivil) (hother : other.IsCivil)
    (heq : t.wallSeconds = other.wallSeconds) : t = other := by
  rw [← civil_wallSeconds h, heq, civil_wallSeconds hother]

theorem isCivil_epoch : epoch.IsCivil :=
  .midnight ⟨by decide, by decide, by decide, by decide, by decide⟩

/-- What lies a number of seconds after the start of 1970 is a civil second with this number. -/
theorem IsAfterEpoch.isCivil (h : t.IsAfterEpoch n) : t.IsCivil ∧ t.wallSeconds = n := by
  induction h with
  | epoch => exact ⟨isCivil_epoch, by decide⟩
  | later _ ih => exact ⟨ih.1.next, by rw [wallSeconds_next ih.1, ih.2]⟩
  | earlier hcivil _ ih =>
      have hnext := ih.2
      rw [wallSeconds_next hcivil] at hnext
      exact ⟨hcivil, (Int.add_left_inj 1).mp hnext⟩

theorem IsAfterEpoch.iterate (h : t.IsAfterEpoch n) (k : Nat) :
    IsAfterEpoch (DateTime.next^[k] t) (n + k) := by
  induction k with
  | zero =>
      rw [Int.natCast_zero, Int.add_zero]
      exact h
  | succ k ih =>
      rw [Function.iterate_succ_apply', Int.natCast_succ, ← Int.add_assoc]
      exact ih.later

theorem IsAfterEpoch.of_iterate (hcivil : t.IsCivil) {k : Nat}
    (h : IsAfterEpoch (DateTime.next^[k] t) (n + k)) : t.IsAfterEpoch n := by
  induction k generalizing t n with
  | zero =>
      rw [Int.natCast_zero, Int.add_zero] at h
      exact h
  | succ k ih =>
      refine .earlier hcivil (ih hcivil.next ?_)
      rw [Function.iterate_succ_apply, Int.natCast_succ, Int.add_comm k 1, ← Int.add_assoc] at h
      exact h

/-- Of two civil seconds the later one is reached from the earlier one. -/
theorem exists_iterate {later : DateTime} (h : t.IsCivil) (hlater : later.IsCivil)
    (hle : t.wallSeconds ≤ later.wallSeconds) :
    ∃ k : Nat, DateTime.next^[k] t = later ∧ t.wallSeconds + k = later.wallSeconds := by
  obtain ⟨k, hk⟩ := Int.le.dest hle
  refine ⟨k, wallSeconds_inj (h.iterate k) hlater ?_, hk⟩
  rw [wallSeconds_iterate h, hk]

/-- A civil second lies its number of seconds after the start of 1970. -/
theorem IsCivil.isAfterEpoch (h : t.IsCivil) : t.IsAfterEpoch t.wallSeconds := by
  have hepoch : epoch.wallSeconds = 0 := by decide
  obtain hle | hle := Int.le_total epoch.wallSeconds t.wallSeconds
  · obtain ⟨k, rfl, hk⟩ := exists_iterate isCivil_epoch h hle
    rw [← hk, hepoch]
    exact IsAfterEpoch.epoch.iterate k
  · obtain ⟨k, hreach, hk⟩ := exists_iterate h isCivil_epoch hle
    refine .of_iterate h (k := k) ?_
    rw [hreach, hk, hepoch]
    exact .epoch

/-! ## The years that numbers of seconds reach -/

/-- The first and last second of the years from 2 to 9999. -/
theorem year_iff (h : t.IsCivil) :
    2 ≤ t.date.year ∧ t.date.year ≤ lastYear ↔
      -62104060800 ≤ t.wallSeconds ∧ t.wallSeconds ≤ calendarSeconds.2 := by
  have hclock := clock_lt h
  have hsecond : daysBeforeYear 2 = 365 := by decide
  have hlast : daysBeforeYear (lastYear + 1) = 3652059 := by decide
  have hfrom : 2 ≤ t.date.year ↔ 366 ≤ t.date.ordinal := by
    constructor
    · intro hyear
      have hlt := Date.daysBeforeYear_lt_ordinal h.date (by decide) hyear
      rwa [hsecond] at hlt
    · intro hday
      by_contra hyear
      have hle := Date.ordinal_le_daysBeforeYear h.date (Nat.not_le.mp hyear)
      omega
  have hupto : t.date.year ≤ lastYear ↔ t.date.ordinal ≤ 3652059 := by
    constructor
    · intro hyear
      have hle := Date.ordinal_le_daysBeforeYear h.date (Nat.lt_succ_of_le hyear)
      rwa [hlast] at hle
    · intro hday
      by_contra hyear
      have hlt := Date.daysBeforeYear_lt_ordinal h.date (by decide) (Nat.not_le.mp hyear)
      rw [Nat.succ_eq_add_one, hlast] at hlt
      omega
  rw [hfrom, hupto, wallSeconds_eq, epochOrdinal, calendarSeconds]
  omega

/-- A number of seconds that leads to a year from 2 to 9999 names the moment that lies so many
seconds after the start of 1970. -/
theorem ofSeconds_eq (h : t.IsAfterEpoch n) (hfrom : 2 ≤ t.date.year)
    (hupto : t.date.year ≤ lastYear) : ofSeconds n 0 = .ok t := by
  obtain ⟨hcivil, rfl⟩ := h.isCivil
  obtain ⟨hlow, hhigh⟩ := (year_iff hcivil).mp ⟨hfrom, hupto⟩
  have hword : ¬(t.wallSeconds < -(Nat.pow 2 63 : Int) ∨ (Nat.pow 2 63 : Int) ≤ t.wallSeconds) := by
    have hpow : (Nat.pow 2 63 : Int) = 9223372036854775808 := by decide
    rw [hpow]
    simp only [calendarSeconds] at hhigh
    omega
  have hcount : ¬(t.wallSeconds < countableSeconds.1 ∨ countableSeconds.2 < t.wallSeconds) := by
    simp only [countableSeconds]
    simp only [calendarSeconds] at hhigh
    omega
  have hcalendar : ¬(t.wallSeconds < calendarSeconds.1 ∨ calendarSeconds.2 < t.wallSeconds) := by
    simp only [calendarSeconds] at hhigh ⊢
    omega
  rw [ofSeconds, if_neg hword, if_neg hcount, if_neg hcalendar]
  exact congrArg Except.ok (civil_wallSeconds hcivil)

/-- Each of these numbers of seconds leads to a moment. -/
theorem exists_isAfterEpoch (hlow : -62104060800 ≤ n) (hhigh : n ≤ calendarSeconds.2) :
    ∃ t : DateTime, t.IsAfterEpoch n ∧ 2 ≤ t.date.year ∧ t.date.year ≤ lastYear := by
  let first : DateTime := ({ year := 2, month := 1, day := 1 } : Date).midnight
  have hfirst : first.IsCivil := .midnight ⟨by decide, by decide, by decide, by decide, by decide⟩
  have hstart : first.wallSeconds = -62104060800 := by decide
  obtain ⟨k, hk⟩ := Int.le.dest hlow
  have hcivil := hfirst.iterate k
  have hseconds : (DateTime.next^[k] first).wallSeconds = n := by
    rw [wallSeconds_iterate hfirst, hstart, hk]
  refine ⟨DateTime.next^[k] first, ?_, (year_iff hcivil).mpr ?_⟩
  · rw [← hseconds]
    exact hcivil.isAfterEpoch
  · rw [hseconds]
    exact ⟨hlow, hhigh⟩

end SemanticMarkup.Calendar.DateTime
