import SemanticMarkup.Calendar.Civil

/-!
# The sequence of days

The number of a date is made up of the days of the years and months before it. The day after a
date has the next number, so the numbers count the days one by one, and the date with the number
of a date is that date.

## Implementation notes

The year of a day is found through periods of 400, 100 and 4 years. The last of the four centuries
and the last of the four years of a period may be one day longer than the others, so their number
is cut at three.
-/

namespace SemanticMarkup.Calendar

/-- The number of days of a year. -/
def daysInYear (year : Nat) : Nat :=
  if isLeap year then 366 else 365

theorem isLeap_iff (year : Nat) :
    isLeap year = true ↔ year % 4 = 0 ∧ (year % 100 ≠ 0 ∨ year % 400 = 0) := by
  simp only [isLeap, Bool.and_eq_true, Bool.or_eq_true, beq_iff_eq, bne_iff_ne]

theorem daysInYear_cases (year : Nat) :
    isLeap year = true ∧ daysInYear year = 366 ∨ isLeap year = false ∧ daysInYear year = 365 := by
  cases h : isLeap year with
  | true => exact .inl ⟨rfl, by rw [daysInYear, h, if_pos rfl]⟩
  | false => exact .inr ⟨rfl, by rw [daysInYear, h, if_neg Bool.false_ne_true]⟩

theorem daysBeforeMonth_succ (year : Nat) {month : Nat} (h : 1 ≤ month) :
    daysBeforeMonth year (month + 1) = daysBeforeMonth year month + daysInMonth year month := by
  cases month with
  | zero => exact absurd h (by decide)
  | succ month => rfl

theorem daysBeforeMonth_le (year : Nat) {month later : Nat} (h : 1 ≤ month) (hle : month ≤ later) :
    daysBeforeMonth year month ≤ daysBeforeMonth year later := by
  induction hle with
  | refl => exact Nat.le_refl _
  | step hle ih =>
      rw [daysBeforeMonth_succ year (Nat.le_trans h hle)]
      exact Nat.le_add_right_of_le ih

/-- The months of a year have all its days. -/
theorem daysBeforeMonth_thirteen (year : Nat) : daysBeforeMonth year 13 = daysInYear year := by
  cases h : isLeap year <;> simp [daysBeforeMonth, daysInMonth, daysInYear, h]

/-- A quotient grows by one at the multiples of the divisor. -/
theorem succ_div_cases (n divisor : Nat) :
    (n + 1) % divisor = 0 ∧ (n + 1) / divisor = n / divisor + 1 ∨
      (n + 1) % divisor ≠ 0 ∧ (n + 1) / divisor = n / divisor := by
  rw [Nat.succ_div]
  by_cases hd : divisor ∣ n + 1
  · exact .inl ⟨Nat.mod_eq_zero_of_dvd hd, by rw [if_pos hd]⟩
  · exact .inr ⟨fun hmod => hd (Nat.dvd_of_mod_eq_zero hmod), by rw [if_neg hd, Nat.add_zero]⟩

theorem daysBeforeYear_succ {year : Nat} (h : 1 ≤ year) :
    daysBeforeYear (year + 1) = daysBeforeYear year + daysInYear year := by
  obtain ⟨past, rfl⟩ := Nat.exists_eq_add_of_le' h
  have hfour := succ_div_cases past 4
  have hcentury := succ_div_cases past 100
  have hperiod := succ_div_cases past 400
  have hleap := isLeap_iff (past + 1)
  have hcases := daysInYear_cases (past + 1)
  have hnested : ((past + 1) % 100 = 0 → (past + 1) % 4 = 0) ∧
      ((past + 1) % 400 = 0 → (past + 1) % 100 = 0) ∧ past / 100 ≤ past / 4 := by omega
  simp only [daysBeforeYear, Nat.add_sub_cancel]
  generalize isLeap (past + 1) = leap at *
  generalize (past + 1) % 4 = four at *
  generalize (past + 1) % 100 = century at *
  generalize (past + 1) % 400 = period at *
  obtain ⟨rfl, hdays⟩ | ⟨rfl, hdays⟩ := hcases
  · simp only [true_iff] at hleap
    omega
  · simp only [Bool.false_eq_true, false_iff] at hleap
    omega

theorem daysBeforeYear_le {year later : Nat} (h : 1 ≤ year) (hle : year ≤ later) :
    daysBeforeYear year ≤ daysBeforeYear later := by
  induction hle with
  | refl => exact Nat.le_refl _
  | step hle ih =>
      rw [daysBeforeYear_succ (Nat.le_trans h hle)]
      exact Nat.le_add_right_of_le ih

namespace Date

/-- The parts make a date, of the last year of the calendar or of a later one. -/
structure Proper (d : Date) : Prop where
  year : 1 ≤ d.year
  month : 1 ≤ d.month
  month_le : d.month ≤ 12
  day : 1 ≤ d.day
  day_le : d.day ≤ daysInMonth d.year d.month

variable {d : Date}

theorem isValid_iff : d.isValid = true ↔ d.Proper ∧ d.year ≤ lastYear := by
  simp only [isValid, Bool.and_eq_true, decide_eq_true_eq]
  constructor
  · rintro ⟨⟨⟨⟨⟨year, year_le⟩, month⟩, month_le⟩, day⟩, day_le⟩
    exact ⟨⟨year, month, month_le, day, day_le⟩, year_le⟩
  · rintro ⟨⟨year, month, month_le, day, day_le⟩, year_le⟩
    exact ⟨⟨⟨⟨⟨year, year_le⟩, month⟩, month_le⟩, day⟩, day_le⟩

theorem one_le_dayOfYear (h : d.Proper) : 1 ≤ d.dayOfYear :=
  Nat.le_add_left_of_le h.day

theorem dayOfYear_le (h : d.Proper) : d.dayOfYear ≤ daysInYear d.year := by
  calc d.dayOfYear
      ≤ daysBeforeMonth d.year d.month + daysInMonth d.year d.month :=
        Nat.add_le_add_left h.day_le _
    _ = daysBeforeMonth d.year (d.month + 1) := (daysBeforeMonth_succ _ h.month).symm
    _ ≤ daysBeforeMonth d.year 13 :=
        daysBeforeMonth_le _ (Nat.le_add_left 1 _) (Nat.succ_le_succ h.month_le)
    _ = daysInYear d.year := daysBeforeMonth_thirteen _

/-- The number of a date lies behind the days of the years before its own. -/
theorem daysBeforeYear_lt_ordinal (h : d.Proper) {year : Nat} (hyear : 1 ≤ year)
    (hle : year ≤ d.year) : daysBeforeYear year < d.ordinal := by
  have hyears := daysBeforeYear_le hyear hle
  have hday := one_le_dayOfYear h
  rw [ordinal]
  omega

/-- The number of a date is no greater than that of the last day before a later year. -/
theorem ordinal_le_daysBeforeYear (h : d.Proper) {year : Nat} (hlt : d.year < year) :
    d.ordinal ≤ daysBeforeYear year := by
  calc d.ordinal
      ≤ daysBeforeYear d.year + daysInYear d.year := Nat.add_le_add_left (dayOfYear_le h) _
    _ = daysBeforeYear (d.year + 1) := (daysBeforeYear_succ h.year).symm
    _ ≤ daysBeforeYear year := daysBeforeYear_le (Nat.le_add_left 1 _) hlt

/-! ## The following day -/

/-- The day after a date: the next one of the month, or the first one of the next month or year. -/
def next (d : Date) : Date :=
  if d.day < daysInMonth d.year d.month then { d with day := d.day + 1 }
  else if d.month < 12 then { d with month := d.month + 1, day := 1 }
  else { year := d.year + 1, month := 1, day := 1 }

theorem daysInMonth_bounds (year month : Nat) :
    28 ≤ daysInMonth year month ∧ daysInMonth year month ≤ 31 := by
  rw [daysInMonth]
  split
  · split <;> decide
  · split <;> decide

theorem one_le_daysInMonth (year month : Nat) : 1 ≤ daysInMonth year month :=
  Nat.le_trans (by decide) (daysInMonth_bounds year month).1

theorem Proper.next (h : d.Proper) : d.next.Proper := by
  rw [Date.next]
  split
  · rename_i hday
    exact ⟨h.year, h.month, h.month_le, Nat.le_add_left 1 _, hday⟩
  · split
    · rename_i hmonth
      exact ⟨h.year, Nat.le_add_left 1 _, hmonth, Nat.le_refl 1, one_le_daysInMonth _ _⟩
    · exact ⟨Nat.le_add_left 1 _, Nat.le_refl 1, (by decide : 1 ≤ 12), Nat.le_refl 1,
        one_le_daysInMonth _ _⟩

/-- The following day has the next number. -/
theorem ordinal_next (h : d.Proper) : d.next.ordinal = d.ordinal + 1 := by
  have hlast := h.day_le
  rw [next]
  split
  · rfl
  · rename_i hday
    have hfull : d.day = daysInMonth d.year d.month := by omega
    split
    · have hmonth := daysBeforeMonth_succ d.year h.month
      simp only [ordinal, dayOfYear]
      omega
    · rename_i hdecember
      -- behind the last day of December the year is full
      have hm : d.month = 12 := Nat.le_antisymm h.month_le (Nat.not_lt.mp hdecember)
      have hyear := daysBeforeYear_succ h.year
      rw [← daysBeforeMonth_thirteen] at hyear
      rw [hm] at hfull
      have hmonth : daysBeforeMonth d.year 13 =
          daysBeforeMonth d.year 12 + daysInMonth d.year 12 := rfl
      have hfirst : daysBeforeMonth (d.year + 1) 1 = 0 := rfl
      simp only [ordinal, dayOfYear, hm]
      omega

/-! ## The date with a number -/

/-- The days of whole months are counted off up to the month of a date. -/
theorem monthDay_eq {year month day : Nat} (hday : 1 ≤ day) (hle : day ≤ daysInMonth year month)
    (steps : Nat) {first rest : Nat} (hfirst : 1 ≤ first) (hmonth : first ≤ month)
    (hsteps : month ≤ first + steps)
    (hrest : daysBeforeMonth year first + rest + 1 = daysBeforeMonth year month + day) :
    monthDay year steps first rest = (month, day) := by
  induction steps generalizing first rest with
  | zero =>
      obtain rfl : month = first := Nat.le_antisymm hsteps hmonth
      rw [monthDay, show rest + 1 = day by omega]
  | succ steps ih =>
      rw [monthDay]
      obtain rfl | hlater := Nat.eq_or_lt_of_le hmonth
      · rw [if_pos (by omega), show rest + 1 = day by omega]
      · have hbefore := daysBeforeMonth_succ year hfirst
        have hmore := daysBeforeMonth_le year (Nat.le_add_left 1 first) hlater
        rw [if_neg (by omega)]
        exact ih (Nat.le_add_left 1 _) hlater (by omega) (by omega)

/-- The years before a year, in periods of 400, 100, 4 and 1 years, with the days of the periods. -/
theorem exists_periods (past : Nat) : ∃ a b c e,
    b ≤ 3 ∧ c ≤ 24 ∧ e ≤ 3 ∧ past = a * 400 + b * 100 + c * 4 + e ∧
      daysBeforeYear (past + 1) = 146097 * a + (36524 * b + (1461 * c + 365 * e)) ∧
      (isLeap (past + 1) = true → e = 3 ∧ (c ≠ 24 ∨ b = 3)) := by
  refine ⟨past / 400, past % 400 / 100, past % 100 / 4, past % 4, by omega, by omega, by omega,
    by omega, ?_, ?_⟩
  · have hfour : past / 4 = 100 * (past / 400) + 25 * (past % 400 / 100) + past % 100 / 4 := by
      omega
    have hcentury : past / 100 = 4 * (past / 400) + past % 400 / 100 := by omega
    have hpast : past =
        past / 400 * 400 + past % 400 / 100 * 100 + past % 100 / 4 * 4 + past % 4 := by
      omega
    simp only [daysBeforeYear, Nat.add_sub_cancel, hfour, hcentury]
    generalize past / 400 = a at *
    generalize past % 400 / 100 = b at *
    generalize past % 100 / 4 = c at *
    generalize past % 4 = e at *
    omega
  · rw [isLeap_iff]
    omega

theorem div_mod_period {period rest : Nat} (count : Nat) (h : rest < period) :
    (period * count + rest) / period = count ∧ (period * count + rest) % period = rest := by
  have hpos : 0 < period := Nat.zero_lt_of_lt h
  constructor
  · rw [Nat.mul_add_div hpos, Nat.div_eq_of_lt h, Nat.add_zero]
  · rw [Nat.mul_add_mod, Nat.mod_eq_of_lt h]

/-- Of four parts of a period the last one may be longer. -/
theorem min_div_period {period count rest : Nat} (hpos : 0 < period) (hcount : count ≤ 3)
    (h : rest < period ∨ count = 3) : min ((period * count + rest) / period) 3 = count := by
  rw [Nat.mul_add_div hpos]
  obtain h | rfl := h
  · rw [Nat.div_eq_of_lt h, Nat.add_zero, Nat.min_eq_left hcount]
  · exact Nat.min_eq_right (Nat.le_add_right 3 _)

/-- A day of a year is found by its number in the sequence of days: the year, and the month and
day that its number in the year gives. -/
theorem ofOrdinal_eq {past rest : Nat} (hrest : rest < daysInYear (past + 1)) :
    ofOrdinal (daysBeforeYear (past + 1) + rest + 1) =
      { year := past + 1, month := (monthDay (past + 1) 11 1 rest).1,
        day := (monthDay (past + 1) 11 1 rest).2 } := by
  obtain ⟨a, b, c, e, hb, hc, he, hpast, hdays, hleap⟩ := exists_periods past
  have hshort : rest < 365 ∨ rest ≤ 365 ∧ e = 3 ∧ (c ≠ 24 ∨ b = 3) := by
    obtain ⟨h, hlength⟩ | ⟨-, hlength⟩ := daysInYear_cases (past + 1)
    · rw [hlength] at hrest
      exact .inr ⟨Nat.lt_succ_iff.mp hrest, hleap h⟩
    · rw [hlength] at hrest
      exact .inl hrest
  clear hrest hleap
  rw [hdays, hpast]
  clear hdays hpast
  have hyear : 365 * e + rest < 1461 := by omega
  have hcentury : 1461 * c + (365 * e + rest) < 36524 ∨ b = 3 := by omega
  have hperiod : 36524 * b + (1461 * c + (365 * e + rest)) < 146097 := by omega
  have hlast : rest < 365 ∨ e = 3 := hshort.imp_right fun h => h.2.1
  have hday : 146097 * a + (36524 * b + (1461 * c + 365 * e)) + rest + 1 - 1 =
      146097 * a + (36524 * b + (1461 * c + (365 * e + rest))) := by
    rw [Nat.add_sub_cancel, Nat.add_assoc, Nat.add_assoc, Nat.add_assoc]
  obtain ⟨h400, hrest400⟩ := div_mod_period a hperiod
  obtain ⟨h4, hrest4⟩ := div_mod_period c hyear
  have h100 := min_div_period (by decide) hb hcentury
  have h1 := min_div_period (by decide) he hlast
  have hcenturies : 36524 * b + (1461 * c + (365 * e + rest)) - b * 36524 =
      1461 * c + (365 * e + rest) := by
    rw [Nat.mul_comm b, Nat.add_sub_cancel_left]
  have hyears : 365 * e + rest - e * 365 = rest := by
    rw [Nat.mul_comm e, Nat.add_sub_cancel_left]
  unfold ofOrdinal
  dsimp only
  rw [hday, hrest400, h100, hcenturies, hrest4, h1, h4, h400, hyears]

/-- The date with the number of a date is this date. -/
theorem ofOrdinal_ordinal (h : d.Proper) : ofOrdinal d.ordinal = d := by
  obtain ⟨past, hpast⟩ := Nat.exists_eq_add_of_le' h.year
  obtain ⟨rest, hrest⟩ := Nat.exists_eq_add_of_le' (one_le_dayOfYear h)
  have hlt : rest < daysInYear (past + 1) := by
    have hle := dayOfYear_le h
    rw [hrest, hpast] at hle
    exact hle
  have hmonth : monthDay (past + 1) 11 1 rest = (d.month, d.day) := by
    rw [← hpast]
    refine monthDay_eq h.day h.day_le 11 (Nat.le_refl 1) h.month h.month_le ?_
    rw [show daysBeforeMonth d.year 1 = 0 from rfl, Nat.zero_add, ← hrest, dayOfYear]
  rw [ordinal, hrest, hpast, ← Nat.add_assoc, ofOrdinal_eq hlt, hmonth, ← hpast]

end Date

end SemanticMarkup.Calendar
