import SemanticMarkup.Proofs.Calendar.Clock
import SemanticMarkup.Proofs.Calendar.IsoText
import SemanticMarkup.Proofs.Format.Faults

/-!
# The ways to give a moment

A date or a time may be given as such, by its ISO text or by a number of seconds. What a format of
moments shows depends on the moment alone, so it is enough that these values stand for one moment.

## Implementation notes

The ISO text of a time loses an offset of less than a second, so a time with such an offset is not
shown like its text.
-/

namespace SemanticMarkup

open SemanticMarkup.Calendar

namespace Formatter

/-- The formats that show a moment. -/
def ShowsMoments (kind : FormatName) : Prop :=
  kind = .date ∨ kind = .datetime

variable {f : Formatter} {v format : Value} {kind : FormatName} {pattern : String} {t : DateTime}

theorem momentText_text (hpattern : pattern ≠ "") (t : DateTime) (usual : String) :
    momentText t (.text pattern) usual = .ok (t.show pattern) := by
  have htrue : (Value.text pattern).isTrue = true := bne_iff_ne.mpr hpattern
  rw [momentText, htrue]
  rfl

/-- A value that stands for a moment is shown as the pattern shows the moment. -/
theorem format_of_datetimeOf (hkind : ShowsMoments kind)
    (hasks : Format.Asks format kind [.text pattern]) (hpattern : pattern ≠ "")
    (hnull : v.isNull = false) (hmoment : datetimeOf v = .ok t) :
    f.format v format = .ok (t.show pattern) := by
  have hcount : [Value.text pattern].length ≤ kind.maxArguments := by
    obtain rfl | rfl := hkind <;> exact Nat.le_refl 1
  have hshown (usual : String) :
      (datetimeOf v >>= fun t => momentText t (.text pattern) usual) = .ok (t.show pattern) := by
    rw [hmoment, Outcome.ok_bind, momentText_text hpattern]
  rw [format_of_asks f hasks hcount hnull]
  obtain rfl | rfl := hkind
  · exact hshown f.settings.dateFormat
  · exact hshown f.settings.datetimeFormat

theorem datetimeOf_isoDate {d : Date} (h : d.isValid = true) :
    datetimeOf (.text (String.ofList d.isoText)) = .ok d.midnight := by
  rw [datetimeOf, DateTime.ofIso?_date h]

theorem datetimeOf_isoText (h : t.isValid = true) (hoffset : t.OffsetFits) :
    datetimeOf (.text (String.ofList (t.isoText 'T'))) = .ok t.kept := by
  rw [datetimeOf, DateTime.ofIso?_isoText 'T' h hoffset]

theorem datetimeOf_seconds {n : Int} (h : t.IsAfterEpoch n) (hfrom : 2 ≤ t.date.year)
    (hupto : t.date.year ≤ lastYear) : datetimeOf (.int n) = .ok t := by
  rw [datetimeOf, DateTime.ofSeconds_eq h hfrom hupto, momentOf]

/-- A date and its ISO text are shown alike. So are a time and its ISO text, if the offset is
nothing or at least a second, and a number of seconds and the time that lies so far from the start
of 1970, in a year from 2 to 9999; every number of seconds in between leads to such a time. -/
theorem format_representations (f : Formatter) (hkind : ShowsMoments kind)
    (hasks : Format.Asks format kind [.text pattern]) (hpattern : pattern ≠ "") :
    (∀ d : Date, d.isValid = true →
      f.format (.date d) format = .ok (d.midnight.show pattern) ∧
        f.format (.text (String.ofList d.isoText)) format = .ok (d.midnight.show pattern)) ∧
    (∀ t : DateTime, t.isValid = true → t.OffsetFits →
      (∀ offset ∈ t.offset, offset = 0 ∨ 1000000 ≤ offset.natAbs) →
      f.format (.datetime t) format = .ok (t.show pattern) ∧
        f.format (.text (String.ofList (t.isoText 'T'))) format = .ok (t.show pattern)) ∧
    (∀ (n : Int) (t : DateTime), t.IsAfterEpoch n → 2 ≤ t.date.year → t.date.year ≤ lastYear →
      f.format (.int n) format = .ok (t.show pattern) ∧
        f.format (.datetime t) format = .ok (t.show pattern)) ∧
    (∀ n : Int, -62104060800 ≤ n → n ≤ 253402300799 →
      ∃ t : DateTime, t.IsAfterEpoch n ∧ 2 ≤ t.date.year ∧ t.date.year ≤ lastYear) := by
  have hshown {v : Value} {t : DateTime} (hnull : v.isNull = false)
      (hmoment : datetimeOf v = .ok t) : f.format v format = .ok (t.show pattern) :=
    format_of_datetimeOf hkind hasks hpattern hnull hmoment
  refine ⟨fun d hd => ?_, fun t ht hoffset hwhole => ?_, fun n t hafter hfrom hupto => ?_,
    fun n hlow hhigh => DateTime.exists_isAfterEpoch hlow hhigh⟩
  · exact ⟨hshown rfl rfl, hshown rfl (datetimeOf_isoDate hd)⟩
  · refine ⟨hshown rfl rfl, hshown rfl ?_⟩
    rw [datetimeOf_isoText ht hoffset, DateTime.kept_eq hwhole]
  · exact ⟨hshown rfl (datetimeOf_seconds hafter hfrom hupto), hshown rfl rfl⟩

/-- A format of dates with the day in front of the offset. -/
def dayAndOffset : Value :=
  .list [.text "date", .text "%d.%m.%Y %z"]

/-- The last second before 1970, as a time. -/
def lastSecondBeforeEpoch : DateTime :=
  { date := ⟨1969, 12, 31⟩, hour := 23, minute := 59, second := 59, microsecond := 0,
    offset := none }

theorem format_representations_dayAndOffset :
    ShowsMoments .date ∧ Format.Asks dayAndOffset .date [.text "%d.%m.%Y %z"] ∧
    (ofComplete .standard).format (.date ⟨2016, 2, 29⟩) dayAndOffset = .ok "29.02.2016 " ∧
    (ofComplete .standard).format (.text "2016-02-29") dayAndOffset = .ok "29.02.2016 " ∧
    (ofComplete .standard).format (.text "2015-03-07T23:05:01-03:30") dayAndOffset =
      .ok "07.03.2015 -0330" ∧
    lastSecondBeforeEpoch.IsAfterEpoch (-1) ∧
    (ofComplete .standard).format (.int (-1)) dayAndOffset = .ok "31.12.1969 " ∧
    (ofComplete .standard).format (.datetime lastSecondBeforeEpoch) dayAndOffset =
      .ok "31.12.1969 " := by
  have hasks : Format.Asks dayAndOffset .date [.text "%d.%m.%Y %z"] :=
    ⟨"date", rfl, FormatName.ofText?_written .date⟩
  have hcivil : lastSecondBeforeEpoch.IsCivil :=
    ⟨⟨by decide, by decide, by decide, by decide, by decide⟩, by decide, by decide, by decide, rfl,
      rfl⟩
  have hnext : lastSecondBeforeEpoch.next = DateTime.epoch := by decide
  have hafter : lastSecondBeforeEpoch.IsAfterEpoch (-1) := .earlier hcivil (hnext ▸ .epoch)
  let behind : DateTime :=
    { date := ⟨2015, 3, 7⟩, hour := 23, minute := 5, second := 1, microsecond := 0,
      offset := some (-12600000000) }
  obtain ⟨hdates, htimes, hseconds, -⟩ :=
    format_representations (ofComplete .standard) (.inl rfl) hasks (by decide)
  obtain ⟨hdate, hdateText⟩ := hdates ⟨2016, 2, 29⟩ (by decide)
  obtain ⟨-, htimeText⟩ := htimes behind (by decide) (by rintro _ ⟨⟩; decide)
    (by rintro _ ⟨⟩; exact .inr (by decide))
  obtain ⟨hnumber, htime⟩ := hseconds (-1) lastSecondBeforeEpoch hafter (by decide) (by decide)
  have hleap : (⟨2016, 2, 29⟩ : Date).midnight.show "%d.%m.%Y %z" = "29.02.2016 " := by
    decide +kernel
  have hbehind : behind.show "%d.%m.%Y %z" = "07.03.2015 -0330" := by
    decide +kernel
  have hlast : lastSecondBeforeEpoch.show "%d.%m.%Y %z" = "31.12.1969 " := by
    decide +kernel
  have hleapText : String.ofList (⟨2016, 2, 29⟩ : Date).isoText = "2016-02-29" := by decide +kernel
  have hbehindText : String.ofList (behind.isoText 'T') = "2015-03-07T23:05:01-03:30" := by
    decide +kernel
  rw [hleap] at hdate hdateText
  rw [hleapText] at hdateText
  rw [hbehind, hbehindText] at htimeText
  rw [hlast] at hnumber htime
  exact ⟨.inl rfl, hasks, hdate, hdateText, htimeText, hafter, hnumber, htime⟩

/-- A time with an offset of five microseconds. -/
def slightlyAhead : DateTime :=
  { date := ⟨2015, 3, 7⟩, hour := 9, minute := 5, second := 1, microsecond := 0, offset := some 5 }

/-- An offset of less than a second is shown with the time, but not with its ISO text. -/
theorem format_isoText_ne_slightlyAhead :
    slightlyAhead.isValid = true ∧ slightlyAhead.OffsetFits ∧
    slightlyAhead.isoText 'T' = "2015-03-07T09:05:01+00:00:00.000005".toList ∧
    (ofComplete .standard).format (.datetime slightlyAhead) (.list [.text "date", .text "%z"]) =
      .ok "+000000.000005" ∧
    (ofComplete .standard).format (.text "2015-03-07T09:05:01+00:00:00.000005")
      (.list [.text "date", .text "%z"]) = .ok "+0000" := by
  refine ⟨by decide, by rintro _ ⟨⟩; decide, by decide, ?_, ?_⟩
  · decide +kernel
  · decide +kernel

end Formatter

end SemanticMarkup
