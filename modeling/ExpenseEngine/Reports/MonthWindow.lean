import ExpenseEngine.Api
import ExpenseEngine.MonthlyReport

/-!
# The window of a month and the day a row is priced on

A report counts the rows between two instants, the conversions of two local
midnights, and prices each row on its local day. The two agree on the month of
every row exactly when the clock of the zone does not jump across either
midnight.

Results:
1. `monthWindow_agrees_iff`: exactly then.
2. `october_row_in_november`: Newfoundland set its clock back across midnight of
   November 1st.
-/

namespace ExpenseEngine

open Time

section Window

variable [Platform] [Locale]

/-- The first local midnight of the month, and the one after its last day. -/
def firstMidnight (year month : Int) : Int := midnight (dayNumber year month 1)

def nextMidnight (year month : Int) : Int :=
  firstMidnight (nextMonth year month).1 (nextMonth year month).2

namespace WindowLemmas

omit [Platform] [Locale] in
theorem firstOfMonth_eq_some {year month : Int} {reading : Timestamp}
    (h : firstOfMonth year month = some reading) :
    reading = firstMidnight year month ∧ 1 ≤ month ∧ month ≤ 12 := by
  unfold firstOfMonth at h
  split at h
  · next hrange =>
    cases h
    exact ⟨rfl, hrange.2.2⟩
  · cases h

omit [Platform] [Locale] in
theorem toUtc_eq_some {zone : Zone} {reading t : Timestamp} (h : toUtc zone reading = some t) :
    t = zone.fromLocal reading := by
  unfold toUtc at h
  dsimp only at h
  split at h
  · cases h
    rfl
  · cases h

/-- The window runs from the conversion of one midnight to that of the other. -/
theorem computeMonthBounds_eq_some {thisMonth : Text → Int × Int} {tz : Text}
    {year? month? : Option Int} {year month : Int} {startUtc endUtc : Timestamp}
    (h : computeMonthBounds thisMonth tz year? month? = some (year, month, startUtc, endUtc)) :
    1 ≤ month ∧ month ≤ 12 ∧
      startUtc = (Locale.zone (resolveTimezone tz)).fromLocal (firstMidnight year month) ∧
      endUtc = (Locale.zone (resolveTimezone tz)).fromLocal (nextMidnight year month) := by
  simp only [computeMonthBounds, Option.bind_eq_bind, Option.bind_eq_some_iff, Option.pure_def,
    Option.some.injEq, Prod.mk.injEq] at h
  obtain ⟨startLocal, hstart, endLocal, hend, s, hs, e, he, hyear, hmon, rfl, rfl⟩ := h
  rw [hyear, hmon] at hstart hend
  obtain ⟨rfl, hmonth⟩ := firstOfMonth_eq_some hstart
  refine ⟨hmonth.1, hmonth.2, toUtc_eq_some hs, ?_⟩
  rw [toUtc_eq_some he]
  unfold nextMidnight nextMonth
  by_cases hdec : month = 12
  · rw [if_pos hdec] at hend ⊢
    rw [(firstOfMonth_eq_some hend).1]
  · rw [if_neg hdec] at hend ⊢
    rw [(firstOfMonth_eq_some hend).1]

omit [Platform] [Locale] in
/-- A month is long enough for the two conversions not to meet. -/
theorem nextMidnight_ge {year month : Int} (h₁ : 1 ≤ month) (h₂ : month ≤ 12) :
    firstMidnight year month + 4 * dayLength ≤ nextMidnight year month := by
  have hlen := daysInMonth_ge year month
  have hnext := dayNumber_nextMonth year h₁ h₂
  unfold nextMidnight firstMidnight midnight dayLength
  omega

omit [Platform] in
theorem inMonth_rateDate {year month : Int} (h₁ : 1 ≤ month) (h₂ : month ≤ 12) (tz : Text)
    (t : Timestamp) :
    InMonth year month (rateDate tz t) ↔
      firstMidnight year month ≤ (Locale.zone tz).toLocal t ∧
        (Locale.zone tz).toLocal t < nextMidnight year month := by
  have hlast := le_dateOf_iff (dayNumber (nextMonth year month).1 (nextMonth year month).2 1)
    ((Locale.zone tz).toLocal t)
  rw [inMonth_iff h₁ h₂, rateDate, le_dateOf_iff]
  unfold nextMidnight firstMidnight
  rw [← not_le, hlast, not_le]

end WindowLemmas

open WindowLemmas

/-- The rows in the window of a month are the rows priced on a day of the month,
exactly when neither the midnight that begins the month nor the one that ends it
lies strictly between the readings right before and right after a transition. -/
theorem monthWindow_agrees_iff {thisMonth : Text → Int × Int} {tz : Text}
    {year? month? : Option Int} {year month : Int} {startUtc endUtc : Timestamp}
    (h : computeMonthBounds thisMonth tz year? month? = some (year, month, startUtc, endUtc)) :
    (∀ t : Timestamp, startUtc ≤ t ∧ t < endUtc ↔
        InMonth year month (rateDate (resolveTimezone tz) t)) ↔
      (Locale.zone (resolveTimezone tz)).Continuous (firstMidnight year month) ∧
        (Locale.zone (resolveTimezone tz)).Continuous (nextMidnight year month) := by
  obtain ⟨h₁, h₂, rfl, rfl⟩ := computeMonthBounds_eq_some h
  simp only [inMonth_rateDate h₁ h₂]
  exact window_iff_continuous _ (nextMidnight_ge h₁ h₂)

end Window

/-! ## Newfoundland -/

namespace Ascii

/-- Newfoundland in 2009: summer time from March 8th to November 1st, both at one
minute past midnight. -/
def newfoundland : Zone where
  before := -12600000000
  transitions := [(1236483060000000, -9000000000), (1257042660000000, -12600000000)]
  sorted := by decide
  bounded := by decide

scoped instance locale : Locale where
  zone _ := newfoundland
  nameLe a b := decide (a ≤ b)

/-- The year and month of a clock that is not asked for them. -/
def noMonth : Text → Int × Int := fun _ => (0, 0)

end Ascii

open Ascii in
theorem monthWindow_agrees_iff_may :
    computeMonthBounds noMonth "America/St_Johns".toList (some 2009) (some 5) =
        some (2009, 5, 1241145000000000, 1243823400000000) ∧
      ∀ t : Timestamp, 1241145000000000 ≤ t ∧ t < 1243823400000000 ↔
        InMonth 2009 5 (rateDate (resolveTimezone "America/St_Johns".toList) t) := by
  have hbounds : computeMonthBounds noMonth "America/St_Johns".toList (some 2009) (some 5) =
      some (2009, 5, 1241145000000000, 1243823400000000) := by decide +kernel
  exact ⟨hbounds, (monthWindow_agrees_iff hbounds).mpr ⟨by decide +kernel, by decide +kernel⟩⟩

open Ascii in
/-- One minute after midnight the clock went back to 23:01 of October 31st, so
that minute is in the window of November and priced on October 31st. -/
theorem october_row_in_november :
    ∃ startUtc endUtc : Timestamp,
      computeMonthBounds noMonth "America/St_Johns".toList (some 2009) (some 11) =
        some (2009, 11, startUtc, endUtc) ∧
      (startUtc ≤ 1257042660000000 ∧ 1257042660000000 < endUtc) ∧
      ¬InMonth 2009 11 (rateDate (resolveTimezone "America/St_Johns".toList) 1257042660000000) := by
  refine ⟨1257042600000000, 1259638200000000, by decide +kernel, by decide, ?_⟩
  rw [inMonth_iff (by decide) (by decide)]
  decide +kernel

end ExpenseEngine
