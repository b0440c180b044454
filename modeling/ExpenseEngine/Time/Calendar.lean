import ExpenseEngine.Time.Zone

/-!
# The calendar

Days are numbered from 1970-01-01, months and days of a month from 1. The day
number of a date is computed as `datetime` computes its ordinal.

Results:
1. `inMonth_iff`: the days of a month are those from its first one up to the
   first one of the next month.
2. `dayNumber_nextMonth`: months follow one another without a gap.
-/

namespace Time

/-! ## Dates -/

def isLeap (year : Int) : Bool :=
  year % 4 == 0 && (year % 100 != 0 || year % 400 == 0)

/-- Days before January 1st of the year, counted from the year 1. -/
def daysBeforeYear (year : Int) : Int :=
  let y := year - 1
  y * 365 + y / 4 - y / 100 + y / 400

def daysInMonth (year month : Int) : Int :=
  if month = 2 then (if isLeap year then 29 else 28)
  else if month = 4 ∨ month = 6 ∨ month = 9 ∨ month = 11 then 30
  else 31

/-- Days of the year before the first day of the month. -/
def daysBeforeMonth (year month : Int) : Int :=
  [0, 31, 59, 90, 120, 151, 181, 212, 243, 273, 304, 334].getD (month - 1).toNat 0 +
    if 2 < month ∧ isLeap year then 1 else 0

/-- The number of the day; `datetime` counts from 0001-01-01, which is day 1. -/
def dayNumber (year month day : Int) : Int :=
  daysBeforeYear year + daysBeforeMonth year month + day - 719163

/-- The day `date` is one of the days of the month. -/
def InMonth (year month date : Int) : Prop :=
  ∃ day, 1 ≤ day ∧ day ≤ daysInMonth year month ∧ dayNumber year month day = date

/-- The month after. -/
def nextMonth (year month : Int) : Int × Int :=
  if month = 12 then (year + 1, 1) else (year, month + 1)

/-! ## Months -/

section Months

variable {year month : Int}

theorem daysBeforeYear_succ (year : Int) :
    daysBeforeYear (year + 1) = daysBeforeYear year + if isLeap year then 366 else 365 := by
  unfold daysBeforeYear isLeap
  dsimp only
  split
  · next h =>
    simp only [Bool.and_eq_true, Bool.or_eq_true, beq_iff_eq, bne_iff_ne] at h
    omega
  · next h =>
    simp only [Bool.and_eq_true, Bool.or_eq_true, beq_iff_eq, bne_iff_ne] at h
    omega

/-- A month is as long as the calendar says. -/
theorem daysBeforeMonth_succ (year : Int) (h₁ : 1 ≤ month) (h₂ : month < 12) :
    daysBeforeMonth year (month + 1) =
      daysBeforeMonth year month + daysInMonth year month := by
  have hm : month = 1 ∨ month = 2 ∨ month = 3 ∨ month = 4 ∨ month = 5 ∨ month = 6 ∨ month = 7 ∨
      month = 8 ∨ month = 9 ∨ month = 10 ∨ month = 11 := by omega
  unfold daysBeforeMonth daysInMonth
  cases isLeap year <;> rcases hm with rfl | rfl | rfl | rfl | rfl | rfl | rfl | rfl | rfl | rfl |
    rfl <;> rfl

theorem daysBeforeMonth_december (year : Int) :
    daysBeforeMonth year 12 + daysInMonth year 12 = if isLeap year then 366 else 365 := by
  unfold daysBeforeMonth daysInMonth
  cases isLeap year <;> rfl

theorem daysInMonth_ge (year month : Int) : 28 ≤ daysInMonth year month := by
  unfold daysInMonth
  split
  · split <;> omega
  · split <;> omega

theorem dayNumber_add (year month day : Int) :
    dayNumber year month day = dayNumber year month 1 + (day - 1) := by
  unfold dayNumber
  omega

/-- The first day of the next month comes right after the last one of this
month. -/
theorem dayNumber_nextMonth (year : Int) (h₁ : 1 ≤ month) (h₂ : month ≤ 12) :
    dayNumber (nextMonth year month).1 (nextMonth year month).2 1 =
      dayNumber year month 1 + daysInMonth year month := by
  unfold nextMonth
  by_cases hm : month = 12
  · rw [if_pos hm, hm]
    have hyear := daysBeforeYear_succ year
    have hdec := daysBeforeMonth_december year
    have hjan : daysBeforeMonth (year + 1) 1 = 0 := by simp [daysBeforeMonth]
    simp only [dayNumber]
    omega
  · rw [if_neg hm]
    have hsucc := daysBeforeMonth_succ year h₁ (by omega)
    simp only [dayNumber]
    omega

theorem inMonth_iff (h₁ : 1 ≤ month) (h₂ : month ≤ 12) (date : Int) :
    InMonth year month date ↔
      dayNumber year month 1 ≤ date ∧
        date < dayNumber (nextMonth year month).1 (nextMonth year month).2 1 := by
  rw [dayNumber_nextMonth year h₁ h₂]
  constructor
  · rintro ⟨day, hd₁, hd₂, rfl⟩
    have := dayNumber_add year month day
    omega
  · rintro ⟨hfirst, hlast⟩
    refine ⟨date - dayNumber year month 1 + 1, by omega, by omega, ?_⟩
    rw [dayNumber_add]
    omega

end Months

/-- The day of a clock reading. -/
def dateOf (reading : Int) : Int := reading / dayLength

/-- The reading at which a day begins. -/
def midnight (date : Int) : Int := date * dayLength

theorem le_dateOf_iff (date reading : Int) : date ≤ dateOf reading ↔ midnight date ≤ reading := by
  unfold dateOf midnight
  exact Int.le_ediv_iff_mul_le (by decide)

/-! ## The window of a month -/

/-- The instants between the conversions of two readings, more than two days
apart, are those at which the clock shows a reading between the two, exactly
when the clock jumps across neither. -/
theorem window_iff_continuous (z : Zone) {b e : Int} (hbe : b + 4 * dayLength ≤ e) :
    (∀ t, z.fromLocal b ≤ t ∧ t < z.fromLocal e ↔ b ≤ z.toLocal t ∧ z.toLocal t < e) ↔
      z.Continuous b ∧ z.Continuous e := by
  have hday : 0 < dayLength := by decide
  have hb := z.fromLocal_bounds b
  have he := z.fromLocal_bounds e
  constructor
  · intro h
    -- near `b` only the lower bounds matter, away from it both hold or both fail
    refine ⟨continuous_of_fromLocal fun t => ?_, continuous_of_fromLocal fun t => ?_⟩
    · have ht := z.toLocal_bounds t
      have hwin := h t
      by_cases hnear : t < b + 2 * dayLength
      · have hbefore : t < z.fromLocal e ∧ z.toLocal t < e := by omega
        simpa [hbefore.1, hbefore.2] using hwin
      · have hafter : z.fromLocal b ≤ t ∧ b ≤ z.toLocal t := by omega
        simp [hafter.1, hafter.2]
    · have ht := z.toLocal_bounds t
      have hwin := h t
      by_cases hnear : b + 2 * dayLength ≤ t
      · have hafter : z.fromLocal b ≤ t ∧ b ≤ z.toLocal t := by omega
        have hlt : t < z.fromLocal e ↔ z.toLocal t < e := by simpa [hafter.1, hafter.2] using hwin
        omega
      · have hbefore : t < z.fromLocal e ∧ z.toLocal t < e := by omega
        omega
  · rintro ⟨hcb, hce⟩ t
    have hlower := fromLocal_le_iff hcb t
    have hupper := fromLocal_le_iff hce t
    omega

end Time
