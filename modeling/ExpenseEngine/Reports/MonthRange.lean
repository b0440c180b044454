import Mathlib.Data.List.Range
import ExpenseEngine.Reads
import ExpenseEngine.Reports.MonthWindow
import ExpenseEngine.Time.Months

/-!
# A range of months

A range report has a window for each of its months. The windows are taken on any
clock: all that counts is that an offset is less than a day, and a month is at
least four weeks.

Results:
1. `computeMonthBounds_eq_monthBounds`: the windows of a zone are those of a
   clock.
2. `iterMonths_eq`: the months of a range are counted through from the first to
   the last.
3. `range_tiled`: their windows lie end to end, and none is empty.
-/

namespace ExpenseEngine

open Time

/-! ## Windows on a clock -/

/-- `toUtc` on any clock. -/
def clockToUtc (c : Clock) (reading : Timestamp) : Option Timestamp :=
  let t := c.fromLocal reading
  if datetimeMin ≤ t ∧ t ≤ datetimeMax then some t else none

/-- The two instants of `computeMonthBounds`, on any clock. -/
def monthBounds (c : Clock) (year month : Int) : Option (Timestamp × Timestamp) := do
  let startLocal ← firstOfMonth year month
  let endLocal ←
    (if month = 12 then firstOfMonth (year + 1) 1 else firstOfMonth year (month + 1))
  return (← clockToUtc c startLocal, ← clockToUtc c endLocal)

/-- A zone is one of the clocks, and `computeMonthBounds` computes its windows. -/
theorem computeMonthBounds_eq_monthBounds [Platform] [Locale] (tz : Text) :
    ∃ c : Clock, (∀ t, c.offsetAt t = (Locale.zone (resolveTimezone tz)).toLocal t - t) ∧
      ∀ (thisMonth : Text → Int × Int) (year month : Int),
        computeMonthBounds thisMonth tz (some year) (some month) =
          (monthBounds c year month).map fun w => (year, month, w.1, w.2) := by
  obtain ⟨c, hoffset, hfrom⟩ := exists_clock (Locale.zone (resolveTimezone tz))
  refine ⟨c, fun t => ?_, fun thisMonth year month => ?_⟩
  · rw [hoffset, Zone.toLocal]
    omega
  · have hutc : ∀ b, clockToUtc c b = toUtc (Locale.zone (resolveTimezone tz)) b := fun b => by
      rw [clockToUtc, toUtc, hfrom]
    simp only [computeMonthBounds, monthBounds, hutc, Option.bind_eq_bind, Option.pure_def,
      Option.map_bind, Function.comp_def, Option.map_some]

/-! ## The months of a range -/

/-- A range a report can be asked for, with years all of whose months `datetime`
can tell in UTC; the query takes those from 1900 to 2100. -/
structure MonthRange where
  fromYear : Int
  fromMonth : Int
  toYear : Int
  toMonth : Int
  fromMonth_valid : 1 ≤ fromMonth ∧ fromMonth ≤ 12
  toMonth_valid : 1 ≤ toMonth ∧ toMonth ≤ 12
  ordered : fromYear < toYear ∨ fromYear = toYear ∧ fromMonth ≤ toMonth
  representable : 1 < fromYear ∧ toYear < 9999

def MonthRange.months (r : MonthRange) : List (Int × Int) :=
  iterMonths r.fromYear r.fromMonth r.toYear r.toMonth

def MonthRange.count (r : MonthRange) : Int :=
  monthCount r.fromYear r.fromMonth r.toYear r.toMonth

namespace RangeLemmas

theorem monthIndex_le_iff {year month toYear toMonth : Int} (h₁ : 1 ≤ month) (h₂ : month ≤ 12)
    (h₃ : 1 ≤ toMonth) (h₄ : toMonth ≤ 12) :
    monthIndex year month ≤ monthIndex toYear toMonth ↔
      year < toYear ∨ year = toYear ∧ month ≤ toMonth := by
  unfold monthIndex
  omega

theorem monthCount_eq (year month toYear toMonth : Int) :
    monthCount year month toYear toMonth =
      monthIndex toYear toMonth + 1 - monthIndex year month := by
  unfold monthCount monthIndex
  omega

/-- One turn of the loop, whether the year ends or not. -/
theorem iterMonths_succ {year month toYear toMonth : Int} (h₁ : 1 ≤ month) (h₂ : month ≤ 12)
    (hle : year < toYear ∨ year = toYear ∧ month ≤ toMonth) :
    iterMonths year month toYear toMonth =
      (year, month) ::
        iterMonths (nextMonth year month).1 (nextMonth year month).2 toYear toMonth := by
  rw [iterMonths, if_pos hle]
  unfold nextMonth
  by_cases hdec : month = 12
  · rw [if_pos (by omega), if_pos hdec]
  · rw [if_neg (by omega), if_neg hdec]

/-- The months are counted through. The induction is on their number. -/
theorem iterMonths_eq (toYear : Int) {toMonth : Int} (h₃ : 1 ≤ toMonth) (h₄ : toMonth ≤ 12)
    (n : Nat) :
    ∀ i : Int, (n : Int) = max 0 (monthIndex toYear toMonth + 1 - i) →
      iterMonths (monthAt i).1 (monthAt i).2 toYear toMonth =
        (List.range n).map fun k : Nat => monthAt (i + k) := by
  induction n with
  | zero =>
    intro i hn
    obtain ⟨h₁, h₂⟩ := monthAt_bounds i
    have hpast : ¬monthIndex (monthAt i).1 (monthAt i).2 ≤ monthIndex toYear toMonth := by
      rw [monthIndex_monthAt]
      omega
    rw [monthIndex_le_iff h₁ h₂ h₃ h₄] at hpast
    rw [iterMonths, if_neg hpast]
    rfl
  | succ n ih =>
    intro i hn
    obtain ⟨h₁, h₂⟩ := monthAt_bounds i
    have hle : monthIndex (monthAt i).1 (monthAt i).2 ≤ monthIndex toYear toMonth := by
      rw [monthIndex_monthAt]
      omega
    rw [monthIndex_le_iff h₁ h₂ h₃ h₄] at hle
    rw [iterMonths_succ h₁ h₂ hle, nextMonth_monthAt, ih (i + 1) (by omega),
      List.range_succ_eq_map, List.map_cons, List.map_map, Nat.cast_zero, add_zero]
    refine congrArg _ (List.map_congr_left fun k _ => ?_)
    rw [Function.comp_apply, Nat.cast_succ, add_assoc, add_comm 1]

section Range

variable (r : MonthRange)

/-- The number of the first month. -/
def firstIndex : Int := monthIndex r.fromYear r.fromMonth

theorem count_pos : 0 < r.count := by
  have hle := (monthIndex_le_iff r.fromMonth_valid.1 r.fromMonth_valid.2 r.toMonth_valid.1
    r.toMonth_valid.2).mpr r.ordered
  rw [MonthRange.count, monthCount_eq]
  omega

theorem months_eq :
    r.months = (List.range r.count.toNat).map fun k : Nat => monthAt (firstIndex r + k) := by
  have hpos := count_pos r
  rw [MonthRange.count, monthCount_eq] at hpos
  have h := iterMonths_eq r.toYear r.toMonth_valid.1 r.toMonth_valid.2 r.count.toNat
    (firstIndex r) (by
    rw [MonthRange.count, monthCount_eq, firstIndex]
    omega)
  rw [firstIndex, monthAt_monthIndex r.fromMonth_valid.1 r.fromMonth_valid.2] at h
  exact h

theorem lastMonth_eq :
    monthAt (firstIndex r + (r.count.toNat - 1 : Nat)) = (r.toYear, r.toMonth) := by
  have hpos := count_pos r
  have hlast : firstIndex r + (r.count.toNat - 1 : Nat) = monthIndex r.toYear r.toMonth := by
    rw [MonthRange.count, monthCount_eq] at *
    unfold firstIndex
    omega
  rw [hlast, monthAt_monthIndex r.toMonth_valid.1 r.toMonth_valid.2]

theorem mem_months {p : Int × Int} :
    p ∈ r.months ↔ ∃ k : Nat, k < r.count.toNat ∧ monthAt (firstIndex r + k) = p := by
  rw [months_eq, List.mem_map]
  simp only [List.mem_range]

/-- `datetime` can tell every month of the range. -/
theorem index_bounds {k : Nat} (hk : k < r.count.toNat) :
    monthIndex 2 1 ≤ firstIndex r + k ∧ firstIndex r + k < monthIndex 9999 1 := by
  have hyears := r.representable
  have hfrom := r.fromMonth_valid
  have hto := r.toMonth_valid
  have hpos := count_pos r
  unfold MonthRange.count monthCount at *
  unfold firstIndex monthIndex
  omega

end Range

/-! ## Their windows -/

theorem firstDay_mono {i j : Int} (h : i ≤ j) : firstDay i ≤ firstDay j := by
  induction j, h using Int.leInduction with
  | base => exact le_rfl
  | succ j h ih =>
    have hlength := daysInMonth_ge (monthAt j).1 (monthAt j).2
    rw [firstDay_succ]
    omega

theorem clockToUtc_firstDay (c : Clock) {i : Int} (h₁ : monthIndex 2 1 ≤ i)
    (h₂ : i ≤ monthIndex 9999 1) :
    clockToUtc c (midnight (firstDay i)) = some (c.monthStart i) := by
  have hlow := firstDay_mono h₁
  have hhigh := firstDay_mono h₂
  have hmin : firstDay (monthIndex 2 1) = -718797 := by decide +kernel
  have hmax : firstDay (monthIndex 9999 1) = 2932532 := by decide +kernel
  have hbounds := c.fromLocal_bounds (midnight (firstDay i))
  have hin : midnight (-719162) ≤ c.fromLocal (midnight (firstDay i)) ∧
      c.fromLocal (midnight (firstDay i)) ≤ midnight 2932897 - 1 := by
    unfold midnight dayLength at *
    omega
  have hdmin : datetimeMin = midnight (-719162) := by decide +kernel
  have hdmax : datetimeMax = midnight 2932897 - 1 := by decide +kernel
  rw [clockToUtc, hdmin, hdmax]
  exact if_pos hin

theorem monthBounds_monthAt (c : Clock) {i : Int} (h₁ : monthIndex 2 1 ≤ i)
    (h₂ : i < monthIndex 9999 1) :
    monthBounds c (monthAt i).1 (monthAt i).2 = some (c.monthStart i, c.monthStart (i + 1)) := by
  obtain ⟨hm₁, hm₂⟩ := monthAt_bounds i
  have hyear : 1 ≤ (monthAt i).1 ∧ (monthAt i).1 < 9999 := by
    unfold monthAt monthIndex at *
    dsimp only
    omega
  have hstart : firstOfMonth (monthAt i).1 (monthAt i).2 = some (midnight (firstDay i)) :=
    if_pos ⟨hyear.1, hyear.2.le, hm₁, hm₂⟩
  have hend : (if (monthAt i).2 = 12 then firstOfMonth ((monthAt i).1 + 1) 1
      else firstOfMonth (monthAt i).1 ((monthAt i).2 + 1)) =
        some (midnight (firstDay (i + 1))) := by
    rw [firstDay, ← nextMonth_monthAt]
    unfold nextMonth firstOfMonth
    split
    · rw [if_pos (by omega)]
    · rw [if_pos (by omega)]
  simp only [monthBounds, hstart, hend, Option.bind_eq_bind, Option.bind_some,
    clockToUtc_firstDay c h₁ (by omega : i ≤ monthIndex 9999 1),
    clockToUtc_firstDay c (by omega : monthIndex 2 1 ≤ i + 1) (by omega), Option.pure_def]

theorem monthBounds_nth (c : Clock) (r : MonthRange) {k : Nat} (hk : k < r.count.toNat) :
    monthBounds c (monthAt (firstIndex r + k)).1 (monthAt (firstIndex r + k)).2 =
      some (c.monthStart (firstIndex r + k), c.monthStart (firstIndex r + k + 1)) :=
  monthBounds_monthAt c (index_bounds r hk).1 (index_bounds r hk).2

end RangeLemmas

open RangeLemmas

/-- The months of the range, each with a window that is not empty, the windows
end to end. -/
structure MonthRange.Tiled (c : Clock) (r : MonthRange) : Prop where
  length_eq : (r.months.length : Int) = r.count
  nodup : r.months.Nodup
  head : r.months.head? = some (r.fromYear, r.fromMonth)
  last : r.months.getLast? = some (r.toYear, r.toMonth)
  inOrder : r.months.IsChain fun p q => q = nextMonth p.1 p.2
  nonempty : ∀ p ∈ r.months, ∃ startUtc endUtc : Timestamp,
    monthBounds c p.1 p.2 = some (startUtc, endUtc) ∧ startUtc < endUtc
  abut : r.months.IsChain fun p q =>
    (monthBounds c p.1 p.2).map Prod.snd = (monthBounds c q.1 q.2).map Prod.fst
  /-- The instants from the first start up to the last end. -/
  existsUnique : ∀ firstStart firstEnd lastStart lastEnd : Timestamp,
    monthBounds c r.fromYear r.fromMonth = some (firstStart, firstEnd) →
    monthBounds c r.toYear r.toMonth = some (lastStart, lastEnd) →
    ∀ t : Timestamp, firstStart ≤ t → t < lastEnd →
      ∃! p : Int × Int, p ∈ r.months ∧ ∃ startUtc endUtc : Timestamp,
        monthBounds c p.1 p.2 = some (startUtc, endUtc) ∧ startUtc ≤ t ∧ t < endUtc

namespace RangeLemmas

variable (c : Clock) (r : MonthRange)

theorem range_abut : r.months.IsChain fun p q =>
    (monthBounds c p.1 p.2).map Prod.snd = (monthBounds c q.1 q.2).map Prod.fst := by
  rw [months_eq, List.isChain_map, List.isChain_range]
  intro k hk
  rw [monthBounds_nth c r (by omega), monthBounds_nth c r (by omega), Option.map_some,
    Option.map_some, Nat.succ_eq_add_one, Nat.cast_succ, ← add_assoc]

theorem range_existsUnique {firstStart firstEnd lastStart lastEnd t : Timestamp}
    (hfirst : monthBounds c r.fromYear r.fromMonth = some (firstStart, firstEnd))
    (hlast : monthBounds c r.toYear r.toMonth = some (lastStart, lastEnd))
    (hfrom : firstStart ≤ t) (hto : t < lastEnd) :
    ∃! p : Int × Int, p ∈ r.months ∧ ∃ startUtc endUtc : Timestamp,
      monthBounds c p.1 p.2 = some (startUtc, endUtc) ∧ startUtc ≤ t ∧ t < endUtc := by
  have hpos := count_pos r
  have hbegin := monthBounds_nth c r (k := 0) (by omega)
  have hend := monthBounds_nth c r (k := r.count.toNat - 1) (by omega)
  rw [Nat.cast_zero, add_zero, firstIndex, monthAt_monthIndex r.fromMonth_valid.1
    r.fromMonth_valid.2, hfirst, ← firstIndex, Option.some.injEq, Prod.mk.injEq] at hbegin
  rw [lastMonth_eq, hlast, Option.some.injEq, Prod.mk.injEq, add_assoc, ← Nat.cast_succ,
    Nat.succ_eq_add_one, Nat.sub_add_cancel (by omega)] at hend
  rw [hbegin.1] at hfrom
  rw [hend.2] at hto
  obtain ⟨k, ⟨hk, hlow, hhigh⟩, hunique⟩ := Clock.existsUnique_month hfrom hto
  refine ⟨monthAt (firstIndex r + k), ⟨(mem_months r).mpr ⟨k, hk, rfl⟩, _, _,
    monthBounds_nth c r hk, hlow, hhigh⟩, ?_⟩
  rintro p ⟨hp, startUtc, endUtc, hbounds, hlow', hhigh'⟩
  obtain ⟨l, hl, rfl⟩ := (mem_months r).mp hp
  rw [monthBounds_nth c r hl, Option.some.injEq, Prod.mk.injEq] at hbounds
  obtain ⟨rfl, rfl⟩ := hbounds
  rw [hunique l ⟨hl, hlow', hhigh'⟩]

end RangeLemmas

/-- Whatever the clock and however long the range, the months are counted
through from its first to its last one and their windows tile the time between
the first start and the last end. -/
theorem range_tiled (c : Clock) (r : MonthRange) : r.Tiled c where
  length_eq := by
    have hpos := count_pos r
    rw [months_eq, List.length_map, List.length_range]
    omega
  nodup := by
    rw [months_eq]
    refine List.nodup_range.map fun k l h => ?_
    have hindex := monthAt_injective h
    omega
  head := by
    have hpos := count_pos r
    rw [months_eq, List.head?_map, List.head?_range, if_neg (by omega), Option.map_some,
      Nat.cast_zero, add_zero, firstIndex,
      monthAt_monthIndex r.fromMonth_valid.1 r.fromMonth_valid.2]
  last := by
    have hpos := count_pos r
    rw [months_eq, List.getLast?_map, List.getLast?_range, if_neg (by omega), Option.map_some,
      lastMonth_eq]
  inOrder := by
    rw [months_eq, List.isChain_map, List.isChain_range]
    intro k _
    rw [nextMonth_monthAt, Nat.succ_eq_add_one, Nat.cast_succ, add_assoc]
  nonempty := by
    intro p hp
    obtain ⟨k, hk, rfl⟩ := (mem_months r).mp hp
    exact ⟨_, _, monthBounds_nth c r hk, c.monthStart_lt _⟩
  abut := range_abut c r
  existsUnique := fun _ _ _ _ hfirst hlast _ => range_existsUnique c r hfirst hlast

/-! ## A winter in Newfoundland -/

namespace Ascii

/-- From October 2009 to January 2010. The clock goes back on November 1st. -/
def winter : MonthRange where
  fromYear := 2009
  fromMonth := 10
  toYear := 2010
  toMonth := 1
  fromMonth_valid := by decide
  toMonth_valid := by decide
  ordered := by decide
  representable := by decide

theorem months_winter : winter.months = [(2009, 10), (2009, 11), (2009, 12), (2010, 1)] := by
  simp [MonthRange.months, winter, iterMonths]

end Ascii

open Ascii in
/-- Every instant of the winter is in the window of one of its months. -/
theorem range_tiled_winter :
    winter.months = [(2009, 10), (2009, 11), (2009, 12), (2010, 1)] ∧
      ∀ t : Timestamp, 1254364200000000 ≤ t → t < 1264995000000000 →
        ∃! p : Int × Int, p ∈ winter.months ∧ ∃ startUtc endUtc : Timestamp,
          computeMonthBounds noMonth "America/St_Johns".toList (some p.1) (some p.2) =
            some (p.1, p.2, startUtc, endUtc) ∧ startUtc ≤ t ∧ t < endUtc := by
  refine ⟨months_winter, fun t hfrom hto => ?_⟩
  obtain ⟨c, -, hbounds⟩ := computeMonthBounds_eq_monthBounds "America/St_Johns".toList
  have hwindow : ∀ {year month : Int} {startUtc endUtc : Timestamp},
      computeMonthBounds noMonth "America/St_Johns".toList (some year) (some month) =
          some (year, month, startUtc, endUtc) ↔
        monthBounds c year month = some (startUtc, endUtc) := by
    intro year month startUtc endUtc
    rw [hbounds]
    constructor
    · intro h
      obtain ⟨w, hw, hpair⟩ := Option.map_eq_some_iff.mp h
      cases hpair
      exact hw
    · intro h
      rw [h, Option.map_some]
  have hfirst : monthBounds c 2009 10 = some (1254364200000000, 1257042600000000) :=
    hwindow.mp (by decide +kernel)
  have hlast : monthBounds c 2010 1 = some (1262316600000000, 1264995000000000) :=
    hwindow.mp (by decide +kernel)
  simp only [hwindow]
  exact (range_tiled c winter).existsUnique _ _ _ _ hfirst hlast t hfrom hto

end ExpenseEngine
