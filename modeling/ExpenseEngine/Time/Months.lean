import Mathlib.Algebra.Ring.Int.Defs
import Mathlib.Data.Nat.Cast.Basic
import ExpenseEngine.Time.Calendar

/-!
# Months in a row

Months are counted through, twelve to a year, so that a range of months is a
range of integers. A clock says what its offset is at every instant; reading a
local time back (`fold=0`) takes the offset of one of them.

Results:
1. `monthStart_lt`: on every clock a month begins before the next one does.
2. `existsUnique_month`: an instant between the beginnings of two months lies in
   exactly one month from the one to the other.
3. `exists_clock`: a zone is a clock.
-/

namespace Time

/-! ## Counting months -/

/-- The months from the beginning of the year 0, January of the year 1 being
the 12th. -/
def monthIndex (year month : Int) : Int := year * 12 + (month - 1)

def monthAt (i : Int) : Int × Int := (i / 12, i % 12 + 1)

section Counting

variable {year month i : Int}

theorem monthAt_monthIndex (h₁ : 1 ≤ month) (h₂ : month ≤ 12) :
    monthAt (monthIndex year month) = (year, month) := by
  unfold monthAt monthIndex
  rw [Prod.mk.injEq]
  omega

theorem monthIndex_monthAt (i : Int) : monthIndex (monthAt i).1 (monthAt i).2 = i := by
  unfold monthAt monthIndex
  omega

theorem monthAt_injective : Function.Injective monthAt := fun i j h => by
  rw [← monthIndex_monthAt i, h, monthIndex_monthAt]

theorem monthAt_bounds (i : Int) : 1 ≤ (monthAt i).2 ∧ (monthAt i).2 ≤ 12 := by
  unfold monthAt
  omega

theorem nextMonth_monthAt (i : Int) :
    nextMonth (monthAt i).1 (monthAt i).2 = monthAt (i + 1) := by
  unfold nextMonth monthAt
  split
  · rw [Prod.mk.injEq]
    omega
  · rw [Prod.mk.injEq]
    omega

/-- The number of the first day of a month. -/
def firstDay (i : Int) : Int := dayNumber (monthAt i).1 (monthAt i).2 1

theorem firstDay_succ (i : Int) :
    firstDay (i + 1) = firstDay i + daysInMonth (monthAt i).1 (monthAt i).2 := by
  unfold firstDay
  rw [← nextMonth_monthAt]
  exact dayNumber_nextMonth _ (monthAt_bounds i).1 (monthAt_bounds i).2

end Counting

/-! ## Clocks -/

/-- A clock: any offset from UTC at every instant, less than a day, and the
instant whose offset a reading is converted with. -/
structure Clock where
  offsetAt : Int → Int
  bounded : ∀ t, -dayLength < offsetAt t ∧ offsetAt t < dayLength
  foldAt : Int → Int

namespace Clock

variable {c : Clock} {t : Int}

/-- `astimezone(timezone.utc)` -/
def fromLocal (c : Clock) (b : Int) : Int := b - c.offsetAt (c.foldAt b)

theorem fromLocal_bounds (c : Clock) (b : Int) :
    b - dayLength < c.fromLocal b ∧ c.fromLocal b < b + dayLength := by
  have h := c.bounded (c.foldAt b)
  unfold fromLocal
  omega

/-- The instant at which a month begins on the clock. -/
def monthStart (c : Clock) (i : Int) : Int := c.fromLocal (midnight (firstDay i))

/-- A month is longer than the two offsets at its ends can take away. -/
theorem monthStart_lt (c : Clock) (i : Int) : c.monthStart i < c.monthStart (i + 1) := by
  have hlength := daysInMonth_ge (monthAt i).1 (monthAt i).2
  have hnext := firstDay_succ i
  have hthis := c.fromLocal_bounds (midnight (firstDay i))
  have hthat := c.fromLocal_bounds (midnight (firstDay (i + 1)))
  unfold monthStart
  unfold midnight dayLength at *
  omega

theorem monthStart_mono (c : Clock) (i : Int) {k l : Nat} (h : k ≤ l) :
    c.monthStart (i + k) ≤ c.monthStart (i + l) := by
  induction h with
  | refl => exact le_rfl
  | @step l h ih =>
    have hnext := c.monthStart_lt (i + l)
    rw [Nat.succ_eq_add_one, Nat.cast_add_one, ← add_assoc]
    exact ih.trans hnext.le

/-- An instant between the beginnings of two months lies in exactly one of the
months from the one to the other. -/
theorem existsUnique_month {i : Int} {n : Nat} (hfrom : c.monthStart i ≤ t)
    (hto : t < c.monthStart (i + n)) :
    ∃! k : Nat, k < n ∧ c.monthStart (i + k) ≤ t ∧ t < c.monthStart (i + k + 1) := by
  have hexists : ∃ k : Nat, k < n ∧ c.monthStart (i + k) ≤ t ∧ t < c.monthStart (i + k + 1) := by
    induction n with
    | zero =>
      rw [Nat.cast_zero, add_zero] at hto
      omega
    | succ n ih =>
      by_cases h : t < c.monthStart (i + n)
      · obtain ⟨k, hk, hin⟩ := ih h
        exact ⟨k, by omega, hin⟩
      · rw [Nat.cast_add_one, ← add_assoc] at hto
        exact ⟨n, by omega, not_lt.mp h, hto⟩
  obtain ⟨k, hk, hlow, hhigh⟩ := hexists
  refine ⟨k, ⟨hk, hlow, hhigh⟩, ?_⟩
  rintro l ⟨-, hlow', hhigh'⟩
  have hafter : ∀ {a b : Nat}, c.monthStart (i + a) ≤ t → t < c.monthStart (i + b + 1) →
      a ≤ b := by
    intro a b ha hb
    by_contra hlt
    have hle := c.monthStart_mono i (Nat.lt_of_not_le hlt)
    rw [Nat.succ_eq_add_one, Nat.cast_add_one, ← add_assoc] at hle
    exact absurd hb (not_lt.mpr (hle.trans ha))
  exact le_antisymm (hafter hlow' hhigh) (hafter hlow hhigh')

end Clock

/-! ## Zones are clocks -/

namespace ZoneLemmas

/-- Every offset of a zone is in force at some instant. -/
theorem exists_offsetFrom {o T v : Int} {xs : List (Int × Int)}
    (hs : xs.Pairwise fun x y => x.1 < y.1) (hT : ∀ x ∈ xs, T < x.1)
    (hv : v ∈ o :: xs.map Prod.snd) : ∃ t, T ≤ t ∧ offsetFrom o xs t = v := by
  induction xs generalizing o T with
  | nil => exact ⟨T, le_refl T, (List.mem_singleton.mp hv).symm⟩
  | cons x xs ih =>
    have hx := hT x List.mem_cons_self
    rw [List.pairwise_cons] at hs
    rw [List.mem_cons] at hv
    rcases hv with rfl | hv
    · exact ⟨T, le_refl T, by rw [offsetFrom, if_pos hx]⟩
    · obtain ⟨t, ht, hoff⟩ := ih hs.2 hs.1 hv
      exact ⟨t, hx.le.trans ht, by rw [offsetFrom, if_neg (not_lt.mpr ht), hoff]⟩

theorem bisectRight_le (a : List Int) (x : Int) (fuel : Nat) {lo hi : Nat} (h : lo ≤ hi) :
    bisectRight a x fuel lo hi ≤ hi := by
  induction fuel generalizing lo hi with
  | zero => exact h
  | succ fuel ih =>
    rw [bisectRight]
    split
    · dsimp only
      split
      · exact (ih (by omega)).trans (by omega)
      · exact ih (by omega)
    · exact h

theorem length_walls (o : Int) (xs : List (Int × Int)) : (walls o xs).length = xs.length := by
  induction xs generalizing o with
  | nil => rfl
  | cons x xs ih => rw [walls, List.length_cons, List.length_cons, ih]

theorem foldOffset_mem (z : Zone) (b : Int) :
    z.foldOffset b ∈ z.before :: z.transitions.map Prod.snd := by
  have hindex := bisectRight_le (walls z.before z.transitions) b
    (walls z.before z.transitions).length (Nat.zero_le (walls z.before z.transitions).length)
  rw [length_walls] at hindex
  unfold Zone.foldOffset
  dsimp only
  rw [List.getD_eq_getElem?_getD, length_walls, List.getElem?_eq_getElem
    (by rw [List.length_cons, List.length_map]; omega), Option.getD_some]
  exact List.getElem_mem _

end ZoneLemmas

open ZoneLemmas

/-- A zone is a clock. -/
theorem exists_clock (z : Zone) : ∃ c : Clock, c.offsetAt = offsetFrom z.before z.transitions ∧
    ∀ b, c.fromLocal b = z.fromLocal b := by
  have hfirst : ∃ T, ∀ x ∈ z.transitions, T < x.1 := by
    cases htransitions : z.transitions with
    | nil => exact ⟨0, List.forall_mem_nil _⟩
    | cons x xs =>
      have hs := z.sorted
      rw [htransitions, List.pairwise_cons] at hs
      refine ⟨x.1 - 1, fun y hy => ?_⟩
      rcases List.mem_cons.mp hy with rfl | hy
      · omega
      · have := hs.1 y hy
        omega
  obtain ⟨T, hT⟩ := hfirst
  have hinstant : ∀ b, ∃ t, offsetFrom z.before z.transitions t = z.foldOffset b := fun b => by
    obtain ⟨t, -, ht⟩ := exists_offsetFrom z.sorted hT (foldOffset_mem z b)
    exact ⟨t, ht⟩
  choose foldAt hfold using hinstant
  refine ⟨⟨offsetFrom z.before z.transitions,
    fun t => z.bounded _ (offsetFrom_mem _ _ t), foldAt⟩, rfl, fun b => ?_⟩
  unfold Clock.fromLocal Zone.fromLocal
  dsimp only
  rw [hfold]

end Time
