import ExpenseEngine.Jobs.Outcomes

/-!
# One figure in SQL and in Python

SQL rounds the exact product of an amount and a rate to cents. Python rounds the
product to 28 digits first, which may carry it over a half cent that it has not
reached, or leave no room for its cents.

Results:
1. `toHomeCents_eq_iff`: the figure of Python is that of the product rounded twice.
2. `same_cents_iff`: when that is the figure of SQL.
-/

namespace ExpenseEngine

open Num

/-! ## The two figures -/

/-- The first half cent above `x`. -/
def nextHalf (x : Rat) : Rat := (x + 1 / 2).floor + 1 / 2

/-- The unit of the last of the 28 digits of `x`. -/
def lastDigit (x : Rat) : Rat := defaultContext.quantum x

/-- The product `x` is the same cents before and after it is rounded to 28
digits: it is not so close under a half cent that it is rounded up to it; with
digits for the units only, it is no half over an even number; and the cents are
28 digits at most. -/
def SameCents (x : Rat) : Prop :=
  if x < 10 ^ 26 then x + lastDigit x / 2 < nextHalf x
  else if x < 10 ^ 27 then x + 1 / 20 ≤ nextHalf x
  else x < 10 ^ 28 - 1 / 2 ∧ ∀ n : Int, x = n + 1 / 2 → n % 2 = 1

namespace HomeCentsLemmas

open Context

variable {p x : Rat}

theorem roundHalfUp_of_nonneg (hx : 0 ≤ x) : (roundHalfUp x : Rat) + 1 / 2 = nextHalf x := by
  rw [roundHalfUp, if_neg (not_lt.mpr hx), nextHalf]

theorem roundHalfUp_nonneg (hx : 0 ≤ x) : 0 ≤ (roundHalfUp x : Rat) := by
  exact_mod_cast (le_roundHalfUp_iff hx 0).mpr (by push_cast; linarith)

theorem abs_roundHalfUp (p : Rat) : |(roundHalfUp p : Rat)| = roundHalfUp |p| := by
  rcases le_total 0 p with hp | hp
  · rw [abs_of_nonneg hp, abs_of_nonneg (roundHalfUp_nonneg hp)]
  · rw [abs_of_nonpos hp, ← abs_neg, ← Int.cast_neg, ← roundHalfUp_neg,
      abs_of_nonneg (roundHalfUp_nonneg (neg_nonneg.mpr hp))]

/-- Rounding twice does the same to a number and to its negative. -/
theorem round_abs_iff (p : Rat) :
    roundHalfUp (defaultContext.round p) = roundHalfUp p ↔
      roundHalfUp (defaultContext.round |p|) = roundHalfUp |p| := by
  rcases abs_choice p with h | h
  · rw [h]
  · rw [h, round_neg, roundHalfUp_neg, roundHalfUp_neg, neg_inj]

theorem fix_eq (p : Rat) (h : |defaultContext.round p| < 10 ^ (1000000 : Int)) :
    defaultContext.fix p = .ok (defaultContext.round p) :=
  fix_of_lt (by decide) h

/-- The figure of Python, where it is the one of SQL. -/
theorem toHomeCents_eq_iff (balanceCents : Int) (rate : Rat)
    (h : |defaultContext.round (balanceCents * rate)| < 10 ^ (1000000 : Int)) :
    toHomeCents balanceCents rate = .ok (roundHalfUp (balanceCents * rate)) ↔
      roundHalfUp (defaultContext.round (balanceCents * rate)) =
          roundHalfUp (balanceCents * rate) ∧
        Int.log 10 |(roundHalfUp (balanceCents * rate) : Rat)| < 28 := by
  have hquantize : toHomeCents balanceCents rate =
      defaultContext.quantize roundHalfUp 0 (defaultContext.round (balanceCents * rate)) := by
    rw [toHomeCents, fix_eq _ h]
    rfl
  rw [hquantize, quantize, zpow_zero, div_one]
  have hprecision : (defaultContext.precision : Int) = 28 := rfl
  rw [hprecision]
  constructor
  · intro heq
    split at heq
    · cases heq
    · next hlog =>
      have hcents := Except.ok.inj heq
      rw [hcents] at hlog
      exact ⟨hcents, not_le.mp hlog⟩
  · rintro ⟨hcents, hlog⟩
    rw [hcents, if_neg (not_le.mpr hlog)]

theorem toHomeCents_ok {balanceCents n : Int} {rate : Rat}
    (h : toHomeCents balanceCents rate = .ok n) :
    n = roundHalfUp (defaultContext.round (balanceCents * rate)) ∧ Int.log 10 |(n : Rat)| < 28 := by
  rw [toHomeCents] at h
  cases hfix : defaultContext.fix (balanceCents * rate) with
  | error signal =>
    rw [hfix] at h
    cases h
  | ok product =>
    rw [hfix] at h
    have hquantize : defaultContext.quantize roundHalfUp 0 product = .ok n := h
    unfold quantize at hquantize
    split at hquantize
    · cases hquantize
    · next hlog =>
      rw [zpow_zero, div_one, fix_ok hfix] at hquantize hlog
      obtain rfl := Except.ok.inj hquantize
      exact ⟨rfl, not_le.mp hlog⟩

/-- The cents of `x` have 28 digits at most. -/
theorem log_cents_iff (hx : 0 ≤ x) :
    Int.log 10 |(roundHalfUp x : Rat)| < 28 ↔ x < 10 ^ 28 - 1 / 2 := by
  have hcents : (10 ^ 28 : Int) ≤ roundHalfUp x ↔ 10 ^ 28 ≤ x + 1 / 2 := by
    rw [le_roundHalfUp_iff hx]
    norm_num
  have habs : |(roundHalfUp x : Rat)| = roundHalfUp x := by
    rw [abs_roundHalfUp, abs_of_nonneg hx]
  have hpow : (10 : Rat) ^ (28 : Int) = ((10 ^ 28 : Int) : Rat) := by norm_num
  rcases lt_or_ge (roundHalfUp x) (10 ^ 28) with h | h
  · refine iff_of_true (log_abs_lt (by norm_num) ?_) ?_
    · rw [habs, hpow]
      exact_mod_cast h
    · have := mt hcents.mpr (not_le.mpr h)
      linarith
  · have hpos : (0 : Rat) < roundHalfUp x := by
      have : (0 : Int) < roundHalfUp x := lt_of_lt_of_le (by norm_num) h
      exact_mod_cast this
    refine iff_of_false (not_lt.mpr ?_) ?_
    · rw [habs, ← le_log_iff hpos, hpow]
      exact_mod_cast h
    · have := hcents.mp h
      linarith

/-- The condition on a product, digit by digit. -/
theorem sameCents_iff (hx : 0 ≤ x) (hlt : x < 10 ^ 28) :
    roundHalfUp (defaultContext.round x) = roundHalfUp x ∧
        Int.log 10 |(roundHalfUp x : Rat)| < 28 ↔ SameCents x := by
  rw [log_cents_iff hx]
  unfold SameCents
  split_ifs with hsmall htenths
  · -- At most 26 digits before the point, so at least two after it.
    have hlog : Int.log 10 |x| < 26 := log_abs_lt (by norm_num) (by rwa [abs_of_nonneg hx])
    have hexp : defaultContext.quantumExp x ≤ -2 := by
      have hprecision : (defaultContext.precision : Int) = 28 := rfl
      have hetiny : defaultContext.etiny = -1000026 := rfl
      rw [quantumExp, hprecision, hetiny]
      omega
    rw [and_iff_left (by linarith), roundHalfUp_round_iff hx (by omega), roundHalfUp_of_nonneg hx]
    constructor
    · rintro ⟨hle, hne⟩
      exact lt_of_le_of_ne hle fun heq => by have := hne heq; omega
    · exact fun h => ⟨h.le, fun heq => absurd heq h.ne⟩
  · have hexp : defaultContext.quantumExp x = -1 :=
      quantumExp_of_decade (k := 26) (not_lt.mp hsmall) htenths (by decide)
    have htenth : defaultContext.quantum x / 2 = 1 / 20 := by
      rw [quantum, hexp]
      norm_num
    rw [and_iff_left (by linarith), roundHalfUp_round_iff hx hexp.le, roundHalfUp_of_nonneg hx,
      htenth, and_iff_left fun _ => hexp]
  · have hexp : defaultContext.quantumExp x = 0 :=
      quantumExp_of_decade (k := 27) (not_lt.mp htenths) hlt (by decide)
    rw [roundHalfUp_round_unit_iff hx hexp, and_comm]

end HomeCentsLemmas

open HomeCentsLemmas

/-! ## Parity -/

/-- Python answers, and with the figure of SQL, exactly when the product is the
same cents before and after it is rounded to 28 digits. -/
theorem same_cents_iff (balanceCents : Int) (rate : Rat) :
    toHomeCents balanceCents rate = .ok (roundHalfUp (balanceCents * rate)) ↔
      SameCents |balanceCents * rate| := by
  have hx : (0 : Rat) ≤ |balanceCents * rate| := abs_nonneg _
  rcases lt_or_ge |balanceCents * rate| ((10 : Rat) ^ 28) with hlt | hge
  · have hround : |defaultContext.round (balanceCents * rate)| < 10 ^ (1000000 : Int) := by
      rw [Context.abs_round]
      refine lt_of_le_of_lt (Context.round_le_zpow (k := 28) (by decide) (by decide) hx ?_) ?_
      · exact_mod_cast hlt.le
      · exact zpow_lt_zpow_right₀ (by norm_num) (by norm_num)
    rw [toHomeCents_eq_iff _ _ hround, round_abs_iff, abs_roundHalfUp, ← sameCents_iff hx hlt,
      abs_roundHalfUp, abs_of_nonneg hx]
  · refine iff_of_false (fun h => ?_) fun h => ?_
    · have hlog := (toHomeCents_ok h).2
      rw [abs_roundHalfUp, ← abs_of_nonneg (roundHalfUp_nonneg hx), log_cents_iff hx] at hlog
      linarith
    · unfold SameCents at h
      rw [if_neg (by linarith), if_neg (by linarith)] at h
      linarith [h.1]

/-! ## A half cent that is not reached -/

namespace Ascii

/-- A rate of 29 digits, 0.4 and 28 nines. -/
def almostHalf : Rat := (5 * 10 ^ 28 - 1) / 10 ^ 29

end Ascii

open Ascii in
/-- The rate is stored as it is. Python makes a cent of a cent at this rate, SQL
none. -/
theorem almost_half_is_a_cent :
    upsertRate [] homeCurrency 20000 (.finite almostHalf) =
        .ok (true, [⟨homeCurrency, 20000, .finite almostHalf⟩]) ∧
      toHomeCents 1 almostHalf = .ok 1 ∧ roundHalfUp ((1 : Int) * almostHalf) = 0 := by
  decide +kernel

end ExpenseEngine
