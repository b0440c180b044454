import Mathlib.Algebra.Order.Field.Power
import Mathlib.Data.Int.Log
import Mathlib.Data.Rat.Floor
import Mathlib.Tactic.Linarith
import Mathlib.Tactic.Ring

/-!
# Decimal arithmetic

A decimal is its value. A context rounds the exact result of an operation to its
precision, halves to even, and signals a result it has no room for.

Results:
1. `le_roundHalfUp_iff`, `le_roundHalfEven_iff`: which numbers round up to a whole
   number.
2. `Context.mul_quantum_le_round_iff`: the same for a multiple of the last digit
   a context keeps.
3. `Context.round_le_pow_iff`: which numbers a context rounds to a power of ten or
   less.
-/

namespace Num

/-! ## Whole numbers -/

/-- Halves away from zero. -/
def roundHalfUp (q : Rat) : Int :=
  if q < 0 then -((-q + 1 / 2).floor) else (q + 1 / 2).floor

def roundHalfEven (q : Rat) : Int :=
  let f := q.floor
  let rest := q - f
  if rest < 1 / 2 then f
  else if 1 / 2 < rest then f + 1
  else if f % 2 = 0 then f else f + 1

theorem le_roundHalfUp_iff {q : Rat} (hq : 0 ≤ q) (n : Int) :
    n ≤ roundHalfUp q ↔ (n : Rat) ≤ q + 1 / 2 := by
  unfold roundHalfUp
  rw [if_neg (not_lt.mpr hq), Rat.le_floor_iff]

theorem roundHalfUp_neg (q : Rat) : roundHalfUp (-q) = -roundHalfUp q := by
  rcases lt_trichotomy q 0 with h | rfl | h
  · rw [roundHalfUp, roundHalfUp, if_neg (by linarith), if_pos h, neg_neg]
  · decide +kernel
  · rw [roundHalfUp, roundHalfUp, if_pos (by linarith), if_neg (by linarith), neg_neg]

theorem roundHalfUp_intCast (n : Int) : roundHalfUp (n : Rat) = n := by
  have hnat : ∀ m : Int, 0 ≤ m → roundHalfUp (m : Rat) = m := by
    intro m hm
    have hq : (0 : Rat) ≤ m := by exact_mod_cast hm
    refine le_antisymm ?_ ((le_roundHalfUp_iff hq m).mpr (by linarith))
    by_contra hlt
    have hle := (le_roundHalfUp_iff hq (m + 1)).mp (by omega)
    push_cast at hle
    linarith
  rcases le_total 0 n with h | h
  · exact hnat n h
  · have hneg := hnat (-n) (by omega)
    rw [Int.cast_neg, roundHalfUp_neg] at hneg
    omega

theorem le_roundHalfEven_iff (q : Rat) (n : Int) :
    n ≤ roundHalfEven q ↔ (n : Rat) < q + 1 / 2 ∨ (n : Rat) = q + 1 / 2 ∧ n % 2 = 0 := by
  have hlo : (q.floor : Rat) ≤ q := Rat.floor_le q
  have hhi : q < q.floor + 1 := by exact_mod_cast Rat.lt_floor_add_one q
  unfold roundHalfEven
  dsimp only
  rcases lt_trichotomy n (q.floor + 1) with hn | rfl | hn
  · -- A number that is not above the floor is reached whichever way the rest goes.
    have hnq : (n : Rat) ≤ q.floor := by exact_mod_cast Int.lt_add_one_iff.mp hn
    refine iff_of_true ?_ (.inl (by linarith))
    split_ifs <;> omega
  · push_cast
    split_ifs with hless hmore heven
    · refine iff_of_false (by omega) ?_
      rintro (h | ⟨h, -⟩) <;> linarith
    · exact iff_of_true le_rfl (.inl (by linarith))
    · refine iff_of_false (by omega) ?_
      rintro (h | ⟨-, h⟩)
      · linarith
      · omega
    · exact iff_of_true le_rfl (.inr ⟨by linarith, by omega⟩)
  · have hnq : (q.floor : Rat) + 2 ≤ n := by exact_mod_cast (by omega : q.floor + 2 ≤ n)
    refine iff_of_false ?_ ?_
    · split_ifs <;> omega
    · rintro (h | ⟨h, -⟩) <;> linarith

theorem roundHalfEven_intCast (n : Int) : roundHalfEven (n : Rat) = n := by
  refine le_antisymm ?_ ((le_roundHalfEven_iff n n).mpr (.inl (by linarith)))
  by_contra hlt
  rcases (le_roundHalfEven_iff n (n + 1)).mp (by omega) with h | ⟨h, -⟩
  all_goals
    push_cast at h
    linarith

theorem roundHalfEven_mono {p q : Rat} (h : p ≤ q) : roundHalfEven p ≤ roundHalfEven q := by
  rw [le_roundHalfEven_iff]
  rcases (le_roundHalfEven_iff p _).mp le_rfl with hlt | ⟨heq, heven⟩
  · exact .inl (by linarith)
  · rcases h.lt_or_eq with hlt | rfl
    · exact .inl (by linarith)
    · exact .inr ⟨heq, heven⟩

theorem roundHalfEven_neg (q : Rat) : roundHalfEven (-q) = -roundHalfEven q := by
  -- Between the two rounds of a number that is no half there is one whole number.
  refine eq_of_forall_le_iff fun n => ?_
  have hcast : ((1 - n : Int) : Rat) = 1 - n := by push_cast; rfl
  rw [le_roundHalfEven_iff, show n ≤ -roundHalfEven q ↔ ¬ (1 - n ≤ roundHalfEven q) by omega,
    le_roundHalfEven_iff, hcast, not_or, not_and, not_lt]
  constructor
  · rintro (h | ⟨h, heven⟩)
    · exact ⟨by linarith, fun heq => absurd heq (by linarith)⟩
    · exact ⟨by linarith, fun _ => by omega⟩
  · rintro ⟨h, heven⟩
    rcases h.lt_or_eq with hlt | heq
    · exact .inl (by linarith)
    · exact .inr ⟨by linarith, by have := heven heq.symm; omega⟩

/-! ## Contexts -/

theorem le_log_iff {x : Rat} {k : Int} (hx : 0 < x) : (10 : Rat) ^ k ≤ x ↔ k ≤ Int.log 10 x := by
  have h := Int.zpow_le_iff_le_log (b := 10) (x := k) (by norm_num) hx
  rwa [Nat.cast_ofNat] at h

theorem log_lt_iff {x : Rat} {k : Int} (hx : 0 < x) : x < (10 : Rat) ^ k ↔ Int.log 10 x < k := by
  rw [← not_le, le_log_iff hx, not_le]

theorem log_abs_lt {x : Rat} {k : Int} (hk : 0 < k) (h : |x| < (10 : Rat) ^ k) :
    Int.log 10 |x| < k := by
  rcases (abs_nonneg x).lt_or_eq with hpos | hzero
  · exact (log_lt_iff hpos).mp h
  · rwa [← hzero, Int.log_zero_right]

/-- What an operation on decimals raises. -/
inductive Signal where
  | invalidOperation
  | divisionByZero
  | overflow
  deriving DecidableEq

/-- `emax` bounds the exponent of the first digit, `etiny` that of the last. -/
structure Context where
  precision : Nat
  etiny : Int
  emax : Int

namespace Context

variable (c : Context)

/-- The exponent of the last digit that is kept of `x`. -/
def quantumExp (x : Rat) : Int := max (Int.log 10 |x| - (c.precision - 1)) c.etiny

def quantum (x : Rat) : Rat := 10 ^ c.quantumExp x

def round (x : Rat) : Rat := roundHalfEven (x / c.quantum x) * c.quantum x

/-- The result of an operation whose exact result is `x`. -/
def fix (x : Rat) : Except Signal Rat :=
  if c.emax < Int.log 10 |c.round x| then .error .overflow else .ok (c.round x)

/-- `x` in whole units of `10 ^ exp`. -/
def quantize (rounding : Rat → Int) (exp : Int) (x : Rat) : Except Signal Int :=
  if c.precision ≤ Int.log 10 |((rounding (x / 10 ^ exp) : Int) : Rat)| then
    .error .invalidOperation
  else .ok (rounding (x / 10 ^ exp))

variable {c} {x : Rat} {k : Int}

theorem fix_of_lt (hemax : -1 < c.emax) (h : |c.round x| < 10 ^ (c.emax + 1)) :
    c.fix x = .ok (c.round x) := by
  have hlog := log_abs_lt (by omega) h
  rw [fix, if_neg (by omega)]

theorem fix_ok {y : Rat} (h : c.fix x = .ok y) : y = c.round x := by
  unfold fix at h
  split at h
  · cases h
  · exact (Except.ok.inj h).symm

theorem quantum_pos : 0 < c.quantum x := zpow_pos (by norm_num) _

theorem quantumExp_le (hk : c.etiny ≤ k) (hprec : 0 < c.precision) (hlog : Int.log 10 |x| ≤ k) :
    c.quantumExp x ≤ k := by
  unfold quantumExp
  omega

theorem mul_quantum_le_round_iff (n : Int) :
    (n : Rat) * c.quantum x ≤ c.round x ↔
      (n : Rat) * c.quantum x < x + c.quantum x / 2 ∨
        (n : Rat) * c.quantum x = x + c.quantum x / 2 ∧ n % 2 = 0 := by
  have hpos : 0 < c.quantum x := quantum_pos
  have hx : (x / c.quantum x + 1 / 2) * c.quantum x = x + c.quantum x / 2 := by
    field_simp
  rw [round, mul_le_mul_iff_left₀ hpos, Int.cast_le, le_roundHalfEven_iff, ← hx,
    mul_lt_mul_iff_left₀ hpos, mul_left_inj' hpos.ne']

theorem round_neg : c.round (-x) = -c.round x := by
  have hq : c.quantum (-x) = c.quantum x := by
    rw [quantum, quantumExp, abs_neg]
    rfl
  rw [round, hq, neg_div, roundHalfEven_neg, Int.cast_neg, neg_mul, round]

theorem le_round {n : Int} (h : (n : Rat) * c.quantum x ≤ x) :
    (n : Rat) * c.quantum x ≤ c.round x :=
  (mul_quantum_le_round_iff n).mpr (.inl (by linarith [quantum_pos (c := c) (x := x)]))

theorem round_le {n : Int} (h : x ≤ (n : Rat) * c.quantum x) :
    c.round x ≤ (n : Rat) * c.quantum x := by
  rw [round, mul_le_mul_iff_left₀ quantum_pos, Int.cast_le, ← roundHalfEven_intCast n]
  exact roundHalfEven_mono ((div_le_iff₀ quantum_pos).mpr h)

theorem round_nonneg (hx : 0 ≤ x) : 0 ≤ c.round x := by
  have h := le_round (c := c) (x := x) (n := 0) (by rwa [Int.cast_zero, zero_mul])
  rwa [Int.cast_zero, zero_mul] at h

theorem abs_round : |c.round x| = c.round |x| := by
  rcases le_total 0 x with hx | hx
  · rw [abs_of_nonneg hx, abs_of_nonneg (round_nonneg hx)]
  · rw [abs_of_nonpos hx, round_neg, ← abs_neg, ← round_neg,
      abs_of_nonneg (round_nonneg (neg_nonneg.mpr hx))]

/-- A power of ten that is no smaller than the last digit kept is a multiple of it. -/
theorem zpow_eq_mul_quantum (h : c.quantumExp x ≤ k) :
    (10 : Rat) ^ k = ((10 ^ (k - c.quantumExp x).toNat : Int) : Rat) * c.quantum x := by
  rw [quantum, Int.cast_pow, Int.cast_ofNat, ← zpow_natCast, Int.toNat_of_nonneg (by omega),
    ← zpow_add₀ (by norm_num), sub_add_cancel]

theorem zpow_le_round (hk : c.etiny ≤ k) (hprec : 0 < c.precision) (h : 10 ^ k ≤ x) :
    10 ^ k ≤ c.round x := by
  -- The power below the first digit of `x` is a multiple of its last digit.
  have hx : 0 < x := lt_of_lt_of_le (zpow_pos (by norm_num) k) h
  have hlog : k ≤ Int.log 10 |x| := le_log_iff (abs_pos.mpr hx.ne') |>.mp (by rwa [abs_of_pos hx])
  have hself : (10 : Rat) ^ Int.log 10 |x| ≤ x := by
    have := (le_log_iff (abs_pos.mpr hx.ne')).mpr le_rfl
    rwa [abs_of_pos hx] at this ⊢
  have hexp := quantumExp_le (c := c) (hk.trans hlog) hprec le_rfl
  have hround : (10 : Rat) ^ Int.log 10 |x| ≤ c.round x := by
    rw [zpow_eq_mul_quantum hexp] at hself ⊢
    exact le_round hself
  exact (zpow_le_zpow_right₀ (by norm_num) hlog).trans hround

theorem round_le_zpow (hk : c.etiny ≤ k) (hprec : 0 < c.precision) (hx : 0 ≤ x)
    (h : x ≤ 10 ^ k) : c.round x ≤ 10 ^ k := by
  rcases hx.lt_or_eq with hpos | rfl
  · have hlog : Int.log 10 |x| ≤ k := by
      rw [abs_of_pos hpos, ← Int.log_zpow (R := Rat) (b := 10) (by norm_num) k]
      exact Int.log_mono_right hpos (by exact_mod_cast h)
    have hexp := quantumExp_le hk hprec hlog
    rw [zpow_eq_mul_quantum hexp] at h ⊢
    exact round_le h
  · rw [round, zero_div, show (0 : Rat) = ((0 : Int) : Rat) from rfl, roundHalfEven_intCast,
      Int.cast_zero, zero_mul]
    exact zpow_nonneg (by norm_num) k

/-- Where the first digit is at `k`, the precision tells the last one. -/
theorem quantumExp_of_decade (hlo : 10 ^ k ≤ x) (hhi : x < 10 ^ (k + 1))
    (hetiny : c.etiny ≤ k - (c.precision - 1)) : c.quantumExp x = k - (c.precision - 1) := by
  have hx : 0 < x := lt_of_lt_of_le (zpow_pos (by norm_num) k) hlo
  have hlog : Int.log 10 |x| = k := by
    rw [abs_of_pos hx]
    have hle := (le_log_iff hx).mp hlo
    have hlt := (log_lt_iff hx).mp hhi
    omega
  rw [quantumExp, hlog, max_eq_left hetiny]

/-- The numbers a little above a power of ten are rounded down to it. -/
theorem round_le_zpow_iff (hprec : 1 < c.precision) (hetiny : c.etiny ≤ k - (c.precision - 1))
    (hx : 0 ≤ x) :
    c.round x ≤ 10 ^ k ↔ x ≤ 10 ^ k + 10 ^ (k - (c.precision - 1) : Int) / 2 := by
  have hdigit : (0 : Rat) < 10 ^ (k - (c.precision - 1) : Int) := zpow_pos (by norm_num) _
  rcases le_or_gt x (10 ^ k) with hlow | hlow
  · exact iff_of_true (round_le_zpow (by omega) (by omega) hx hlow) (by linarith)
  rcases lt_or_ge x (10 ^ (k + 1)) with hhi | hhi
  · have hquantum : c.quantum x = 10 ^ (k - (c.precision - 1) : Int) := by
      rw [quantum, quantumExp_of_decade hlow.le hhi hetiny]
    -- The next multiple of the last digit is an odd one, so that its tie goes down.
    set n : Int := 10 ^ (c.precision - 1) with hn
    have hpow : (10 : Rat) ^ k = (n : Rat) * c.quantum x := by
      rw [hquantum, hn, Int.cast_pow, Int.cast_ofNat, ← zpow_natCast, ← zpow_add₀ (by norm_num)]
      congr 1
      omega
    have hodd : (n + 1) % 2 = 1 := by
      have heven : n % 2 = 0 := by
        obtain ⟨m, hm⟩ : ∃ m, c.precision - 1 = m + 1 := ⟨c.precision - 2, by omega⟩
        rw [hn, hm, pow_succ]
        omega
      omega
    have hnext : c.round x ≤ 10 ^ k ↔ ¬ (((n + 1 : Int) : Rat) * c.quantum x ≤ c.round x) := by
      rw [hpow, round, mul_le_mul_iff_left₀ quantum_pos, mul_le_mul_iff_left₀ quantum_pos,
        Int.cast_le, Int.cast_le]
      omega
    rw [hnext, mul_quantum_le_round_iff, ← hquantum, hpow]
    push_cast
    constructor
    · intro h
      have := not_lt.mp (not_or.mp h).1
      linarith
    · rintro h (hlt | ⟨-, heven⟩)
      · linarith
      · omega
  · have hstep : (10 : Rat) ^ (k + 1) = 10 ^ k * 10 := zpow_add_one₀ (by norm_num) k
    have hsmall : (10 : Rat) ^ (k - (c.precision - 1) : Int) ≤ 10 ^ k :=
      zpow_le_zpow_right₀ (by norm_num) (by omega)
    have hround := zpow_le_round (c := c) (k := k + 1) (by omega) (by omega) hhi
    exact iff_of_false (by linarith) (by linarith)

/-! ## Rounding twice -/

/-- Where a context keeps at least the tenths, a whole number is the same after
its rounding unless that reaches the half above. -/
theorem roundHalfUp_round_iff (hx : 0 ≤ x) (hexp : c.quantumExp x ≤ -1) :
    roundHalfUp (c.round x) = roundHalfUp x ↔
      x + c.quantum x / 2 ≤ roundHalfUp x + 1 / 2 ∧
        (x + c.quantum x / 2 = roundHalfUp x + 1 / 2 → c.quantumExp x = -1) := by
  set n := roundHalfUp x with hn
  have hround := round_nonneg (c := c) hx
  have hpos := quantum_pos (c := c) (x := x)
  -- Every half is a multiple of the last digit.
  have hhalf : ∀ m : Int, (m : Rat) + 1 / 2 =
      (((2 * m + 1) * 5 * 10 ^ (-1 - c.quantumExp x).toNat : Int) : Rat) * c.quantum x := by
    intro m
    have htenth := zpow_eq_mul_quantum hexp
    push_cast at htenth ⊢
    rw [mul_assoc, ← htenth]
    ring
  have hbelow : n ≤ roundHalfUp (c.round x) := by
    rw [le_roundHalfUp_iff hround]
    have hnx := (le_roundHalfUp_iff hx n).mp le_rfl
    rw [← sub_le_iff_le_add]
    have hprev : (n : Rat) - 1 / 2 = ((n - 1 : Int) : Rat) + 1 / 2 := by
      push_cast
      ring
    rw [hprev, hhalf]
    refine le_round ?_
    rw [← hhalf, ← hprev]
    linarith
  have habove : roundHalfUp (c.round x) = n ↔ ¬ ((n : Rat) + 1 / 2 ≤ c.round x) := by
    have hnext : n + 1 ≤ roundHalfUp (c.round x) ↔ (n : Rat) + 1 / 2 ≤ c.round x := by
      rw [le_roundHalfUp_iff hround]
      push_cast
      constructor <;> intro h <;> linarith
    rw [← hnext]
    omega
  have hparity : ((2 * n + 1) * 5 * 10 ^ (-1 - c.quantumExp x).toNat) % 2 = 0 ↔
      c.quantumExp x ≠ -1 := by
    cases hj : (-1 - c.quantumExp x).toNat with
    | zero => exact iff_of_false (by omega) (by omega)
    | succ j =>
      refine iff_of_true ?_ (by omega)
      rw [pow_succ, ← mul_assoc]
      omega
  rw [habove, hhalf, mul_quantum_le_round_iff, hparity, ← hhalf, not_or, not_lt, not_and,
    not_not]
  exact and_congr_right fun _ => ⟨fun h heq => h heq.symm, fun h heq => h heq.symm⟩

/-- Where a context keeps the units and no more, only a half over an even number
is rounded the other way. -/
theorem roundHalfUp_round_unit_iff (hx : 0 ≤ x) (hexp : c.quantumExp x = 0) :
    roundHalfUp (c.round x) = roundHalfUp x ↔ ∀ n : Int, x = n + 1 / 2 → n % 2 = 1 := by
  have hround : roundHalfUp (c.round x) = roundHalfEven x := by
    rw [round, quantum, hexp, zpow_zero, div_one, mul_one, roundHalfUp_intCast]
  have hle : roundHalfEven x ≤ roundHalfUp x := by
    rw [le_roundHalfUp_iff hx]
    rcases (le_roundHalfEven_iff x _).mp le_rfl with h | ⟨h, -⟩
    · exact h.le
    · exact h.le
  have hhalf := (le_roundHalfUp_iff hx (roundHalfUp x)).mp le_rfl
  rw [hround, le_antisymm_iff, and_iff_right hle, le_roundHalfEven_iff]
  constructor
  · rintro h n rfl
    have hn : n + 1 ≤ roundHalfUp (n + 1 / 2) := (le_roundHalfUp_iff hx _).mpr (by
      push_cast
      linarith)
    have hn' : roundHalfUp (n + 1 / 2) = n + 1 := by
      refine le_antisymm ?_ hn
      have : ((roundHalfUp (n + 1 / 2) : Int) : Rat) ≤ ((n + 1 : Int) : Rat) := by
        push_cast
        linarith
      exact_mod_cast this
    rw [hn'] at h
    push_cast at h
    rcases h with h | ⟨-, h⟩
    · linarith
    · omega
  · intro h
    rcases hhalf.lt_or_eq with hlt | heq
    · exact .inl hlt
    · refine .inr ⟨heq, ?_⟩
      have := h (roundHalfUp x - 1) (by
        push_cast
        linarith)
      omega

end Context

end Num
