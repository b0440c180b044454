import ExpenseEngine.Refinement.HomeCents
import ExpenseEngine.Reports.MonthFlow

/-!
# Figures that are bigints

Every amount that is stored is a `bigint`, and nothing bounds how many of them a
read adds up. A sum that is no `bigint` fails its query, and a converted balance
of more digits than the context has fails its read.

Results:
1. `toHomeCents_inRange_iff`: the products that are converted to a `bigint`.
2. `figuresInRange_iff`: a month fits when its rows, its inflow and its outflow do.
-/

namespace ExpenseEngine

open Num Sql Sql.Prog

/-! ## Converted balances -/

/-- The products that are converted to a `bigint`: the half unit of the 28th
digit counts as half a cent. -/
def Converts (x : Rat) : Prop :=
  -(2 ^ 63 + 1 / 2 - 1 / (2 * 10 ^ 9)) < x ∧ x < 2 ^ 63 - 1 / 2 - 1 / (2 * 10 ^ 9)

instance (x : Rat) : Decidable (Converts x) := inferInstanceAs (Decidable (_ ∧ _))

namespace FigureLemmas

open Context HomeCentsLemmas

variable {x : Rat}

theorem toHomeCents_of_lt {balanceCents : Int} {rate : Rat}
    (h : |defaultContext.round (balanceCents * rate)| < 10 ^ 28 - 1 / 2) :
    toHomeCents balanceCents rate =
      .ok (roundHalfUp (defaultContext.round (balanceCents * rate))) := by
  have hfix : |defaultContext.round (balanceCents * rate)| < 10 ^ (1000000 : Int) := by
    refine h.trans (lt_of_lt_of_le ?_ (zpow_le_zpow_right₀ (m := (28 : Int)) (by norm_num)
      (by norm_num)))
    norm_num
  have hlog := (log_cents_iff (abs_nonneg _)).mpr h
  rw [← abs_roundHalfUp, abs_abs] at hlog
  have hprecision : (defaultContext.precision : Int) = 28 := rfl
  rw [toHomeCents, fix_eq _ hfix]
  have hquantize : defaultContext.quantize roundHalfUp 0
      (defaultContext.round (balanceCents * rate)) =
        .ok (roundHalfUp (defaultContext.round (balanceCents * rate))) := by
    rw [quantize, zpow_zero, div_one, hprecision, if_neg (not_le.mpr hlog)]
  exact hquantize

/-- The half cent over a number of 19 digits is reached from half a unit of the
28th digit below it. -/
theorem lt_half_iff {m : Int} (hx : 0 ≤ x) (hlo : 10 ^ 18 ≤ m) (hhi : m < 10 ^ 19) :
    defaultContext.round x < m + 1 / 2 ↔ x < m + 1 / 2 - 1 / (2 * 10 ^ 9) := by
  have hlo' : (10 : Rat) ^ 18 ≤ m := by exact_mod_cast hlo
  have hhi' : (m : Rat) + 1 ≤ 10 ^ 19 := by exact_mod_cast hhi
  rcases lt_or_ge x (10 ^ 18) with hsmall | hsmall
  · have hround : defaultContext.round x ≤ 10 ^ (18 : Int) :=
      Context.round_le_zpow (by decide) (by decide) hx (by exact_mod_cast hsmall.le)
    have hcast : (10 : Rat) ^ (18 : Int) = 10 ^ 18 := by norm_cast
    rw [hcast] at hround
    exact iff_of_true (by linarith) (by linarith)
  rcases lt_or_ge x (10 ^ 19) with hlarge | hlarge
  · have hexp : defaultContext.quantumExp x = -9 :=
      quantumExp_of_decade (k := 18) (by exact_mod_cast hsmall) (by exact_mod_cast hlarge)
        (by decide)
    have hquantum : defaultContext.quantum x = 1 / 10 ^ 9 := by
      rw [quantum, hexp]
      norm_num
    have hreach := mul_quantum_le_round_iff (c := defaultContext) (x := x) (m * 10 ^ 9 + 5 * 10 ^ 8)
    have hunits : ((m * 10 ^ 9 + 5 * 10 ^ 8 : Int) : Rat) * (1 / 10 ^ 9) = m + 1 / 2 := by
      push_cast
      ring
    have heven : (m * 10 ^ 9 + 5 * 10 ^ 8) % 2 = 0 := by omega
    rw [hquantum, hunits, and_iff_left heven, ← le_iff_lt_or_eq] at hreach
    rw [← not_le, hreach, not_le]
    constructor <;> intro h <;> linarith
  · have hround : 10 ^ (19 : Int) ≤ defaultContext.round x :=
      zpow_le_round (by decide) (by decide) (by exact_mod_cast hlarge)
    have hcast : (10 : Rat) ^ (19 : Int) = 10 ^ 19 := by norm_cast
    rw [hcast] at hround
    exact iff_of_false (by linarith) (by linarith)

theorem roundHalfUp_le_iff {p : Rat} (hp : 0 ≤ p) (m : Int) :
    roundHalfUp p ≤ m ↔ p < m + 1 / 2 := by
  have h := le_roundHalfUp_iff hp (m + 1)
  rw [← not_lt, ← Int.add_one_le_iff, h, not_le]
  push_cast
  constructor <;> intro h <;> linarith

theorem inInt8_iff {n : Int} : inInt8 n = true ↔ -2 ^ 63 ≤ n ∧ n < 2 ^ 63 := by
  rw [inInt8, decide_eq_true_iff]

/-- The cents of the rounded product are a `bigint`. -/
theorem inInt8_round_iff (x : Rat) :
    inInt8 (roundHalfUp (defaultContext.round x)) = true ↔ Converts x := by
  rw [inInt8_iff, Converts]
  rcases le_total 0 x with hx | hx
  · have hround := round_nonneg (c := defaultContext) hx
    have hcents : (0 : Int) ≤ roundHalfUp (defaultContext.round x) := by
      exact_mod_cast roundHalfUp_nonneg hround
    have hlt := (roundHalfUp_le_iff hround (2 ^ 63 - 1)).trans
      (lt_half_iff hx (by norm_num) (by norm_num))
    rw [and_iff_right (by omega), and_iff_right (by linarith), ← Int.le_sub_one_iff, hlt]
    push_cast
    constructor <;> intro h <;> linarith
  · have hx' := neg_nonneg.mpr hx
    have hround := round_nonneg (c := defaultContext) hx'
    have hcents : (0 : Int) ≤ roundHalfUp (defaultContext.round (-x)) := by
      exact_mod_cast roundHalfUp_nonneg hround
    have hlt := (roundHalfUp_le_iff hround (2 ^ 63)).trans
      (lt_half_iff hx' (by norm_num) (by norm_num))
    have hneg : roundHalfUp (defaultContext.round x) =
        -roundHalfUp (defaultContext.round (-x)) := by
      rw [round_neg, roundHalfUp_neg, neg_neg]
    rw [hneg, and_iff_left (by omega), and_iff_left (by linarith), neg_le_neg_iff, hlt]
    push_cast
    constructor <;> intro h <;> linarith

theorem abs_round_lt (h : Converts x) : |defaultContext.round x| < 10 ^ 28 - 1 / 2 := by
  have hx : |x| ≤ 10 ^ (27 : Int) := by
    obtain ⟨hlo, hhi⟩ := h
    have hcast : (10 : Rat) ^ (27 : Int) = 10 ^ 27 := by norm_cast
    rw [hcast, abs_le]
    constructor <;> linarith
  have hround := Context.round_le_zpow (c := defaultContext) (by decide) (by decide)
    (abs_nonneg x) hx
  have hcast : (10 : Rat) ^ (27 : Int) = 10 ^ 27 := by norm_cast
  rw [abs_round]
  linarith

theorem toHomeCents_inRange_iff (balanceCents : Int) (rate : Rat) :
    (∃ n, toHomeCents balanceCents rate = .ok n ∧ inInt8 n = true) ↔
      Converts (balanceCents * rate) := by
  rw [← inInt8_round_iff]
  constructor
  · rintro ⟨n, h, hn⟩
    rwa [← (toHomeCents_ok h).1]
  · intro h
    exact ⟨_, toHomeCents_of_lt (abs_round_lt ((inInt8_round_iff _).mp h)), h⟩

end FigureLemmas

/-! ## Months -/

/-- The products that are rounded to a `bigint`. -/
def RoundsInRange (x : Rat) : Prop := -(2 ^ 63 + 1 / 2) < x ∧ x < 2 ^ 63 - 1 / 2

instance (x : Rat) : Decidable (RoundsInRange x) := inferInstanceAs (Decidable (_ ∧ _))

namespace FigureLemmas

open FlowLemmas HomeCentsLemmas

theorem inInt8_roundHalfUp_iff (x : Rat) : inInt8 (roundHalfUp x) = true ↔ RoundsInRange x := by
  rw [inInt8_iff, RoundsInRange]
  rcases le_total 0 x with hx | hx
  · have hcents : (0 : Int) ≤ roundHalfUp x := by exact_mod_cast roundHalfUp_nonneg hx
    rw [and_iff_right (by omega), and_iff_right (by linarith), ← Int.le_sub_one_iff,
      roundHalfUp_le_iff hx]
    push_cast
    constructor <;> intro h <;> linarith
  · have hx' := neg_nonneg.mpr hx
    have hcents : (0 : Int) ≤ roundHalfUp (-x) := by exact_mod_cast roundHalfUp_nonneg hx'
    have hneg : roundHalfUp x = -roundHalfUp (-x) := by rw [roundHalfUp_neg, neg_neg]
    rw [hneg, and_iff_left (by omega), and_iff_left (by linarith), neg_le_neg_iff,
      roundHalfUp_le_iff hx']
    push_cast
    constructor <;> intro h <;> linarith

/-! ### Totals cover the rest -/

variable {txns g : List SignedTxn}

theorem inflowOf_le (h : g.Sublist txns) : inflowOf g ≤ inflowOf txns := by
  refine (h.map _).sum_le_sum fun n hn => ?_
  obtain ⟨s, -, rfl⟩ := List.mem_map.mp hn
  cases s.signedHomeCents with
  | none => exact le_rfl
  | some n =>
    dsimp only
    split <;> omega

theorem outflowOf_le (h : g.Sublist txns) : outflowOf g ≤ outflowOf txns := by
  refine (h.map _).sum_le_sum fun n hn => ?_
  obtain ⟨s, -, rfl⟩ := List.mem_map.mp hn
  cases s.signedHomeCents with
  | none => exact le_rfl
  | some n =>
    dsimp only
    split <;> omega

theorem unconvertedOf_le (hflag : ∀ s ∈ txns, s.Flagged) (h : g.Sublist txns) :
    0 ≤ unconvertedOf g ∧ unconvertedOf g ≤ unconvertedOf txns := by
  refine ⟨Sql.sum_nonneg_of_forall fun s hs => flagged_nonneg (hflag s (h.subset hs)), ?_⟩
  refine (h.map _).sum_le_sum fun n hn => ?_
  obtain ⟨s, hs, rfl⟩ := List.mem_map.mp hn
  exact flagged_nonneg (hflag s hs)

theorem sqlSum_some {n : Int} (h : sqlSum (g.map fun s => s.signedHomeCents) = some n) :
    n = sumOf g := by
  have hsum : ((g.map fun s => s.signedHomeCents).filterMap id).sum = sumOf g := by
    clear h
    unfold sumOf
    induction g with
    | nil => rfl
    | cons s ss ih =>
      unfold SignedTxn.value at ih ⊢
      rw [List.map_cons, List.map_cons, List.sum_cons, ← ih]
      cases hs : s.signedHomeCents with
      | none => rw [List.filterMap_cons_none rfl, Option.getD_none, Int.zero_add]
      | some m =>
        rw [List.filterMap_cons_some (f := id) (a := some m) rfl, List.sum_cons, Option.getD_some]
  unfold sqlSum at h
  split at h
  · cases h
  · rw [← hsum]
    exact (Option.some.inj h).symm

theorem sumOf_inRange (htotals : totalsInRange txns = true) (h : g.Sublist txns) :
    inInt8 (sumOf g) = true := by
  simp only [totalsInRange, Bool.and_eq_true, inInt8_iff] at htotals
  have hin := inflowOf_le h
  have hout := outflowOf_le h
  have hin₀ := inflowOf_le (List.nil_sublist g)
  have hout₀ := outflowOf_le (List.nil_sublist g)
  have hnil : inflowOf [] = 0 ∧ outflowOf [] = 0 := ⟨rfl, rfl⟩
  rw [inInt8_iff, ← inflow_sub_outflow]
  omega

theorem groupsInRange_of_totals (hflag : ∀ s ∈ txns, s.Flagged)
    (htotals : totalsInRange txns = true) : groupsInRange txns = true := by
  refine List.all_eq_true.mpr fun group hgroup => ?_
  obtain ⟨k, -, rfl⟩ := List.mem_map.mp hgroup
  rw [Bool.and_eq_true]
  constructor
  · refine Option.all_eq_true _ _ |>.mpr fun n hn => ?_
    rw [sqlSum_some hn]
    exact sumOf_inRange htotals List.filter_sublist
  · have hcount := unconvertedOf_le hflag (g := txns.filter fun s => decide (s.groupKey = k))
      List.filter_sublist
    simp only [totalsInRange, Bool.and_eq_true, inInt8_iff] at htotals
    exact inInt8_iff.mpr ⟨le_trans (by norm_num) hcount.1, hcount.2.trans_lt htotals.2.2⟩

end FigureLemmas

section Months

variable [Platform] [Locale]

/-- What a month needs for its figures to be `bigint`s. -/
structure MonthFits (db : Db) (userId : Uuid) (startUtc endUtc : Timestamp) (tz : Text) :
    Prop where
  products : ∀ t ∈ monthRows db userId startUtc endUtc,
    ∀ rate ∈ homeRateJoin db tz t (accountJoin db t), RoundsInRange (t.amountCents * rate)
  inflow : inflowOf (monthTxns db userId startUtc endUtc tz) < 2 ^ 63
  outflow : outflowOf (monthTxns db userId startUtc endUtc tz) < 2 ^ 63
  unconverted : unconvertedOf (monthTxns db userId startUtc endUtc tz) < 2 ^ 63

/-- The figures of a month. -/
def MonthFlow.figures (flow : MonthFlow) : List Int :=
  (flow.categories.flatMap fun c =>
    c.spentHomeCents.toList ++ c.hashtagBreakdown.flatMap fun b => b.spentHomeCents.toList) ++
  (flow.totals.inflowHomeCents.toList ++ flow.totals.outflowHomeCents.toList ++
    flow.totals.netHomeCents.toList)

namespace FigureLemmas

open FlowLemmas

variable {db : Db} {userId : Uuid} {startUtc endUtc : Timestamp} {tz : Text}

theorem homeCents_inRange_iff {t : Row .transactions} :
    (homeCents db tz t).isOk = true ↔
      ∀ rate ∈ homeRateJoin db tz t (accountJoin db t), RoundsInRange (t.amountCents * rate) := by
  unfold homeCents
  dsimp only
  split
  · next hhome =>
    refine iff_of_true rfl fun rate hrate => ?_
    -- An account in the home currency takes no rate.
    obtain ⟨a, ha, hcode⟩ := Option.any_eq_true _ _ |>.mp hhome
    rw [ha, homeRateJoin, if_neg] at hrate
    · cases hrate
    · simpa using fun h => absurd (of_decide_eq_true hcode) h
  · cases homeRateJoin db tz t (accountJoin db t) with
    | none => exact iff_of_true rfl nofun
    | some rate =>
      have hcast : ((castBigint (roundHalfUp (t.amountCents * rate))).map some).isOk =
          inInt8 (roundHalfUp (t.amountCents * rate)) := by
        unfold castBigint
        cases inInt8 (roundHalfUp (t.amountCents * rate)) <;> rfl
      dsimp only
      rw [hcast, inInt8_roundHalfUp_iff]
      simp

/-- The totals bound what the breakdown adds up. -/
theorem figuresInRange_iff :
    figuresInRange db userId startUtc endUtc tz = true ↔
      MonthFits db userId startUtc endUtc tz := by
  have hrows : ((monthRows db userId startUtc endUtc).all fun t =>
      (homeCents db tz t).isOk) = true ↔ ∀ t ∈ monthRows db userId startUtc endUtc,
        ∀ rate ∈ homeRateJoin db tz t (accountJoin db t), RoundsInRange (t.amountCents * rate) := by
    rw [List.all_eq_true]
    exact forall₂_congr fun _ _ => homeCents_inRange_iff
  have hnil : inflowOf [] = 0 ∧ outflowOf [] = 0 := ⟨rfl, rfl⟩
  have hin := inflowOf_le (List.nil_sublist (monthTxns db userId startUtc endUtc tz))
  have hout := outflowOf_le (List.nil_sublist (monthTxns db userId startUtc endUtc tz))
  have hcount := unconvertedOf_le flagged_monthTxns
    (List.Sublist.refl (monthTxns db userId startUtc endUtc tz))
  rw [figuresInRange, Bool.and_eq_true, Bool.and_eq_true, hrows]
  constructor
  · rintro ⟨⟨hproducts, -⟩, htotals⟩
    simp only [totalsInRange, Bool.and_eq_true, inInt8_iff] at htotals
    exact ⟨hproducts, htotals.1.1.2, htotals.1.2.2, htotals.2.2⟩
  · intro h
    have htotals : totalsInRange (monthTxns db userId startUtc endUtc tz) = true := by
      have hinflow := h.inflow
      have houtflow := h.outflow
      have hunconverted := h.unconverted
      simp only [totalsInRange, Bool.and_eq_true, inInt8_iff]
      omega
    exact ⟨⟨h.products, groupsInRange_of_totals flagged_monthTxns htotals⟩, htotals⟩

omit [Platform] [Locale] in
theorem figure_inRange {txns g : List SignedTxn} (htotals : totalsInRange txns = true)
    (h : g.Sublist txns) {n : Int} (hn : n ∈ (figure g).toList) : inInt8 n = true := by
  rw [Option.mem_toList, figure] at hn
  split at hn
  · cases hn
  · cases hn
    exact sumOf_inRange htotals h

theorem reportOf_inRange (h : figuresInRange db userId startUtc endUtc tz = true) :
    ∀ n ∈ (reportOf db userId startUtc endUtc tz).figures, inInt8 n = true := by
  rw [figuresInRange, Bool.and_eq_true] at h
  have htotals := h.2
  intro n hn
  rw [MonthFlow.figures, List.mem_append, List.mem_flatMap] at hn
  rcases hn with ⟨c, hc, hn⟩ | hn
  · obtain ⟨r, -, rfl⟩ := List.mem_map.mp hc
    rw [List.mem_append, List.mem_flatMap] at hn
    rcases hn with hn | ⟨b, hb, hn⟩
    · exact figure_inRange htotals List.filter_sublist hn
    · obtain ⟨k, -, rfl⟩ := List.mem_map.mp hb
      exact figure_inRange htotals List.filter_sublist hn
  · have hnet := sumOf_inRange htotals (List.Sublist.refl _)
    simp only [totalsInRange, Bool.and_eq_true] at htotals
    unfold reportOf flowTotals at hn
    split at hn
    · cases hn
    · rw [← inflow_sub_outflow] at hnet
      simp only [Option.toList_some, List.mem_append, List.mem_singleton] at hn
      rcases hn with (rfl | rfl) | rfl
      · exact htotals.1.1
      · exact htotals.1.2
      · exact hnet

end FigureLemmas

end Months

end ExpenseEngine
