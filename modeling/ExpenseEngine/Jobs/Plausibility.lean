import Mathlib.Data.List.Infix
import ExpenseEngine.Jobs.Outcomes

/-!
# Rates beside their neighbours

A rate is checked against the last one before it in the table at that moment. The
backfill writes in the order in which its fetches complete, so that a rate may be
stored before a day that is there already, and nothing compares the two.

Results:
1. `move_le_limit_iff`: the check accepts what rounds to the limit or less.
2. `plausible_cons_iff`: a row keeps adjacent rates near each other exactly when it
   is near its neighbours on both sides.
3. `stored_rates`: stored rates are positive and stay; they are near each other in
   every state of a run exactly when each call is harmless in the state it finds.
-/

namespace ExpenseEngine

open Num Sql

/-! ## Runs of calls -/

/-- The arguments of `_upsert_rate`. -/
structure RateCall where
  target : Text
  rateDate : Date
  rate : Number

def RateCall.row (c : RateCall) : StoredRate := ⟨c.target, c.rateDate, c.rate⟩

/-- The difference is within the limit of the earlier rate. -/
def Near : Number → Number → Prop
  | .finite earlier, .finite later => |later - earlier| ≤ earlier * maxRateMoveFraction
  | _, _ => False

/-- No row of the target is between the days. -/
def NoneBetween (table : RateTable) (target : Text) (first last : Date) : Prop :=
  ∀ row ∈ table, row.target = target → first < row.rateDate → last ≤ row.rateDate

/-- Rows of a target with none between them, at most the gap apart. -/
structure Adjacent (table : RateTable) (a b : StoredRate) : Prop where
  earlier : a ∈ table
  later : b ∈ table
  target : b.target = a.target
  before : a.rateDate < b.rateDate
  gap : b.rateDate - maxBaselineGapDays ≤ a.rateDate
  between : NoneBetween table a.target a.rateDate b.rateDate

def Plausible (table : RateTable) : Prop := ∀ a b, Adjacent table a b → Near a.rate b.rate

/-- The neighbours a row of the call would have. -/
structure Previous (table : RateTable) (c : RateCall) (a : StoredRate) : Prop where
  mem : a ∈ table
  window : inBaselineWindow c.target c.rateDate a = true
  between : NoneBetween table c.target a.rateDate c.rateDate

structure Next (table : RateTable) (c : RateCall) (b : StoredRate) : Prop where
  mem : b ∈ table
  target : b.target = c.target
  after : c.rateDate < b.rateDate
  gap : b.rateDate - maxBaselineGapDays ≤ c.rateDate
  between : NoneBetween table c.target c.rateDate b.rateDate

/-- A move above the limit that is at most the limit in 28 digits. -/
def Hidden : Number → Number → Prop
  | .finite rate, .finite baseline =>
    baseline * maxRateMoveFraction < |rate - baseline| ∧
      defaultContext.round |rate - baseline| ≤
        baseline * (maxRateMoveFraction + 1 / (2 * 10 ^ 28))
  | _, _ => False

section

variable [RateStore]

/-- The table after the call, whatever its outcome. -/
def storeRate (table : RateTable) (c : RateCall) : RateTable :=
  match upsertRate table c.target c.rateDate c.rate with
  | .ok (_, table') => table'
  | .error _ => table

/-- The rows that a sequence of calls leaves in an empty table. -/
def storedBy (calls : List RateCall) : RateTable := calls.foldl storeRate []

/-- The call passes the checks, and its day is free. -/
structure Admitted (table : RateTable) (c : RateCall) : Prop where
  positive : c.rate.Positive
  date : dateMin ≤ c.rateDate - maxBaselineGapDays
  move : ∀ a, Previous table c a → ∃ move, moveOf c.rate a.rate = .ok move ∧
    move.le (.finite maxRateMoveFraction) = .ok true
  accepted : RateStore.reject c.target c.rateDate c.rate = none
  free : taken table c.target c.rateDate = false

/-- A call that stores its rate finds the next row near it, and the rounding hides
no move from the row before. -/
def Harmless (table : RateTable) (c : RateCall) : Prop :=
  Admitted table c → (∀ a, Previous table c a → ¬Hidden c.rate a.rate) ∧
    ∀ b, Next table c b → Near c.rate b.rate

/-- Each call of the run is harmless in the state it finds. -/
def AllHarmless : RateTable → List RateCall → Prop
  | _, [] => True
  | table, c :: calls => Harmless table c ∧ AllHarmless (storeRate table c) calls

/-- At most one row of a target and a day, and positive rates. -/
structure RatesSound (table : RateTable) : Prop where
  positive : ∀ row ∈ table, row.rate.Positive
  single : ∀ r ∈ table, ∀ s ∈ table, r.target = s.target → r.rateDate = s.rateDate → r = s

end

namespace PlausibilityLemmas

open RateJobLemmas

variable {table : RateTable} {c : RateCall} {a b : StoredRate}

/-! ## The check -/

theorem moveOf_finite {rate baseline : Rat} {move : Number} (hbaseline : 0 < baseline)
    (h : moveOf (.finite rate) (.finite baseline) = .ok move) :
    move = .finite (defaultContext.round
      (defaultContext.round |rate - baseline| / baseline)) := by
  rw [moveOf, Context.sub] at h
  cases hsub : defaultContext.fix (rate - baseline) with
  | error signal =>
    rw [hsub] at h
    cases h
  | ok difference =>
    rw [hsub] at h
    have hdiv : defaultContext.div (.finite |difference|) (.finite baseline) = .ok move := h
    rw [Context.div, if_neg hbaseline.ne'] at hdiv
    cases hquotient : defaultContext.fix (|difference| / baseline) with
    | error signal =>
      rw [hquotient] at hdiv
      cases hdiv
    | ok quotient =>
      rw [hquotient] at hdiv
      cases hdiv
      rw [Context.fix_ok hquotient, Context.fix_ok hsub, Context.abs_round]

/-- The quotient is rounded to the limit or less when it is hardly above it. -/
theorem round_le_limit_iff {q : Rat} (hq : 0 ≤ q) :
    defaultContext.round q ≤ maxRateMoveFraction ↔
      q ≤ maxRateMoveFraction + 1 / (2 * 10 ^ 28) := by
  have h := Context.round_le_zpow_iff (c := defaultContext) (k := -1) (by decide) (by decide) hq
  have hlimit : (10 : Rat) ^ (-1 : Int) = maxRateMoveFraction := by
    rw [maxRateMoveFraction, zpow_neg_one, one_div]
  have hhalf : (10 : Rat) ^ (-1 - ((defaultContext.precision : Int) - 1)) / 2 =
      1 / (2 * 10 ^ 28) := by
    norm_num [defaultContext]
  rwa [hlimit, hhalf] at h

/-- An accepted move that nothing hides is within the limit. -/
theorem near_of_move {rate baseline : Number} (hbaseline : baseline.Positive)
    (hrate : rate.Positive)
    (h : ∃ move, moveOf rate baseline = .ok move ∧
      move.le (.finite maxRateMoveFraction) = .ok true)
    (hhidden : ¬Hidden rate baseline) : Near baseline rate := by
  obtain ⟨move, hmove, hle⟩ := h
  cases baseline with
  | nan signaling => exact hbaseline.elim
  | infinity negative =>
    -- A finite rate is infinitely far, and two infinities have no quotient.
    cases rate with
    | nan signaling => exact hrate.elim
    | finite r => cases hmove
    | infinity other =>
      cases negative <;> cases other <;> cases hmove
  | finite b =>
    cases rate with
    | nan signaling => exact hrate.elim
    | infinity negative =>
      have hb : ¬b < 0 := not_lt.mpr (le_of_lt hbaseline)
      cases hmove
      simp [hb, Number.le] at hle
    | finite r =>
      have hb : 0 < b := hbaseline
      rw [moveOf_finite hb hmove] at hle
      have hround : 0 ≤ defaultContext.round |r - b| := Context.round_nonneg (abs_nonneg _)
      have hquotient := (round_le_limit_iff (div_nonneg hround hb.le)).mp
        (of_decide_eq_true (Except.ok.inj hle))
      rw [div_le_iff₀ hb, mul_comm] at hquotient
      exact not_lt.mp fun hfar => hhidden ⟨hfar, hquotient⟩

theorem not_hidden_of_near {rate baseline : Number} (h : Near baseline rate) :
    ¬Hidden rate baseline := by
  cases baseline with
  | finite b =>
    cases rate with
    | finite r => exact fun hhidden => absurd h (not_le.mpr hhidden.1)
    | infinity negative => exact id
    | nan signaling => exact id
  | infinity negative => exact h.elim
  | nan signaling => exact h.elim

/-! ## The rows around a day -/

theorem taken_eq_false_iff {target : Text} {rateDate : Date} :
    taken table target rateDate = false ↔
      ∀ row ∈ table, row.target = target → row.rateDate ≠ rateDate := by
  simp [taken, not_and]

/-- Where a day has one row at most, the baseline is the row before. -/
theorem latestBy_iff (hsingle : ∀ r ∈ table, ∀ s ∈ table, r.target = s.target →
      r.rateDate = s.rateDate → r = s) :
    latestBy StoredRate.rateDate (table.filter (inBaselineWindow c.target c.rateDate)) = some a ↔
      Previous table c a := by
  have hwindow : ∀ row, inBaselineWindow c.target c.rateDate row = true ↔
      row.target = c.target ∧ row.rateDate < c.rateDate ∧
        c.rateDate - maxBaselineGapDays ≤ row.rateDate := by
    intro row
    rw [inBaselineWindow, decide_eq_true_iff]
  constructor
  · intro h
    obtain ⟨hmem, hmax⟩ := latestBy_eq_some h
    obtain ⟨hmem, hin⟩ := List.mem_filter.mp hmem
    refine ⟨hmem, hin, fun row hrow htarget hafter => ?_⟩
    by_contra hbefore
    have hgap := ((hwindow a).mp hin).2.2
    have hrow' := hmax row (List.mem_filter.mpr ⟨hrow, (hwindow row).mpr
      ⟨htarget, not_le.mp hbefore, hgap.trans hafter.le⟩⟩)
    exact absurd hafter (not_lt.mpr hrow')
  · intro h
    have hin := (hwindow a).mp h.window
    have hmem := List.mem_filter.mpr ⟨h.mem, h.window⟩
    cases hlatest : latestBy StoredRate.rateDate
        (table.filter (inBaselineWindow c.target c.rateDate)) with
    | none =>
      rw [latestBy_eq_none hlatest] at hmem
      cases hmem
    | some best =>
      obtain ⟨hbest, hmax⟩ := latestBy_eq_some hlatest
      obtain ⟨hbest, hbestin⟩ := List.mem_filter.mp hbest
      have hbestin := (hwindow best).mp hbestin
      have hdate : best.rateDate = a.rateDate := by
        refine le_antisymm (not_lt.mp fun hafter => ?_) (hmax a hmem)
        exact absurd hbestin.2.1 (not_lt.mpr (h.between best hbest hbestin.1 hafter))
      rw [hsingle best hbest a h.mem (hbestin.1.trans hin.1.symm) hdate]

/-! ## A row more -/

theorem adjacent_iff_of_ne {x y : StoredRate} (hx : x ≠ c.row) (hy : y ≠ c.row)
    (h : Adjacent (c.row :: table) x y) : Adjacent table x y where
  earlier := (List.mem_cons.mp h.earlier).resolve_left hx
  later := (List.mem_cons.mp h.later).resolve_left hy
  target := h.target
  before := h.before
  gap := h.gap
  between row hrow := h.between row (List.mem_cons_of_mem _ hrow)

/-- The rows that are adjacent to the new one are its neighbours. -/
theorem adjacent_row_iff : Adjacent (c.row :: table) a c.row ↔ Previous table c a := by
  constructor
  · intro h
    have htarget : c.target = a.target := h.target
    have hmem : a ∈ table := by
      rcases List.mem_cons.mp h.earlier with rfl | hmem
      · exact absurd h.before (lt_irrefl _)
      · exact hmem
    refine ⟨hmem, decide_eq_true ⟨htarget.symm, h.before, h.gap⟩, fun row hrow htarget' => ?_⟩
    exact h.between row (List.mem_cons_of_mem _ hrow) (htarget'.trans htarget)
  · intro h
    obtain ⟨htarget, hbefore, hgap⟩ := of_decide_eq_true h.window
    refine ⟨List.mem_cons_of_mem _ h.mem, List.mem_cons_self, htarget.symm, hbefore, hgap, ?_⟩
    intro row hrow htarget' hafter
    rcases List.mem_cons.mp hrow with rfl | hrow
    · exact le_rfl
    · exact h.between row hrow (htarget'.trans htarget) hafter

theorem row_adjacent_iff : Adjacent (c.row :: table) c.row b ↔ Next table c b := by
  constructor
  · intro h
    have hmem : b ∈ table := by
      rcases List.mem_cons.mp h.later with rfl | hmem
      · exact absurd h.before (lt_irrefl _)
      · exact hmem
    exact ⟨hmem, h.target, h.before, h.gap,
      fun row hrow => h.between row (List.mem_cons_of_mem _ hrow)⟩
  · intro h
    refine ⟨List.mem_cons_self, List.mem_cons_of_mem _ h.mem, h.target, h.after, h.gap, ?_⟩
    intro row hrow htarget hafter
    rcases List.mem_cons.mp hrow with rfl | hrow
    · exact absurd hafter (lt_irrefl _)
    · exact h.between row hrow htarget hafter

/-- A row keeps adjacent rates near each other exactly when it is near its
neighbours. -/
theorem plausible_cons_iff (h : Plausible table) :
    Plausible (c.row :: table) ↔
      (∀ a, Previous table c a → Near a.rate c.rate) ∧
        ∀ b, Next table c b → Near c.rate b.rate := by
  constructor
  · intro hcons
    exact ⟨fun a ha => hcons a c.row (adjacent_row_iff.mpr ha),
      fun b hb => hcons c.row b (row_adjacent_iff.mpr hb)⟩
  · rintro ⟨hprevious, hnext⟩ x y hxy
    by_cases hy : y = c.row
    · subst hy
      exact hprevious x (adjacent_row_iff.mp hxy)
    · by_cases hx : x = c.row
      · subst hx
        exact hnext y (row_adjacent_iff.mp hxy)
      · exact h x y (adjacent_iff_of_ne hx hy hxy)

/-! ## Steps -/

section Steps

variable [RateStore]

theorem admitted_iff (h : RatesSound table) (c : RateCall) :
    Admitted table c ↔
      upsertRate table c.target c.rateDate c.rate = .ok (true, c.row :: table) := by
  rw [upsertRate_ok_iff, checkRate_ok_iff]
  constructor
  · intro hadmitted
    refine ⟨⟨hadmitted.positive, _, if_neg (not_lt.mpr hadmitted.date), fun a ha => ?_⟩,
      hadmitted.accepted, .inr ⟨rfl, hadmitted.free, rfl⟩⟩
    exact checkMove_ok_iff.mpr (hadmitted.move a ((latestBy_iff h.single).mp ha))
  · rintro ⟨⟨hpositive, o, hbase, hmove⟩, haccepted, ⟨hfalse, -⟩ | ⟨-, hfree, -⟩⟩
    · cases hfalse
    · unfold baselineRate at hbase
      split at hbase
      · cases hbase
      · next hdate =>
        cases hbase
        refine ⟨hpositive, not_lt.mp hdate, fun a ha => ?_, haccepted, hfree⟩
        exact checkMove_ok_iff.mp (hmove a ((latestBy_iff h.single).mpr ha))

/-- A call stores its rate exactly when it is admitted. -/
theorem storeRate_cases (h : RatesSound table) (c : RateCall) :
    (Admitted table c ∧ storeRate table c = c.row :: table) ∨
      ¬Admitted table c ∧ storeRate table c = table := by
  have hwritten := admitted_iff h c
  by_cases hadmitted : Admitted table c
  · exact .inl ⟨hadmitted, by rw [storeRate, hwritten.mp hadmitted]⟩
  · refine .inr ⟨hadmitted, ?_⟩
    unfold storeRate
    cases hupsert : upsertRate table c.target c.rateDate c.rate with
    | error raised => rfl
    | ok result =>
      obtain ⟨written, table'⟩ := result
      obtain ⟨-, -, ⟨-, -, rfl⟩ | ⟨rfl, -, rfl⟩⟩ := upsertRate_ok_iff.mp hupsert
      · rfl
      · exact absurd (hwritten.mpr hupsert) hadmitted

theorem ratesSound_store (h : RatesSound table) (c : RateCall) :
    RatesSound (storeRate table c) := by
  rcases storeRate_cases h c with ⟨hadmitted, heq⟩ | ⟨-, heq⟩
  · rw [heq]
    have hfree := taken_eq_false_iff.mp hadmitted.free
    refine ⟨fun row hrow => ?_, fun r hr s hs htarget hdate => ?_⟩
    · rcases List.mem_cons.mp hrow with rfl | hrow
      · exact hadmitted.positive
      · exact h.positive row hrow
    · rcases List.mem_cons.mp hr with rfl | hr <;> rcases List.mem_cons.mp hs with rfl | hs
      · rfl
      · exact absurd hdate.symm (hfree s hs htarget.symm)
      · exact absurd hdate (hfree r hr htarget)
      · exact h.single r hr s hs htarget hdate
  · rwa [heq]

theorem mem_storeRate (h : RatesSound table) (c : RateCall) (ha : a ∈ table) :
    a ∈ storeRate table c := by
  rcases storeRate_cases h c with ⟨-, heq⟩ | ⟨-, heq⟩
  · rw [heq]
    exact List.mem_cons_of_mem _ ha
  · rwa [heq]

/-- The check has seen to the row before; what is left is the row after. -/
theorem plausible_store_iff (h : RatesSound table) (hnear : Plausible table) (c : RateCall) :
    Plausible (storeRate table c) ↔ Harmless table c := by
  rcases storeRate_cases h c with ⟨hadmitted, heq⟩ | ⟨hrefused, heq⟩
  · rw [heq, plausible_cons_iff hnear, Harmless, imp_iff_right hadmitted]
    refine and_congr_left fun _ => forall₂_congr fun a ha => ⟨not_hidden_of_near, ?_⟩
    exact near_of_move (h.positive a ha.mem) hadmitted.positive (hadmitted.move a ha)
  · rw [heq]
    exact iff_of_true hnear fun hadmitted => absurd hadmitted hrefused

/-! ## Runs -/

theorem ratesSound_run (h : RatesSound table) (calls : List RateCall) :
    RatesSound (calls.foldl storeRate table) := by
  induction calls generalizing table with
  | nil => exact h
  | cons c calls ih => exact ih (ratesSound_store h c)

theorem mem_run (h : RatesSound table) (calls : List RateCall) (ha : a ∈ table) :
    a ∈ calls.foldl storeRate table := by
  induction calls generalizing table with
  | nil => exact ha
  | cons c calls ih => exact ih (ratesSound_store h c) (mem_storeRate h c ha)

/-- Every state of a run is plausible exactly when every call of it is harmless. -/
theorem plausible_run_iff (h : RatesSound table) (hnear : Plausible table)
    (calls : List RateCall) :
    (∀ done, done <+: calls → Plausible (done.foldl storeRate table)) ↔
      AllHarmless table calls := by
  induction calls generalizing table with
  | nil =>
    refine iff_of_true (fun done hdone => ?_) trivial
    rw [List.prefix_nil.mp hdone]
    exact hnear
  | cons c calls ih =>
    rw [AllHarmless, ← plausible_store_iff h hnear c]
    constructor
    · intro hall
      have hfirst : Plausible (storeRate table c) := hall [c] ⟨calls, rfl⟩
      refine ⟨hfirst, (ih (ratesSound_store h c) hfirst).mp fun done hdone => ?_⟩
      exact hall (c :: done) ((List.prefix_cons_inj c).mpr hdone)
    · rintro ⟨hfirst, hrest⟩ done hdone
      cases done with
      | nil => exact hnear
      | cons c' done =>
        obtain ⟨rfl, hrest'⟩ := List.cons_prefix_cons.mp hdone
        exact (ih (ratesSound_store h c') hfirst).mpr hrest done hrest'

end Steps

end PlausibilityLemmas

open PlausibilityLemmas

/-! ## The stored rates -/

/-- Stored rates are positive, and each stays the only one of its day. Adjacent
ones are near each other in every state of the run exactly when every call that
stores a rate finds the row after it near. -/
theorem stored_rates [RateStore] (calls : List RateCall) :
    (∀ row ∈ storedBy calls, row.rate.Positive) ∧
      (∀ more, ∀ row ∈ storedBy calls, row ∈ storedBy (calls ++ more) ∧
        ∀ row' ∈ storedBy (calls ++ more), row'.target = row.target →
          row'.rateDate = row.rateDate → row' = row) ∧
      ((∀ done, done <+: calls → Plausible (storedBy done)) ↔ AllHarmless [] calls) := by
  have hempty : RatesSound [] := ⟨by simp, by simp⟩
  refine ⟨(ratesSound_run hempty calls).positive, fun more row hrow => ?_,
    plausible_run_iff hempty (fun a b h => absurd h.earlier (by simp)) calls⟩
  have hsound : RatesSound (storedBy (calls ++ more)) := ratesSound_run hempty _
  have hkept : row ∈ storedBy (calls ++ more) := by
    rw [storedBy, List.foldl_append]
    exact mem_run (ratesSound_run hempty calls) more hrow
  exact ⟨hkept, fun row' hrow' htarget hdate => hsound.single row' hrow' row hkept htarget hdate⟩

/-! ## A bad rate that lands first -/

namespace Ascii

/-- The misplaced point of one day, then the rate of the day before it. -/
def badFirst : List RateCall := [
  ⟨"PEN".toList, 20001, .finite (33373 / 1000)⟩,
  ⟨"PEN".toList, 20000, .finite (33373 / 10000)⟩]

end Ascii

open Ascii in
/-- Neither call is refused, and the rates are a day and a factor of ten apart. -/
theorem bad_rate_stands : ¬Plausible (storedBy badFirst) := by
  have hstored : storedBy badFirst = [
      ⟨"PEN".toList, 20000, .finite (33373 / 10000)⟩,
      ⟨"PEN".toList, 20001, .finite (33373 / 1000)⟩] := by
    decide +kernel
  intro h
  have hnear := h ⟨"PEN".toList, 20000, .finite (33373 / 10000)⟩
    ⟨"PEN".toList, 20001, .finite (33373 / 1000)⟩ (by
      rw [hstored]
      refine ⟨by simp, by simp, rfl, by decide, by decide, fun row hrow _ hafter => ?_⟩
      rcases List.mem_pair.mp hrow with rfl | rfl
      · exact absurd hafter (lt_irrefl _)
      · exact le_rfl)
  have hfar : ¬(|(33373 / 1000 : Rat) - 33373 / 10000| ≤ 33373 / 10000 * (1 / 10)) := by
    norm_num
  exact hfar hnear

end ExpenseEngine
