import Mathlib.Data.List.Perm.Basic
import ExpenseEngine.Jobs.Outcomes

/-!
# One target beside another

`_apply_rates` catches one kind of exception, the `ValueError` of a refused rate.
Any other one ends the loop, and the targets after it get no outcome.

Results:
1. `escapes_iff`: which values of the payload raise something else.
2. `applyRates_returns_iff`: the loop returns exactly when no target has one.
3. `isolated_iff`: then each target has the outcome it has beside any others.
-/

namespace ExpenseEngine

open Num

section

variable [RateStore]

/-! ## What is not caught -/

/-- `Decimal(value)` raises something that is no `ValueError`. -/
def NotConvertible : JsonValue → Prop
  | .null => True
  | .object _ => True
  | .string s => ∃ signal, decimalFromString s = .error signal
  | .list values => ∃ raised, decimalFromSequence values = .error raised ∧ raised.Escapes
  | _ => False

/-- A value that ends the loop at its target. -/
inductive Aborts (table : RateTable) (target : Text) (rateDate : Date) (value : JsonValue) :
    Prop where
  | conversion (h : NotConvertible value)
  | nan (signaling : Bool) (h : decimalOf value = .ok (.nan signaling))
  | tooEarly (rate : Number) (h : decimalOf value = .ok rate) (hpositive : rate.Positive)
      (hdate : rateDate - maxBaselineGapDays < dateMin)
  | move (rate : Number) (baseline : StoredRate) (signal : Signal)
      (h : decimalOf value = .ok rate) (hpositive : rate.Positive)
      (hbaseline : baselineRate table target rateDate = .ok (some baseline))
      (hmove : (moveOf rate baseline.rate >>= fun m => m.le (.finite maxRateMoveFraction)) =
        .error signal)
  | insertion (rate : Number) (raised : Raised) (h : decimalOf value = .ok rate)
      (hcheck : checkRate table target rateDate rate = .ok ())
      (hreject : RateStore.reject target rateDate rate = some raised) (hescapes : raised.Escapes)

/-! ## One target -/

/-- What the loop does with a value that is there. -/
def attempt (table : RateTable) (target : Text) (rateDate : Date) (value : JsonValue) :
    Except Raised (Bool × RateTable) :=
  decimalOf value >>= upsertRate table target rateDate

/-- The list that records a target. -/
inductive Verdict where
  | inserted
  | skipped
  | missing
  | failed (reason : Refusal)

/-- Of a value that does not abort. -/
def verdictOf (table : RateTable) (target : Text) (rateDate : Date) (value : Option JsonValue) :
    Verdict :=
  match value with
  | none => .missing
  | some value =>
    match attempt table target rateDate value with
    | .ok (true, _) => .inserted
    | .ok (false, _) => .skipped
    | .error (.valueError reason) => .failed reason
    | .error _ => .missing

/-- The table after the target. -/
def tableAfter (table : RateTable) (target : Text) (rateDate : Date) (value : Option JsonValue) :
    RateTable :=
  match value with
  | none => table
  | some value =>
    match attempt table target rateDate value with
    | .ok (_, table') => table'
    | .error _ => table

def Tally.add (tally : Tally) (target : Text) : Verdict → Tally
  | .inserted => { tally with inserted := tally.inserted ++ [target] }
  | .skipped => { tally with skipped := tally.skipped ++ [target] }
  | .missing => { tally with missing := tally.missing ++ [target] }
  | .failed reason => { tally with failed := tally.failed ++ [(target, reason)] }

/-- The targets of a tally, in whichever list. -/
def Tally.recorded (tally : Tally) : List Text :=
  tally.inserted ++ tally.skipped ++ tally.missing ++ tally.failed.map Prod.fst

/-- What a tally says of one target. -/
def Tally.only (tally : Tally) (target : Text) : Tally where
  inserted := tally.inserted.filter fun t => t = target
  skipped := tally.skipped.filter fun t => t = target
  missing := tally.missing.filter fun t => t = target
  failed := tally.failed.filter fun t => t.1 = target

namespace IsolationLemmas

open RateJobLemmas

variable {table table' : RateTable} {target : Text} {rateDate : Date} {value : JsonValue}

theorem notConvertible_iff (value : JsonValue) :
    NotConvertible value ↔ ∃ raised, decimalOf value = .error raised ∧ raised.Escapes := by
  cases value with
  | null => exact iff_of_true trivial ⟨_, rfl, by simp [Raised.Escapes]⟩
  | object entries => exact iff_of_true trivial ⟨_, rfl, by simp [Raised.Escapes]⟩
  | list values => exact Iff.rfl
  | string s =>
    constructor
    · rintro ⟨signal, h⟩
      exact ⟨.arithmetic signal, by rw [decimalOf, h]; rfl, escapes_arithmetic signal⟩
    · rintro ⟨raised, h, -⟩
      obtain ⟨signal, hsignal, -⟩ := trap_error h
      exact ⟨signal, hsignal⟩
  | boolean | integer | decimal | notANumber | infinite =>
    refine iff_of_false id ?_
    rintro ⟨raised, h, -⟩
    cases h

/-- The exceptions that are not caught are those of the listed values. -/
theorem escapes_iff :
    (∃ raised, attempt table target rateDate value = .error raised ∧ raised.Escapes) ↔
      Aborts table target rateDate value := by
  unfold attempt
  cases hvalue : decimalOf value with
  | error raised =>
    constructor
    · rintro ⟨raised', h, hescapes⟩
      cases h
      exact .conversion ((notConvertible_iff value).mpr ⟨_, hvalue, hescapes⟩)
    · intro h
      cases h with
      | conversion h =>
        obtain ⟨raised', h, hescapes⟩ := (notConvertible_iff value).mp h
        cases hvalue.symm.trans h
        exact ⟨_, rfl, hescapes⟩
      | nan _ h => cases hvalue.symm.trans h
      | tooEarly _ h => cases hvalue.symm.trans h
      | move _ _ _ h => cases hvalue.symm.trans h
      | insertion _ _ h => cases hvalue.symm.trans h
  | ok rate =>
    refine upsertRate_escapes_iff.trans ?_
    rw [checkRate_escapes_iff]
    constructor
    · rintro ((⟨signaling, rfl⟩ | ⟨hpositive, hearly | ⟨baseline, hbase, signal, hmove⟩⟩) |
        ⟨hcheck, raised, hreject, hescapes⟩)
      · exact .nan signaling hvalue
      · exact .tooEarly rate hvalue hpositive hearly
      · exact .move rate baseline signal hvalue hpositive hbase hmove
      · exact .insertion rate raised hvalue hcheck hreject hescapes
    · intro h
      cases h with
      | conversion h =>
        obtain ⟨raised, h, -⟩ := (notConvertible_iff value).mp h
        cases hvalue.symm.trans h
      | nan signaling h =>
        cases hvalue.symm.trans h
        exact .inl (.inl ⟨signaling, rfl⟩)
      | tooEarly rate' h hpositive hdate =>
        cases hvalue.symm.trans h
        exact .inl (.inr ⟨hpositive, .inl hdate⟩)
      | move rate' baseline signal h hpositive hbase hmove =>
        cases hvalue.symm.trans h
        exact .inl (.inr ⟨hpositive, .inr ⟨baseline, hbase, signal, hmove⟩⟩)
      | insertion rate' raised h hcheck hreject hescapes =>
        cases hvalue.symm.trans h
        exact .inr ⟨hcheck, raised, hreject, hescapes⟩

/-- A value that does not abort is recorded. -/
theorem applyRatesFrom_cons {rates : Text → Option JsonValue} {targets : List Text} {tally : Tally}
    (h : ∀ value, rates target = some value → ¬Aborts table target rateDate value) :
    applyRatesFrom rates rateDate (target :: targets) tally table =
      applyRatesFrom rates rateDate targets
        (tally.add target (verdictOf table target rateDate (rates target)))
        (tableAfter table target rateDate (rates target)) := by
  rw [applyRatesFrom]
  cases hvalue : rates target with
  | none => rfl
  | some value =>
    have hcaught := h value hvalue
    rw [← escapes_iff] at hcaught
    dsimp only [verdictOf, tableAfter]
    rw [← attempt]
    cases hattempt : attempt table target rateDate value with
    | ok result =>
      obtain ⟨_ | _, table'⟩ := result <;> rfl
    | error raised =>
      cases raised with
      | valueError reason => rfl
      | typeError | overflowError | arithmetic | database =>
        exact absurd ⟨_, hattempt, by simp [Raised.Escapes]⟩ hcaught

/-- One that does ends the loop. -/
theorem applyRatesFrom_abort {rates : Text → Option JsonValue} {targets : List Text}
    {tally : Tally} (hvalue : rates target = some value)
    (h : Aborts table target rateDate value) :
    ∃ raised, applyRatesFrom rates rateDate (target :: targets) tally table =
      (.error raised, table) := by
  obtain ⟨raised, hattempt, hescapes⟩ := escapes_iff.mpr h
  refine ⟨raised, ?_⟩
  rw [applyRatesFrom, hvalue]
  dsimp only
  rw [← attempt, hattempt]
  cases raised with
  | valueError reason => exact absurd rfl (hescapes reason)
  | typeError | overflowError | arithmetic | database => rfl

/-! ## Rows of the day -/

omit [RateStore] in
/-- A row of the day is a baseline for no rate of the day. -/
theorem baselineRate_cons {other : Text} {rate : Number} :
    baselineRate (⟨other, rateDate, rate⟩ :: table) target rateDate =
      baselineRate table target rateDate := by
  have hwindow : inBaselineWindow target rateDate ⟨other, rateDate, rate⟩ = false := by
    simp [inBaselineWindow]
  rw [baselineRate, baselineRate, List.filter_cons_of_neg (by simp [hwindow])]

theorem tableAfter_eq (table : RateTable) (target : Text) (rateDate : Date)
    (value : Option JsonValue) :
    tableAfter table target rateDate value = table ∨
      ∃ rate, tableAfter table target rateDate value = ⟨target, rateDate, rate⟩ :: table := by
  cases value with
  | none => exact .inl rfl
  | some value =>
    cases hattempt : attempt table target rateDate value with
    | error raised => exact .inl (by simp only [tableAfter, hattempt])
    | ok result =>
      obtain ⟨written, table'⟩ := result
      have hafter : tableAfter table target rateDate (some value) = table' := by
        simp only [tableAfter, hattempt]
      rw [hafter]
      cases hvalue : decimalOf value with
      | error raised =>
        rw [attempt, hvalue] at hattempt
        cases hattempt
      | ok rate =>
        rw [attempt, hvalue] at hattempt
        obtain ⟨-, -, ⟨-, -, rfl⟩ | ⟨-, -, rfl⟩⟩ := upsertRate_ok_iff.mp hattempt
        · exact .inl rfl
        · exact .inr ⟨rate, rfl⟩

theorem baselineRate_tableAfter {other : Text} {v : Option JsonValue} :
    baselineRate (tableAfter table other rateDate v) target rateDate =
      baselineRate table target rateDate := by
  rcases tableAfter_eq table other rateDate v with h | ⟨rate, h⟩
  · rw [h]
  · rw [h, baselineRate_cons]

theorem taken_tableAfter {other : Text} (hne : other ≠ target) {v : Option JsonValue} :
    taken (tableAfter table other rateDate v) target rateDate =
      taken table target rateDate := by
  rcases tableAfter_eq table other rateDate v with h | ⟨rate, h⟩
  · rw [h]
  · rw [h, taken, taken, List.any_cons]
    simp [hne]

omit [RateStore] in
theorem checkRate_congr (h : baselineRate table' target rateDate =
    baselineRate table target rateDate) (rate : Number) :
    checkRate table' target rateDate rate = checkRate table target rateDate rate := by
  rw [checkRate, checkRate, h]

theorem aborts_congr (h : baselineRate table' target rateDate =
    baselineRate table target rateDate) :
    Aborts table' target rateDate value ↔ Aborts table target rateDate value := by
  have hone : ∀ t t' : RateTable, baselineRate t' target rateDate = baselineRate t target rateDate →
      Aborts t' target rateDate value → Aborts t target rateDate value := by
    intro t t' h haborts
    cases haborts with
    | conversion h' => exact .conversion h'
    | nan signaling h' => exact .nan signaling h'
    | tooEarly rate h' hpositive hdate => exact .tooEarly rate h' hpositive hdate
    | move rate baseline signal h' hpositive hbase hmove =>
      exact .move rate baseline signal h' hpositive (h ▸ hbase) hmove
    | insertion rate raised h' hcheck hreject hescapes =>
      exact .insertion rate raised h' (checkRate_congr h rate ▸ hcheck) hreject hescapes
  exact ⟨hone _ _ h, hone _ _ h.symm⟩

theorem verdictOf_congr (h : baselineRate table' target rateDate =
      baselineRate table target rateDate)
    (htaken : taken table' target rateDate = taken table target rateDate)
    (value : Option JsonValue) :
    verdictOf table' target rateDate value = verdictOf table target rateDate value := by
  cases value with
  | none => rfl
  | some value =>
    unfold verdictOf attempt
    dsimp only
    cases decimalOf value with
    | error raised => rfl
    | ok rate =>
      have hupsert : ∀ t : RateTable, (Except.ok rate >>= upsertRate t target rateDate) =
          upsertRate t target rateDate rate := fun _ => rfl
      rw [hupsert, hupsert, upsertRate, upsertRate, checkRate_congr h rate]
      cases checkRate table target rateDate rate with
      | error raised => rfl
      | ok u =>
        cases RateStore.reject target rateDate rate with
        | some raised => rfl
        | none =>
          rw [htaken]
          cases taken table target rateDate <;> rfl

/-! ## The loop -/

variable {rates : Text → Option JsonValue} {targets : List Text} {tally : Tally}

theorem applyRatesFrom_returns_iff :
    (∃ tally' table', applyRatesFrom rates rateDate targets tally table = (.ok tally', table')) ↔
      ∀ target ∈ targets, ∀ value, rates target = some value →
        ¬Aborts table target rateDate value := by
  induction targets generalizing tally table with
  | nil => exact iff_of_true ⟨tally, table, rfl⟩ (by simp)
  | cons target targets ih =>
    rw [List.forall_mem_cons]
    by_cases h : ∀ value, rates target = some value → ¬Aborts table target rateDate value
    · rw [applyRatesFrom_cons h, ih, and_iff_right h]
      refine forall₂_congr fun t _ => forall₂_congr fun value _ => not_congr ?_
      exact aborts_congr baselineRate_tableAfter
    · refine iff_of_false ?_ fun hall => h hall.1
      simp only [not_forall, not_not] at h
      obtain ⟨value, hvalue, haborts⟩ := h
      obtain ⟨raised, heq⟩ : ∃ raised, applyRatesFrom rates rateDate (target :: targets) tally
          table = (.error raised, table) := applyRatesFrom_abort hvalue haborts
      rw [heq]
      rintro ⟨tally', table', h⟩
      cases h

omit [RateStore] in
theorem recorded_add (verdict : Verdict) :
    (tally.add target verdict).recorded.Perm (tally.recorded ++ [target]) := by
  refine List.perm_iff_count.mpr fun t => ?_
  cases verdict <;>
    simp only [Tally.add, Tally.recorded, List.count_append, List.map_append, List.map_cons,
      List.map_nil] <;>
    omega

theorem applyRatesFrom_recorded {tally' : Tally}
    (h : applyRatesFrom rates rateDate targets tally table = (.ok tally', table')) :
    tally'.recorded.Perm (tally.recorded ++ targets) := by
  induction targets generalizing tally table with
  | nil =>
    rw [applyRatesFrom] at h
    cases h
    rw [List.append_nil]
  | cons target targets ih =>
    have hcaught : ∀ value, rates target = some value → ¬Aborts table target rateDate value :=
      applyRatesFrom_returns_iff.mp ⟨tally', table', h⟩ target List.mem_cons_self
    rw [applyRatesFrom_cons hcaught] at h
    refine (ih h).trans ?_
    rw [List.append_cons]
    exact (recorded_add _).append_right targets

omit [RateStore] in
theorem only_add (other : Text) (verdict : Verdict) :
    (tally.add other verdict).only target =
      if other = target then (tally.only target).add target verdict else tally.only target := by
  split
  · next h =>
    subst h
    cases verdict <;> simp [Tally.add, Tally.only]
  · next h => cases verdict <;> simp [Tally.add, Tally.only, h]

/-- Of distinct targets each has the verdict of the table before the loop. -/
theorem applyRatesFrom_only {tally' : Tally} (hnodup : targets.Nodup)
    (h : applyRatesFrom rates rateDate targets tally table = (.ok tally', table')) :
    tally'.only target =
      if target ∈ targets then
        (tally.only target).add target (verdictOf table target rateDate (rates target))
      else tally.only target := by
  induction targets generalizing tally table with
  | nil =>
    rw [applyRatesFrom] at h
    cases h
    rfl
  | cons other targets ih =>
    have hcaught : ∀ value, rates other = some value → ¬Aborts table other rateDate value :=
      applyRatesFrom_returns_iff.mp ⟨tally', table', h⟩ other List.mem_cons_self
    obtain ⟨hother, hrest⟩ := List.nodup_cons.mp hnodup
    rw [applyRatesFrom_cons hcaught] at h
    rw [ih hrest h, only_add]
    by_cases heq : other = target
    · subst heq
      rw [if_neg hother, if_pos rfl, if_pos List.mem_cons_self]
    · rw [if_neg heq, verdictOf_congr baselineRate_tableAfter (taken_tableAfter heq)]
      refine if_congr ?_ rfl rfl
      rw [List.mem_cons, or_iff_right (Ne.symm heq)]

end IsolationLemmas

open IsolationLemmas

/-! ## The loop -/

/-- The loop returns exactly when no target has a value that ends it. -/
theorem applyRates_returns_iff (table : RateTable) (targets : List Text)
    (rates : Text → Option JsonValue) (rateDate : Date) :
    (∃ tally table', applyRates table targets rates rateDate = (.ok tally, table')) ↔
      ∀ target ∈ targets, ∀ value, rates target = some value →
        ¬Aborts table target rateDate value :=
  applyRatesFrom_returns_iff

/-- The loop returns, records each target once, and says of each of distinct
targets what it says of it beside any others with any values. -/
def Isolated (table : RateTable) (targets : List Text) (rates : Text → Option JsonValue)
    (rateDate : Date) : Prop :=
  ∃ tally table', applyRates table targets rates rateDate = (.ok tally, table') ∧
    tally.recorded.Perm targets ∧
    tally.inserted.length + tally.skipped.length + tally.missing.length + tally.failed.length =
      targets.length ∧
    (targets.Nodup → ∀ target ∈ targets, ∀ (targets' : List Text) (rates' : Text → Option JsonValue)
      (tally' : Tally) (table'' : RateTable), targets'.Nodup → target ∈ targets' →
        rates' target = rates target →
          applyRates table targets' rates' rateDate = (.ok tally', table'') →
            tally.only target = tally'.only target)

theorem isolated_iff (table : RateTable) (targets : List Text) (rates : Text → Option JsonValue)
    (rateDate : Date) :
    Isolated table targets rates rateDate ↔
      ∀ target ∈ targets, ∀ value, rates target = some value →
        ¬Aborts table target rateDate value := by
  rw [← applyRates_returns_iff]
  constructor
  · rintro ⟨tally, table', h, -⟩
    exact ⟨tally, table', h⟩
  · rintro ⟨tally, table', h⟩
    have hperm : tally.recorded.Perm targets := applyRatesFrom_recorded h
    refine ⟨tally, table', h, hperm, ?_, ?_⟩
    · rw [← hperm.length_eq, Tally.recorded, List.length_append, List.length_append,
        List.length_append, List.length_map]
    · intro hnodup target hmem targets' rates' tally' table'' hnodup' hmem' hrates h'
      rw [applyRatesFrom_only hnodup h, applyRatesFrom_only hnodup' h', if_pos hmem, if_pos hmem',
        hrates]

end

/-! ## A null -/

namespace Ascii

/-- The euro is a null, the sol a number. -/
def halfNull (code : Text) : Option JsonValue :=
  if code = "EUR".toList then some .null
  else if code = "PEN".toList then some (.decimal (339 / 100))
  else none

end Ascii

open Ascii in
/-- The sol is in none of the lists. -/
theorem null_ends_loop :
    (applyRates [] ["EUR".toList, "PEN".toList] halfNull 20000).1 = .error .typeError ∧
      ¬Isolated [] ["EUR".toList, "PEN".toList] halfNull 20000 := by
  have hraised : (applyRates [] ["EUR".toList, "PEN".toList] halfNull 20000).1 =
      .error .typeError := by
    decide +kernel
  refine ⟨hraised, ?_⟩
  rintro ⟨tally, table', h, -⟩
  rw [h] at hraised
  cases hraised

end ExpenseEngine
