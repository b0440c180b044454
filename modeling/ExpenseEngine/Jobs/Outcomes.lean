import ExpenseEngine.Jobs.RateJobs

/-!
# The outcomes of a call

What `_upsert_rate` decides, one check after the other: which rate it stores, and
which exceptions it raises.

Results:
1. `checkMove_ok_iff`, `checkRate_ok_iff`: which rates the checks let pass.
2. `checkMove_escapes_iff`, `checkRate_escapes_iff`: which ones raise something
   that is no `ValueError`.
3. `upsertRate_ok_iff`: the table after a call.
-/

namespace ExpenseEngine

open Num Sql

/-- The exception is no `ValueError`. -/
def Raised.Escapes (raised : Raised) : Prop := ∀ reason, raised ≠ .valueError reason

namespace RateJobLemmas

variable {table table' : RateTable} {target : Text} {rateDate : Date} {rate : Number}
  {baseline : StoredRate}

theorem trap_error {α : Type} {result : Except Signal α} {raised : Raised}
    (h : trap result = .error raised) :
    ∃ signal, result = .error signal ∧ raised = .arithmetic signal := by
  cases result with
  | ok a => cases h
  | error signal =>
    cases h
    exact ⟨signal, rfl, rfl⟩

theorem escapes_arithmetic (signal : Signal) : (Raised.arithmetic signal).Escapes := by
  intro reason h
  cases h

theorem bind_trap_ok {α β : Type} {result : Except Signal α} {a : α} {f : α → Except Raised β}
    (h : result = .ok a) : (trap result >>= f) = f a := by
  rw [h]
  rfl

theorem bind_trap_error {α β : Type} {result : Except Signal α} {signal : Signal}
    {f : α → Except Raised β} (h : result = .error signal) :
    (trap result >>= f) = .error (.arithmetic signal) := by
  rw [h]
  rfl

/-- The check raises what the quotient or its comparison signals. -/
theorem checkMove_escapes_iff :
    (∃ raised, checkMove target rateDate rate baseline = .error raised ∧ raised.Escapes) ↔
      ∃ signal, (moveOf rate baseline.rate >>= fun m => m.le (.finite maxRateMoveFraction)) =
        .error signal := by
  unfold checkMove
  cases hmove : moveOf rate baseline.rate with
  | error signal =>
    rw [bind_trap_error rfl]
    exact iff_of_true ⟨_, rfl, escapes_arithmetic signal⟩ ⟨signal, rfl⟩
  | ok move =>
    rw [bind_trap_ok rfl]
    cases hle : move.le (.finite maxRateMoveFraction) with
    | error signal =>
      rw [bind_trap_error rfl]
      exact iff_of_true ⟨_, rfl, escapes_arithmetic signal⟩ ⟨signal, hle⟩
    | ok within =>
      rw [bind_trap_ok rfl]
      refine iff_of_false ?_ ?_
      · rintro ⟨raised, h, hescapes⟩
        cases within
        · cases h
          exact hescapes _ rfl
        · cases h
      · rintro ⟨signal, h⟩
        cases hle.symm.trans h

theorem checkMove_ok_iff :
    checkMove target rateDate rate baseline = .ok () ↔
      ∃ move, moveOf rate baseline.rate = .ok move ∧
        move.le (.finite maxRateMoveFraction) = .ok true := by
  unfold checkMove
  cases hmove : moveOf rate baseline.rate with
  | error signal =>
    rw [bind_trap_error rfl]
    refine iff_of_false (by simp) ?_
    rintro ⟨move, h, -⟩
    cases h
  | ok move =>
    rw [bind_trap_ok rfl]
    cases hle : move.le (.finite maxRateMoveFraction) with
    | error signal =>
      rw [bind_trap_error rfl]
      refine iff_of_false (by simp) ?_
      rintro ⟨m, hm, h⟩
      cases hm
      cases hle.symm.trans h
    | ok within =>
      rw [bind_trap_ok rfl]
      cases within with
      | true => exact iff_of_true rfl ⟨move, rfl, hle⟩
      | false =>
        refine iff_of_false ?_ ?_
        · intro h
          cases h
        · rintro ⟨m, hm, h⟩
          cases hm
          cases hle.symm.trans h

/-- What follows the comparison with zero. -/
theorem checkRate_of_positive (h : rate.Positive) :
    checkRate table target rateDate rate =
      baselineRate table target rateDate >>= fun o =>
        o.elim (.ok ()) (checkMove target rateDate rate) := by
  rw [checkRate, bind_trap_ok (Number.le_zero_eq_false_iff.mpr h)]
  cases baselineRate table target rateDate with
  | error raised => rfl
  | ok o => cases o <;> rfl

variable (table target rateDate) in
/-- A rate that is not positive is refused, or it is NaN. -/
theorem checkRate_of_not_positive (h : ¬rate.Positive) :
    checkRate table target rateDate rate =
        .error (.valueError (.nonPositive target rateDate rate)) ∨
      (∃ signaling, rate = .nan signaling) ∧
        checkRate table target rateDate rate = .error (.arithmetic .invalidOperation) := by
  cases hle : rate.le (.finite 0) with
  | error signal =>
    refine .inr ?_
    cases rate with
    | nan signaling =>
      cases hle
      exact ⟨⟨signaling, rfl⟩, rfl⟩
    | finite q => cases hle
    | infinity negative => cases hle
  | ok below =>
    cases below with
    | false => exact absurd (Number.le_zero_eq_false_iff.mp hle) h
    | true =>
      rw [checkRate, bind_trap_ok hle]
      exact .inl rfl

theorem checkRate_ok_iff :
    checkRate table target rateDate rate = .ok () ↔
      rate.Positive ∧ ∃ o, baselineRate table target rateDate = .ok o ∧
        ∀ baseline ∈ o, checkMove target rateDate rate baseline = .ok () := by
  by_cases hpositive : rate.Positive
  · rw [checkRate_of_positive hpositive, and_iff_right hpositive]
    cases hbase : baselineRate table target rateDate with
    | error raised =>
      refine iff_of_false (fun h => by cases h) ?_
      rintro ⟨o, h, -⟩
      cases h
    | ok o =>
      cases o with
      | none => exact iff_of_true rfl ⟨none, rfl, by simp⟩
      | some baseline =>
        refine ⟨fun h => ⟨some baseline, rfl, fun b hb => ?_⟩, ?_⟩
        · cases hb
          exact h
        · rintro ⟨o, ho, h⟩
          cases ho
          exact h baseline rfl
  · refine iff_of_false (fun h => ?_) fun h => hpositive h.1
    rcases checkRate_of_not_positive table target rateDate hpositive with he | ⟨-, he⟩
    all_goals cases h.symm.trans he

theorem checkRate_escapes_iff :
    (∃ raised, checkRate table target rateDate rate = .error raised ∧ raised.Escapes) ↔
      (∃ signaling, rate = .nan signaling) ∨
        rate.Positive ∧ (rateDate - maxBaselineGapDays < dateMin ∨
          ∃ baseline, baselineRate table target rateDate = .ok (some baseline) ∧
            ∃ signal, (moveOf rate baseline.rate >>=
              fun m => m.le (.finite maxRateMoveFraction)) = .error signal) := by
  by_cases hpositive : rate.Positive
  · have hnan : ¬∃ signaling, rate = .nan signaling := by
      rintro ⟨signaling, rfl⟩
      exact hpositive
    rw [checkRate_of_positive hpositive, or_iff_right hnan, and_iff_right hpositive]
    unfold baselineRate
    split
    · next hearly => exact iff_of_true ⟨_, rfl, by simp [Raised.Escapes]⟩ (.inl hearly)
    · next hlate =>
      rw [or_iff_right hlate]
      cases hlatest :
        latestBy StoredRate.rateDate (table.filter (inBaselineWindow target rateDate)) with
      | none =>
        refine iff_of_false ?_ ?_
        · rintro ⟨raised, h, -⟩
          cases h
        · rintro ⟨baseline, h, -⟩
          cases h
      | some baseline =>
        refine checkMove_escapes_iff.trans ⟨fun h => ⟨baseline, rfl, h⟩, ?_⟩
        rintro ⟨b, hb, h⟩
        cases hb
        exact h
  · rw [or_iff_left fun h => hpositive h.1]
    rcases checkRate_of_not_positive table target rateDate hpositive with he | ⟨hnan, he⟩
    · refine iff_of_false ?_ ?_
      · rintro ⟨raised, h, hescapes⟩
        cases he.symm.trans h
        exact hescapes _ rfl
      · rintro ⟨signaling, rfl⟩
        cases he
    · exact iff_of_true ⟨_, he, escapes_arithmetic _⟩ hnan

section Upsert

variable [RateStore]

/-- A call that returns has passed the checks; it writes if the day was free. -/
theorem upsertRate_ok_iff {written : Bool} :
    upsertRate table target rateDate rate = .ok (written, table') ↔
      checkRate table target rateDate rate = .ok () ∧
        RateStore.reject target rateDate rate = none ∧
          ((written = false ∧ taken table target rateDate = true ∧ table' = table) ∨
            written = true ∧ taken table target rateDate = false ∧
              table' = ⟨target, rateDate, rate⟩ :: table) := by
  unfold upsertRate
  cases hcheck : checkRate table target rateDate rate with
  | error raised =>
    refine iff_of_false (fun h => by cases h) ?_
    rintro ⟨h, -⟩
    cases h
  | ok u =>
    cases hreject : RateStore.reject target rateDate rate with
    | some raised =>
      refine iff_of_false (fun h => by cases h) ?_
      rintro ⟨-, h, -⟩
      cases h
    | none =>
      cases htaken : taken table target rateDate with
      | true =>
        constructor
        · intro h
          cases h
          exact ⟨rfl, rfl, .inl ⟨rfl, rfl, rfl⟩⟩
        · rintro ⟨-, -, ⟨rfl, -, rfl⟩ | ⟨-, h, -⟩⟩
          · rfl
          · cases h
      | false =>
        constructor
        · intro h
          cases h
          exact ⟨rfl, rfl, .inr ⟨rfl, rfl, rfl⟩⟩
        · rintro ⟨-, -, ⟨-, h, -⟩ | ⟨rfl, -, rfl⟩⟩
          · cases h
          · rfl

theorem upsertRate_escapes_iff :
    (∃ raised, upsertRate table target rateDate rate = .error raised ∧ raised.Escapes) ↔
      (∃ raised, checkRate table target rateDate rate = .error raised ∧ raised.Escapes) ∨
        checkRate table target rateDate rate = .ok () ∧
          ∃ raised, RateStore.reject target rateDate rate = some raised ∧ raised.Escapes := by
  unfold upsertRate
  cases hcheck : checkRate table target rateDate rate with
  | error raised =>
    refine ⟨?_, ?_⟩
    · rintro ⟨raised', h, hescapes⟩
      cases h
      exact .inl ⟨_, rfl, hescapes⟩
    · rintro (⟨raised', h, hescapes⟩ | ⟨h, -⟩)
      · cases h
        exact ⟨_, rfl, hescapes⟩
      · cases h
  | ok u =>
    cases hreject : RateStore.reject target rateDate rate with
    | some raised =>
      refine ⟨?_, ?_⟩
      · rintro ⟨raised', h, hescapes⟩
        cases h
        exact .inr ⟨rfl, _, rfl, hescapes⟩
      · rintro (⟨raised', h, -⟩ | ⟨-, raised', h, hescapes⟩)
        · cases h
        · cases h
          exact ⟨_, rfl, hescapes⟩
    | none =>
      refine iff_of_false ?_ ?_
      · rintro ⟨raised, h, -⟩
        cases htaken : taken table target rateDate <;> rw [htaken] at h <;> cases h
      · rintro (⟨raised, h, -⟩ | ⟨-, raised, h, -⟩) <;> cases h

end Upsert

end RateJobLemmas

end ExpenseEngine
