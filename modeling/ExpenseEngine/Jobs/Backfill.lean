import Mathlib.Data.List.Dedup
import Mathlib.Data.List.Sort
import ExpenseEngine.Api
import ExpenseEngine.Jobs.Isolation
import ExpenseEngine.Jobs.Plausibility

/-!
# The runs of the rate jobs

The daily job stores what the provider has for today, the backfill what it has
for each day of a range, in the order the fetches come in. The exit code is all
that a scheduler sees of a run.

Results:
1. `backfill_complete`: exit code 0 means that no day was left out.
2. `backfill_again`: after it there is nothing left to store.
3. `jobs_append`: what any runs, ended or aborted, do to the table.
4. `daily_complete`: exit code 0 of the daily job, for today.
-/

namespace ExpenseEngine

open Num Sql

/-! ## The targets -/

/-- `sorted({…})` of the currencies in active use, but for the base currency. -/
def fetchTargetCurrencies [Platform] (db : Db) : List Text :=
  let accounts := ((db.rows .bankAccounts).filter fun a =>
    decide (a.deletedAt = none ∧ a.isArchived = false ∧ a.currencyCode ≠ baseCurrency)).map
      fun a => a.currencyCode
  let settings := ((db.rows .userSettings).filter fun s =>
    decide (s.mainCurrency ≠ baseCurrency)).map fun s => s.mainCurrency
  (accounts ++ settings).dedup.insertionSort (· ≤ ·)

/-! ## Fetching a date -/

/-- The rates of a payload, by upper-case code. -/
abbrev Payload := Text → Option JsonValue

/-- How one call of `_fetch_currency_api` ends. The last kind is an exception
that the caller does not name. -/
inductive Attempt where
  | payload (rates : Payload)
  | http (code : Nat)
  | transient
  | other

inductive FetchError where
  | http (code : Nat)
  | transient
  | other
  deriving DecidableEq

def fetchAttempts : Nat := 3

/-- The attempts that are left, after the last error. A 404 is final. -/
def fetchFrom (api : Nat → Attempt) : List Nat → FetchError → Except FetchError Payload
  | [], last => .error last
  | attempt :: attempts, _ =>
    match api attempt with
    | .payload rates => .ok rates
    | .http code =>
      if code = 404 then .error (.http code) else fetchFrom api attempts (.http code)
    | .transient => fetchFrom api attempts .transient
    | .other => .error .other

def fetchOneDate (api : Nat → Attempt) : Except FetchError Payload :=
  fetchFrom api (List.range' 1 fetchAttempts) .other

/-! ## The backfill -/

def providerFloor : Date := Time.dayNumber 2024 3 2

/-- The lists of a run, and how many rows it wrote. -/
structure Report where
  inserted : Nat
  missingTarget : List (Date × Text)
  gaps : List Date
  failed : List (Date × (FetchError ⊕ Refusal))
  deriving DecidableEq

def Report.empty : Report := ⟨0, [], [], []⟩

/-- The run ends with exit code 0. -/
def Report.Clean (report : Report) : Prop := report.missingTarget = [] ∧ report.failed = []

/-- `start .. end`, both included. -/
def allDays (first last : Date) : List Date :=
  (List.range (last - first + 1).toNat).map fun offset : Nat => first + offset

/-- `HAVING count(DISTINCT target_currency) = len(targets)` -/
def isDone (table : RateTable) (targets : List Text) (day : Date) : Bool :=
  let rows := table.filter fun row => targets.contains row.target && decide (row.rateDate = day)
  let present := rows.map StoredRate.target
  decide (present ≠ [] ∧ present.dedup.length = targets.length)

section

variable [RateStore]

/-- One fetch that has come in. -/
def recordDay (targets : List Text) (fetched : Except FetchError Payload) (day : Date)
    (report : Report) (table : RateTable) : Except Raised Report × RateTable :=
  match fetched with
  | .error error =>
    if error = .http 404 then (.ok { report with gaps := report.gaps ++ [day] }, table)
    else (.ok { report with failed := report.failed ++ [(day, .inl error)] }, table)
  | .ok rates =>
    match applyRates table targets rates day with
    | (.ok tally, table') =>
      (.ok { report with
        inserted := report.inserted + tally.inserted.length
        missingTarget := report.missingTarget ++ tally.missing.map fun target => (day, target)
        failed := report.failed ++ tally.failed.map fun p => (day, .inr p.2) }, table')
    | (.error raised, table') => (.error raised, table')

/-- The loop over `asyncio.as_completed`. -/
def recordDays (targets : List Text) (fetched : Date → Except FetchError Payload) :
    List Date → Report → RateTable → Except Raised Report × RateTable
  | [], report, table => (.ok report, table)
  | day :: days, report, table =>
    match recordDay targets (fetched day) day report table with
    | (.ok report', table') => recordDays targets fetched days report' table'
    | (.error raised, table') => (.error raised, table')

/-- The order in which the fetches of some days come in. -/
structure FetchOrder where
  order : List Date → List Date
  perm : ∀ days, (order days).Perm days

/-- `currencies or await _fetch_target_currencies(conn)` -/
def backfillTargets (currencies : Option (List Text)) (active : List Text) : List Text :=
  if currencies.getD [] = [] then active else currencies.getD []

/-- The days that the run fetches. -/
def daysToFetch (table : RateTable) (targets : List Text) (first last : Date) : List Date :=
  (allDays first last).filter fun day => !isDone table targets day

/-- `run` of the backfill: its exit code, or the exception that ends it. -/
def runBackfill (connected : Bool) (active : List Text) (api : Date → Nat → Attempt)
    (arrival : FetchOrder) (first last : Date) (currencies : Option (List Text))
    (table : RateTable) : Except Raised Nat × RateTable :=
  if first < providerFloor then (.ok 2, table)
  else if last < first then (.ok 2, table)
  else if !connected then (.ok 1, table)
  else
    let targets := backfillTargets currencies active
    let todo := daysToFetch table targets first last
    if targets = [] then (.ok 0, table)
    else if todo = [] then (.ok 0, table)
    else
      match recordDays targets (fun day => fetchOneDate (api day)) (arrival.order todo) .empty
        table with
      | (.ok report, table') =>
        (.ok (if report.failed ≠ [] ∨ report.missingTarget ≠ [] then 2 else 0), table')
      | (.error raised, table') => (.error raised, table')

/-! ## The daily job -/

/-- What `_fetch_currency_api` has for `latest`: the payload with its date, if
that is one, an error that the job reports, or an exception that ends it. -/
inductive Latest where
  | payload (date : Option Date) (rates : Payload)
  | unavailable
  | crash (error : FetchError)

/-- `run` of the daily fetch. -/
def runDaily (connected : Bool) (active : List Text) (latest : Latest) (table : RateTable) :
    Except (FetchError ⊕ Raised) Nat × RateTable :=
  if !connected then (.ok 1, table)
  else if active = [] then (.ok 0, table)
  else
    match latest with
    | .crash error => (.error (.inl error), table)
    | .unavailable | .payload none _ => (.ok 2, table)
    | .payload (some day) rates =>
      match applyRates table active rates day with
      | (.ok tally, table') =>
        (.ok (if tally.missing ≠ [] ∨ tally.failed ≠ [] then 2 else 0), table')
      | (.error raised, table') => (.error (.inr raised), table')

/-! ## What a run appends -/

/-- Rows come in front of those that are there, each a value that the provider
has for its day and target; a day keeps one row for each target. -/
structure AppendsTo (source : Date → Text → JsonValue → Prop) (table table' : RateTable) :
    Prop where
  grown : ∃ rows, table' = rows ++ table ∧ ∀ row ∈ rows, ∃ value,
    source row.rateDate row.target value ∧ decimalOf value = .ok row.rate
  sound : RatesSound table → RatesSound table'

/-- What the fetches of some days have for the targets. -/
def Provided (targets : List Text) (fetched : Date → Except FetchError Payload)
    (days : List Date) (day : Date) (target : Text) (value : JsonValue) : Prop :=
  day ∈ days ∧ target ∈ targets ∧ ∃ rates, fetched day = .ok rates ∧ rates target = some value

section

variable {source source' : Date → Text → JsonValue → Prop} {table table' table'' : RateTable}
  {targets : List Text} {target : Text} {day : Date} {rates : Payload} {tally tally' : Tally}

omit [RateStore] in
theorem taken_iff : taken table target day = true ↔
    ∃ row ∈ table, row.target = target ∧ row.rateDate = day := by
  simp [taken]

namespace AppendsTo

theorem refl (table : RateTable) : AppendsTo source table table := ⟨⟨[], rfl, by simp⟩, id⟩

theorem trans (h : AppendsTo source table table') (h' : AppendsTo source table' table'') :
    AppendsTo source table table'' := by
  obtain ⟨rows, rfl, hrows⟩ := h.grown
  obtain ⟨rows', rfl, hrows'⟩ := h'.grown
  refine ⟨⟨rows' ++ rows, (List.append_assoc _ _ _).symm, fun row hrow => ?_⟩,
    fun hsound => h'.sound (h.sound hsound)⟩
  exact (List.mem_append.mp hrow).elim (hrows' row) (hrows row)

theorem mono (h : AppendsTo source table table')
    (hsource : ∀ day target value, source day target value → source' day target value) :
    AppendsTo source' table table' := by
  obtain ⟨rows, htable, hrows⟩ := h.grown
  refine ⟨⟨rows, htable, fun row hrow => ?_⟩, h.sound⟩
  obtain ⟨value, hvalue, hrate⟩ := hrows row hrow
  exact ⟨value, hsource _ _ _ hvalue, hrate⟩

theorem taken (h : AppendsTo source table table')
    (htaken : ExpenseEngine.taken table target day = true) :
    ExpenseEngine.taken table' target day = true := by
  obtain ⟨rows, rfl, -⟩ := h.grown
  obtain ⟨row, hrow, hsame⟩ := taken_iff.mp htaken
  exact taken_iff.mpr ⟨row, List.mem_append_right _ hrow, hsame⟩

end AppendsTo

namespace BackfillLemmas

open RateJobLemmas IsolationLemmas

/-- One target of the loop. -/
theorem attempt_ok {value : JsonValue} {written : Bool} (hsource : source day target value)
    (h : attempt table target day value = .ok (written, table')) :
    AppendsTo source table table' ∧ taken table' target day = true := by
  cases hvalue : decimalOf value with
  | error raised =>
    rw [attempt, hvalue] at h
    cases h
  | ok rate =>
    rw [attempt, hvalue] at h
    obtain ⟨hcheck, -, ⟨-, htaken, rfl⟩ | ⟨-, hfree, rfl⟩⟩ := upsertRate_ok_iff.mp h
    · exact ⟨.refl _, htaken⟩
    · have hnew : ∀ row ∈ table, row.target = target → row.rateDate = day → False := by
        intro row hrow htarget hday
        rw [taken_iff.mpr ⟨row, hrow, htarget, hday⟩] at hfree
        cases hfree
      refine ⟨⟨⟨[⟨target, day, rate⟩], rfl, ?_⟩, fun hsound => ⟨?_, ?_⟩⟩,
        taken_iff.mpr ⟨_, List.mem_cons_self, rfl, rfl⟩⟩
      · intro row hrow
        rw [List.mem_singleton.mp hrow]
        exact ⟨value, hsource, hvalue⟩
      · intro row hrow
        rcases List.mem_cons.mp hrow with rfl | hrow
        · exact (checkRate_ok_iff.mp hcheck).1
        · exact hsound.positive row hrow
      · intro r hr s hs htarget hday
        rcases List.mem_cons.mp hr with rfl | hr
        · rcases List.mem_cons.mp hs with rfl | hs
          · rfl
          · exact (hnew s hs htarget.symm hday.symm).elim
        · rcases List.mem_cons.mp hs with rfl | hs
          · exact (hnew r hr htarget hday).elim
          · exact hsound.single r hr s hs htarget hday

theorem tableAfter_appends {o : Option JsonValue}
    (hsource : ∀ value, o = some value → source day target value) :
    AppendsTo source table (tableAfter table target day o) := by
  cases o with
  | none => exact .refl _
  | some value =>
    cases h : attempt table target day value with
    | error raised =>
      simp only [tableAfter, h]
      exact .refl _
    | ok result =>
      simp only [tableAfter, h]
      exact (attempt_ok (hsource value rfl) h).1

/-- The loop over the targets, ended or aborted. -/
theorem applyRatesFrom_appends (hsource : ∀ target ∈ targets, ∀ value, rates target = some value →
    source day target value) :
    AppendsTo source table (applyRatesFrom rates day targets tally table).2 := by
  induction targets generalizing tally table with
  | nil => exact .refl _
  | cons target targets ih =>
    by_cases h : ∀ value, rates target = some value → ¬Aborts table target day value
    · rw [applyRatesFrom_cons h]
      refine AppendsTo.trans (tableAfter_appends (hsource target List.mem_cons_self)) (ih ?_)
      exact fun t ht => hsource t (List.mem_cons_of_mem _ ht)
    · simp only [not_forall, not_not] at h
      obtain ⟨value, hvalue, haborts⟩ := h
      obtain ⟨raised, heq⟩ : ∃ raised, applyRatesFrom rates day (target :: targets) tally table =
          (.error raised, table) := applyRatesFrom_abort hvalue haborts
      rw [heq]
      exact .refl _

/-- A target that is counted as inserted or skipped has its row. -/
theorem stored_of_verdict (h : verdictOf table target day (rates target) = .inserted ∨
    verdictOf table target day (rates target) = .skipped) :
    taken (tableAfter table target day (rates target)) target day = true := by
  cases hvalue : rates target with
  | none =>
    rw [hvalue] at h
    rcases h with h | h <;> cases h
  | some value =>
    rw [hvalue] at h
    cases hattempt : attempt table target day value with
    | ok result =>
      have hstored : AppendsTo (fun _ _ v => v = value) table result.2 ∧
          taken result.2 target day = true := attempt_ok rfl hattempt
      simp only [tableAfter, hattempt]
      exact hstored.2
    | error raised =>
      simp only [verdictOf, hattempt] at h
      cases raised <;> rcases h with h | h <;> cases h

theorem applyRatesFrom_stored
    (h : applyRatesFrom rates day targets tally table = (.ok tally', table')) :
    ∀ target ∈ tally'.inserted ++ tally'.skipped,
      target ∈ tally.inserted ++ tally.skipped ∨ taken table' target day = true := by
  induction targets generalizing tally table with
  | nil =>
    rw [applyRatesFrom] at h
    cases h
    exact fun _ => .inl
  | cons other targets ih =>
    have hcaught : ∀ value, rates other = some value → ¬Aborts table other day value :=
      applyRatesFrom_returns_iff.mp ⟨tally', table', h⟩ other List.mem_cons_self
    rw [applyRatesFrom_cons hcaught] at h
    have happends : AppendsTo (fun _ t v => rates t = some v)
        (tableAfter table other day (rates other))
        (applyRatesFrom rates day targets
          (tally.add other (verdictOf table other day (rates other)))
            (tableAfter table other day (rates other))).2 :=
      applyRatesFrom_appends fun _ _ _ => id
    rw [h] at happends
    intro target htarget
    rcases ih h target htarget with hmem | hstored
    · have hother : target ∈ tally.inserted ++ tally.skipped ∨ target = other ∧
          (verdictOf table other day (rates other) = .inserted ∨
            verdictOf table other day (rates other) = .skipped) := by
        cases hverdict : verdictOf table other day (rates other) <;> rw [hverdict] at hmem <;>
          simp only [Tally.add, List.mem_append, List.mem_singleton] at hmem ⊢ <;> tauto
      refine hother.imp_right ?_
      rintro ⟨rfl, hverdict⟩
      exact happends.taken (stored_of_verdict hverdict)
    · exact .inr hstored

/-! ### The days -/

variable {fetched : Date → Except FetchError Payload} {days : List Date}
  {report report' : Report}

theorem recordDay_appends (hday : day ∈ days) : AppendsTo (Provided targets fetched days) table
    (recordDay targets (fetched day) day report table).2 := by
  unfold recordDay
  cases hfetched : fetched day with
  | error error =>
    dsimp only
    split <;> exact .refl _
  | ok rates =>
    have happends : AppendsTo (Provided targets fetched days) table
        (applyRates table targets rates day).2 :=
      applyRatesFrom_appends fun target htarget value hvalue =>
        ⟨hday, htarget, rates, hfetched, hvalue⟩
    dsimp only
    cases h : applyRates table targets rates day with
    | mk result table' =>
      rw [h] at happends
      cases result <;> exact happends

theorem recordDays_appends {todo : List Date} (htodo : ∀ day ∈ todo, day ∈ days) :
    AppendsTo (Provided targets fetched days) table
      (recordDays targets fetched todo report table).2 := by
  induction todo generalizing report table with
  | nil => exact .refl _
  | cons day todo ih =>
    obtain ⟨hday, hrest⟩ := List.forall_mem_cons.mp htodo
    have happends : AppendsTo (Provided targets fetched days) table
        (recordDay targets (fetched day) day report table).2 := recordDay_appends hday
    rw [recordDays]
    cases h : recordDay targets (fetched day) day report table with
    | mk result table' =>
      rw [h] at happends
      cases result with
      | ok report' => exact happends.trans (ih hrest)
      | error raised => exact happends

/-- A day that adds no failure is a gap, or has all its rows. -/
theorem recordDay_clean
    (h : recordDay targets (fetched day) day report table = (.ok report', table'))
    (hclean : report'.Clean) : report.Clean ∧
      (fetched day = .error (.http 404) ∨ ∀ target ∈ targets, taken table' target day = true) := by
  unfold recordDay at h
  cases hfetched : fetched day with
  | error error =>
    rw [hfetched] at h
    dsimp only at h
    split at h
    · next heq =>
      cases h
      exact ⟨hclean, .inl (congrArg _ heq)⟩
    · cases h
      exact absurd hclean.2 (by simp)
  | ok rates =>
    rw [hfetched] at h
    dsimp only at h
    split at h
    · next tally _ hrates =>
      cases h
      obtain ⟨hmissing, hfailed⟩ := hclean
      simp only [List.append_eq_nil_iff, List.map_eq_nil_iff] at hmissing hfailed
      refine ⟨⟨hmissing.1, hfailed.1⟩, .inr fun target htarget => ?_⟩
      -- the target is recorded, and neither as missing nor as failed
      have hmem := (applyRatesFrom_recorded hrates).symm.subset (List.mem_append_right _ htarget)
      rw [Tally.recorded, hmissing.2, hfailed.2, List.append_nil, List.map_nil,
        List.append_nil] at hmem
      rcases applyRatesFrom_stored hrates target hmem with hnil | hstored
      · cases hnil
      · exact hstored
    · cases h

theorem recordDays_clean
    (h : recordDays targets fetched days report table = (.ok report', table'))
    (hclean : report'.Clean) : report.Clean ∧ ∀ day ∈ days,
      fetched day = .error (.http 404) ∨ ∀ target ∈ targets, taken table' target day = true := by
  induction days generalizing report table with
  | nil =>
    rw [recordDays] at h
    cases h
    exact ⟨hclean, by simp⟩
  | cons day days ih =>
    rw [recordDays] at h
    split at h
    · next report₁ table₁ hday =>
      obtain ⟨hclean₁, hrest⟩ := ih h
      obtain ⟨hclean₀, hstored⟩ := recordDay_clean hday hclean₁
      have happends : AppendsTo (Provided targets fetched days) table₁
          (recordDays targets fetched days report₁ table₁).2 := recordDays_appends fun _ => id
      rw [h] at happends
      refine ⟨hclean₀, List.forall_mem_cons.mpr ⟨?_, hrest⟩⟩
      exact hstored.imp_right fun hall target htarget => happends.taken (hall target htarget)
    · cases h

/-- Days without data leave the table and the failures as they are. -/
theorem recordDays_gaps (hgaps : ∀ day ∈ days, fetched day = .error (.http 404)) :
    ∃ report', recordDays targets fetched days report table = (.ok report', table) ∧
      (report.Clean → report'.Clean) := by
  induction days generalizing report with
  | nil => exact ⟨report, rfl, id⟩
  | cons day days ih =>
    obtain ⟨hday, hrest⟩ := List.forall_mem_cons.mp hgaps
    have hlater : ∃ report', recordDays targets fetched days
        { report with gaps := report.gaps ++ [day] } table = (.ok report', table) ∧
          (Report.Clean { report with gaps := report.gaps ++ [day] } → report'.Clean) := ih hrest
    obtain ⟨report', h, hclean⟩ := hlater
    refine ⟨report', ?_, hclean⟩
    simp only [recordDays, recordDay, hday, if_pos]
    exact h

/-! ### The days to fetch -/

omit [RateStore] in
theorem mem_allDays {first last day : Int} :
    day ∈ allDays first last ↔ first ≤ day ∧ day ≤ last := by
  simp only [allDays, List.mem_map, List.mem_range]
  constructor
  · rintro ⟨offset, hlt, rfl⟩
    omega
  · rintro ⟨hfirst, hlast⟩
    refine ⟨(day - first).toNat, by omega, ?_⟩
    rw [Int.toNat_of_nonneg (Int.sub_nonneg.mpr hfirst)]
    exact add_sub_cancel first day

/-- The targets that have a row of the day. -/
def presentOn (table : RateTable) (targets : List Text) (day : Date) : List Text :=
  ((table.filter fun row => targets.contains row.target && decide (row.rateDate = day)).map
    StoredRate.target).dedup

omit [RateStore] in
theorem mem_presentOn : target ∈ presentOn table targets day ↔
    target ∈ targets ∧ taken table target day = true := by
  rw [presentOn, List.mem_dedup, List.mem_map, taken_iff]
  simp only [List.mem_filter, Bool.and_eq_true, List.contains_iff_mem, decide_eq_true_eq]
  constructor
  · rintro ⟨row, ⟨hrow, hmem, hday⟩, rfl⟩
    exact ⟨hmem, row, hrow, rfl, hday⟩
  · rintro ⟨hmem, row, hrow, rfl, hday⟩
    exact ⟨row, ⟨hrow, hmem, hday⟩, rfl⟩

omit [RateStore] in
/-- Counting is enough: as many distinct targets as asked for are all of them. -/
theorem taken_of_isDone (h : isDone table targets day = true) :
    ∀ target ∈ targets, taken table target day = true := by
  obtain ⟨-, hlength⟩ := of_decide_eq_true h
  have hsub : (presentOn table targets day).Subperm targets :=
    List.subperm_of_subset (List.nodup_dedup _) fun _ ht => (mem_presentOn.mp ht).1
  have hperm : (presentOn table targets day).Perm targets :=
    hsub.perm_of_length_le hlength.ge
  exact fun target htarget => (mem_presentOn.mp (hperm.symm.subset htarget)).2

omit [RateStore] in
theorem isDone_of_taken (hnodup : targets.Nodup) (hne : targets ≠ [])
    (h : ∀ target ∈ targets, taken table target day = true) :
    isDone table targets day = true := by
  have hperm : (presentOn table targets day).Perm targets :=
    (List.perm_ext_iff_of_nodup (List.nodup_dedup _) hnodup).mpr fun target =>
      ⟨fun ht => (mem_presentOn.mp ht).1, fun ht => mem_presentOn.mpr ⟨ht, h target ht⟩⟩
  refine decide_eq_true ⟨fun hnil => hne ?_, hperm.length_eq⟩
  have hempty : presentOn table targets day = [] := by
    rw [presentOn, hnil]
    rfl
  exact List.nil_perm.mp (hempty ▸ hperm)

end BackfillLemmas

end

open BackfillLemmas

/-! ## The backfill -/

section

variable {connected : Bool} {active : List Text} {api api' : Date → Nat → Attempt}
  {arrival arrival' : FetchOrder} {first last : Date} {currencies : Option (List Text)}
  {table table' : RateTable}

namespace BackfillLemmas

/-- The fetches of the run, in the order they come in. -/
def fetchedBy (active : List Text) (api : Date → Nat → Attempt) (arrival : FetchOrder)
    (first last : Date) (currencies : Option (List Text)) (table : RateTable) :
    Except Raised Report × RateTable :=
  recordDays (backfillTargets currencies active) (fun day => fetchOneDate (api day))
    (arrival.order (daysToFetch table (backfillTargets currencies active) first last)) .empty table

theorem runBackfill_table :
    (runBackfill connected active api arrival first last currencies table).2 = table ∨
      (runBackfill connected active api arrival first last currencies table).2 =
        (fetchedBy active api arrival first last currencies table).2 := by
  rw [fetchedBy]
  unfold runBackfill
  split
  · exact .inl rfl
  split
  · exact .inl rfl
  split
  · exact .inl rfl
  dsimp only
  split
  · exact .inl rfl
  split
  · exact .inl rfl
  · split <;> next h => exact .inr (congrArg Prod.snd h).symm

/-- What exit code 0 says of a run. -/
theorem runBackfill_zero
    (h : runBackfill connected active api arrival first last currencies table = (.ok 0, table')) :
    providerFloor ≤ first ∧ first ≤ last ∧ connected = true ∧
      ((backfillTargets currencies active = [] ∧ table' = table) ∨
        (daysToFetch table (backfillTargets currencies active) first last = [] ∧ table' = table) ∨
          ∃ report, fetchedBy active api arrival first last currencies table =
            (.ok report, table') ∧ report.Clean) := by
  rw [fetchedBy]
  unfold runBackfill at h
  split at h
  · cases h
  next hfloor =>
  split at h
  · cases h
  next horder =>
  split at h
  · cases h
  next hconnected =>
  refine ⟨not_lt.mp hfloor, not_lt.mp horder, by simpa using hconnected, ?_⟩
  dsimp only at h
  split at h
  · next hnil =>
    cases h
    exact .inl ⟨hnil, rfl⟩
  split at h
  · next hnil =>
    cases h
    exact .inr (.inl ⟨hnil, rfl⟩)
  split at h
  · next report table'' hreport =>
    split at h
    · cases h
    next hclean =>
    cases h
    rw [not_or, not_not, not_not] at hclean
    exact .inr (.inr ⟨report, hreport, hclean.symm⟩)
  · cases h

omit [RateStore] in
theorem order_subset : ∀ day ∈ arrival.order (daysToFetch table (backfillTargets currencies active)
    first last), day ∈ allDays first last := by
  intro day hday
  exact List.mem_of_mem_filter ((arrival.perm _).subset hday)

theorem fetchedBy_appends : AppendsTo (Provided (backfillTargets currencies active)
      (fun day => fetchOneDate (api day)) (allDays first last)) table
    (fetchedBy active api arrival first last currencies table).2 :=
  recordDays_appends order_subset

/-- A day is stored before the run or by it, or it is a gap of the provider. -/
theorem settled_of_zero
    (h : runBackfill connected active api arrival first last currencies table = (.ok 0, table'))
    {day : Date} (hmem : day ∈ allDays first last) :
    fetchOneDate (api day) = .error (.http 404) ∨
      ∀ target ∈ backfillTargets currencies active, taken table' target day = true := by
  obtain ⟨-, -, -, ⟨hnil, -⟩ | ⟨hnil, rfl⟩ | ⟨report, hreport, hclean⟩⟩ := runBackfill_zero h
  · rw [hnil]
    exact .inr (by simp)
  · have hdone := List.filter_eq_nil_iff.mp hnil day hmem
    exact .inr (taken_of_isDone (by simpa using hdone))
  · have happends :
        AppendsTo _ table (fetchedBy active api arrival first last currencies table).2 :=
      fetchedBy_appends
    rw [hreport] at happends
    by_cases hdone : isDone table (backfillTargets currencies active) day = true
    · exact .inr fun target htarget => happends.taken (taken_of_isDone hdone target htarget)
    · have htodo : day ∈ daysToFetch table (backfillTargets currencies active) first last :=
        List.mem_filter.mpr ⟨hmem, by simpa using hdone⟩
      exact (recordDays_clean hreport hclean).2 day ((arrival.perm _).symm.subset htodo)

end BackfillLemmas

/-- Exit code 0 of a backfill means that each day of the range has a row for each
target, but for days for which the provider has no data. -/
theorem backfill_complete
    (h : runBackfill connected active api arrival first last currencies table = (.ok 0, table'))
    {day : Date} (hfirst : first ≤ day) (hlast : day ≤ last) :
    fetchOneDate (api day) = .error (.http 404) ∨
      ∀ target ∈ backfillTargets currencies active, taken table' target day = true :=
  settled_of_zero h (mem_allDays.mpr ⟨hfirst, hlast⟩)

/-- Then there is nothing left to store: a second run, in whatever order and
whatever the provider has for the other days, ends at once or finds the same
gaps. -/
theorem backfill_again
    (h : runBackfill connected active api arrival first last currencies table = (.ok 0, table'))
    (hnodup : (backfillTargets currencies active).Nodup)
    (hgaps : ∀ day, fetchOneDate (api day) = .error (.http 404) →
      fetchOneDate (api' day) = .error (.http 404)) :
    runBackfill connected active api' arrival' first last currencies table' = (.ok 0, table') := by
  obtain ⟨hfloor, horder, hconnected, -⟩ := runBackfill_zero h
  unfold runBackfill
  rw [if_neg (not_lt.mpr hfloor), if_neg (not_lt.mpr horder), if_neg (by simp [hconnected])]
  dsimp only
  split
  · rfl
  next hne =>
  split
  · rfl
  have hall : ∀ day ∈ arrival'.order (daysToFetch table' (backfillTargets currencies active) first
      last), fetchOneDate (api' day) = .error (.http 404) := by
    intro day hday
    obtain ⟨hmem, hdone⟩ := List.mem_filter.mp ((arrival'.perm _).subset hday)
    rcases settled_of_zero h hmem with hgap | hstored
    · exact hgaps day hgap
    · rw [isDone_of_taken hnodup hne hstored] at hdone
      cases hdone
  have hgapped : ∃ report', fetchedBy active api' arrival' first last currencies table' =
      (.ok report', table') ∧ (Report.empty.Clean → report'.Clean) := recordDays_gaps hall
  obtain ⟨report, hreport, hclean⟩ := hgapped
  obtain ⟨hmissing, hfailed⟩ := hclean ⟨rfl, rfl⟩
  rw [fetchedBy] at hreport
  rw [hreport]
  dsimp only
  rw [hmissing, hfailed]
  rfl

/-! ## Jobs one after the other -/

/-- A run of one of the jobs. -/
inductive Job where
  | daily (connected : Bool) (active : List Text) (latest : Latest)
  | backfill (connected : Bool) (active : List Text) (api : Date → Nat → Attempt)
      (arrival : FetchOrder) (first last : Date) (currencies : Option (List Text))

/-- The table that a run leaves, whichever way it ends. -/
def Job.run (table : RateTable) : Job → RateTable
  | .daily connected active latest => (runDaily connected active latest table).2
  | .backfill connected active api arrival first last currencies =>
    (runBackfill connected active api arrival first last currencies table).2

/-- The provider has the value for the run. -/
def Job.Provides (day : Date) (target : Text) (value : JsonValue) : Job → Prop
  | .daily _ active latest =>
    target ∈ active ∧ ∃ rates, latest = .payload (some day) rates ∧ rates target = some value
  | .backfill _ active api _ first last currencies =>
    Provided (backfillTargets currencies active) (fun day => fetchOneDate (api day))
      (allDays first last) day target value

namespace BackfillLemmas

theorem runDaily_appends {latest : Latest} :
    AppendsTo
      (fun day target value => (Job.daily connected active latest).Provides day target value)
      table (runDaily connected active latest table).2 := by
  unfold runDaily
  split
  · exact .refl _
  split
  · exact .refl _
  split
  · exact .refl _
  · exact .refl _
  · exact .refl _
  · next day rates =>
    have happends : AppendsTo (fun day' target value =>
        (Job.daily connected active (.payload (some day) rates)).Provides day' target value)
        table (applyRates table active rates day).2 :=
      applyRatesFrom_appends fun target htarget value hvalue => ⟨htarget, rates, rfl, hvalue⟩
    cases h : applyRates table active rates day with
    | mk result table' =>
      rw [h] at happends
      cases result <;> exact happends

end BackfillLemmas

theorem Job.appends (job : Job) (table : RateTable) :
    AppendsTo (fun day target value => job.Provides day target value) table (job.run table) := by
  cases job with
  | daily connected active latest => exact runDaily_appends
  | backfill connected active api arrival first last currencies =>
    rw [Job.run]
    rcases runBackfill_table with h | h
    · rw [h]
      exact .refl _
    · rw [h]
      exact fetchedBy_appends

/-- Whatever jobs run one after the other, and wherever each of them breaks off:
no row changes or goes, a new row is what the provider has for its day and
target, a day keeps one row for each target, and no rate is zero or below. -/
theorem jobs_append (jobs : List Job) (table : RateTable) :
    AppendsTo (fun day target value => ∃ job ∈ jobs, job.Provides day target value) table
      (jobs.foldl Job.run table) := by
  induction jobs generalizing table with
  | nil => exact .refl _
  | cons job jobs ih =>
    refine AppendsTo.trans ((job.appends table).mono ?_) ((ih (job.run table)).mono ?_)
    · exact fun _ _ _ h => ⟨job, List.mem_cons_self, h⟩
    · rintro day target value ⟨other, hmem, h⟩
      exact ⟨other, List.mem_cons_of_mem _ hmem, h⟩

/-! ## Today -/

omit [RateStore] in
theorem mem_fetchTargetCurrencies [Platform] {db : Db} {code : Text} :
    code ∈ fetchTargetCurrencies db ↔ code ≠ baseCurrency ∧
      ((∃ a ∈ db.rows .bankAccounts, a.deletedAt = none ∧ a.isArchived = false ∧
        a.currencyCode = code) ∨ ∃ s ∈ db.rows .userSettings, s.mainCurrency = code) := by
  simp only [fetchTargetCurrencies, List.mem_insertionSort, List.mem_dedup, List.mem_append,
    List.mem_map, List.mem_filter, decide_eq_true_eq]
  constructor
  · rintro (⟨a, ⟨ha, hactive, harchived, hne⟩, rfl⟩ | ⟨s, ⟨hs, hne⟩, rfl⟩)
    · exact ⟨hne, .inl ⟨a, ha, hactive, harchived, rfl⟩⟩
    · exact ⟨hne, .inr ⟨s, hs, rfl⟩⟩
  · rintro ⟨hne, ⟨a, ha, hactive, harchived, rfl⟩ | ⟨s, hs, rfl⟩⟩
    · exact .inl ⟨a, ⟨ha, hactive, harchived, hne⟩, rfl⟩
    · exact .inr ⟨s, ⟨hs, hne⟩, rfl⟩

omit [RateStore] in
/-- The targets that the jobs find by themselves are distinct. -/
theorem nodup_fetchTargetCurrencies [Platform] (db : Db) : (fetchTargetCurrencies db).Nodup :=
  (List.perm_insertionSort _ _).symm.nodup (List.nodup_dedup _)

/-- Exit code 0 of the daily job means that each currency in use has a rate for
the day of the payload. -/
theorem daily_complete [Platform] {db : Db} {day : Date} {rates : Payload}
    (h : runDaily true (fetchTargetCurrencies db) (.payload (some day) rates) table =
      (.ok 0, table')) {code : Text} (hbase : code ≠ baseCurrency)
    (huse : (∃ a ∈ db.rows .bankAccounts, a.deletedAt = none ∧ a.isArchived = false ∧
      a.currencyCode = code) ∨ ∃ s ∈ db.rows .userSettings, s.mainCurrency = code) :
    taken table' code day = true := by
  have hcode : code ∈ fetchTargetCurrencies db := mem_fetchTargetCurrencies.mpr ⟨hbase, huse⟩
  unfold runDaily at h
  rw [if_neg (by simp), if_neg (List.ne_nil_of_mem hcode)] at h
  dsimp only at h
  split at h
  · next tally table'' hrates =>
    split at h
    · cases h
    next hclean =>
    cases h
    rw [not_or, not_not, not_not] at hclean
    have hmem := (IsolationLemmas.applyRatesFrom_recorded hrates).symm.subset
      (List.mem_append_right _ hcode)
    rw [Tally.recorded, hclean.1, hclean.2, List.append_nil, List.map_nil, List.append_nil] at hmem
    rcases applyRatesFrom_stored hrates code hmem with hnil | hstored
    · cases hnil
    · exact hstored
  · cases h

end

end

/-! ## A range with a gap -/

namespace Ascii

def backwards : FetchOrder := ⟨List.reverse, List.reverse_perm⟩

/-- The first three days that the provider serves; it has nothing for the
second, and the first answers when it is asked again. -/
def spring (day : Date) (attempt : Nat) : Attempt :=
  if day = providerFloor + 1 then .http 404
  else if day = providerFloor ∧ attempt = 1 then .transient
  else .payload fun code => if code = "PEN".toList then some (.decimal (339 / 100)) else none

def springRates : RateTable :=
  [⟨"PEN".toList, providerFloor, .finite (339 / 100)⟩,
    ⟨"PEN".toList, providerFloor + 2, .finite (339 / 100)⟩]

def backfilled (api : Date → Nat → Attempt) (table : RateTable) : Except Raised Nat × RateTable :=
  runBackfill true (fetchTargetCurrencies (run blank setup)) api backwards providerFloor
    (providerFloor + 2) none table

end Ascii

open Ascii in
/-- The last of the three days has its row. -/
theorem backfill_complete_spring : taken springRates "PEN".toList (providerFloor + 2) = true := by
  have hrun : backfilled spring [] = (.ok 0, springRates) := by decide +kernel
  have hfirst : providerFloor ≤ providerFloor + 2 := by decide
  rcases backfill_complete hrun hfirst le_rfl with hgap | hall
  · have hok : (fetchOneDate (spring (providerFloor + 2))).isOk = true := by decide +kernel
    rw [hgap] at hok
    cases hok
  · exact hall _ (by decide +kernel)

open Ascii in
/-- The sol is the currency of the user's reports. -/
theorem daily_complete_sol :
    taken [⟨"PEN".toList, 20000, .finite (339 / 100)⟩] "PEN".toList 20000 = true := by
  have hrun : runDaily true (fetchTargetCurrencies (run blank setup))
      (.payload (some 20000) fun _ => some (.decimal (339 / 100))) [] =
        (.ok 0, [⟨"PEN".toList, 20000, .finite (339 / 100)⟩]) := by decide +kernel
  exact daily_complete hrun (by decide) (.inr (by decide +kernel))

open Ascii in
/-- Nothing is stored by a second run, though the provider has lost its data. -/
theorem backfill_again_spring :
    backfilled (fun _ _ => .http 404) springRates = (.ok 0, springRates) := by
  have hrun : backfilled spring [] = (.ok 0, springRates) := by decide +kernel
  exact backfill_again hrun (nodup_fetchTargetCurrencies _) fun _ _ => rfl

end ExpenseEngine
