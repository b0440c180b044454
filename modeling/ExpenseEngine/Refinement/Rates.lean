import Mathlib.Data.List.Dedup
import Mathlib.Data.Rat.Floor
import ExpenseEngine.Reads
import ExpenseEngine.Reports.MonthFlow
import ExpenseEngine.Reports.MonthWindow

/-!
# One rate in SQL and in Python

Reports convert in SQL, each row at the rate of its local day; balances are
converted in Python at today's rate. Both ask for the latest stored rate on or
before a date, `ORDER BY rate_date DESC LIMIT 1`. Where a date has one rate at
most, that query has a single answer and the two sides agree on it.

Results:
1. `mayReturn_unique`: the query has a single answer.
2. `same_rate`: both sides take the rate of that row, and accounts converted
   together are converted as each one alone.
3. `together_raises`: unless one of them raises.
-/

namespace ExpenseEngine

open Num Sql Sql.Prog

/-! ## The query for a rate -/

section Query

variable [Platform]

/-- The unique index of the table. -/
def OneRatePerDay (db : Db) : Prop :=
  ∀ r ∈ db.rows .exchangeRates, ∀ s ∈ db.rows .exchangeRates,
    r.baseCurrency = s.baseCurrency → r.targetCurrency = s.targetCurrency →
      r.rateDate = s.rateDate → r = s

instance (db : Db) : Decidable (OneRatePerDay db) :=
  inferInstanceAs (Decidable (∀ r ∈ _, ∀ s ∈ _, _ → _ → _ → r = s))

/-- `WHERE base_currency = 'USD' AND target_currency = … AND rate_date <= …` -/
def Eligible (target : Text) (asOf : Date) (r : Row .exchangeRates) : Prop :=
  r.baseCurrency = baseCurrency ∧ r.targetCurrency = target ∧ r.rateDate ≤ asOf

/-- What the query may return: no row when there is none, else one that no other
is later than. -/
def MayReturn (db : Db) (target : Text) (asOf : Date) : Option (Row .exchangeRates) → Prop
  | none => ∀ r ∈ db.rows .exchangeRates, ¬Eligible target asOf r
  | some r => r ∈ db.rows .exchangeRates ∧ Eligible target asOf r ∧
      ∀ s ∈ db.rows .exchangeRates, Eligible target asOf s → s.rateDate ≤ r.rateDate

/-- The row whose rate `storedRate` takes. -/
def storedRow (db : Db) (target : Text) (asOf : Date) : Option (Row .exchangeRates) :=
  latestBy (fun r => r.rateDate) ((db.rows .exchangeRates).filter fun r =>
    decide (r.baseCurrency = baseCurrency ∧ r.targetCurrency = target ∧ r.rateDate ≤ asOf))

namespace RateLemmas

variable {db : Db} {target : Text} {asOf : Date}

theorem mem_eligible {r : Row .exchangeRates} :
    (r ∈ (db.rows .exchangeRates).filter fun r =>
      decide (r.baseCurrency = baseCurrency ∧ r.targetCurrency = target ∧ r.rateDate ≤ asOf)) ↔
      r ∈ db.rows .exchangeRates ∧ Eligible target asOf r := by
  rw [List.mem_filter, decide_eq_true_iff]
  rfl

theorem mayReturn_storedRow (db : Db) (target : Text) (asOf : Date) :
    MayReturn db target asOf (storedRow db target asOf) := by
  unfold storedRow
  cases h : latestBy (fun r => r.rateDate) ((db.rows .exchangeRates).filter fun r =>
    decide (r.baseCurrency = baseCurrency ∧ r.targetCurrency = target ∧ r.rateDate ≤ asOf)) with
  | none =>
    intro r hr helig
    have hmem := mem_eligible.mpr ⟨hr, helig⟩
    rw [latestBy_eq_none h] at hmem
    cases hmem
  | some r =>
    obtain ⟨hmem, hmax⟩ := latestBy_eq_some h
    obtain ⟨hr, helig⟩ := mem_eligible.mp hmem
    exact ⟨hr, helig, fun s hs hselig => hmax s (mem_eligible.mpr ⟨hs, hselig⟩)⟩

/-- Of two rows neither is later than the other, so they are of one date. -/
theorem mayReturn_unique (hone : OneRatePerDay db) {o o' : Option (Row .exchangeRates)}
    (h : MayReturn db target asOf o) (h' : MayReturn db target asOf o') : o = o' := by
  cases o with
  | none =>
    cases o' with
    | none => rfl
    | some s => exact absurd h'.2.1 (h s h'.1)
  | some r =>
    cases o' with
    | none => exact absurd h.2.1 (h' r h.1)
    | some s =>
      have hdate := le_antisymm (h'.2.2 r h.1 h.2.1) (h.2.2 s h'.1 h'.2.1)
      have hbase := h.2.1.1.trans h'.2.1.1.symm
      have htarget := h.2.1.2.1.trans h'.2.1.2.1.symm
      rw [hone r h.1 s h'.1 hbase htarget hdate]

theorem mayReturn_iff (hone : OneRatePerDay db) (o : Option (Row .exchangeRates)) :
    MayReturn db target asOf o ↔ o = storedRow db target asOf := by
  refine ⟨fun ho => mayReturn_unique hone ho (mayReturn_storedRow db target asOf), ?_⟩
  rintro rfl
  exact mayReturn_storedRow db target asOf

end RateLemmas

end Query

/-! ## The two sides -/

namespace RateLemmas

section Reports

variable [Platform] [Locale] {db : Db} {t : Row .transactions} {a : Row .bankAccounts} {tz : Text}

theorem homeRateJoin_base (hbase : a.currencyCode = baseCurrency) :
    homeRateJoin db tz t (some a) =
      (storedRate db homeCurrency (rateDate tz t.date)).map Prod.fst := by
  have hcode : a.currencyCode ≠ homeCurrency ∧ a.currencyCode = "USD".toList :=
    hbase ▸ ⟨by decide, rfl⟩
  rw [homeRateJoin, Option.any_some, if_pos (decide_eq_true hcode)]

omit [Locale] in
theorem rateFromDb_base (asOf : Date) :
    rateFromDb db baseCurrency homeCurrency asOf = .ok (storedRate db homeCurrency asOf) := by
  rw [rateFromDb, if_neg (by decide), if_pos rfl]

variable (tz) in
/-- A row on an account in the home currency, or in the base currency, is
priced at what Python finds for the account on the local day. The cast is there
for a conversion only. -/
theorem homeCents_eq (ha : accountJoin db t = some a) (hcur : a.currencyCode ∈ globalCurrencies) :
    ∃ python, rateFromDb db a.currencyCode homeCurrency (rateDate tz t.date) = .ok python ∧
      (python = none → homeCents db tz t = .ok none) ∧
      ∀ rate day, python = some (rate, day) → homeCents db tz t =
        if a.currencyCode = homeCurrency ∨ inInt8 (roundHalfUp (t.amountCents * rate)) = true then
          .ok (some (roundHalfUp (t.amountCents * rate)))
        else .error .bigintOutOfRange := by
  unfold homeCents
  rw [ha]
  dsimp only
  rcases List.mem_cons.mp hcur with hbase | hhome
  · have hcode : a.currencyCode ≠ homeCurrency := hbase ▸ by decide
    refine ⟨storedRate db homeCurrency (rateDate tz t.date), hbase ▸ rateFromDb_base _, ?_⟩
    rw [Option.any_some, if_neg (by simpa using hcode), homeRateJoin_base hbase]
    refine ⟨fun hnone => by rw [hnone]; rfl, fun rate day hrate => ?_⟩
    rw [hrate, Option.map_some]
    dsimp only [castBigint]
    by_cases hfits : inInt8 (roundHalfUp (t.amountCents * rate)) = true
    · rw [if_pos hfits, if_pos (.inr hfits)]
      rfl
    · rw [if_neg hfits, if_neg (not_or.mpr ⟨hcode, hfits⟩)]
      rfl
  · have hcode : a.currencyCode = homeCurrency := List.mem_singleton.mp hhome
    refine ⟨some (1, rateDate tz t.date), by rw [hcode, rateFromDb, if_pos rfl], nofun, ?_⟩
    rintro _ _ ⟨⟩
    rw [Option.any_some, if_pos (decide_eq_true hcode), mul_one, roundHalfUp_intCast,
      if_pos (.inl hcode)]

theorem unconvertibleFlag_eq_one : unconvertibleFlag db tz t = .ok 1 ↔
    homeCents db tz t = .ok none := by
  unfold unconvertibleFlag
  cases homeCents db tz t with
  | error e => exact iff_of_false nofun nofun
  | ok cents => cases cents <;> simp [Except.map]

/-- The query evaluates the expression for every row of the month. -/
theorem exec_fetchSignedTxns_error {e : SqlError} (hraise : homeCents db tz t = .error e)
    {userId : Uuid} {startUtc endUtc : Timestamp} (ht : t ∈ monthRows db userId startUtc endUtc) :
    exec (fetchSignedTxns userId startUtc endUtc tz) db = .error .database := by
  rw [exec_fetchSignedTxns, if_neg]
  intro hall
  have hok := List.all_eq_true.mp hall t ht
  rw [hraise] at hok
  cases hok

end Reports

end RateLemmas

/-! ## Balances -/

section Balances

variable [Platform]

/-- Nothing has been looked up yet. -/
def ColdCache (env : Env) : Prop := ∀ source target asOf, env.rateCache source target asOf = none

/-- An account whose balance is converted. -/
structure HeldBalance where
  id : Uuid
  cents : Int
  currencyCode : Text

/-- `fetch_home_balance` for one of the accounts. -/
def convertedAlone (db : Db) (env : Env) (userId : Uuid) (a : HeldBalance) :
    Except (Failure AppError) (Option Int × Db) :=
  exec (fetchHomeBalance env userId a.currencyCode a.cents) db

/-- `fetch_home_balances` for all of them. -/
def convertedTogether (db : Db) (env : Env) (settings : Row .userSettings)
    (accounts : List HeldBalance) : Except (Failure AppError) (List (Uuid × Option Int) × Db) :=
  exec (fetchHomeBalances env settings.mainCurrency
    (env.today (resolveTimezone settings.displayTimezone))
    (accounts.map fun a => (a.id, a.cents)) (accounts.map fun a => (a.id, a.currencyCode))) db

/-- What `convertBalance` computes. -/
def homeCentsAt (cents : Int) (rate : Option Rat) : Except Signal (Option Int) :=
  match rate with
  | none => .ok none
  | some rate => (toHomeCents cents rate).map some

/-- Today's rate from the currency `source` to the currency `target`. -/
def tableRate (db : Db) (target : Text) (today : Date) (source : Text) : Except Signal RateResult :=
  rateFromDb db (Platform.pyUpper source) (Platform.pyUpper target) today

/-- `getRate` answers what `rateOf` says, and reads no more than that. -/
def PricedBy (env : Env) (db : Db) (target : Text) (today : Date)
    (rateOf : Text → Except Signal RateResult) : Prop :=
  ∀ source, exec (getRate env source target today) db = exec (orSignal (rateOf source)) db

/-- The value of an amount at the rate of its currency. -/
def valueAt (rateOf : Text → Except Signal RateResult) (source : Text) (cents : Int) :
    Except Signal (Option Int) :=
  (rateOf source).bind fun result => homeCentsAt cents (result.map Prod.fst)

namespace RateLemmas

variable {db : Db} {env : Env} {target : Text} {today : Date}
  {rateOf : Text → Except Signal RateResult}

theorem exec_orSignal_ok {α : Type} {result : Except Signal α} {v : α} (h : result = .ok v) :
    exec (orSignal result) db = .ok (v, db) := by
  rw [h]
  rfl

theorem exec_orSignal_error {α : Type} {result : Except Signal α} {e : Signal}
    (h : result = .error e) : exec (orSignal result) db = .error (.raised internalError) := by
  rw [h]
  rfl

theorem exec_convertBalance (cents : Int) (rate : Option Rat) :
    exec (convertBalance cents rate) db = exec (orSignal (homeCentsAt cents rate)) db := by
  cases rate with
  | none => rfl
  | some rate =>
    rw [convertBalance, homeCentsAt]
    cases h : toHomeCents cents rate with
    | error e => exact exec_bind_of_error (exec_orSignal_error rfl)
    | ok n => exact exec_bind_of_ok (exec_orSignal_ok rfl)

theorem exec_getRate {source : Text} (hmiss : env.rateCache (Platform.pyUpper source)
      (Platform.pyUpper target) today = none) :
    exec (getRate env source target today) db =
      exec (orSignal (tableRate db target today source)) db := by
  rw [getRate, hmiss]
  exact exec_bind_of_ok (exec_read _ _ _)

theorem pricedBy_cold (hcold : ColdCache env) :
    PricedBy env db target today (tableRate db target today) :=
  fun _ => exec_getRate (hcold _ _ _)

theorem exec_fetchHomeBalance {userId : Uuid} {settings : Row .userSettings}
    (hsettings : exec (getUserReportSettings userId) db = .ok (settings, db))
    (hpriced : PricedBy env db settings.mainCurrency
      (env.today (resolveTimezone settings.displayTimezone)) rateOf) (source : Text) (cents : Int) :
    exec (fetchHomeBalance env userId source cents) db =
      exec (orSignal (valueAt rateOf source cents)) db := by
  rw [fetchHomeBalance, exec_bind_of_ok hsettings, valueAt]
  dsimp only
  rw [exec_bind, hpriced]
  cases rateOf source with
  | error e => rfl
  | ok result => exact exec_convertBalance cents (result.map Prod.fst)

omit [Platform] in
theorem found_of_valueAt {source : Text} {cents : Int} {home : Option Int}
    (h : valueAt rateOf source cents = .ok home) : ∃ result, rateOf source = .ok result := by
  unfold valueAt at h
  cases hrate : rateOf source with
  | error e =>
    rw [hrate] at h
    cases h
  | ok result => exact ⟨result, rfl⟩

/-- The rate that is found, if the search for it does not raise. -/
def lookedUp (rateOf : Text → Except Signal RateResult) (source : Text) : RateResult :=
  (rateOf source).toOption.join

theorem exec_batchGetRates (hpriced : PricedBy env db target today rateOf) {sources : List Text}
    (hfound : ∀ source ∈ sources, ∃ result, rateOf source = .ok result) :
    exec (batchGetRates env sources target today) db =
      .ok (sources.dedup.filterMap fun source =>
        ((lookedUp rateOf source).map Prod.fst).map fun rate => (source, rate), db) := by
  have hlookup : ∀ source ∈ sources.dedup, exec ((fun result => (source, result)) <$>
      getRate env source target today) db = .ok ((source, lookedUp rateOf source), db) := by
    intro source hsource
    obtain ⟨result, hresult⟩ := hfound source (List.mem_dedup.mp hsource)
    rw [← bind_pure_comp, exec_bind_of_ok ((hpriced _).trans (exec_orSignal_ok hresult)),
      exec_pure, lookedUp, hresult]
    rfl
  rw [batchGetRates, exec_bind_of_ok (exec_mapM hlookup), exec_pure, List.filterMap_map]
  refine congrArg (fun rates => Except.ok (rates, db)) (List.filterMap_congr fun source _ => ?_)
  rw [Option.map_map]
  rfl

theorem exec_batchGetRates_error (hpriced : PricedBy env db target today rateOf)
    {sources : List Text} {source : Text} {e : Signal} (hmem : source ∈ sources)
    (hraise : rateOf source = .error e) :
    exec (batchGetRates env sources target today) db = .error (.raised internalError) := by
  have hlookup : ∀ source, exec ((fun result => (source, result)) <$>
      getRate env source target today) db =
        exec (orSignal (rateOf source) >>= fun result => pure (source, result)) db := by
    intro source
    rw [← bind_pure_comp, exec_bind, hpriced, ← exec_bind]
  refine exec_bind_of_error (exec_mapM_error (fun s _ => ?_) ⟨source, List.mem_dedup.mpr hmem, ?_⟩)
  · rw [hlookup]
    cases rateOf s with
    | error e => exact .inr rfl
    | ok result => exact .inl ⟨(s, result), rfl⟩
  · rw [hlookup, hraise]
    rfl

omit [Platform] in
/-- A dictionary built key by key holds what each key is given. -/
theorem lookup_filterMap {α β : Type} [BEq α] [LawfulBEq α] (f : α → Option β) {keys : List α}
    {k : α} (h : k ∈ keys ∨ f k = none) :
    (keys.filterMap fun key => (f key).map fun v => (key, v)).lookup k = f k := by
  induction keys with
  | nil =>
    rcases h with hk | hnone
    · cases hk
    · exact hnone.symm
  | cons key keys ih =>
    rw [List.filterMap_cons]
    by_cases hk : k = key
    · subst hk
      cases hf : f k with
      | none =>
        rw [Option.map_none, ← hf]
        exact ih (.inr hf)
      | some v =>
        rw [Option.map_some]
        exact List.lookup_cons_self
    · have hrest : k ∈ keys ∨ f k = none := h.imp_left fun hmem => by
        rcases List.mem_cons.mp hmem with heq | hmem
        · exact absurd heq hk
        · exact hmem
      cases hf : f key with
      | none =>
        rw [Option.map_none]
        exact ih hrest
      | some v =>
        rw [Option.map_some]
        dsimp only
        rw [List.lookup_cons, beq_false_of_ne hk]
        exact ih hrest

omit [Platform] in
theorem lookup_currency {accounts : List HeldBalance}
    (hids : (accounts.map fun a => a.id).Nodup) {a : HeldBalance} (ha : a ∈ accounts) :
    (accounts.map fun x => (x.id, x.currencyCode)).lookup a.id = some a.currencyCode := by
  induction accounts with
  | nil => cases ha
  | cons x xs ih =>
    rw [List.map_cons, List.nodup_cons] at hids
    rw [List.map_cons, List.lookup_cons]
    rcases List.mem_cons.mp ha with rfl | hmem
    · rw [beq_self_eq_true]
    · have hne : a.id ≠ x.id := fun h => hids.1 (h ▸ List.mem_map_of_mem hmem)
      rw [beq_false_of_ne hne]
      exact ih hids.2 hmem

section Accounts

variable {accounts : List HeldBalance} {a : HeldBalance}

/-- The step of `fetchHomeBalances` for one account, after the rates are known. -/
theorem exec_conversion (hids : (accounts.map fun a => a.id).Nodup) (ha : a ∈ accounts)
    (hfound : ∃ result, rateOf a.currencyCode = .ok result) :
    exec ((fun home => (a.id, home)) <$> convertBalance a.cents
      (((accounts.map fun x => (x.id, x.currencyCode)).lookup a.id).bind fun c =>
        ((((accounts.map fun x => (x.id, x.currencyCode)).map Prod.snd).dedup).filterMap
          fun source => ((lookedUp rateOf source).map Prod.fst).map fun rate =>
            (source, rate)).lookup c)) db =
      exec (orSignal (valueAt rateOf a.currencyCode a.cents) >>= fun home =>
        pure (a.id, home)) db := by
  have hmem : a.currencyCode ∈ ((accounts.map fun x => (x.id, x.currencyCode)).map
      Prod.snd).dedup := by
    rw [List.mem_dedup, List.map_map]
    exact List.mem_map_of_mem ha
  obtain ⟨result, hresult⟩ := hfound
  rw [lookup_currency hids ha, Option.bind_some, lookup_filterMap (fun source =>
      (lookedUp rateOf source).map Prod.fst) (.inl hmem), ← bind_pure_comp, exec_bind,
    exec_convertBalance, ← exec_bind, lookedUp, valueAt, hresult]
  rfl

theorem exec_fetchHomeBalances (hpriced : PricedBy env db target today rateOf)
    (hids : (accounts.map fun a => a.id).Nodup) {home : HeldBalance → Option Int}
    (hhome : ∀ a ∈ accounts, valueAt rateOf a.currencyCode a.cents = .ok (home a)) :
    exec (fetchHomeBalances env target today (accounts.map fun a => (a.id, a.cents))
        (accounts.map fun a => (a.id, a.currencyCode))) db =
      .ok (accounts.map fun a => (a.id, home a), db) := by
  have hfound : ∀ a ∈ accounts, ∃ result, rateOf a.currencyCode = .ok result :=
    fun a ha => found_of_valueAt (hhome a ha)
  have hsources : ∀ source ∈ (accounts.map fun a => (a.id, a.currencyCode)).map Prod.snd,
      ∃ result, rateOf source = .ok result := by
    simpa using hfound
  rw [fetchHomeBalances, exec_bind_of_ok (exec_batchGetRates hpriced hsources), List.mapM_map]
  refine exec_mapM fun a ha => ?_
  rw [Function.comp_apply, exec_conversion hids ha (hfound a ha),
    exec_bind_of_ok (exec_orSignal_ok (hhome a ha)), exec_pure]

/-- One conversion that raises is enough. -/
theorem exec_fetchHomeBalances_error (hpriced : PricedBy env db target today rateOf)
    (hids : (accounts.map fun a => a.id).Nodup) {e : Signal} (ha : a ∈ accounts)
    (hraise : valueAt rateOf a.currencyCode a.cents = .error e) :
    exec (fetchHomeBalances env target today (accounts.map fun a => (a.id, a.cents))
        (accounts.map fun a => (a.id, a.currencyCode))) db = .error (.raised internalError) := by
  by_cases hfound : ∀ a ∈ accounts, ∃ result, rateOf a.currencyCode = .ok result
  · have hsources : ∀ source ∈ (accounts.map fun a => (a.id, a.currencyCode)).map Prod.snd,
        ∃ result, rateOf source = .ok result := by
      simpa using hfound
    rw [fetchHomeBalances, exec_bind_of_ok (exec_batchGetRates hpriced hsources), List.mapM_map]
    refine exec_mapM_error (fun x hx => ?_) ⟨a, ha, ?_⟩
    · rw [Function.comp_apply, exec_conversion hids hx (hfound x hx)]
      cases hvalue : valueAt rateOf x.currencyCode x.cents with
      | error e => exact .inr (exec_bind_of_error (exec_orSignal_error rfl))
      | ok value => exact .inl ⟨_, exec_bind_of_ok (exec_orSignal_ok rfl)⟩
    · rw [Function.comp_apply, exec_conversion hids ha (hfound a ha)]
      exact exec_bind_of_error (exec_orSignal_error hraise)
  · simp only [not_forall] at hfound
    obtain ⟨x, hx, hnone⟩ := hfound
    cases hrate : rateOf x.currencyCode with
    | ok result => exact absurd ⟨result, hrate⟩ hnone
    | error e =>
      refine exec_bind_of_error (exec_batchGetRates_error hpriced ?_ hrate)
      rw [List.map_map]
      exact List.mem_map_of_mem hx

end Accounts

end RateLemmas

end Balances

open RateLemmas

/-- Where a date has one rate at most, a row is priced in SQL at what Python
finds for its account on the local day, unless the cast of a conversion raises:
then a report over the row fails. Accounts converted together are converted as
each one alone, unless the conversion of one of them raises: then the others get
no figure either. -/
theorem same_rate [Platform] [Locale] {db : Db} (hone : OneRatePerDay db) :
    (∀ (t : Row .transactions) (a : Row .bankAccounts) (tz : Text),
      accountJoin db t = some a → a.currencyCode ∈ globalCurrencies →
        ∃ python, rateFromDb db a.currencyCode homeCurrency (rateDate tz t.date) = .ok python ∧
          (homeCents db tz t = .ok none ↔ python = none) ∧
          (unconvertibleFlag db tz t = .ok 1 ↔ python = none) ∧
          (∀ rate day, python = some (rate, day) → homeCents db tz t =
            if a.currencyCode = homeCurrency ∨
                inInt8 (roundHalfUp (t.amountCents * rate)) = true then
              .ok (some (roundHalfUp (t.amountCents * rate)))
            else .error .bigintOutOfRange) ∧
          (homeCents db tz t = .error .bigintOutOfRange → ∀ userId startUtc endUtc,
            t ∈ monthRows db userId startUtc endUtc →
              exec (fetchSignedTxns userId startUtc endUtc tz) db = .error .database) ∧
          (a.currencyCode = baseCurrency →
            ∃ row, (∀ o, MayReturn db homeCurrency (rateDate tz t.date) o ↔ o = row) ∧
              homeRateJoin db tz t (some a) = row.map (fun r => r.rate) ∧
              python = row.map fun r => (r.rate, r.rateDate))) ∧
    ∀ (env : Env) (userId : Uuid) (settings : Row .userSettings), ColdCache env →
      exec (getUserReportSettings userId) db = .ok (settings, db) →
        ∀ accounts : List HeldBalance, (accounts.map fun a => a.id).Nodup →
          (∀ home : HeldBalance → Option Int,
            (∀ a ∈ accounts, convertedAlone db env userId a = .ok (home a, db)) →
              convertedTogether db env settings accounts =
                .ok (accounts.map fun a => (a.id, home a), db)) ∧
          ∀ a ∈ accounts, (∃ home, convertedAlone db env userId a = .ok (home, db)) ∨
            convertedAlone db env userId a = .error (.raised internalError) ∧
              convertedTogether db env settings accounts = .error (.raised internalError) := by
  refine ⟨fun t a tz ha hcur => ?_, fun env userId settings hcold hsettings accounts hids => ?_⟩
  · obtain ⟨python, hpython, hmissing, hpriced⟩ := homeCents_eq tz ha hcur
    have hnone : homeCents db tz t = .ok none ↔ python = none := by
      refine ⟨fun h => ?_, hmissing⟩
      cases python with
      | none => rfl
      | some result =>
        rw [hpriced result.1 result.2 rfl] at h
        split at h <;> cases h
    refine ⟨python, hpython, hnone, unconvertibleFlag_eq_one.trans hnone, hpriced,
      fun hraise _ _ _ ht => exec_fetchSignedTxns_error hraise ht, fun hbase => ?_⟩
    refine ⟨storedRow db homeCurrency (rateDate tz t.date), mayReturn_iff hone, ?_, ?_⟩
    · rw [homeRateJoin_base hbase, storedRate, Option.map_map]
      rfl
    · rw [hbase, rateFromDb_base] at hpython
      exact (Except.ok.inj hpython).symm
  · have halone : ∀ a : HeldBalance, convertedAlone db env userId a = _ := fun a =>
      exec_fetchHomeBalance hsettings (pricedBy_cold hcold) a.currencyCode a.cents
    refine ⟨fun home hhome => exec_fetchHomeBalances (pricedBy_cold hcold) hids fun a ha => ?_,
      fun a ha => ?_⟩
    · have h := hhome a ha
      rw [halone] at h
      cases hvalue : valueAt (tableRate db settings.mainCurrency
          (env.today (resolveTimezone settings.displayTimezone))) a.currencyCode a.cents with
      | error e =>
        rw [exec_orSignal_error hvalue] at h
        cases h
      | ok value =>
        rw [exec_orSignal_ok hvalue] at h
        cases h
        rfl
    · rw [halone]
      cases hvalue : valueAt (tableRate db settings.mainCurrency
          (env.today (resolveTimezone settings.displayTimezone))) a.currencyCode a.cents with
      | error e =>
        exact .inr ⟨exec_orSignal_error rfl, exec_fetchHomeBalances_error (pricedBy_cold hcold) hids
          ha hvalue⟩
      | ok value => exact .inl ⟨value, exec_orSignal_ok rfl⟩

/-! ## Dollars -/

namespace Ascii

/-- Fifty dollars spent on day 12, and a rate on days 3, 9 and 40. -/
def dollars : Db :=
  Function.update (run blank [
    callAt 1 (.bootstrap "Ann".toList "UTC".toList),
    callAt 2 (.createAccount ⟨12, "Savings".toList, "USD".toList, none, none⟩),
    callAt 4 (.createCategory ⟨20, "Food".toList, "#000000".toList, none⟩),
    callAt (13 * Time.dayLength) (.createTransaction
      ⟨30, "Lunch".toList, -5000, 12 * Time.dayLength + Time.dayLength / 2, 12, 20, none, []⟩)])
    .exchangeRates ⟨[
      ⟨60, "USD".toList, "PEN".toList, 33 / 10, 3⟩,
      ⟨61, "USD".toList, "PEN".toList, 33373 / 10000, 9⟩,
      ⟨62, "USD".toList, "PEN".toList, 34 / 10, 40⟩], by decide⟩

/-- The same ledger, and a rate that no balance but 0 can be converted at. -/
def soaring : Db :=
  Function.update dollars .exchangeRates ⟨[⟨60, "USD".toList, "PEN".toList, 10 ^ 28, 0⟩], by decide⟩

def pocket : HeldBalance := ⟨10, 1, "PEN".toList⟩

def savings : HeldBalance := ⟨12, 1, "USD".toList⟩

end Ascii

open Ascii in
theorem same_rate_dollars :
    dollars.rows .transactions ≠ [] ∧ ∀ t ∈ dollars.rows .transactions,
      rateFromDb dollars "USD".toList homeCurrency (rateDate "UTC".toList t.date) =
          .ok (some (33373 / 10000, 9)) ∧
        homeCents dollars "UTC".toList t = .ok (some 16687) := by
  refine ⟨by decide +kernel, fun t ht => ?_⟩
  have hone : OneRatePerDay dollars := by decide +kernel
  have haccount : ∀ t ∈ dollars.rows .transactions, ∃ a ∈ dollars.rows .bankAccounts,
      accountJoin dollars t = some a ∧ a.currencyCode = "USD".toList ∧ t.amountCents = 5000 := by
    decide +kernel
  have hrate : ∀ t ∈ dollars.rows .transactions,
      rateFromDb dollars "USD".toList homeCurrency (rateDate "UTC".toList t.date) =
        .ok (some (33373 / 10000, 9)) := by
    decide +kernel
  obtain ⟨a, -, ha, hcode, hamount⟩ := haccount t ht
  obtain ⟨python, hpython, -, -, hpriced, -⟩ :=
    (same_rate hone).1 t a "UTC".toList ha (hcode ▸ List.mem_cons_self)
  rw [hcode, hrate t ht] at hpython
  refine ⟨hrate t ht, ?_⟩
  rw [hpriced _ _ (Except.ok.inj hpython).symm, hamount, hcode]
  decide +kernel

open Ascii in
/-- The sol in the pocket has its figure alone and none beside the dollar. -/
theorem together_raises :
    OneRatePerDay soaring ∧ ColdCache (envAt 5) ∧
      ∃ settings, exec (getUserReportSettings 1) soaring = .ok (settings, soaring) ∧
        convertedAlone soaring (envAt 5) 1 pocket = .ok (some 1, soaring) ∧
        ¬∃ homes, convertedTogether soaring (envAt 5) settings [pocket, savings] =
          .ok (homes, soaring) := by
  have hcold : ColdCache (envAt 5) := fun _ _ _ => rfl
  obtain ⟨settings, hrow⟩ := Option.isSome_iff_exists.mp
    (by decide +kernel : ((soaring.rows .userSettings).find? fun r =>
      decide (r.userId = 1)).isSome)
  have hmain : settings.mainCurrency = homeCurrency := by
    have : ∀ r ∈ (soaring.rows .userSettings).find? fun r => decide (r.userId = 1),
        r.mainCurrency = homeCurrency := by
      decide +kernel
    exact this settings hrow
  have hsettings : exec (getUserReportSettings 1) soaring = .ok (settings, soaring) := by
    simp only [getUserReportSettings, fetchRow, exec_bind_ok, exec_read_ok, exec_orRaise_ok,
      exec_raiseIf_ok, exec_pure_ok]
    exact ⟨_, _, ⟨rfl, rfl⟩, _, _, ⟨hrow, rfl⟩, (), _, ⟨by rw [hmain]; simp, rfl⟩, rfl, rfl⟩
  refine ⟨by decide +kernel, hcold, settings, hsettings, ?_, ?_⟩
  · refine (exec_fetchHomeBalance hsettings (pricedBy_cold hcold) _ _).trans (exec_orSignal_ok ?_)
    rw [hmain]
    exact (by decide +kernel :
      valueAt (tableRate soaring homeCurrency 0) pocket.currencyCode pocket.cents = .ok (some 1))
  · rintro ⟨homes, h⟩
    have hraise : valueAt (tableRate soaring settings.mainCurrency
        ((envAt 5).today (resolveTimezone settings.displayTimezone))) savings.currencyCode
          savings.cents = .error .invalidOperation := by
      rw [hmain]
      exact (by decide +kernel : valueAt (tableRate soaring homeCurrency 0) savings.currencyCode
        savings.cents = .error .invalidOperation)
    rw [convertedTogether, exec_fetchHomeBalances_error (pricedBy_cold hcold) (by decide)
      (List.mem_cons_of_mem _ List.mem_cons_self) hraise] at h
    cases h

end ExpenseEngine
