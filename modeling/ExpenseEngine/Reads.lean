import ExpenseEngine.Listings
import ExpenseEngine.MonthlyReport
import ExpenseEngine.Reconciliations

/-!
# The reads that sum the ledger

The account list, the dashboard, the reconciliations and the monthly report
store none of their figures. A statement that computes one fails when the figure
is no `bigint`, and the read fails with it.
-/

namespace ExpenseEngine

open Sql Sql.Prog

variable [Platform]

/-! ## Home balances -/

/-- The currencies for which a rate is known, each looked up once. -/
def batchGetRates (env : Env) (fromCurrencies : List Text) (toCurrency : Text) (asOf : Date) :
    Op (List (Text × Rat)) := do
  let lookups ← fromCurrencies.dedup.mapM fun currency =>
    (fun result => (currency, result)) <$> getRate env currency toCurrency asOf
  return lookups.filterMap fun p => p.2.map fun result => (p.1, result.1)

/-- Balances in the home currency, with one rate for each currency. -/
def fetchHomeBalances (env : Env) (mainCurrency : Text) (today : Date)
    (balances : List (Uuid × Int)) (currencyById : List (Uuid × Text)) :
    Op (List (Uuid × Option Int)) := do
  let rates ← batchGetRates env (currencyById.map Prod.snd) mainCurrency today
  balances.mapM fun b =>
    (fun home => (b.1, home)) <$>
      convertBalance b.2 ((currencyById.lookup b.1).bind fun c => rates.lookup c)

/-! ## GET /accounts -/

def accountConditions (userId : Uuid) (includePeople includeArchived includeDeleted : Bool)
    (_ : Db) (a : Row .bankAccounts) : Bool :=
  decide (a.userId = userId) && (includeDeleted || a.deletedAt.isNone) &&
    (includePeople || !a.isPerson) && (includeArchived || !a.isArchived)

def listAccounts (env : Env) (userId : Uuid)
    (includePeople includeArchived includeDeleted : Bool) (limit offset : Nat) :
    Op (Paginated Body) := do
  let (rows, total) ← listPage .bankAccounts
    (accountConditions userId includePeople includeArchived includeDeleted)
    (fun a b => a.sortOrder < b.sortOrder ∨
      a.sortOrder = b.sortOrder ∧ a.createdAt ≤ b.createdAt) limit offset
  let settings ← getUserReportSettings userId
  let today := env.today (resolveTimezone settings.displayTimezone)
  let balances ← fetchBalances userId (rows.map fun a => a.id)
  let homes ← fetchHomeBalances env settings.mainCurrency today balances
    (rows.map fun a => (a.id, a.currencyCode))
  let data := rows.map fun a =>
    accountFromRow a ((balances.lookup a.id).getD 0) (homes.lookup a.id).join
  return ⟨data, total, limit, offset⟩

/-! ## GET /reconciliations -/

def reconciliationConditions (userId : Uuid) (accountId : Option Uuid) (includeDeleted : Bool)
    (rec : Row .reconciliations) : Bool :=
  decide (rec.userId = userId) && (includeDeleted || rec.deletedAt.isNone) &&
    accountId.all fun a => decide (rec.accountId = a)

/-- `rec.date_start ASC NULLS LAST, rec.created_at ASC` within an account, else
`rec.created_at DESC`. -/
def reconciliationLe (accountId : Option Uuid) (r s : Row .reconciliations) : Bool :=
  if accountId.isSome then
    match r.dateStart, s.dateStart with
    | some x, some y => decide (x < y ∨ x = y ∧ r.createdAt ≤ s.createdAt)
    | some _, none => true
    | none, some _ => false
    | none, none => decide (r.createdAt ≤ s.createdAt)
  else decide (s.createdAt ≤ r.createdAt)

/-- The page computes `difference_cents` for its own rows. -/
def listReconciliations (userId : Uuid) (accountId : Option Uuid) (includeDeleted : Bool)
    (limit offset : Nat) : Op (Paginated ReconciliationResponse) := do
  let conditions := reconciliationConditions userId accountId includeDeleted
  let total ← read .other fun db => ((db.rows .reconciliations).filter conditions).length
  let (rows, inRange) ← read .other fun db =>
    let page := ((((db.rows .reconciliations).filter conditions).insertionSort
      fun r s => reconciliationLe accountId r s).drop offset).take limit
    (page.map fun rec =>
      ({ rec with differenceCents := differenceCents db rec } : ReconciliationResponse),
      page.all (differenceInRange db))
  if inRange then return ⟨rows, total, limit, offset⟩ else .fail .database

structure ReconciliationDetailResponse extends ReconciliationResponse where
  transactions : List TransactionResponse
  transactionsTotal : Nat
  transactionsLimit : Nat
  transactionsOffset : Nat
  transactionsTruncated : Bool

def getReconciliation (userId reconciliationId : Uuid) (debitAsNegative : Bool)
    (limit offset : Nat) : Op ReconciliationDetailResponse := do
  let recon ← orRaise (← fetchReconciliation .other userId reconciliationId .active)
    (notFound "reconciliation")
  let (txnRows, transactionsTotal) ← listPage .transactions
    (fun _ => isMember reconciliationId userId)
    (fun r s => s.date < r.date ∨ r.date = s.date ∧ s.createdAt ≤ r.createdAt) limit offset
  let txns ← attachHashtagIdsAll txnRows
  return { recon with
    transactions := if debitAsNegative then txns.map applyDebitAsNegative else txns
    transactionsTotal := transactionsTotal
    transactionsLimit := limit
    transactionsOffset := offset
    transactionsTruncated := decide (offset + txnRows.length < transactionsTotal) }

/-! ## GET /dashboard -/

structure DashboardAccount where
  id : Uuid
  name : Text
  currencyCode : Text
  currentBalanceCents : Int
  currentBalanceHomeCents : Option Int
  deriving DecidableEq

def dashboardAccountFromRow (row : Row .bankAccounts) (balanceCents : Int)
    (balanceHomeCents : Option Int) : DashboardAccount :=
  ⟨row.id, row.name, row.currencyCode, balanceCents, balanceHomeCents⟩

structure DashboardResponse where
  month : Int × Int
  bankAccounts : List DashboardAccount
  people : List DashboardAccount
  flow : MonthFlow
  archivedAccounts : Option (List DashboardAccount)
  archivedPeople : Option (List DashboardAccount)
  deriving DecidableEq

section Dashboard

variable [Locale]

/-- One of the four panels of accounts. -/
def loadAccounts (env : Env) (userId : Uuid) (mainCurrency : Text) (today : Date)
    (isPerson archived : Bool) : Op (List DashboardAccount) := do
  let rows ← read .other fun db =>
    ((db.rows .bankAccounts).filter fun a => decide (a.userId = userId ∧ a.deletedAt = none ∧
      a.isPerson = isPerson ∧ a.isArchived = archived)).insertionSort fun a b =>
        a.sortOrder < b.sortOrder ∨ a.sortOrder = b.sortOrder ∧ Locale.nameLe a.name b.name = true
  let balances ← fetchBalances userId (rows.map fun a => a.id)
  let homes ← fetchHomeBalances env mainCurrency today balances
    (rows.map fun a => (a.id, a.currencyCode))
  return rows.map fun a =>
    dashboardAccountFromRow a ((balances.lookup a.id).getD 0) (homes.lookup a.id).join

/-- The two archived panels are empty unless they are asked for. -/
def loadArchived (env : Env) (userId : Uuid) (mainCurrency : Text) (today : Date)
    (includeArchived : Bool) :
    Op (Option (List DashboardAccount) × Option (List DashboardAccount)) :=
  if includeArchived then do
    let accounts ← loadAccounts env userId mainCurrency today false true
    let people ← loadAccounts env userId mainCurrency today true true
    return (some accounts, some people)
  else pure (none, none)

def getDashboard (env : Env) (thisMonth : Text → Int × Int) (userId : Uuid)
    (includeArchived : Bool) : Op DashboardResponse := do
  let settings ← getUserReportSettings userId
  let (year, month, startUtc, endUtc) ← orRaise
    (computeMonthBounds thisMonth settings.displayTimezone none none) internalError
  let today := env.today (resolveTimezone settings.displayTimezone)
  let bankAccounts ← loadAccounts env userId settings.mainCurrency today false false
  let people ← loadAccounts env userId settings.mainCurrency today true false
  let flow ← computeMonthFlow userId startUtc endUtc settings.displayTimezone
  let (archivedAccounts, archivedPeople) ←
    loadArchived env userId settings.mainCurrency today includeArchived
  return ⟨(year, month), bankAccounts, people, flow, archivedAccounts, archivedPeople⟩

end Dashboard

/-! ## GET /reports/monthly -/

def maxRangeMonths : Int := 24

structure MonthlyReportQuery where
  year : Option Int
  month : Option Int
  fromYear : Option Int
  fromMonth : Option Int
  toYear : Option Int
  toMonth : Option Int

structure MonthlyReport where
  month : Int × Int
  flow : MonthFlow
  deriving DecidableEq

/-- The single-month form, or the range form. -/
inductive MonthlyReportResponse where
  | one (report : MonthlyReport)
  | range (months : List MonthlyReport)

def monthCount (fromYear fromMonth toYear toMonth : Int) : Int :=
  (toYear - fromYear) * 12 + (toMonth - fromMonth) + 1

def iterMonths (year month toYear toMonth : Int) : List (Int × Int) :=
  if year < toYear ∨ year = toYear ∧ month ≤ toMonth then
    (year, month) ::
      if month + 1 > 12 then iterMonths (year + 1) 1 toYear toMonth
      else iterMonths year (month + 1) toYear toMonth
  else []
termination_by ((toYear + 1 - year).toNat, (12 - month).toNat)

/-- The parameters of the list that are given, and those that are missing, with
the text reported for each. -/
def namedParams (params : List (String × Option Int)) (given : Bool) (text : String) :
    List (String × String) :=
  (params.filter fun p => p.2.isSome == given).map fun p => (p.1, text)

/-- What the parameters are refused for before anything is read. -/
def queryError (q : MonthlyReportQuery) : Option AppError :=
  let single := [("year", q.year), ("month", q.month)]
  let range := [("from_year", q.fromYear), ("from_month", q.fromMonth), ("to_year", q.toYear),
    ("to_month", q.toMonth)]
  let singleCount := single.countP fun p => p.2.isSome
  let rangeCount := range.countP fun p => p.2.isSome
  if 0 < singleCount ∧ 0 < rangeCount then
    some (validationError ("Pass either (year, month) or (from_year, from_month, to_year, " ++
      "to_month), not both.") (namedParams single true "mutually exclusive with range form"))
  else if singleCount = 0 ∧ rangeCount = 0 then
    some (validationError ("Missing query parameters. Use (year, month) for a single month or " ++
      "(from_year, from_month, to_year, to_month) for a range.")
      (namedParams single false "required (single-month form)" ++
        namedParams range false "required (range form)"))
  else if singleCount = 1 then
    some (validationError "Single-month form requires both year and month."
      (namedParams single false "required"))
  else if 0 < rangeCount ∧ rangeCount < 4 then
    some (validationError "Range form requires all of from_year, from_month, to_year, to_month."
      (namedParams range false "required"))
  else none

/-- What a complete range is refused for. -/
def rangeError (fromYear fromMonth toYear toMonth : Int) : Option AppError :=
  let count := monthCount fromYear fromMonth toYear toMonth
  if toYear < fromYear ∨ fromYear = toYear ∧ toMonth < fromMonth then
    some (validationError "Range is inverted: from_* must be on or before to_*."
      [("from_year", "after to_year"), ("to_year", "before from_year")])
  else if maxRangeMonths < count then
    some (validationError ("Range too large: " ++ toString count ++ " months requested (max " ++
      toString maxRangeMonths ++ ").")
      [("to_month", "narrow the range to at most " ++ toString maxRangeMonths ++ " months")])
  else none

section Report

variable [Locale]

def computeOne (userId : Uuid) (displayTimezone : Text) (year month : Int) : Op MonthlyReport := do
  let (resolvedYear, resolvedMonth, startUtc, endUtc) ← orRaise
    (computeMonthBounds (fun _ => (year, month)) displayTimezone (some year) (some month))
    internalError
  let flow ← computeMonthFlow userId startUtc endUtc displayTimezone
  return ⟨(resolvedYear, resolvedMonth), flow⟩

def getMonthlyReport (userId : Uuid) (q : MonthlyReportQuery) : Op MonthlyReportResponse := do
  match queryError q with
  | some e => raise e
  | none =>
    let settings ← getUserReportSettings userId
    let tz := settings.displayTimezone
    match q.year, q.month, q.fromYear, q.fromMonth, q.toYear, q.toMonth with
    | some year, some month, _, _, _, _ => .one <$> computeOne userId tz year month
    | _, _, some fromYear, some fromMonth, some toYear, some toMonth =>
      match rangeError fromYear fromMonth toYear toMonth with
      | some e => raise e
      | none =>
        .range <$> (iterMonths fromYear fromMonth toYear toMonth).mapM fun p =>
          computeOne userId tz p.1 p.2
    -- `queryError` leaves no other query
    | _, _, _, _, _, _ => raise internalError

end Report

end ExpenseEngine
