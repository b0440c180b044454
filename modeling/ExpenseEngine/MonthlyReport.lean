import ExpenseEngine.Accounts
import ExpenseEngine.Time.Calendar

/-!
# The home currency in SQL and the monthly report

One month of one user in the home currency: every category with its hashtag
breakdown, and the totals. Categories, breakdowns and totals come from three
queries; a row without a rate has no home value, and a figure that covers one is
reported as `none`.
-/

namespace ExpenseEngine

open Num Sql Sql.Prog

/-- What the reports take from the installation: the time zone data, and whether
the collation puts one name at or before another. -/
class Locale where
  zone : Text → Time.Zone
  nameLe : Text → Text → Bool

variable [Platform]

/-! ## Home currency fragments -/

section HomeCurrency

variable [Locale]

/-- `(t.date AT TIME ZONE tz)::date`: the day whose rate prices the row. -/
def rateDate (displayTimezone : Text) (date : Timestamp) : Date :=
  Time.dateOf ((Locale.zone displayTimezone).toLocal date)

/-- The account a row of the ledger is joined with. -/
def accountJoin (db : Db) (t : Row .transactions) : Option (Row .bankAccounts) :=
  (db.rows .bankAccounts).find? fun a => decide (a.id = t.accountId)

/-- `home_rate_join`: the rate of the row, NULL when it needs none or none is
known. -/
def homeRateJoin (db : Db) (displayTimezone : Text) (t : Row .transactions)
    (a : Option (Row .bankAccounts)) : Option Rat :=
  if a.any fun x => decide (x.currencyCode ≠ homeCurrency ∧ x.currencyCode = "USD".toList) then
    (storedRate db homeCurrency (rateDate displayTimezone t.date)).map Prod.fst
  else none

/-- What the evaluation of an expression raises. -/
inductive SqlError where
  | bigintOutOfRange
  deriving DecidableEq

/-- `n::bigint` -/
def castBigint (n : Int) : Except SqlError Int :=
  if inInt8 n then .ok n else .error .bigintOutOfRange

/-- `HOME_CENTS_EXPR`: the unsigned home value, or NULL. Postgres `round` takes the
exact product and puts halves away from zero; the cast after it raises when the
result is no `bigint`. -/
def homeCents (db : Db) (displayTimezone : Text) (t : Row .transactions) :
    Except SqlError (Option Int) :=
  let a := accountJoin db t
  if a.any fun x => decide (x.currencyCode = homeCurrency) then .ok (some t.amountCents)
  else match homeRateJoin db displayTimezone t a with
    | some rate => (castBigint (roundHalfUp (t.amountCents * rate))).map some
    | none => .ok none

/-- `SIGNED_HOME_CENTS_EXPR` -/
def signedHomeCents (db : Db) (displayTimezone : Text) (t : Row .transactions) :
    Except SqlError (Option Int) :=
  (homeCents db displayTimezone t).map (Option.map (signedCents t.transactionType))

/-- `UNCONVERTIBLE_FLAG_EXPR` -/
def unconvertibleFlag (db : Db) (displayTimezone : Text) (t : Row .transactions) :
    Except SqlError Int :=
  (homeCents db displayTimezone t).map fun cents => if cents.isNone then 1 else 0

end HomeCurrency

/-! ## The month -/

def datetimeMin : Timestamp := Time.midnight (Time.dayNumber 1 1 1)

def datetimeMax : Timestamp := Time.midnight (Time.dayNumber 9999 12 31 + 1) - 1

/-- `datetime(year, month, 1)`; fails out of range. -/
def firstOfMonth (year month : Int) : Option Timestamp :=
  if 1 ≤ year ∧ year ≤ 9999 ∧ 1 ≤ month ∧ month ≤ 12 then
    some (Time.midnight (Time.dayNumber year month 1))
  else none

/-- `local.astimezone(timezone.utc)`; fails out of range. -/
def toUtc (zone : Time.Zone) (reading : Timestamp) : Option Timestamp :=
  let t := zone.fromLocal reading
  if datetimeMin ≤ t ∧ t ≤ datetimeMax then some t else none

/-- The month and its first instant, and the first instant after it. `thisMonth`
is what the clock shows in the zone; `none` stands for the exceptions of
`datetime`. -/
def computeMonthBounds [Locale] (thisMonth : Text → Int × Int) (displayTimezone : Text)
    (year month : Option Int) : Option (Int × Int × Timestamp × Timestamp) := do
  let tz := resolveTimezone displayTimezone
  let (year, month) :=
    match year, month with
    | some year, some month => (year, month)
    | _, _ => thisMonth tz
  let startLocal ← firstOfMonth year month
  let endLocal ←
    (if month = 12 then firstOfMonth (year + 1) 1 else firstOfMonth year (month + 1))
  return (year, month, ← toUtc (Locale.zone tz) startLocal, ← toUtc (Locale.zone tz) endLocal)

/-! ## The flow of a month -/

structure BreakdownRow where
  hashtagIds : List Uuid
  spentHomeCents : Option Int
  unconvertedCount : Int
  deriving DecidableEq

structure CategoryFlow where
  id : Uuid
  name : Text
  spentHomeCents : Option Int
  unconvertedCount : Int
  hashtagBreakdown : List BreakdownRow
  deriving DecidableEq

structure FlowTotals where
  inflowHomeCents : Option Int
  outflowHomeCents : Option Int
  netHomeCents : Option Int
  unconvertedCount : Int
  deriving DecidableEq

structure MonthFlow where
  categories : List CategoryFlow
  totals : FlowTotals
  deriving DecidableEq

/-- `SUM` skips NULLs and is NULL over no value. -/
def sqlSum (values : List (Option Int)) : Option Int :=
  match values.filterMap id with
  | [] => none
  | xs => some xs.sum

/-- Python's `sum`, which fails on a `None`. -/
def pySum (values : List (Option Int)) : Option Int := (values.mapM id).map List.sum

/-- The rows of the ledger that a month counts. -/
def isInMonth (db : Db) (userId : Uuid) (startUtc endUtc : Timestamp) (t : Row .transactions) :
    Bool :=
  decide (t.userId = userId ∧ t.deletedAt = none ∧ startUtc ≤ t.date ∧ t.date < endUtc) &&
    !(db.rows .categories).any fun c =>
      decide (c.id = t.categoryId ∧ c.systemKey = some .openingBalance)

section Flow

variable [Locale]

/-- A row of `signed_txns`. -/
structure SignedTxn where
  categoryId : Uuid
  signedHomeCents : Option Int
  isUnconvertible : Int
  hashtagIds : List Uuid

def signedTxn (db : Db) (displayTimezone : Text) (t : Row .transactions) :
    Except SqlError SignedTxn := do
  let signed ← signedHomeCents db displayTimezone t
  let flag ← unconvertibleFlag db displayTimezone t
  return { categoryId := t.categoryId, signedHomeCents := signed, isUnconvertible := flag
           hashtagIds := hashtagIdsOf db t.id .ledger }

def monthRows (db : Db) (userId : Uuid) (startUtc endUtc : Timestamp) : List (Row .transactions) :=
  (db.rows .transactions).filter (isInMonth db userId startUtc endUtc)

/-- The `signed_txns` of a query. The query fails when the expressions of one row
raise. -/
def fetchSignedTxns (userId : Uuid) (startUtc endUtc : Timestamp) (displayTimezone : Text) :
    Op (List SignedTxn) := do
  let txns ← read .other fun db =>
    (monthRows db userId startUtc endUtc).mapM (signedTxn db displayTimezone)
  match txns with
  | .ok txns => return txns
  | .error _ => .fail .database

/-- The categories of the report, in their order. -/
def reportCategories (db : Db) (userId : Uuid) : List (Row .categories) :=
  ((db.rows .categories).filter fun c =>
    decide (c.userId = userId ∧ c.deletedAt = none ∧ c.systemKey ≠ some .openingBalance))
    |>.insertionSort fun c d =>
      decide (c.sortOrder < d.sortOrder) ||
        decide (c.sortOrder = d.sortOrder) && Locale.nameLe c.name d.name

end Flow

/-- One group of the breakdown query. -/
structure BreakdownGroup where
  categoryId : Uuid
  hashtagIds : List Uuid
  spentHomeCents : Option Int
  unconvertedCount : Int

def SignedTxn.groupKey (s : SignedTxn) : Uuid × List Uuid := (s.categoryId, s.hashtagIds)

/-- `ORDER BY category_id, hashtag_ids` -/
def groupKeyLe (j k : Uuid × List Uuid) : Bool :=
  decide (j.1 < k.1) || decide (j.1 = k.1) && decide (j.2 ≤ k.2)

/-- `GROUP BY category_id, hashtag_ids` -/
def breakdownGroups (txns : List SignedTxn) : List BreakdownGroup :=
  ((txns.map SignedTxn.groupKey).dedup.insertionSort fun j k => groupKeyLe j k).map fun k =>
    let group := txns.filter fun s => decide (s.groupKey = k)
    { categoryId := k.1, hashtagIds := k.2
      spentHomeCents := sqlSum (group.map fun s => s.signedHomeCents)
      unconvertedCount := (group.map fun s => s.isUnconvertible).sum }

/-- A group as the report shows it: nothing instead of a sum that omits a row.
`none` is the `TypeError` of `int(None)`. -/
def breakdownRow (g : BreakdownGroup) : Option (Uuid × BreakdownRow) :=
  if g.unconvertedCount ≠ 0 then
    some (g.categoryId, ⟨g.hashtagIds, none, g.unconvertedCount⟩)
  else g.spentHomeCents.map fun spent =>
    (g.categoryId, ⟨g.hashtagIds, some spent, g.unconvertedCount⟩)

/-- One category, rolled up from its breakdown. -/
def categoryFlow (breakdowns : List (Uuid × BreakdownRow)) (c : Row .categories) :
    Option CategoryFlow :=
  let rows := (breakdowns.filter fun b => decide (b.1 = c.id)).map Prod.snd
  let unconverted := (rows.map fun r => r.unconvertedCount).sum
  if unconverted ≠ 0 then some ⟨c.id, c.name, none, unconverted, rows⟩
  else (pySum (rows.map fun r => r.spentHomeCents)).map fun spent =>
    ⟨c.id, c.name, some spent, unconverted, rows⟩

/-- `SUM(CASE WHEN signed > 0 THEN signed ELSE 0 END)` -/
def inflowOf (txns : List SignedTxn) : Int :=
  (txns.map fun s => match s.signedHomeCents with
    | some n => if 0 < n then n else 0
    | none => 0).sum

/-- `SUM(CASE WHEN signed < 0 THEN -signed ELSE 0 END)` -/
def outflowOf (txns : List SignedTxn) : Int :=
  (txns.map fun s => match s.signedHomeCents with
    | some n => if n < 0 then -n else 0
    | none => 0).sum

def unconvertedOf (txns : List SignedTxn) : Int := (txns.map fun s => s.isUnconvertible).sum

def flowTotals (txns : List SignedTxn) : FlowTotals :=
  if unconvertedOf txns ≠ 0 then ⟨none, none, none, unconvertedOf txns⟩
  else ⟨some (inflowOf txns), some (outflowOf txns), some (inflowOf txns - outflowOf txns), 0⟩

/-- The sums of the breakdown and of the totals are `bigint`s. -/
def groupsInRange (txns : List SignedTxn) : Bool :=
  (breakdownGroups txns).all fun g => g.spentHomeCents.all inInt8 && inInt8 g.unconvertedCount

def totalsInRange (txns : List SignedTxn) : Bool :=
  inInt8 (inflowOf txns) && inInt8 (outflowOf txns) && inInt8 (unconvertedOf txns)

variable [Locale]

def computeMonthFlow (userId : Uuid) (startUtc endUtc : Timestamp) (displayTimezone : Text) :
    Op MonthFlow := do
  let tz := resolveTimezone displayTimezone
  let categoriesRows ← read .other fun db => reportCategories db userId
  let breakdownTxns ← fetchSignedTxns userId startUtc endUtc tz
  if groupsInRange breakdownTxns then
    let breakdowns ← orRaise ((breakdownGroups breakdownTxns).mapM breakdownRow) internalError
    let categories ← orRaise (categoriesRows.mapM (categoryFlow breakdowns)) internalError
    let totalsTxns ← fetchSignedTxns userId startUtc endUtc tz
    if totalsInRange totalsTxns then
      return { categories := categories, totals := flowTotals totalsTxns }
    else .fail .database
  else .fail .database

end ExpenseEngine
