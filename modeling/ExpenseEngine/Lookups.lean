import ExpenseEngine.Reads

/-!
# The other reads

The user's own records, the reference data, the activity log and the stored
exchange rates. With the reads of the ledger they are all GET endpoints, and
`ReadRequest` has one constructor for each.
-/

namespace ExpenseEngine

open Sql Sql.Prog

/-! ## Answers -/

structure ExchangeRateResponse where
  base : Text
  target : Text
  date : Date
  rateDate : Date
  rate : Rat
  deriving DecidableEq

structure ExchangeRateHistoryItem where
  base : Text
  target : Text
  rateDate : Date
  rate : Rat
  deriving DecidableEq

inductive ReadResponse where
  | body (b : Body)
  | bodies (page : Paginated Body)
  | transactions (page : Paginated TransactionResponse)
  | inbox (page : Paginated InboxResponse)
  | reconciliations (page : Paginated ReconciliationResponse)
  | reconciliation (r : ReconciliationDetailResponse)
  | dashboard (r : DashboardResponse)
  | monthlyReport (r : MonthlyReportResponse)
  | activity (page : Paginated ActivityLogRow)
  | exchangeRate (r : ExchangeRateResponse)
  | exchangeRateHistory (page : Paginated ExchangeRateHistoryItem)

variable [Platform]

/-! ## GET /auth/me -/

def me (userId : Uuid) : Op Body := do
  let userRow ← orRaise (← fetchRow .other .users fun r => decide (r.id = userId))
    (notFound "user")
  let settingsRow ← orRaise (← fetchRow .other .userSettings fun r => decide (r.userId = userId))
    (notFound "user_settings")
  return .bootstrap userRow settingsRow

/-! ## GET /categories and GET /hashtags -/

/-- The conditions of both lists. -/
def collectionConditions (t : Tbl) [OwnedTable t] (userId : Uuid) (includeDeleted : Bool) (_ : Db)
    (r : Row t) : Bool :=
  decide ((OwnedTable.resource r).userId = userId) &&
    (includeDeleted || (OwnedTable.resource r).deletedAt.isNone)

/-- `ORDER BY sort_order ASC, created_at ASC` -/
def slotLe (t : Tbl) [NamedTable t] (r s : Row t) : Bool :=
  decide (NamedTable.sortOrder r < NamedTable.sortOrder s ∨
    NamedTable.sortOrder r = NamedTable.sortOrder s ∧
      (OwnedTable.resource r).createdAt ≤ (OwnedTable.resource s).createdAt)

/-- `ORDER BY (system_key IS NOT NULL) DESC, sort_order ASC, created_at ASC` -/
def categoryLe (r s : Row .categories) : Bool :=
  if r.systemKey.isSome = s.systemKey.isSome then slotLe .categories r s else r.systemKey.isSome

def listCategories (userId : Uuid) (includeDeleted : Bool) (limit offset : Nat) :
    Op (Paginated Body) := do
  let (rows, total) ← listPage .categories (collectionConditions .categories userId includeDeleted)
    (fun r s => categoryLe r s = true) limit offset
  return ⟨rows.map categoryFromRow, total, limit, offset⟩

def listHashtags (userId : Uuid) (includeDeleted : Bool) (limit offset : Nat) :
    Op (Paginated Body) := do
  let (rows, total) ← listPage .hashtags (collectionConditions .hashtags userId includeDeleted)
    (fun r s => slotLe .hashtags r s = true) limit offset
  return ⟨rows.map .hashtag, total, limit, offset⟩

def getCategory (userId categoryId : Uuid) : Op Body := do
  return categoryFromRow (← fetchOwnedRowOr404 .categories categoryId userId "category" .active)

def getHashtag (userId hashtagId : Uuid) : Op Body := do
  return .hashtag (← fetchOwnedRowOr404 .hashtags hashtagId userId "hashtag" .active)

/-! ## GET /inbox/{inbox_id} -/

def getInboxItem (userId inboxId : Uuid) (debitAsNegative : Bool) : Op Body := do
  let row ← fetchOwnedRowOr404 .transactionInbox inboxId userId "inbox item" .active
  let data ← attachInboxHashtagIds row
  return .inbox (← if debitAsNegative then applyInboxDebit data else pure data)

/-! ## GET /activity -/

def activityConditions (userId : Uuid) (resourceType : Option String) (resourceId : Option Uuid)
    (_ : Db) (r : Row .activityLog) : Bool :=
  decide (r.userId = userId) && resourceType.all (fun s => decide (r.resourceType = s)) &&
    resourceId.all fun i => decide (r.resourceId = i)

def listActivity (userId : Uuid) (resourceType : Option String) (resourceId : Option Uuid)
    (limit offset : Nat) : Op (Paginated ActivityLogRow) := do
  let (rows, total) ← listPage .activityLog (activityConditions userId resourceType resourceId)
    (fun r s => s.createdAt ≤ r.createdAt) limit offset
  return ⟨rows, total, limit, offset⟩

/-! ## GET /exchange-rates -/

/-- The fields whose currency is not supported. -/
def currencyErrors (codes : List (String × Text)) : List (String × String) :=
  codes.filterMap fun p => (currencyCodeError p.2).map fun message => (p.1, message)

/-- The date asked for, or today where the user is. -/
def rateLookupDate (env : Env) (userId : Uuid) : Option Date → Op Date
  | some date => pure date
  | none => do
    let settings ← fetchRow .other .userSettings fun r => decide (r.userId = userId)
    let displayTimezone := (settings.map fun s => s.displayTimezone).getD "UTC".toList
    return env.today (resolveTimezone displayTimezone)

def getExchangeRate (env : Env) (userId : Uuid) (base target : Text) (date : Option Date) :
    Op ExchangeRateResponse := do
  let baseUpper := Platform.pyUpper base
  let targetUpper := Platform.pyUpper target
  let errors := currencyErrors [("base", baseUpper), ("target", targetUpper)]
  raiseIf (!errors.isEmpty) (validationError "Invalid currency code." errors)
  let targetDate ← rateLookupDate env userId date
  let result ← getRate env baseUpper targetUpper targetDate
  let found ← orRaise result (notFound ("exchange rate for " ++ String.ofList baseUpper ++ "->" ++
    String.ofList targetUpper))
  return ⟨baseUpper, targetUpper, targetDate, found.2, found.1⟩

/-! ## GET /exchange-rates/history -/

section History

variable [Locale]

/-- `ORDER BY rate_date DESC, base_currency ASC, target_currency ASC` -/
def historyLe (r s : Row .exchangeRates) : Bool :=
  if r.rateDate = s.rateDate then
    if r.baseCurrency = s.baseCurrency then Locale.nameLe r.targetCurrency s.targetCurrency
    else Locale.nameLe r.baseCurrency s.baseCurrency
  else decide (s.rateDate < r.rateDate)

def historyConditions (date : Option Date) (_ : Db) (r : Row .exchangeRates) : Bool :=
  date.all fun d => decide (r.rateDate = d)

/-- The rates of all users, so the endpoint does without `list_page`. -/
def listExchangeRateHistory (date : Option Date) (limit offset : Nat) :
    Op (Paginated ExchangeRateHistoryItem) := do
  let (rows, total) ← listPage .exchangeRates (historyConditions date)
    (fun r s => historyLe r s = true) limit offset
  return ⟨rows.map fun r => ⟨r.baseCurrency, r.targetCurrency, r.rateDate, r.rate⟩, total, limit,
    offset⟩

end History

/-! ## The reads -/

/-- The reading endpoints. The dashboard is of the month that the clock shows. -/
inductive ReadRequest where
  | me
  | listAccounts (includePeople includeArchived includeDeleted : Bool) (limit offset : Nat)
  | getAccount (id : Uuid)
  | listCategories (includeDeleted : Bool) (limit offset : Nat)
  | getCategory (id : Uuid)
  | listHashtags (includeDeleted : Bool) (limit offset : Nat)
  | getHashtag (id : Uuid)
  | listTransactions (filters : TransactionFilters) (debitAsNegative : Bool) (limit offset : Nat)
  | getTransaction (id : Uuid) (debitAsNegative : Bool)
  | listInbox (ready overdue includeDeleted debitAsNegative : Bool) (limit offset : Nat)
  | getInboxItem (id : Uuid) (debitAsNegative : Bool)
  | listReconciliations (accountId : Option Uuid) (includeDeleted : Bool) (limit offset : Nat)
  | getReconciliation (id : Uuid) (debitAsNegative : Bool) (limit offset : Nat)
  | getDashboard (thisMonth : Text → Int × Int) (includeArchived : Bool)
  | getMonthlyReport (q : MonthlyReportQuery)
  | listActivity (resourceType : Option String) (resourceId : Option Uuid) (limit offset : Nat)
  | getExchangeRate (base target : Text) (date : Option Date)
  | listExchangeRateHistory (date : Option Date) (limit offset : Nat)

variable [Locale] [CaseFolding]

/-- The handler of each endpoint. -/
def ReadRequest.answer (env : Env) (userId : Uuid) : ReadRequest → Op ReadResponse
  | .me => .body <$> ExpenseEngine.me userId
  | .listAccounts includePeople includeArchived includeDeleted limit offset =>
    .bodies <$> ExpenseEngine.listAccounts env userId includePeople includeArchived includeDeleted
      limit offset
  | .getAccount id => .body <$> ExpenseEngine.getAccount env userId id
  | .listCategories includeDeleted limit offset =>
    .bodies <$> ExpenseEngine.listCategories userId includeDeleted limit offset
  | .getCategory id => .body <$> ExpenseEngine.getCategory userId id
  | .listHashtags includeDeleted limit offset =>
    .bodies <$> ExpenseEngine.listHashtags userId includeDeleted limit offset
  | .getHashtag id => .body <$> ExpenseEngine.getHashtag userId id
  | .listTransactions filters debitAsNegative limit offset =>
    .transactions <$> ExpenseEngine.listTransactions userId filters debitAsNegative limit offset
  | .getTransaction id debitAsNegative =>
    (fun r => .body (.transaction r)) <$> ExpenseEngine.getTransaction userId id debitAsNegative
  | .listInbox ready overdue includeDeleted debitAsNegative limit offset =>
    .inbox <$> ExpenseEngine.listInbox env userId ready overdue includeDeleted debitAsNegative limit
      offset
  | .getInboxItem id debitAsNegative =>
    .body <$> ExpenseEngine.getInboxItem userId id debitAsNegative
  | .listReconciliations accountId includeDeleted limit offset =>
    .reconciliations <$> ExpenseEngine.listReconciliations userId accountId includeDeleted limit
      offset
  | .getReconciliation id debitAsNegative limit offset =>
    .reconciliation <$> ExpenseEngine.getReconciliation userId id debitAsNegative limit offset
  | .getDashboard thisMonth includeArchived =>
    .dashboard <$> ExpenseEngine.getDashboard env thisMonth userId includeArchived
  | .getMonthlyReport q => .monthlyReport <$> ExpenseEngine.getMonthlyReport userId q
  | .listActivity resourceType resourceId limit offset =>
    .activity <$> ExpenseEngine.listActivity userId resourceType resourceId limit offset
  | .getExchangeRate base target date =>
    .exchangeRate <$> ExpenseEngine.getExchangeRate env userId base target date
  | .listExchangeRateHistory date limit offset =>
    .exchangeRateHistory <$> ExpenseEngine.listExchangeRateHistory date limit offset

end ExpenseEngine
