import ExpenseEngine.Num.Decimal
import ExpenseEngine.ReferenceData
import ExpenseEngine.Sql.Paging
import ExpenseEngine.Transactions

/-!
# Account balances and accounts

A balance is the signed sum of the active transactions of the account; nothing
stores it. Account responses carry it with its value in the home currency at
today's rate.
-/

namespace ExpenseEngine

open Num Sql Sql.Prog

/-! ## Decimals -/

/-- The default context of the `decimal` module. -/
def defaultContext : Context := ⟨28, -1000026, 999999⟩

/-- `(Decimal(1) / rate).quantize(Decimal("0.00000001"))` -/
def invertRate (rate : Rat) : Except Signal Rat := do
  let quotient ← defaultContext.fix (1 / rate)
  let units ← defaultContext.quantize roundHalfEven (-8) quotient
  return units * 10 ^ (-8 : Int)

/-- `_to_home_cents`: the product is rounded to the digits of the context before
it is rounded to cents. -/
def toHomeCents (balanceCents : Int) (rate : Rat) : Except Signal Int := do
  let product ← defaultContext.fix (balanceCents * rate)
  defaultContext.quantize roundHalfUp 0 product

variable [Platform]

/-! ## Balances -/

def balanceOf (db : Db) (userId accountId : Uuid) : Int :=
  (((db.rows .transactions).filter fun r =>
    decide (r.userId = userId ∧ r.deletedAt = none ∧ r.accountId = accountId)).map
      fun r => signedCents r.transactionType r.amountCents).sum

/-- The balances of exactly the accounts asked for. `SUM(…)::bigint` fails when
a sum is out of range. -/
def fetchBalances (userId : Uuid) (accountIds : List Uuid) : Op (List (Uuid × Int)) := do
  if accountIds.isEmpty then return []
  else
    let balances ← read .other fun db => accountIds.map fun a => (a, balanceOf db userId a)
    if balances.all fun b => inInt8 b.2 then return balances else .fail .database

def fetchBalance (userId accountId : Uuid) : Op Int := do
  let balances ← fetchBalances userId [accountId]
  return (balances.lookup accountId).getD 0

/-! ## Rates -/

/-- The settings of a user for a home conversion. A home currency other than the
one the engine converts to is a `RuntimeError`. -/
def getUserReportSettings (userId : Uuid) : Op (Row .userSettings) := do
  let row ← orRaise (← fetchRow .other .userSettings fun r => decide (r.userId = userId))
    settingsMissing
  raiseIf (row.mainCurrency ≠ homeCurrency) internalError
  return row

/-- The latest rate of `target` on or before `asOf`. -/
def storedRate (db : Db) (target : Text) (asOf : Date) : RateResult :=
  (latestBy (fun r => r.rateDate) ((db.rows .exchangeRates).filter fun r =>
    decide (r.baseCurrency = baseCurrency ∧ r.targetCurrency = target ∧ r.rateDate ≤ asOf))).map
      fun r => (r.rate, r.rateDate)

/-- `_fetch_rate_from_db`. -/
def rateFromDb (db : Db) (fromCurrency toCurrency : Text) (asOf : Date) :
    Except Signal RateResult :=
  if fromCurrency = toCurrency then .ok (some (1, asOf))
  else if fromCurrency = baseCurrency then .ok (storedRate db toCurrency asOf)
  else if toCurrency = baseCurrency then
    match storedRate db fromCurrency asOf with
    | none => .ok none
    | some (rate, rateDate) =>
      if rate = 0 then .ok none else (invertRate rate).map fun inverse => some (inverse, rateDate)
  else .ok none

/-- An exception of the `decimal` module is no `AppError`. -/
def orSignal {α : Type} (result : Except Signal α) : Op α :=
  orRaise result.toOption internalError

def getRate (env : Env) (fromCurrency toCurrency : Text) (asOf : Date) : Op RateResult :=
  let source := Platform.pyUpper fromCurrency
  let target := Platform.pyUpper toCurrency
  match env.rateCache source target asOf with
  | some cached => pure cached
  | none => do
    let result ← read .other fun db => rateFromDb db source target asOf
    orSignal result

/-- The value of a balance at a rate that may not be known. -/
def convertBalance (balanceCents : Int) (rate : Option Rat) : Op (Option Int) :=
  match rate with
  | none => return none
  | some rate => do
    let cents ← orSignal (toHomeCents balanceCents rate)
    return some cents

/-- `none` means that no rate is known for the currency today. -/
def fetchHomeBalance (env : Env) (userId : Uuid) (currencyCode : Text) (balanceCents : Int) :
    Op (Option Int) := do
  let settings ← getUserReportSettings userId
  let today := env.today (resolveTimezone settings.displayTimezone)
  let result ← getRate env currencyCode settings.mainCurrency today
  convertBalance balanceCents (result.map Prod.fst)

/-! ## Accounts -/

structure AccountCreateRequest where
  id : Uuid
  name : Text
  currencyCode : Text
  color : Option Text
  sortOrder : Option Int

structure OpeningBalanceRequest where
  transactionId : Uuid
  amountCents : Int
  date : Timestamp
  title : Option Text

structure AccountFields where
  name : Option Text
  color : Option Text
  sortOrder : Option Int
  currencyCode : Option Text
  deriving DecidableEq

def accountFromRow (row : Row .bankAccounts) (balanceCents : Int) (balanceHomeCents : Option Int) :
    Body :=
  .account { row with
    currentBalanceCents := balanceCents, currentBalanceHomeCents := balanceHomeCents }

/-- The balance of an account with its home value. -/
def fetchBothBalances (env : Env) (userId : Uuid) (row : Row .bankAccounts) :
    Op (Int × Option Int) := do
  let balanceCents ← fetchBalance userId row.id
  let home ← fetchHomeBalance env userId row.currencyCode balanceCents
  return (balanceCents, home)

/-- The row a create request stores, under its normalized name. -/
def newAccountRow (env : Env) (userId : Uuid) (body : AccountCreateRequest) (isPerson : Bool)
    (name : Text) (sortOrder : Int) : Row .bankAccounts :=
  ({ id := body.id, userId := userId, createdAt := env.now, updatedAt := env.now
     version := 1, deletedAt := none, name := name, currencyCode := body.currencyCode
     isPerson := isPerson, color := body.color.getD defaultAccountColor, isArchived := false
     sortOrder := sortOrder } : AccountRow)

def createAccount (env : Env) (userId : Uuid) (body : AccountCreateRequest) (isPerson : Bool) :
    Op Body := do
  let name ← normalizeName body.name "name"
  validateColor body.color
  match currencyCodeError body.currencyCode with
  | some message => raise (validationError "Invalid currency code." [("currency_code", message)])
  | none =>
    raiseIf ((← nameTaken .bankAccounts userId name none
        fun r => decide (r.currencyCode = body.currencyCode)) = true)
      (conflict ("An account named " ++ quoted name ++ " with currency " ++
        quoted body.currencyCode ++ " already exists."))
    let sortOrder ← slotOrNext .bankAccounts userId (fun r => decide (r.isPerson = isPerson))
      body.sortOrder
    let row := newAccountRow env userId body isPerson name sortOrder
    let o ← insertRow .bankAccounts row
    raiseIf (o ≠ .inserted)
      (conflict ("An account with id '" ++ uuidStr body.id ++ "' already exists."))
    let home ← fetchHomeBalance env userId row.currencyCode 0
    writeActivityLog env (env.uuid 0) userId "account" row.id .created none
      (some (accountFromRow row 0 home))
    return accountFromRow row 0 home

/-- The account already carries an active opening balance. -/
def hasOpeningBalance (db : Db) (userId accountId : Uuid) : Bool :=
  (db.rows .transactions).any fun t =>
    decide (t.userId = userId ∧ t.accountId = accountId ∧ t.deletedAt = none) &&
      (db.rows .categories).any fun c =>
        decide (c.id = t.categoryId ∧ c.systemKey = some .openingBalance ∧ c.deletedAt = none)

/-- `(title or "").strip() or "Opening balance"`. -/
def openingTitle (title : Option Text) : Text :=
  (cleanName title).getD "Opening balance".toList

def createOpeningBalance (env : Env) (userId accountId : Uuid) (body : OpeningBalanceRequest) :
    Op Body := do
  let account ← validateActiveAccount accountId userId
  raiseIf (account.isPerson = true) (validationError "Account validation failed."
    [("account_id", "Person accounts cannot carry an opening balance.")])
  let existing ← read .other fun db => hasOpeningBalance db userId accountId
  raiseIf (existing = true) (conflict ("This account already has an opening balance. " ++
    "Edit or delete the existing opening-balance transaction instead."))
  let categoryId ← ensureSystemCategory env userId .openingBalance
  createTransaction env userId
    { id := body.transactionId, title := openingTitle body.title, amountCents := body.amountCents
      date := body.date, accountId := accountId, categoryId := categoryId, description := none
      hashtagIds := [] } true

def setAccount (fields : AccountFields) (name : Option Text) : Change Row .bankAccounts :=
  ⟨fun r =>
    { r with
      name := name.getD r.name
      color := fields.color.getD r.color
      sortOrder := fields.sortOrder.getD r.sortOrder },
   fun _ => rfl⟩

/-- Normalize a new account name and refuse one that is taken in the account's
currency. -/
def renameAccount (userId : Uuid) (beforeRow : Row .bankAccounts) : Option Text → Op (Option Text)
  | none => pure none
  | some n => do
    let name ← normalizeName n "name"
    raiseIf ((← nameTaken .bankAccounts userId name (some beforeRow.id)
        fun r => decide (r.currencyCode = beforeRow.currencyCode)) = true)
      (conflict ("An account named " ++ quoted name ++ " with this currency already exists."))
    return some name

def updateAccount (env : Env) (userId accountId : Uuid) (fields : AccountFields) : Op Body := do
  validateColor fields.color
  raiseIf fields.currencyCode.isSome
    (validationError "currency_code is immutable after creation."
      [("currency_code", "Cannot be changed after account creation.")])
  let beforeRow ← fetchOwnedRowOr404 .bankAccounts accountId userId "account" .active
  if fields = ⟨none, none, none, none⟩ then
    let (balanceCents, home) ← fetchBothBalances env userId beforeRow
    return accountFromRow beforeRow balanceCents home
  else
    let name ← renameAccount userId beforeRow fields.name
    let (balanceCents, home) ← fetchBothBalances env userId beforeRow
    let afterRow ← orRaise
      (← dynamicUpdate env .bankAccounts (setAccount fields name) accountId userId)
      (notFound "account")
    writeActivityLog env (env.uuid 0) userId "account" accountId .updated
      (some (accountFromRow beforeRow balanceCents home))
      (some (accountFromRow afterRow balanceCents home))
    return accountFromRow afterRow balanceCents home

def deleteAccount (env : Env) (userId accountId : Uuid) : Op Body := do
  let row ← fetchOwnedRowOr404 .bankAccounts accountId userId "account" .active
  let hasTxns ← fetchRow (.references .bankAccounts accountId) .transactions fun r =>
    decide (r.accountId = accountId ∧ r.userId = userId ∧ r.deletedAt = none)
  raiseIf hasTxns.isSome (conflict "Account has active transactions. Archive instead.")
  let (balanceCents, home) ← fetchBothBalances env userId row
  softDeleteWithAudit env userId .bankAccounts "account" row
    (accountFromRow row balanceCents home) fun r => pure (accountFromRow r balanceCents home)

def restoreAccount (env : Env) (userId accountId : Uuid) : Op Body := do
  let beforeRow ← fetchOwnedRowOr404 .bankAccounts accountId userId "account" .deleted
  raiseIf ((← nameTaken .bankAccounts userId beforeRow.name (some accountId)
      fun r => decide (r.currencyCode = beforeRow.currencyCode)) = true)
    (conflict ("Cannot restore account: an active account named " ++ quoted beforeRow.name ++
      " with this currency already exists."))
  let (balanceCents, home) ← fetchBothBalances env userId beforeRow
  restoreWithAudit env userId .bankAccounts "account" beforeRow
    (accountFromRow beforeRow balanceCents home) fun r => pure (accountFromRow r balanceCents home)

def setArchived (archived : Bool) : Change Row .bankAccounts :=
  ⟨fun r => { r with isArchived := archived }, fun _ => rfl⟩

/-- `archive` and `unarchive`. -/
def setAccountArchive (env : Env) (userId accountId : Uuid) (archived : Bool) : Op Body := do
  let beforeRow ← fetchOwnedRowOr404 .bankAccounts accountId userId "account" .active
  let (balanceCents, home) ← fetchBothBalances env userId beforeRow
  let afterRow ← orRaise
    (← updateRow .bankAccounts (owns .bankAccounts accountId userId .either)
      (bumped .bankAccounts env.now (setArchived archived)))
    internalError
  writeActivityLog env (env.uuid 0) userId "account" accountId .updated
    (some (accountFromRow beforeRow balanceCents home))
    (some (accountFromRow afterRow balanceCents home))
  return accountFromRow afterRow balanceCents home

/-- `GET /accounts/{account_id}`. -/
def getAccount (env : Env) (userId accountId : Uuid) : Op Body := do
  let row ← fetchOwnedRowOr404 .bankAccounts accountId userId "account" .active
  let (balanceCents, home) ← fetchBothBalances env userId row
  return accountFromRow row balanceCents home

end ExpenseEngine
