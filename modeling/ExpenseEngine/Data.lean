import ExpenseEngine.Sql.Prog
import Mathlib.Algebra.Ring.Int.Defs
import Mathlib.Algebra.Ring.Nat
import Mathlib.Data.Char
import Mathlib.Data.List.Lex
import Mathlib.Data.Rat.Defs

/-!
# Rows, response bodies and errors

The rows of the engine's tables after the last migration, the response bodies
the serializers build from them, and the error envelope. A response body is the
row it serializes with the computed columns beside it, so the `…FromRow`
functions only add what the row does not hold. Columns that no modelled function
reads or writes are left out.
-/

namespace ExpenseEngine

/-- UUIDs as their 128-bit numbers; Postgres orders them the same way. -/
abbrev Uuid := Nat

abbrev Text := List Char

abbrev Timestamp := Int

/-- Calendar days, as day numbers. -/
abbrev Date := Int

/-! ## Constants -/

inductive TransactionType | outflow | inflow
  deriving DecidableEq

inductive TransactionSource | ledger | inbox
  deriving DecidableEq

inductive ActivityAction | created | updated | deleted | restored
  deriving DecidableEq

inductive ReconciliationStatus | draft | completed
  deriving DecidableEq

inductive InboxStatus | pending | promoted
  deriving DecidableEq

inductive SystemCategoryKey | openingBalance
  deriving DecidableEq

def homeCurrency : Text := "PEN".toList

def baseCurrency : Text := "USD".toList

/-- The rows of `global_currencies`. -/
def globalCurrencies : List Text := ["USD".toList, "PEN".toList]

instance (code : Text) : Decidable (code ∈ globalCurrencies) := inferInstance

def defaultAccountColor : Text := "#3b82f6".toList

/-- The column default of `expense_categories.color`. -/
def defaultCategoryColor : Text := "#6b7280".toList

def systemCategoryDefaultName : SystemCategoryKey → Text
  | .openingBalance => "@Opening".toList

/-! ## Rows -/

/-- The columns every owned resource has. -/
structure Resource where
  id : Uuid
  userId : Uuid
  createdAt : Timestamp
  updatedAt : Timestamp
  version : Int
  deletedAt : Option Timestamp
  deriving DecidableEq

structure AccountRow extends Resource where
  name : Text
  currencyCode : Text
  isPerson : Bool
  color : Text
  isArchived : Bool
  sortOrder : Int
  deriving DecidableEq

structure CategoryRow extends Resource where
  name : Text
  color : Text
  systemKey : Option SystemCategoryKey
  sortOrder : Int
  deriving DecidableEq

structure HashtagRow extends Resource where
  name : Text
  sortOrder : Int
  deriving DecidableEq

structure ReconciliationRow extends Resource where
  accountId : Uuid
  name : Text
  dateStart : Option Timestamp
  dateEnd : Option Timestamp
  status : ReconciliationStatus
  beginningBalanceCents : Int
  endingBalanceCents : Int
  deriving DecidableEq

structure InboxRow extends Resource where
  title : Option Text
  description : Option Text
  amountCents : Option Int
  transactionType : Option TransactionType
  date : Option Timestamp
  accountId : Option Uuid
  categoryId : Option Uuid
  status : InboxStatus
  deriving DecidableEq

structure TransactionRow extends Resource where
  title : Text
  description : Option Text
  amountCents : Int
  transactionType : TransactionType
  date : Timestamp
  accountId : Uuid
  categoryId : Uuid
  inboxId : Option Uuid
  reconciliationId : Option Uuid
  deriving DecidableEq

/-- A row of the polymorphic junction table. -/
structure TransactionHashtagRow where
  transactionId : Uuid
  transactionSource : TransactionSource
  hashtagId : Uuid
  userId : Uuid
  createdAt : Timestamp
  updatedAt : Timestamp
  deletedAt : Option Timestamp
  deriving DecidableEq

structure UserRow where
  id : Uuid
  displayName : Option Text
  lastLoginAt : Option Timestamp
  createdAt : Timestamp
  updatedAt : Timestamp
  deriving DecidableEq

structure UserSettingsRow where
  userId : Uuid
  mainCurrency : Text
  displayTimezone : Text
  version : Int
  createdAt : Timestamp
  updatedAt : Timestamp
  deriving DecidableEq

structure ExchangeRateRow where
  id : Uuid
  baseCurrency : Text
  targetCurrency : Text
  rate : Rat
  rateDate : Date
  deriving DecidableEq

structure PersonalAccessTokenRow where
  id : Uuid
  userId : Uuid
  tokenHash : Text
  tokenPrefix : Text
  name : Option Text
  createdAt : Timestamp
  revokedAt : Option Timestamp
  deriving DecidableEq

/-! ## Response bodies -/

structure TransactionResponse extends TransactionRow where
  hashtagIds : List Uuid
  deriving DecidableEq

structure InboxResponse extends InboxRow where
  hashtagIds : List Uuid
  deriving DecidableEq

structure ReconciliationResponse extends ReconciliationRow where
  differenceCents : Int
  deriving DecidableEq

structure AccountResponse extends AccountRow where
  currentBalanceCents : Int
  currentBalanceHomeCents : Option Int
  deriving DecidableEq

structure CategoryResponse extends CategoryRow where
  isSystem : Bool
  deriving DecidableEq

structure PatResponse where
  id : Uuid
  userId : Uuid
  tokenPrefix : Text
  name : Option Text
  createdAt : Timestamp
  revokedAt : Option Timestamp
  deriving DecidableEq

/-- The JSON objects the services return and the activity log stores. -/
inductive Body where
  | transaction (r : TransactionResponse)
  | restoredTransaction (r : TransactionResponse) (warnings : List String)
  | batch (created : List TransactionResponse)
  | inbox (r : InboxResponse)
  | reconciliation (r : ReconciliationResponse)
  | account (r : AccountResponse)
  | category (r : CategoryResponse)
  | hashtag (r : HashtagRow)
  | user (r : UserRow)
  | settings (r : UserSettingsRow)
  | bootstrap (user : UserRow) (settings : UserSettingsRow)
  | pat (r : PatResponse)
  | createdPat (token : Text) (r : PatResponse)
  deriving DecidableEq

structure ActivityLogRow where
  id : Uuid
  userId : Uuid
  resourceType : String
  resourceId : Uuid
  action : ActivityAction
  beforeSnapshot : Option Body
  afterSnapshot : Option Body
  changedBy : Uuid
  createdAt : Timestamp
  deriving DecidableEq

/-- `responseSnapshot = none` is the JSON `null` of a response that must not be
replayed; `requestHash = []` marks a row older than the fingerprints. -/
structure IdempotencyKeyRow where
  id : Uuid
  key : Text
  userId : Uuid
  responseSnapshot : Option Body
  responseStatus : Nat
  requestHash : Text
  createdAt : Timestamp
  deriving DecidableEq

/-! ## Errors -/

/-- The value of one entry of `fields`: a message, or the per-item errors of a
batch. -/
inductive FieldMessage where
  | text (message : String)
  | items (errors : List (Nat × List (String × String)))
  deriving DecidableEq

structure AppError where
  statusCode : Nat
  code : String
  message : String
  fields : Option (List (String × FieldMessage))
  deriving DecidableEq

def fieldErrors (errors : List (String × String)) : List (String × FieldMessage) :=
  errors.map fun e => (e.1, .text e.2)

def unauthorized (message : String) : AppError :=
  ⟨401, "UNAUTHORIZED", message, none⟩

def notFound (resource : String) : AppError :=
  ⟨404, "NOT_FOUND", resource ++ " not found.", none⟩

def validationError (message : String) (fields : List (String × String)) : AppError :=
  ⟨422, "VALIDATION_ERROR", message, some (fieldErrors fields)⟩

def forbidden (message : String) : AppError :=
  ⟨403, "FORBIDDEN", message, none⟩

def conflict (message : String) : AppError :=
  ⟨409, "CONFLICT", message, none⟩

def settingsMissing : AppError :=
  ⟨422, "SETTINGS_MISSING", "User settings not found. Call /auth/bootstrap first.",
    some [("user_settings", .text "Must be provisioned via POST /v1/auth/bootstrap.")]⟩

/-- What `unhandled_exception_handler` answers: a Python exception that is not
an `AppError`. -/
def internalError : AppError :=
  ⟨500, "INTERNAL_ERROR", "An unexpected error occurred.", none⟩

/-- `str(uuid)`: 32 hex digits in groups of 8, 4, 4, 4 and 12. -/
def uuidStr (u : Uuid) : String :=
  let digits := Nat.toDigits 16 u
  let padded := List.replicate (32 - digits.length) '0' ++ digits
  String.ofList
    (padded.take 8 ++ '-' :: (padded.drop 8).take 4 ++ '-' :: (padded.drop 12).take 4 ++
      '-' :: (padded.drop 16).take 4 ++ '-' :: padded.drop 20)

/-- A text between single quotes, as the messages quote names. -/
def quoted (s : Text) : String := "'" ++ String.ofList s ++ "'"

end ExpenseEngine
