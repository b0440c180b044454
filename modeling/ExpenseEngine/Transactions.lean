import ExpenseEngine.HashtagLinks

/-!
# Ledger transactions

Create, batch, update, delete and restore, statement by statement. A row stores
a positive amount with its direction; balances are sums over the active rows, so
no function here touches an account.
-/

namespace ExpenseEngine

open Sql Sql.Prog

/-! ## Requests -/

structure TransactionCreateRequest where
  id : Uuid
  title : Text
  amountCents : Int
  date : Timestamp
  accountId : Uuid
  categoryId : Uuid
  description : Option Text
  hashtagIds : List Uuid

/-- The columns of a PUT, after `hashtag_ids` and `reconciliation_id` have been
taken out; `none` is a field the request does not name. -/
structure TransactionFields where
  title : Option Text
  amountCents : Option Int
  date : Option Timestamp
  accountId : Option Uuid
  categoryId : Option Uuid
  description : Option Text
  deriving DecidableEq

def TransactionFields.none : TransactionFields := ⟨.none, .none, .none, .none, .none, .none⟩

variable [Platform]

/-! ## Shared reads and writes -/

/-- Status and `deleted_at` of a reconciliation of the user, deleted or not. -/
def fetchReconStatus (userId reconId : Uuid) : Op (Option (Row .reconciliations)) :=
  fetchRow (.reconStatus reconId) .reconciliations fun r =>
    decide (r.id = reconId ∧ r.userId = userId)

/-- The row an INSERT into the ledger proposes. No insert path assigns a
reconciliation. -/
def newTransactionRow (env : Env) (userId transactionId : Uuid) (title : Text)
    (description : Option Text) (amountCents : Int) (transactionType : TransactionType)
    (date : Timestamp) (accountId categoryId : Uuid) (inboxId : Option Uuid) :
    Row .transactions :=
  ({ id := transactionId, userId := userId, createdAt := env.now, updatedAt := env.now
     version := 1, deletedAt := none, title := title, description := description
     amountCents := amountCents, transactionType := transactionType, date := date
     accountId := accountId, categoryId := categoryId, inboxId := inboxId
     reconciliationId := none } : TransactionRow)

/-- The one INSERT into the ledger. -/
def insertTransactionRow (env : Env) (userId transactionId : Uuid) (title : Text)
    (description : Option Text) (amountCents : Int) (transactionType : TransactionType)
    (date : Timestamp) (accountId categoryId : Uuid) (inboxId : Option Uuid) :
    Op (Row .transactions) := do
  let row := newTransactionRow env userId transactionId title description amountCents
    transactionType date accountId categoryId inboxId
  let o ← insertRow .transactions row
  raiseIf (o ≠ .inserted)
    (conflict ("A transaction with id '" ++ uuidStr transactionId ++ "' already exists."))
  return row

/-- The row a create request stores: a positive amount and its direction. -/
def requestedRow (env : Env) (userId : Uuid) (body : TransactionCreateRequest) :
    Row .transactions :=
  newTransactionRow env userId body.id (strip body.title) body.description
    (absCents body.amountCents) (inferTransactionType body.amountCents) body.date body.accountId
    body.categoryId none

/-! ## Create -/

def createTransaction (env : Env) (userId : Uuid) (body : TransactionCreateRequest)
    (allowSystemCategory : Bool) : Op Body := do
  let now ← dbNow env
  let errors :=
    (if (cleanName (some body.title)).isNone then [("title", msgNotEmpty)] else []) ++
    (if body.amountCents = 0 then [("amount_cents", msgNotZero)] else []) ++
    (if now < body.date then [("date", msgNotFuture)] else [])
  raiseIf (!errors.isEmpty) (validationError "Transaction validation failed." errors)
  let _ ← validateActiveAccount body.accountId userId
  let category ← validateActiveCategory body.categoryId userId
  raiseIf (allowSystemCategory = false ∧ category.systemKey ≠ none)
    (validationError "Category validation failed." [("category_id", msgUserCategory)])
  let row ← insertTransactionRow env userId body.id (strip body.title) body.description
    (absCents body.amountCents) (inferTransactionType body.amountCents) body.date
    body.accountId body.categoryId none
  syncIfAny env row.id userId body.hashtagIds .ledger
  let response ← attachHashtagIds row
  writeActivityLog env (env.uuid 0) userId "transaction" row.id .created none
    (some (.transaction response))
  return .transaction response

/-! ## Update -/

/-- The fields of the request that a completed reconciliation locks. -/
def attemptedLocked (fields : TransactionFields) (reconId : Sent Uuid) : List String :=
  (if fields.amountCents.isSome then ["amount_cents"] else []) ++
  (if fields.accountId.isSome then ["account_id"] else []) ++
  (if fields.title.isSome then ["title"] else []) ++
  (if fields.date.isSome then ["date"] else []) ++
  (if reconId.isSome then ["reconciliation_id"] else [])

/-- The field lock of a completed reconciliation. -/
def checkCompletedLock (userId : Uuid) (beforeRow : Row .transactions) (fields : TransactionFields)
    (reconId : Sent Uuid) : Op Unit :=
  match beforeRow.reconciliationId with
  | none => pure ()
  | some rid => do
    let recon ← fetchReconStatus userId rid
    let attempted := attemptedLocked fields reconId
    raiseIf (recon.any (fun r => r.status = .completed) && !attempted.isEmpty) (validationError
      "Transaction belongs to a completed reconciliation. These fields are locked."
      (attempted.map fun f => (f, "Locked by completed reconciliation.")))

def reconciliationError (message : String) : AppError :=
  validationError "Reconciliation validation failed." [("reconciliation_id", message)]

/-- Validate the assignment to a reconciliation, when the request makes one. -/
def checkAssignment (userId : Uuid) (beforeRow : Row .transactions) (fields : TransactionFields) :
    Sent Uuid → Op Unit
  | some (some rid) => do
    let found ← fetchRow (.reconStatus rid) .reconciliations fun r =>
      decide (r.id = rid ∧ r.userId = userId ∧ r.deletedAt = none)
    let recon ← orRaise found
      (reconciliationError "Must reference an active reconciliation.")
    let effectiveAccountId := fields.accountId.getD beforeRow.accountId
    raiseIf (recon.accountId ≠ effectiveAccountId)
      (reconciliationError "Reconciliation account does not match transaction account.")
    raiseIf (recon.status = .completed)
      (reconciliationError "Cannot assign transactions to a completed reconciliation.")
  | _ => pure ()

def validateNewAccount (userId : Uuid) : Option Uuid → Op Unit
  | none => pure ()
  | some a => do
    let _ ← validateActiveAccount a userId

def validateNewCategory (userId : Uuid) : Option Uuid → Op Unit
  | none => pure ()
  | some c => do
    rejectSystemCategory (← validateActiveCategory c userId)

def normalizeNewTitle : Option Text → Op (Option Text)
  | none => pure none
  | some t => some <$> normalizeName t "title"

def validateNewDate (env : Env) : Option Timestamp → Op Unit
  | none => pure ()
  | some d => do
    let now ← dbNow env
    raiseIf (now < d) (validationError "Date validation failed." [("date", msgNotFuture)])

/-- The SET list of the one UPDATE: amount and direction move together, and the
assignment rides along. -/
def setTransaction (fields : TransactionFields) (reconId : Sent Uuid) : Change Row .transactions :=
  ⟨fun r =>
    { r with
      title := fields.title.getD r.title
      amountCents := (fields.amountCents.map absCents).getD r.amountCents
      transactionType := (fields.amountCents.map inferTransactionType).getD r.transactionType
      date := fields.date.getD r.date
      accountId := fields.accountId.getD r.accountId
      categoryId := fields.categoryId.getD r.categoryId
      description := if fields.description.isSome then fields.description else r.description
      reconciliationId := reconId.getD r.reconciliationId },
   fun _ => rfl⟩

def updateTransaction (env : Env) (userId transactionId : Uuid) (fields : TransactionFields)
    (hashtagIds : Option (List Uuid)) (reconId : Sent Uuid) : Op Body := do
  if fields = .none ∧ hashtagIds = none ∧ reconId = none then
    let row ← fetchOwnedRowOr404 .transactions transactionId userId "transaction" .active
    return .transaction (← attachHashtagIds row)
  else
    let beforeRow ← lockOwnedRowOr404 .transactions transactionId userId "transaction" .active
    let before ← attachHashtagIds beforeRow
    checkCompletedLock userId beforeRow fields reconId
    checkAssignment userId beforeRow fields reconId
    rejectZeroAmount fields.amountCents
    validateNewAccount userId fields.accountId
    validateNewCategory userId fields.categoryId
    let title ← normalizeNewTitle fields.title
    validateNewDate env fields.date
    let afterRow ← orRaise
      (← dynamicUpdate env .transactions (setTransaction { fields with title := title } reconId)
        transactionId userId)
      (notFound "transaction")
    syncIfGiven env transactionId userId hashtagIds .ledger
    let after ← attachHashtagIds afterRow
    writeActivityLog env (env.uuid 0) userId "transaction" transactionId .updated
      (some (.transaction before)) (some (.transaction after))
    return .transaction after

/-! ## Delete and restore -/

def checkNotCompleted (userId : Uuid) : Option Uuid → Op Unit
  | none => pure ()
  | some rid => do
    let recon ← fetchReconStatus userId rid
    raiseIf (recon.any fun r => r.status = .completed) (conflict
      ("Cannot delete a transaction assigned to a completed reconciliation. " ++
        "Revert the reconciliation to draft first."))

def deleteTransaction (env : Env) (userId transactionId : Uuid) : Op Body := do
  let row ← lockOwnedRowOr404 .transactions transactionId userId "transaction" .active
  checkNotCompleted userId row.reconciliationId
  let before ← attachHashtagIds row
  let afterRow ← orRaise (← softDelete env .transactions transactionId userId) internalError
  cascadeDelete env userId transactionId .ledger []
  let after ← attachHashtagIds afterRow
  writeActivityLog env (env.uuid 0) userId "transaction" transactionId .deleted
    (some (.transaction before)) (some (.transaction after))
  return .transaction after

def warningGone : String :=
  "Transaction's previous reconciliation no longer exists. Link removed on restore."

def warningCompleted : String :=
  "Transaction's previous reconciliation is completed. " ++
    "Link removed on restore — reassign manually if needed."

/-- Why a restore drops the link to the transaction's reconciliation, if it
does. -/
def unlinkWarning : Option (Row .reconciliations) → Option String
  | none => some warningGone
  | some r =>
    if r.deletedAt.isSome then some warningGone
    else if r.status = .completed then some warningCompleted
    else none

def decideUnlink (userId : Uuid) : Option Uuid → Op (Option String)
  | none => pure none
  | some rid => return unlinkWarning (← fetchReconStatus userId rid)

/-- The SET list of a restore. -/
def setRestored (unlink : Bool) : Change Row .transactions :=
  ⟨fun r =>
    { r with
      deletedAt := none
      reconciliationId := if unlink then none else r.reconciliationId },
   fun _ => rfl⟩

def restoreTransaction (env : Env) (userId transactionId : Uuid) : Op Body := do
  let row ← lockOwnedRowOr404 .transactions transactionId userId "transaction" .deleted
  let account ← activeAccountRow row.accountId userId
  let category ← activeCategoryRow row.categoryId userId
  let errors :=
    (if account.isNone then [("account_id", msgActiveAccount)] else []) ++
    (if category.isNone then [("category_id", msgActiveCategory)] else [])
  raiseIf (!errors.isEmpty)
    (validationError "Cannot restore transaction: prerequisites failed." errors)
  let warning ← decideUnlink userId row.reconciliationId
  let before ← attachHashtagIds row
  let afterRow ← orRaise
    (← updateRow .transactions (owns .transactions transactionId userId .either)
      (bumped .transactions env.now (setRestored warning.isSome)))
    internalError
  cascadeRestore env userId transactionId .ledger row.deletedAt
  let after ← attachHashtagIds afterRow
  writeActivityLog env (env.uuid 0) userId "transaction" transactionId .restored
    (some (.transaction before)) (some (.transaction after))
  return .restoredTransaction after warning.toList

/-! ## Batch create -/

/-- The errors of one batch item, with the ids of the items before it. -/
def batchItemErrors (now : Timestamp) (validAccountIds : List Uuid)
    (validCategoryIds : List (Uuid × Bool)) (seenIds : List Uuid)
    (item : TransactionCreateRequest) : List (String × String) :=
  (if (cleanName (some item.title)).isNone then [("title", msgNotEmpty)] else []) ++
  (if item.amountCents = 0 then [("amount_cents", msgNotZero)] else []) ++
  (if now < item.date then [("date", msgNotFuture)] else []) ++
  (if item.accountId ∉ validAccountIds then [("account_id", msgActiveAccount)] else []) ++
  (match validCategoryIds.lookup item.categoryId with
    | none => [("category_id", msgActiveCategory)]
    | some true => [("category_id", msgUserCategory)]
    | some false => []) ++
  (if item.id ∈ seenIds then [("id", "Duplicate id within batch.")] else [])

/-- The errors of all items, each with its index; items without one are left
out. -/
def batchErrors (now : Timestamp) (validAccountIds : List Uuid)
    (validCategoryIds : List (Uuid × Bool)) :
    List TransactionCreateRequest → List Uuid → Nat → List (Nat × List (String × String))
  | [], _, _ => []
  | item :: items, seenIds, i =>
    let errors := batchItemErrors now validAccountIds validCategoryIds seenIds item
    let rest := batchErrors now validAccountIds validCategoryIds items (item.id :: seenIds) (i + 1)
    if errors.isEmpty then rest else (i, errors) :: rest

/-- Insert the items one after another and return their rows. -/
def createItems (env : Env) (userId : Uuid) :
    List TransactionCreateRequest → Op (List (Row .transactions))
  | [] => pure []
  | item :: items => do
    let row ← insertTransactionRow env userId item.id (strip item.title) item.description
      (absCents item.amountCents) (inferTransactionType item.amountCents) item.date
      item.accountId item.categoryId none
    syncIfAny env row.id userId item.hashtagIds .ledger
    return row :: (← createItems env userId items)

/-- One CREATED entry for each response. -/
def logCreated (env : Env) (userId : Uuid) : List TransactionResponse → Nat → Op Unit
  | [], _ => pure ()
  | response :: responses, i => do
    writeActivityLog env (env.uuid i) userId "transaction" response.id .created none
      (some (.transaction response))
    logCreated env userId responses (i + 1)

def createBatch (env : Env) (userId : Uuid) (transactions : List TransactionCreateRequest) :
    Op Body := do
  raiseIf transactions.isEmpty (validationError "Batch must contain at least one transaction."
    [("transactions", "Must not be empty.")])
  let now ← dbNow env
  let validAccountIds ←
    activeAccountIds ((transactions.map fun item => item.accountId).dedup) userId
  let validCategoryIds ←
    activeCategoryIds ((transactions.map fun item => item.categoryId).dedup) userId
  let errors := batchErrors now validAccountIds validCategoryIds transactions [] 0
  raiseIf (!errors.isEmpty)
    (AppError.mk 422 "VALIDATION_ERROR" "Batch validation failed."
      (some [("items", .items errors)]))
  let rows ← createItems env userId transactions
  let created ← attachHashtagIdsAll rows
  logCreated env userId created 0
  return .batch created

/-! ## Read -/

/-- `apply_debit_as_negative` on a transaction. -/
def applyDebitAsNegative (data : TransactionResponse) : TransactionResponse :=
  if data.transactionType = .outflow then { data with amountCents := -data.amountCents } else data

/-- `GET /transactions/{transaction_id}`. -/
def getTransaction (userId transactionId : Uuid) (debitAsNegative : Bool) :
    Op TransactionResponse := do
  let row ← fetchOwnedRowOr404 .transactions transactionId userId "transaction" .active
  let data ← attachHashtagIds row
  return if debitAsNegative then applyDebitAsNegative data else data

end ExpenseEngine
