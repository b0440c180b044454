import ExpenseEngine.Transactions

/-!
# Inbox drafts

Drafts may lack any field. Promotion turns a complete draft into a ledger row,
moves its hashtags and closes the draft in one transaction; dismissal closes it
without a ledger row. Neither is undone.
-/

namespace ExpenseEngine

open Sql Sql.Prog

structure InboxCreateRequest where
  id : Uuid
  title : Option Text
  description : Option Text
  amountCents : Option Int
  date : Option Timestamp
  accountId : Option Uuid
  categoryId : Option Uuid
  hashtagIds : List Uuid

structure InboxUpdateRequest where
  title : Sent Text
  description : Sent Text
  amountCents : Sent Int
  date : Sent Timestamp
  accountId : Sent Uuid
  categoryId : Sent Uuid
  hashtagIds : Sent (List Uuid)

/-- The columns of a draft update, after `hashtag_ids` has been taken out. -/
structure InboxFields where
  title : Option Text
  description : Option Text
  amountCents : Option Int
  date : Option Timestamp
  accountId : Option Uuid
  categoryId : Option Uuid
  deriving DecidableEq

def InboxFields.none : InboxFields := ⟨.none, .none, .none, .none, .none, .none⟩

/-- No field of a draft update accepts `null`. -/
def InboxUpdateRequest.extract (body : InboxUpdateRequest) : Except AppError InboxFields := do
  extractUpdateFields [("title", body.title.isNull), ("description", body.description.isNull),
    ("amount_cents", body.amountCents.isNull), ("date", body.date.isNull),
    ("account_id", body.accountId.isNull), ("category_id", body.categoryId.isNull),
    ("hashtag_ids", body.hashtagIds.isNull)]
  return ⟨body.title.join, body.description.join, body.amountCents.join, body.date.join,
    body.accountId.join, body.categoryId.join⟩

variable [Platform]

/-- Raise the error of a check that needs no database. -/
def liftExcept {α : Type} : Except AppError α → Op α
  | .ok a => pure a
  | .error e => raise e

/-! ## Create -/

def validateDraftAccount (userId : Uuid) : Option Uuid → Op Unit := validateNewAccount userId

/-- A draft may carry a system category; promotion refuses it. -/
def validateDraftCategory (userId : Uuid) : Option Uuid → Op Unit
  | none => pure ()
  | some c => do
    let _ ← validateActiveCategory c userId

/-- The row a create request stores. -/
def requestedDraft (env : Env) (userId : Uuid) (body : InboxCreateRequest) :
    Row .transactionInbox :=
  ({ id := body.id, userId := userId, createdAt := env.now, updatedAt := env.now
     version := 1, deletedAt := none, title := cleanName body.title
     description := body.description, amountCents := body.amountCents.map absCents
     transactionType := body.amountCents.map inferTransactionType, date := body.date
     accountId := body.accountId, categoryId := body.categoryId, status := .pending } : InboxRow)

def createInboxItem (env : Env) (userId : Uuid) (body : InboxCreateRequest) : Op Body := do
  rejectZeroAmount body.amountCents
  validateDraftAccount userId body.accountId
  validateDraftCategory userId body.categoryId
  let row := requestedDraft env userId body
  let o ← insertRow .transactionInbox row
  raiseIf (o ≠ .inserted)
    (conflict ("An inbox item with id '" ++ uuidStr body.id ++ "' already exists."))
  syncIfAny env row.id userId body.hashtagIds .inbox
  let response ← attachInboxHashtagIds row
  writeActivityLog env (env.uuid 0) userId "inbox" row.id .created none (some (.inbox response))
  return .inbox response

/-! ## Update -/

/-- A title of spaces becomes NULL, as on create. -/
def setInbox (fields : InboxFields) : Change Row .transactionInbox :=
  ⟨fun r =>
    { r with
      title := if fields.title.isSome then cleanName fields.title else r.title
      description := if fields.description.isSome then fields.description else r.description
      amountCents :=
        if fields.amountCents.isSome then fields.amountCents.map absCents else r.amountCents
      transactionType :=
        if fields.amountCents.isSome then fields.amountCents.map inferTransactionType
        else r.transactionType
      date := if fields.date.isSome then fields.date else r.date
      accountId := if fields.accountId.isSome then fields.accountId else r.accountId
      categoryId := if fields.categoryId.isSome then fields.categoryId else r.categoryId },
   fun _ => rfl⟩

def updateInboxItem (env : Env) (userId inboxId : Uuid) (body : InboxUpdateRequest) :
    Op Body := do
  let fields ← liftExcept body.extract
  let hashtagIds := body.hashtagIds.join
  if fields = .none ∧ hashtagIds = none then
    let row ← fetchOwnedRowOr404 .transactionInbox inboxId userId "inbox item" .active
    return .inbox (← attachInboxHashtagIds row)
  else
    rejectZeroAmount fields.amountCents
    let beforeRow ← lockOwnedRowOr404 .transactionInbox inboxId userId "inbox item" .active
    let before ← attachInboxHashtagIds beforeRow
    validateDraftAccount userId fields.accountId
    validateDraftCategory userId fields.categoryId
    let afterRow ← orRaise
      (← dynamicUpdate env .transactionInbox (setInbox fields) inboxId userId)
      (notFound "inbox item")
    syncIfGiven env inboxId userId hashtagIds .inbox
    let after ← attachInboxHashtagIds afterRow
    writeActivityLog env (env.uuid 0) userId "inbox" inboxId .updated
      (some (.inbox before)) (some (.inbox after))
    return .inbox after

/-! ## Dismiss -/

/-- The draft is read without a lock, and the UPDATE has no condition on
`deleted_at`. -/
def deleteInboxItem (env : Env) (userId inboxId : Uuid) : Op Body := do
  let row ← fetchOwnedRowOr404 .transactionInbox inboxId userId "inbox item" .active
  let before ← attachInboxHashtagIds row
  let afterRow ← orRaise (← softDelete env .transactionInbox inboxId userId) internalError
  cascadeDelete env userId inboxId .inbox []
  let after ← attachInboxHashtagIds afterRow
  writeActivityLog env (env.uuid 0) userId "inbox" inboxId .deleted
    (some (.inbox before)) (some (.inbox after))
  return .inbox after

/-! ## Promote -/

/-- An active draft of the user that is still pending. -/
def isPendingDraft (inboxId userId : Uuid) (r : Row .transactionInbox) : Bool :=
  decide (r.id = inboxId ∧ r.userId = userId ∧ r.status = .pending ∧ r.deletedAt = none)

def promoteAccount (userId : Uuid) : Option Uuid → Op (Option (Row .bankAccounts))
  | none => pure none
  | some a => activeAccountRow a userId

def promoteCategory (userId : Uuid) : Option Uuid → Op (Option (Row .categories))
  | none => pure none
  | some c => activeCategoryRow c userId

/-- What keeps a draft from being promoted. -/
def promoteErrors (now : Timestamp) (row : Row .transactionInbox)
    (account : Option (Row .bankAccounts)) (category : Option (Row .categories)) :
    List (String × String) :=
  (if row.title.getD [] = [] ∨ row.title = some "UNTITLED".toList then
    [("title", "Must be present and not 'UNTITLED'.")] else []) ++
  (if row.amountCents.getD 0 = 0 then
    [("amount_cents", "Must be present and not zero.")] else []) ++
  (if row.date.all fun d => decide (now < d) then
    [("date", "Must be present and not in the future.")] else []) ++
  (if account.isNone then [("account_id", msgActiveAccount)] else []) ++
  match category with
  | none => [("category_id", msgActiveCategory)]
  | some c => if c.systemKey.isSome then [("category_id", msgUserCategory)] else []

/-- Close the draft: PROMOTED and soft-deleted in one UPDATE. -/
def setPromoted (env : Env) : Change Row .transactionInbox :=
  ⟨fun r => { r with status := .promoted, deletedAt := some env.now }, fun _ => rfl⟩

def notReady (errors : List (String × String)) : AppError :=
  validationError "Inbox item is not ready to promote." errors

/-- The ledger row of a complete draft. The readiness errors are empty, so none
of the defaults is used. -/
def promotedRow (env : Env) (userId targetId : Uuid) (draft : Row .transactionInbox)
    (transactionType : TransactionType) : Row .transactions :=
  newTransactionRow env userId targetId (draft.title.getD []) draft.description
    (draft.amountCents.getD 0) transactionType (draft.date.getD 0) (draft.accountId.getD 0)
    (draft.categoryId.getD 0) (some draft.id)

def promoteInboxItem (env : Env) (userId inboxId targetId : Uuid) : Op Body := do
  let inboxRow ← orRaise
    (← fetchRowForUpdate .transactionInbox (isPendingDraft inboxId userId)) (notFound "inbox item")
  let draftHashtagIds ← fetchHashtagIds inboxId .inbox
  let now ← dbNow env
  let account ← promoteAccount userId inboxRow.accountId
  let category ← promoteCategory userId inboxRow.categoryId
  let errors := promoteErrors now inboxRow account category
  raiseIf (!errors.isEmpty) (notReady errors)
  let transactionType ← orRaise inboxRow.transactionType
    (notReady [("transaction_type", "Missing direction on a row with an amount.")])
  let row ← insertTransactionRow env userId targetId (inboxRow.title.getD []) inboxRow.description
    (inboxRow.amountCents.getD 0) transactionType (inboxRow.date.getD 0)
    (inboxRow.accountId.getD 0) (inboxRow.categoryId.getD 0) (some inboxRow.id)
  syncIfAny env row.id userId draftHashtagIds .ledger
  let response ← attachHashtagIds row
  writeActivityLog env (env.uuid 0) userId "transaction" row.id .created none
    (some (.transaction response))
  let inboxAfterRow ← orRaise
    (← updateRow .transactionInbox (owns .transactionInbox inboxId userId .either)
      (bumped .transactionInbox env.now (setPromoted env)))
    internalError
  cascadeDelete env userId inboxId .inbox []
  let inboxAfter ← attachInboxHashtagIds inboxAfterRow
  writeActivityLog env (env.uuid 1) userId "inbox" inboxId .deleted
    (some (.inbox { inboxRow with hashtagIds := draftHashtagIds })) (some (.inbox inboxAfter))
  return .transaction response

end ExpenseEngine
