import ExpenseEngine.Transactions

/-!
# Reconciliations

`difference_cents` is computed from the active members on every read. A
completed reconciliation freezes its period and balances; its transactions are
frozen by the ledger (`checkCompletedLock`).
-/

namespace ExpenseEngine

open Sql Sql.Prog

structure ReconciliationCreateRequest where
  id : Uuid
  accountId : Uuid
  name : Text
  dateStart : Option Timestamp
  dateEnd : Option Timestamp
  beginningBalanceCents : Int
  endingBalanceCents : Option Int

/-- The columns of a PUT. The two dates can be sent as `null`. -/
structure ReconciliationFields where
  name : Option Text
  dateStart : Sent Timestamp
  dateEnd : Sent Timestamp
  beginningBalanceCents : Option Int
  endingBalanceCents : Option Int
  deriving DecidableEq

def ReconciliationFields.none : ReconciliationFields := ⟨.none, .none, .none, .none, .none⟩

variable [Platform]

/-! ## Reading a reconciliation -/

/-- The active transactions assigned to a reconciliation. -/
def isMember (reconciliationId userId : Uuid) (r : Row .transactions) : Bool :=
  decide (r.reconciliationId = some reconciliationId ∧ r.userId = userId ∧ r.deletedAt = none)

def membersOf (db : Db) (rec : Row .reconciliations) : List (Row .transactions) :=
  (db.rows .transactions).filter (isMember rec.id rec.userId)

def sumSigned (rows : List (Row .transactions)) : Int :=
  (rows.map fun r => signedCents r.transactionType r.amountCents).sum

/-- `(ending − beginning) − Σ members`. -/
def differenceCents (db : Db) (rec : Row .reconciliations) : Int :=
  (rec.endingBalanceCents - rec.beginningBalanceCents) - sumSigned (membersOf db rec)

/-- Every intermediate value of the `difference_cents` expression is a
`bigint`. -/
def differenceInRange (db : Db) (rec : Row .reconciliations) : Bool :=
  inInt8 (rec.endingBalanceCents - rec.beginningBalanceCents) &&
    inInt8 (sumSigned (membersOf db rec)) && inInt8 (differenceCents db rec)

/-- `RECONCILIATION_SELECT`: the row with its `difference_cents`. The query
fails when the expression overflows. -/
def fetchReconciliation (l : Label) (userId reconciliationId : Uuid) (s : RowState) :
    Op (Option ReconciliationResponse) := do
  let found ← read l fun db =>
    ((db.rows .reconciliations).find? (owns .reconciliations reconciliationId userId s)).map
      fun rec => (rec, differenceCents db rec, differenceInRange db rec)
  match found with
  | none => return none
  | some (rec, difference, inRange) =>
    if inRange then return some { rec with differenceCents := difference }
    else .fail .database

/-! ## Create -/

/-- The row a create request stores, under its normalized name. -/
def requestedReconciliation (env : Env) (userId : Uuid) (body : ReconciliationCreateRequest)
    (name : Text) : Row .reconciliations :=
  ({ id := body.id, userId := userId, createdAt := env.now, updatedAt := env.now
     version := 1, deletedAt := none, accountId := body.accountId, name := name
     dateStart := body.dateStart, dateEnd := body.dateEnd, status := .draft
     beginningBalanceCents := body.beginningBalanceCents
     endingBalanceCents := body.endingBalanceCents.getD 0 } : ReconciliationRow)

def createReconciliation (env : Env) (userId : Uuid) (body : ReconciliationCreateRequest) :
    Op Body := do
  let _ ← validateActiveAccount body.accountId userId
  let name ← normalizeName body.name "name"
  let o ← insertRow .reconciliations (requestedReconciliation env userId body name)
  raiseIf (o ≠ .inserted)
    (conflict ("A reconciliation with id '" ++ uuidStr body.id ++ "' already exists."))
  let response ← orRaise (← fetchReconciliation .other userId body.id .active) internalError
  writeActivityLog env (env.uuid 0) userId "reconciliation" body.id .created none
    (some (.reconciliation response))
  return .reconciliation response

/-! ## Update -/

/-- The fields of the request that completion locks. -/
def attemptedFrozen (fields : ReconciliationFields) : List String :=
  (if fields.beginningBalanceCents.isSome then ["beginning_balance_cents"] else []) ++
  (if fields.endingBalanceCents.isSome then ["ending_balance_cents"] else []) ++
  (if fields.dateStart.isSome then ["date_start"] else []) ++
  (if fields.dateEnd.isSome then ["date_end"] else [])

def setReconciliation (fields : ReconciliationFields) : Change Row .reconciliations :=
  ⟨fun r =>
    { r with
      name := fields.name.getD r.name
      dateStart := fields.dateStart.getD r.dateStart
      dateEnd := fields.dateEnd.getD r.dateEnd
      beginningBalanceCents := fields.beginningBalanceCents.getD r.beginningBalanceCents
      endingBalanceCents := fields.endingBalanceCents.getD r.endingBalanceCents },
   fun _ => rfl⟩

def normalizeNewName : Option Text → Op (Option Text)
  | none => pure none
  | some n => some <$> normalizeName n "name"

def updateReconciliation (env : Env) (userId reconciliationId : Uuid)
    (fields : ReconciliationFields) : Op Body := do
  if fields = .none then
    let row ← orRaise (← fetchReconciliation .other userId reconciliationId .active)
      (notFound "reconciliation")
    return .reconciliation row
  else
    let name ← normalizeNewName fields.name
    let before ← orRaise
      (← fetchReconciliation (.reconStatus reconciliationId) userId reconciliationId .active)
      (notFound "reconciliation")
    let attempted := attemptedFrozen fields
    raiseIf (before.status = .completed ∧ attempted ≠ []) (validationError
      "Reconciliation is completed. Revert to draft before editing these fields."
      (attempted.map fun f => (f, "Locked while reconciliation is completed.")))
    let _ ← orRaise
      (← dynamicUpdate env .reconciliations (setReconciliation { fields with name := name })
        reconciliationId userId)
      (notFound "reconciliation")
    let after ← orRaise (← fetchReconciliation .other userId reconciliationId .active) internalError
    writeActivityLog env (env.uuid 0) userId "reconciliation" reconciliationId .updated
      (some (.reconciliation before)) (some (.reconciliation after))
    return .reconciliation after

/-! ## Status transitions -/

def setStatus (target : ReconciliationStatus) : Change Row .reconciliations :=
  ⟨fun r => { r with status := target }, fun _ => rfl⟩

/-- The one body behind complete and revert. -/
def transitionStatus (env : Env) (userId reconciliationId : Uuid)
    (target : ReconciliationStatus) (requireAssigned : Bool) : Op Body := do
  let row ← orRaise
    (← fetchReconciliation (.reconStatus reconciliationId) userId reconciliationId .active)
    (notFound "reconciliation")
  if row.status = target then return .reconciliation row
  else
    let assignedTxns ← selectForUpdate .scan .transactions (isMember reconciliationId userId)
    raiseIf (requireAssigned = true ∧ assignedTxns = []) (validationError
      "Cannot complete reconciliation with no assigned transactions."
      [("transactions", "At least one transaction must be assigned.")])
    let _ ← updateWhere .scan .reconciliations
      (owns .reconciliations reconciliationId userId .either)
      (bumped .reconciliations env.now (setStatus target))
    let _ ← updateWhere .scan .transactions (isMember reconciliationId userId)
      (bumped .transactions env.now (noChange .transactions))
    let after ← orRaise
      (← fetchReconciliation (.afterSnapshot reconciliationId) userId reconciliationId .active)
      internalError
    writeActivityLog env (env.uuid 0) userId "reconciliation" reconciliationId .updated
      (some (.reconciliation row)) (some (.reconciliation after))
    return .reconciliation after

def completeReconciliation (env : Env) (userId reconciliationId : Uuid) : Op Body :=
  transitionStatus env userId reconciliationId .completed true

def revertReconciliation (env : Env) (userId reconciliationId : Uuid) : Op Body :=
  transitionStatus env userId reconciliationId .draft false

/-! ## Delete and restore -/

def setUnassigned : Change Row .transactions :=
  ⟨fun r => { r with reconciliationId := none }, fun _ => rfl⟩

/-- The after-snapshot is refetched for its `difference_cents`. -/
def refetchReconciliation (userId reconciliationId : Uuid) (s : RowState) : Op Body := do
  let after ← orRaise (← fetchReconciliation .other userId reconciliationId s) internalError
  return .reconciliation after

def deleteReconciliation (env : Env) (userId reconciliationId : Uuid) : Op Body := do
  let row ← orRaise
    (← fetchReconciliation (.reconStatus reconciliationId) userId reconciliationId .active)
    (notFound "reconciliation")
  raiseIf (row.status = .completed)
    (conflict "Cannot delete a completed reconciliation. Revert to draft first.")
  let _ ← updateWhere .scan .transactions (isMember reconciliationId userId)
    (bumped .transactions env.now setUnassigned)
  softDeleteWithAudit env userId .reconciliations "reconciliation" row.toReconciliationRow
    (.reconciliation row) fun _ => refetchReconciliation userId reconciliationId .deleted

def restoreReconciliation (env : Env) (userId reconciliationId : Uuid) : Op Body := do
  let row ← orRaise (← fetchReconciliation .other userId reconciliationId .deleted)
    (notFound "reconciliation")
  restoreWithAudit env userId .reconciliations "reconciliation" row.toReconciliationRow
    (.reconciliation row) fun _ => refetchReconciliation userId reconciliationId .active

end ExpenseEngine
