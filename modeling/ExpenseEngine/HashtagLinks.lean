import ExpenseEngine.Validation
import Mathlib.Data.List.Sort

/-!
# The hashtag junction table

One implementation for two parents: `source` says whether `parentId` names a
ledger row or an inbox draft. A cascade marks the rows it drops with `now()` of
its transaction, and `cascadeRestore` revives exactly the rows that carry the
marker of the parent.
-/

namespace ExpenseEngine

open Sql Sql.Prog

variable [Platform]

/-- The live junction rows of a parent. -/
def isLiveLink (parentId : Uuid) (source : TransactionSource) (r : Row .transactionHashtags) :
    Bool :=
  decide (r.transactionId = parentId ∧ r.transactionSource = source ∧ r.deletedAt = none)

/-- The hashtags of a parent, in ascending order. -/
def hashtagIdsOf (db : Db) (parentId : Uuid) (source : TransactionSource) : List Uuid :=
  (((db.rows .transactionHashtags).filter (isLiveLink parentId source)).map
    (fun r => r.hashtagId)).insertionSort (· ≤ ·)

def fetchHashtagIds (parentId : Uuid) (source : TransactionSource) : Op (List Uuid) :=
  read .other fun db => hashtagIdsOf db parentId source

/-- `attach_hashtag_ids` on one transaction. -/
def attachHashtagIds (row : Row .transactions) : Op TransactionResponse := do
  return { row with hashtagIds := ← fetchHashtagIds row.id .ledger }

/-- `attach_hashtag_ids` on a list of transactions, in one query. -/
def attachHashtagIdsAll (rows : List (Row .transactions)) : Op (List TransactionResponse) :=
  read .other fun db => rows.map fun row =>
    { row with hashtagIds := hashtagIdsOf db row.id .ledger }

/-- `attach_hashtag_ids` on one draft. -/
def attachInboxHashtagIds (row : Row .transactionInbox) : Op InboxResponse := do
  return { row with hashtagIds := ← fetchHashtagIds row.id .inbox }

/-- `SET deleted_at = d, updated_at = now()`. -/
def linkMarked (now : Timestamp) (d : Option Timestamp) : Change Row .transactionHashtags :=
  ⟨fun r => { r with deletedAt := d, updatedAt := now }, fun _ => rfl⟩

/-- The live rows of the parent whose hashtag is not in `keepHashtagIds`. -/
def leaves (userId parentId : Uuid) (source : TransactionSource) (keepHashtagIds : List Uuid)
    (r : Row .transactionHashtags) : Bool :=
  decide (r.transactionId = parentId ∧ r.transactionSource = source ∧ r.userId = userId ∧
    r.deletedAt = none ∧ r.hashtagId ∉ keepHashtagIds)

def cascadeDelete (env : Env) (userId parentId : Uuid) (source : TransactionSource)
    (keepHashtagIds : List Uuid) : Op Unit := do
  let _ ← updateWhere .scan .transactionHashtags (leaves userId parentId source keepHashtagIds)
    (linkMarked env.now (some env.now))
  return ()

/-- The rows a cascade of the parent dropped at `marker`. -/
def droppedAt (userId parentId : Uuid) (source : TransactionSource) (marker : Option Timestamp)
    (r : Row .transactionHashtags) : Bool :=
  decide (r.transactionId = parentId ∧ r.transactionSource = source ∧ r.userId = userId ∧
    r.deletedAt ≠ none ∧ r.deletedAt = marker)

def cascadeRestore (env : Env) (userId parentId : Uuid) (source : TransactionSource)
    (deletedAtMarker : Option Timestamp) : Op Unit := do
  let _ ← updateWhere .scan .transactionHashtags
    (droppedAt userId parentId source deletedAtMarker) (linkMarked env.now none)
  return ()

def newLink (env : Env) (userId parentId : Uuid) (source : TransactionSource) (hashtagId : Uuid) :
    Row .transactionHashtags :=
  { transactionId := parentId, transactionSource := source, hashtagId := hashtagId
    userId := userId, createdAt := env.now, updatedAt := env.now, deletedAt := none }

/-- The active hashtags of the user among `hashtagIds`. -/
def fetchValidHashtags (userId : Uuid) (hashtagIds : List Uuid) : Op (List Uuid) := do
  let rows ← fetch (.validHashtags hashtagIds) .hashtags fun r =>
    decide (r.id ∈ hashtagIds ∧ r.userId = userId ∧ r.deletedAt = none)
  return rows.map fun r => r.id

/-- Make the active hashtag set of the parent exactly `hashtagIds`. -/
def syncHashtags (env : Env) (parentId userId : Uuid) (hashtagIds : List Uuid)
    (source : TransactionSource) : Op Unit := do
  if hashtagIds.isEmpty then cascadeDelete env userId parentId source hashtagIds
  else
    let validIds ← fetchValidHashtags userId hashtagIds
    let invalid := hashtagIds.filter fun h => decide (h ∉ validIds)
    raiseIf (!invalid.isEmpty) (validationError "Some hashtag IDs are invalid."
      [("hashtag_ids", "Invalid IDs: " ++ ", ".intercalate (invalid.map uuidStr))])
    cascadeDelete env userId parentId source hashtagIds
    upsertEach .transactionHashtags (fun r => r.deletedAt.isSome) (linkMarked env.now none)
      (hashtagIds.map (newLink env userId parentId source)) []

/-- `if hashtag_ids: sync_hashtags(…)`. -/
def syncIfAny (env : Env) (parentId userId : Uuid) (hashtagIds : List Uuid)
    (source : TransactionSource) : Op Unit :=
  if hashtagIds = [] then pure () else syncHashtags env parentId userId hashtagIds source

/-- `if hashtag_ids is not None: sync_hashtags(…)`. -/
def syncIfGiven (env : Env) (parentId userId : Uuid) (hashtagIds : Option (List Uuid))
    (source : TransactionSource) : Op Unit :=
  match hashtagIds with
  | none => pure ()
  | some ids => syncHashtags env parentId userId ids source

end ExpenseEngine
