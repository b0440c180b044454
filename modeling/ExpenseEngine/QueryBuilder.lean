import ExpenseEngine.Schema

/-!
# Shared statements: fetch, update, soft-delete, restore, log

The row-level helpers every service goes through, once for all tables of owned
resources. `OwnedTable t` says where the columns `id`, `user_id`, `created_at`,
`updated_at`, `version` and `deleted_at` of a row of `t` are.
-/

namespace ExpenseEngine

open Sql Sql.Prog

variable [Platform]

class OwnedTable (t : Tbl) where
  resource : Row t → Resource
  /-- The row with its owned columns rewritten by `f`. -/
  mapResource : (Resource → Resource) → Row t → Row t
  key_mapResource : ∀ f r, (∀ x, (f x).id = x.id) → keyOf t (mapResource f r) = keyOf t r

instance : OwnedTable .bankAccounts where
  resource r := r.toResource
  mapResource f r := { r with toResource := f r.toResource }
  key_mapResource _ r h := h r.toResource

instance : OwnedTable .categories where
  resource r := r.toResource
  mapResource f r := { r with toResource := f r.toResource }
  key_mapResource _ r h := h r.toResource

instance : OwnedTable .reconciliations where
  resource r := r.toResource
  mapResource f r := { r with toResource := f r.toResource }
  key_mapResource _ r h := h r.toResource

instance : OwnedTable .transactionInbox where
  resource r := r.toResource
  mapResource f r := { r with toResource := f r.toResource }
  key_mapResource _ r h := h r.toResource

instance : OwnedTable .transactions where
  resource r := r.toResource
  mapResource f r := { r with toResource := f r.toResource }
  key_mapResource _ r h := h r.toResource

instance : OwnedTable .hashtags where
  resource r := r.toResource
  mapResource f r := { r with toResource := f r.toResource }
  key_mapResource _ r h := h r.toResource

/-! ## Predicates and SET lists -/

/-- `deleted_at IS NULL`, `deleted_at IS NOT NULL`, or no condition. -/
inductive RowState | active | deleted | either
  deriving DecidableEq

def RowState.holds : RowState → Option Timestamp → Bool
  | .active, d => d.isNone
  | .deleted, d => d.isSome
  | .either, _ => true

/-- `WHERE id = $1 AND user_id = $2`, with the condition `s` on `deleted_at`. -/
def owns (t : Tbl) [OwnedTable t] (id userId : Uuid) (s : RowState) (r : Row t) : Bool :=
  decide ((OwnedTable.resource r).id = id ∧ (OwnedTable.resource r).userId = userId) &&
    s.holds (OwnedTable.resource r).deletedAt

/-- `updated_at = now(), version = version + 1`. -/
def Resource.bump (now : Timestamp) (x : Resource) : Resource :=
  { x with updatedAt := now, version := x.version + 1 }

/-- The SET list `fields, updated_at = now(), version = version + 1`. -/
def bumped (t : Tbl) [OwnedTable t] (now : Timestamp) (fields : Change Row t) : Change Row t where
  apply r := OwnedTable.mapResource (Resource.bump now) (fields.apply r)
  key_apply r :=
    (OwnedTable.key_mapResource (Resource.bump now) _ fun _ => rfl).trans (fields.key_apply r)

/-- The SET list without a field. -/
def noChange (t : Tbl) : Change Row t := ⟨fun r => r, fun _ => rfl⟩

/-- The SET list `deleted_at = d, updated_at = now(), version = version + 1`. -/
def marked (t : Tbl) [OwnedTable t] (now : Timestamp) (d : Option Timestamp) : Change Row t where
  apply := OwnedTable.mapResource fun x => { x.bump now with deletedAt := d }
  key_apply r := OwnedTable.key_mapResource _ r fun _ => rfl

/-! ## Statements -/

/-- `SELECT * FROM t WHERE w`, read as the rows in insertion order. -/
def fetch (l : Label) (t : Tbl) (w : Row t → Bool) : Op (List (Row t)) :=
  read l fun db => (db.rows t).filter w

def fetchRow (l : Label) (t : Tbl) (w : Row t → Bool) : Op (Option (Row t)) :=
  read l fun db => (db.rows t).find? w

/-- `SELECT … FOR UPDATE` of at most one row. -/
def fetchRowForUpdate (t : Tbl) (w : Row t → Bool) : Op (Option (Row t)) := do
  return (← selectForUpdate .scan t w).head?

/-- `UPDATE … RETURNING *` of at most one row. -/
def updateRow (t : Tbl) (w : Row t → Bool) (f : Change Row t) : Op (Option (Row t)) := do
  return (← updateWhere .scan t w f).head?

def fetchOwnedRow (t : Tbl) [OwnedTable t] (id userId : Uuid) (s : RowState) :
    Op (Option (Row t)) :=
  fetchRow .other t (owns t id userId s)

def fetchOwnedRowOr404 (t : Tbl) [OwnedTable t] (id userId : Uuid) (resource : String)
    (s : RowState) : Op (Row t) := do
  orRaise (← fetchOwnedRow t id userId s) (notFound resource)

/-- `fetch_owned_row_or_404(…, for_update=True)`. -/
def lockOwnedRowOr404 (t : Tbl) [OwnedTable t] (id userId : Uuid) (resource : String)
    (s : RowState) : Op (Row t) := do
  orRaise (← fetchRowForUpdate t (owns t id userId s)) (notFound resource)

def dynamicUpdate (env : Env) (t : Tbl) [OwnedTable t] (fields : Change Row t)
    (id userId : Uuid) : Op (Option (Row t)) :=
  updateRow t (owns t id userId .active) (bumped t env.now fields)

def softDelete (env : Env) (t : Tbl) [OwnedTable t] (id userId : Uuid) : Op (Option (Row t)) :=
  updateRow t (owns t id userId .either) (marked t env.now (some env.now))

def restore (env : Env) (t : Tbl) [OwnedTable t] (id userId : Uuid) : Op (Option (Row t)) :=
  updateRow t (owns t id userId .deleted) (marked t env.now none)

/-- Every caller leaves `actor_id` at its default, so `changed_by` is the
owner. `logId` is the uuid the row gets. -/
def writeActivityLog (env : Env) (logId userId : Uuid) (resourceType : String)
    (resourceId : Uuid) (action : ActivityAction) (before after : Option Body) : Op Unit :=
  insertOrAbort .activityLog
    { id := logId, userId := userId, resourceType := resourceType, resourceId := resourceId
      action := action, beforeSnapshot := before, afterSnapshot := after
      changedBy := userId, createdAt := env.now }

/-- `serialize` gets the row after the mutation; `refetch` replaces the row the
mutation returns as the source of the after-snapshot. -/
def mutateWithAudit (env : Env) (userId : Uuid) (t : Tbl) [OwnedTable t] (resourceType : String)
    (row : Row t) (before : Body) (serialize : Row t → Op Body)
    (mutate : Uuid → Uuid → Op (Option (Row t))) (action : ActivityAction) : Op Body := do
  let id := (OwnedTable.resource row).id
  let afterRow ← orRaise (← mutate id userId) (conflict
    (resourceType ++ " was changed by a concurrent request. Re-fetch and retry."))
  let after ← serialize afterRow
  writeActivityLog env (env.uuid 0) userId resourceType id action (some before) (some after)
  return after

def softDeleteWithAudit (env : Env) (userId : Uuid) (t : Tbl) [OwnedTable t]
    (resourceType : String) (row : Row t) (before : Body) (serialize : Row t → Op Body) :
    Op Body :=
  mutateWithAudit env userId t resourceType row before serialize (softDelete env t) .deleted

def restoreWithAudit (env : Env) (userId : Uuid) (t : Tbl) [OwnedTable t]
    (resourceType : String) (row : Row t) (before : Body) (serialize : Row t → Op Body) :
    Op Body :=
  mutateWithAudit env userId t resourceType row before serialize (restore env t) .restored

end ExpenseEngine
