import ExpenseEngine.HashtagLinks

/-!
# Named, user-ordered collections: categories and hashtags

The name rule (a name is taken while an active row of the same table holds it,
case-insensitively) and the append slot are shared with accounts.
-/

namespace ExpenseEngine

open Sql Sql.Prog

variable [Platform]

/-- The columns the collection rules read. -/
class NamedTable (t : Tbl) extends OwnedTable t where
  name : Row t → Text
  sortOrder : Row t → Int

instance : NamedTable .bankAccounts where
  name r := r.name
  sortOrder r := r.sortOrder

instance : NamedTable .categories where
  name r := r.name
  sortOrder r := r.sortOrder

instance : NamedTable .hashtags where
  name r := r.name
  sortOrder r := r.sortOrder

/-! ## The shared rules -/

/-- An active row other than `excludeId` holds the name; `scope` narrows the
collection (the currency, for accounts). -/
def nameTaken (t : Tbl) [NamedTable t] (userId : Uuid) (name : Text) (excludeId : Option Uuid)
    (scope : Row t → Bool) : Op Bool :=
  read .other fun db => (db.rows t).any fun r =>
    decide ((OwnedTable.resource r).userId = userId ∧
      Platform.lower (NamedTable.name r) = Platform.lower name ∧
      (OwnedTable.resource r).deletedAt = none ∧
      excludeId ≠ some (OwnedTable.resource r).id) && scope r

/-- `COALESCE(MAX(sort_order) + 1, 0)` over the user's rows in `scope`, deleted
ones included. The sum is an `integer` and overflows as one. -/
def nextSortOrder (t : Tbl) [NamedTable t] (userId : Uuid) (scope : Row t → Bool) : Op Int := do
  let slots ← read .other fun db =>
    ((db.rows t).filter fun r => decide ((OwnedTable.resource r).userId = userId) && scope r).map
      NamedTable.sortOrder
  match slots.max? with
  | none => return 0
  | some m => if inInt4 (m + 1) then return m + 1 else .fail .database

/-- An explicit sort order, or the append slot. -/
def slotOrNext (t : Tbl) [NamedTable t] (userId : Uuid) (scope : Row t → Bool) :
    Option Int → Op Int
  | some n => pure n
  | none => nextSortOrder t userId scope

def anyRow {t : Tbl} (_ : Row t) : Bool := true

/-- The PUT of a named resource. `rename` and `color` are the fields with rules
of their own, `set` is the SET list for a normalized name, and `checkName` may
veto a rename. -/
def updateNamedResource (env : Env) (userId : Uuid) (t : Tbl) [NamedTable t]
    (resourceType : String) (resourceId : Uuid) (isEmpty : Bool) (rename color : Option Text)
    (set : Option Text → Change Row t) (serialize : Row t → Body)
    (checkName : Row t → Text → Op Unit) : Op Body := do
  let beforeRow ← fetchOwnedRowOr404 t resourceId userId resourceType .active
  if isEmpty then return serialize beforeRow
  else
    validateColor color
    let name ← normalizeRename beforeRow
    let afterRow ← orRaise (← dynamicUpdate env t (set name) resourceId userId)
      (notFound resourceType)
    writeActivityLog env (env.uuid 0) userId resourceType resourceId .updated
      (some (serialize beforeRow)) (some (serialize afterRow))
    return serialize afterRow
where
  normalizeRename (beforeRow : Row t) : Op (Option Text) :=
    match rename with
    | none => pure none
    | some n => do
      let name ← normalizeName n "name"
      checkName beforeRow name
      raiseIf ((← nameTaken t userId name (some resourceId) anyRow) = true)
        (conflict ("A " ++ resourceType ++ " named " ++ quoted name ++ " already exists."))
      return some name

/-! ## Categories -/

structure CategoryCreateRequest where
  id : Uuid
  name : Text
  color : Text
  sortOrder : Option Int

structure CategoryFields where
  name : Option Text
  color : Option Text
  sortOrder : Option Int
  deriving DecidableEq

def isReservedName (name : Text) : Bool :=
  Platform.pyLower name = Platform.pyLower (systemCategoryDefaultName .openingBalance)

def rejectReservedName (name : Text) : Op Unit :=
  raiseIf (isReservedName name) (validationError "Category name validation failed."
    [("name", quoted name ++ " is reserved for system categories.")])

def categoryFromRow (row : Row .categories) : Body :=
  .category { row with isSystem := row.systemKey.isSome }

def isSystemCategory (userId : Uuid) (key : SystemCategoryKey) (r : Row .categories) : Bool :=
  decide (r.userId = userId ∧ r.systemKey = some key ∧ r.deletedAt = none)

/-- The row the seeding of a system category proposes. -/
def newSystemCategoryRow (env : Env) (userId : Uuid) (key : SystemCategoryKey) :
    Row .categories :=
  ({ id := env.uuid 1, userId := userId, createdAt := env.now, updatedAt := env.now
     version := 1, deletedAt := none, name := systemCategoryDefaultName key
     color := defaultCategoryColor, systemKey := some key, sortOrder := 0 } : CategoryRow)

/-- The id of a system category, seeded on first use. -/
def ensureSystemCategory (env : Env) (userId : Uuid) (key : SystemCategoryKey) : Op Uuid := do
  match ← fetchRow .other .categories (isSystemCategory userId key) with
  | some row => return row.id
  | none =>
    let o ← insertOrSkip .categories (newSystemCategoryRow env userId key)
      (isSystemCategory userId key)
    match o with
    | .inserted => return env.uuid 1
    | .violation => raise (conflict ("A category named " ++
        quoted (systemCategoryDefaultName key) ++
        " already exists and is not the system category. Rename it to enable this operation."))
    | .skipped =>
      let row ← orRaise (← fetchRow .other .categories (isSystemCategory userId key))
        (conflict "System category seeding raced with a concurrent delete. Retry.")
      return row.id

/-- The row a create request stores, under its normalized name. -/
def newCategoryRow (env : Env) (userId : Uuid) (body : CategoryCreateRequest) (name : Text)
    (sortOrder : Int) : Row .categories :=
  ({ id := body.id, userId := userId, createdAt := env.now, updatedAt := env.now
     version := 1, deletedAt := none, name := name, color := body.color, systemKey := none
     sortOrder := sortOrder } : CategoryRow)

def createCategory (env : Env) (userId : Uuid) (body : CategoryCreateRequest) : Op Body := do
  let name ← normalizeName body.name "name"
  rejectReservedName name
  validateColor (some body.color)
  raiseIf ((← nameTaken .categories userId name none anyRow) = true)
    (conflict ("A category named " ++ quoted name ++ " already exists."))
  let sortOrder ← slotOrNext .categories userId anyRow body.sortOrder
  let row := newCategoryRow env userId body name sortOrder
  let o ← insertRow .categories row
  raiseIf (o ≠ .inserted)
    (conflict ("A category with id '" ++ uuidStr body.id ++ "' already exists."))
  writeActivityLog env (env.uuid 0) userId "category" row.id .created none
    (some (categoryFromRow row))
  return categoryFromRow row

def setCategory (fields : CategoryFields) (name : Option Text) : Change Row .categories :=
  ⟨fun r =>
    { r with
      name := name.getD r.name
      color := fields.color.getD r.color
      sortOrder := fields.sortOrder.getD r.sortOrder },
   fun _ => rfl⟩

/-- System rows rename freely. -/
def checkCategoryName (row : Row .categories) (name : Text) : Op Unit :=
  if row.systemKey.isNone then rejectReservedName name else pure ()

def updateCategory (env : Env) (userId categoryId : Uuid) (fields : CategoryFields) : Op Body :=
  updateNamedResource env userId .categories "category" categoryId
    (fields = ⟨none, none, none⟩) fields.name fields.color (setCategory fields) categoryFromRow
    checkCategoryName

def deleteCategory (env : Env) (userId categoryId : Uuid) : Op Body := do
  let row ← fetchOwnedRowOr404 .categories categoryId userId "category" .active
  raiseIf row.systemKey.isSome
    (forbidden ("Cannot delete system category " ++ String.ofList row.name ++ "."))
  let hasTxns ← fetchRow (.references .categories categoryId) .transactions fun r =>
    decide (r.categoryId = categoryId ∧ r.userId = userId ∧ r.deletedAt = none)
  raiseIf hasTxns.isSome
    (conflict "Category is referenced by active transactions. Remove those references first.")
  let hasInbox ← fetchRow (.references .categories categoryId) .transactionInbox fun r =>
    decide (r.categoryId = some categoryId ∧ r.userId = userId ∧ r.deletedAt = none)
  raiseIf hasInbox.isSome
    (conflict "Category is referenced by active inbox items. Remove those references first.")
  softDeleteWithAudit env userId .categories "category" row (categoryFromRow row)
    fun r => pure (categoryFromRow r)

def restoreCategory (env : Env) (userId categoryId : Uuid) : Op Body := do
  let beforeRow ← fetchOwnedRowOr404 .categories categoryId userId "category" .deleted
  checkCategoryName beforeRow beforeRow.name
  raiseIf ((← nameTaken .categories userId beforeRow.name (some categoryId) anyRow) = true)
    (conflict ("Cannot restore category: an active category named " ++ quoted beforeRow.name ++
      " already exists."))
  restoreWithAudit env userId .categories "category" beforeRow (categoryFromRow beforeRow)
    fun r => pure (categoryFromRow r)

/-! ## Hashtags -/

structure HashtagCreateRequest where
  id : Uuid
  name : Text
  sortOrder : Option Int

structure HashtagFields where
  name : Option Text
  sortOrder : Option Int
  deriving DecidableEq

/-- The row a create request stores, under its normalized name. -/
def newHashtagRow (env : Env) (userId : Uuid) (body : HashtagCreateRequest) (name : Text)
    (sortOrder : Int) : Row .hashtags :=
  ({ id := body.id, userId := userId, createdAt := env.now, updatedAt := env.now
     version := 1, deletedAt := none, name := name, sortOrder := sortOrder } : HashtagRow)

def createHashtag (env : Env) (userId : Uuid) (body : HashtagCreateRequest) : Op Body := do
  let name ← normalizeName body.name "name"
  raiseIf ((← nameTaken .hashtags userId name none anyRow) = true)
    (conflict ("A hashtag named " ++ quoted name ++ " already exists."))
  let sortOrder ← slotOrNext .hashtags userId anyRow body.sortOrder
  let row := newHashtagRow env userId body name sortOrder
  let o ← insertRow .hashtags row
  raiseIf (o ≠ .inserted)
    (conflict ("A hashtag with id '" ++ uuidStr body.id ++ "' already exists."))
  writeActivityLog env (env.uuid 0) userId "hashtag" row.id .created none (some (.hashtag row))
  return .hashtag row

def setHashtag (fields : HashtagFields) (name : Option Text) : Change Row .hashtags :=
  ⟨fun r => { r with name := name.getD r.name, sortOrder := fields.sortOrder.getD r.sortOrder },
   fun _ => rfl⟩

def updateHashtag (env : Env) (userId hashtagId : Uuid) (fields : HashtagFields) : Op Body :=
  updateNamedResource env userId .hashtags "hashtag" hashtagId (fields = ⟨none, none⟩)
    fields.name none (setHashtag fields) .hashtag fun _ _ => pure ()

/-- Every live junction row of the hashtag, on either source. -/
def isHashtagLink (userId hashtagId : Uuid) (r : Row .transactionHashtags) : Bool :=
  decide (r.hashtagId = hashtagId ∧ r.userId = userId ∧ r.deletedAt = none)

/-- Bump the parents in `ids`, if there are any. -/
def bumpParents (env : Env) (t : Tbl) [OwnedTable t] (userId : Uuid) (ids : List Uuid) :
    Op Unit := do
  if ids.isEmpty then return ()
  else
    let _ ← updateWhere .scan t
      (fun r => decide ((OwnedTable.resource r).id ∈ ids ∧ (OwnedTable.resource r).userId = userId))
      (bumped t env.now (noChange t))
    return ()

def parentIds (affected : List (Row .transactionHashtags)) (source : TransactionSource) :
    List Uuid :=
  ((affected.filter fun r => decide (r.transactionSource = source)).map
    fun r => r.transactionId).dedup

def deleteHashtag (env : Env) (userId hashtagId : Uuid) : Op Body := do
  let row ← fetchOwnedRowOr404 .hashtags hashtagId userId "hashtag" .active
  let affected ← updateWhere (.references .hashtags hashtagId) .transactionHashtags
    (isHashtagLink userId hashtagId) (linkMarked env.now (some env.now))
  bumpParents env .transactions userId (parentIds affected .ledger)
  bumpParents env .transactionInbox userId (parentIds affected .inbox)
  softDeleteWithAudit env userId .hashtags "hashtag" row (.hashtag row) fun r => pure (.hashtag r)

def restoreHashtag (env : Env) (userId hashtagId : Uuid) : Op Body := do
  let beforeRow ← fetchOwnedRowOr404 .hashtags hashtagId userId "hashtag" .deleted
  raiseIf ((← nameTaken .hashtags userId beforeRow.name (some hashtagId) anyRow) = true)
    (conflict ("Cannot restore hashtag: an active hashtag named " ++ quoted beforeRow.name ++
      " already exists."))
  restoreWithAudit env userId .hashtags "hashtag" beforeRow (.hashtag beforeRow)
    fun r => pure (.hashtag r)

end ExpenseEngine
