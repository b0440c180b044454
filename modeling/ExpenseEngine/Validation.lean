import ExpenseEngine.QueryBuilder

/-!
# Validation helpers

The reference rules (active account, active category), the name, colour and
amount rules and their messages. The `validate…` functions raise on the first
failure; the others return what the flows that collect all failures need.
-/

namespace ExpenseEngine

open Sql Sql.Prog

def msgActiveAccount : String := "Must reference an active, non-archived account."
def msgActiveCategory : String := "Must reference an active category."
def msgUserCategory : String := "Must not reference a system category."
def msgNotEmpty : String := "Must not be empty."
def msgNotZero : String := "Must not be zero."
def msgNotFuture : String := "Must not be in the future."
def msgHexColor : String := "Must be a 6-digit hex color, e.g. '#3b82f6'."

/-! ## Texts and amounts -/

/-- `str.isspace` of one character. -/
def isSpace (c : Char) : Bool :=
  let n := c.toNat
  (9 ≤ n && n ≤ 13) || (28 ≤ n && n ≤ 32) || n == 0x85 || n == 0xa0 || n == 0x1680 ||
    (0x2000 ≤ n && n ≤ 0x200a) || n == 0x2028 || n == 0x2029 || n == 0x202f || n == 0x205f ||
    n == 0x3000

/-- `str.strip`. -/
def strip (s : Text) : Text :=
  ((s.dropWhile isSpace).reverse.dropWhile isSpace).reverse

def cleanName (value : Option Text) : Option Text :=
  (value.map strip).filter fun s => !s.isEmpty

/-- The sign is read here and nowhere else. Zero maps to `inflow`; callers
reject it first. -/
def inferTransactionType (amountCents : Int) : TransactionType :=
  if amountCents < 0 then .outflow else .inflow

/-- `abs`. -/
def absCents (amountCents : Int) : Int := amountCents.natAbs

/-- `signed_expr`: inflows positive, outflows negative. -/
def signedCents : TransactionType → Int → Int
  | .inflow, n => n
  | .outflow, n => -n

section Operations

variable [Platform]

def normalizeName (name : Text) (field : String) : Op Text :=
  orRaise (cleanName (some name))
    (validationError (field.capitalize ++ " must not be empty.") [(field, msgNotEmpty)])

/-- `none` is "not supplied" and passes. -/
def validateColor (value : Option Text) : Op Unit :=
  raiseIf (value.any fun v => !isHexColor v)
    (validationError "Color must be a 6-digit hex color." [("color", msgHexColor)])

def rejectZeroAmount (value : Option Int) : Op Unit :=
  raiseIf (value = some 0)
    (validationError "amount_cents must not be zero." [("amount_cents", msgNotZero)])

def validateTimezone (value : Text) (field : String) : Op Unit := do
  raiseIf (strip value).isEmpty (validationError "Invalid timezone." [(field, msgNotEmpty)])
  raiseIf (!Platform.zoneInfo value) (validationError "Invalid timezone."
    [(field, "Must be a valid IANA timezone name (e.g. America/Lima).")])

def resolveTimezone (value : Text) : Text :=
  if Platform.zoneInfo value then value else "UTC".toList

/-- `SELECT now()`. -/
def dbNow (env : Env) : Op Timestamp := pure env.now

def currencyCodeError (code : Text) : Option String :=
  if code ∈ globalCurrencies then none else some (quoted code ++ " is not a valid currency code.")

/-! ## References -/

def isActiveAccount (userId : Uuid) (r : Row .bankAccounts) : Bool :=
  decide (r.userId = userId ∧ r.deletedAt = none ∧ r.isArchived = false)

def isActiveCategory (userId : Uuid) (r : Row .categories) : Bool :=
  decide (r.userId = userId ∧ r.deletedAt = none)

def activeAccountRow (accountId userId : Uuid) : Op (Option (Row .bankAccounts)) :=
  fetchRow (.activeAccounts [accountId]) .bankAccounts fun r =>
    decide (r.id = accountId) && isActiveAccount userId r

def activeAccountIds (accountIds : List Uuid) (userId : Uuid) : Op (List Uuid) := do
  if accountIds.isEmpty then return []
  else
    let rows ← fetch (.activeAccounts accountIds) .bankAccounts fun r =>
      decide (r.id ∈ accountIds) && isActiveAccount userId r
    return rows.map fun r => r.id

def validateActiveAccount (accountId userId : Uuid) : Op (Row .bankAccounts) := do
  orRaise (← activeAccountRow accountId userId)
    (validationError "Account validation failed." [("account_id", msgActiveAccount)])

def activeCategoryRow (categoryId userId : Uuid) : Op (Option (Row .categories)) :=
  fetchRow (.activeCategories [categoryId]) .categories fun r =>
    decide (r.id = categoryId) && isActiveCategory userId r

/-- The active categories among `categoryIds`, each with `is_system`. -/
def activeCategoryIds (categoryIds : List Uuid) (userId : Uuid) : Op (List (Uuid × Bool)) := do
  if categoryIds.isEmpty then return []
  else
    let rows ← fetch (.activeCategories categoryIds) .categories fun r =>
      decide (r.id ∈ categoryIds) && isActiveCategory userId r
    return rows.map fun r => (r.id, r.systemKey.isSome)

def validateActiveCategory (categoryId userId : Uuid) : Op (Row .categories) := do
  orRaise (← activeCategoryRow categoryId userId)
    (validationError "Category validation failed." [("category_id", msgActiveCategory)])

/-- The rejection of system categories that every public write makes. -/
def rejectSystemCategory (category : Row .categories) : Op Unit :=
  raiseIf (category.systemKey ≠ none)
    (validationError "Category validation failed." [("category_id", msgUserCategory)])

end Operations

/-! ## Partial updates -/

/-- A field of a PUT body: omitted, sent as `null`, or sent with a value. -/
abbrev Sent (α : Type) := Option (Option α)

/-- The field was sent as `null`. -/
def Sent.isNull {α : Type} : Sent α → Bool
  | some none => true
  | _ => false

/-- `extract_update_fields`: 422 when a field that does not accept `null` was
sent as `null`. `sent` lists these fields with whether they were. -/
def extractUpdateFields (sent : List (String × Bool)) : Except AppError Unit :=
  let violations := sent.filter fun f => f.2
  if violations.isEmpty then .ok ()
  else .error (validationError "Request contains null values for non-nullable fields."
    (violations.map fun f => (f.1, "Must not be null.")))

end ExpenseEngine
