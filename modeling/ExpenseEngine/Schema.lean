import ExpenseEngine.Data

/-!
# The engine's database

The tables with their keys, unique indexes, CHECK constraints, column ranges and
foreign keys, and the type `Op` of the programs the services are. What the code
takes from outside (collation, time zone data, SHA-256) is the class `Platform`;
what one request takes from outside (the transaction timestamp, fresh uuids) is
`Env`.
-/

namespace ExpenseEngine

inductive Tbl
  | users
  | userSettings
  | exchangeRates
  | idempotencyKeys
  | activityLog
  | bankAccounts
  | categories
  | reconciliations
  | transactionInbox
  | transactions
  | hashtags
  | transactionHashtags
  | personalAccessTokens
  deriving DecidableEq

def Row : Tbl → Type
  | .users => UserRow
  | .userSettings => UserSettingsRow
  | .exchangeRates => ExchangeRateRow
  | .idempotencyKeys => IdempotencyKeyRow
  | .activityLog => ActivityLogRow
  | .bankAccounts => AccountRow
  | .categories => CategoryRow
  | .reconciliations => ReconciliationRow
  | .transactionInbox => InboxRow
  | .transactions => TransactionRow
  | .hashtags => HashtagRow
  | .transactionHashtags => TransactionHashtagRow
  | .personalAccessTokens => PersonalAccessTokenRow

instance : (t : Tbl) → DecidableEq (Row t)
  | .users => inferInstanceAs (DecidableEq UserRow)
  | .userSettings => inferInstanceAs (DecidableEq UserSettingsRow)
  | .exchangeRates => inferInstanceAs (DecidableEq ExchangeRateRow)
  | .idempotencyKeys => inferInstanceAs (DecidableEq IdempotencyKeyRow)
  | .activityLog => inferInstanceAs (DecidableEq ActivityLogRow)
  | .bankAccounts => inferInstanceAs (DecidableEq AccountRow)
  | .categories => inferInstanceAs (DecidableEq CategoryRow)
  | .reconciliations => inferInstanceAs (DecidableEq ReconciliationRow)
  | .transactionInbox => inferInstanceAs (DecidableEq InboxRow)
  | .transactions => inferInstanceAs (DecidableEq TransactionRow)
  | .hashtags => inferInstanceAs (DecidableEq HashtagRow)
  | .transactionHashtags => inferInstanceAs (DecidableEq TransactionHashtagRow)
  | .personalAccessTokens => inferInstanceAs (DecidableEq PersonalAccessTokenRow)

@[reducible] def Key : Tbl → Type
  | .idempotencyKeys => Uuid × Text
  | .transactionHashtags => Uuid × TransactionSource × Uuid
  | _ => Uuid

def keyOf : (t : Tbl) → Row t → Key t
  | .users, r => r.id
  | .userSettings, r => r.userId
  | .exchangeRates, r => r.id
  | .idempotencyKeys, r => (r.userId, r.key)
  | .activityLog, r => r.id
  | .bankAccounts, r => r.id
  | .categories, r => r.id
  | .reconciliations, r => r.id
  | .transactionInbox, r => r.id
  | .transactions, r => r.id
  | .hashtags, r => r.id
  | .transactionHashtags, r => (r.transactionId, r.transactionSource, r.hashtagId)
  | .personalAccessTokens, r => r.id

/-- Library functions the engine calls: Postgres `LOWER`, Python's `str.lower`
and `str.upper`, whether `ZoneInfo` knows a zone, the hex digest of SHA-256, and
its first 8 bytes as the signed `bigint` of an advisory lock. -/
class Platform where
  lower : Text → Text
  pyLower : Text → Text
  pyUpper : Text → Text
  zoneInfo : Text → Bool
  sha256Hex : List UInt8 → Text
  sha256Prefix : List UInt8 → Int

/-! ## Constraints -/

def inInt4 (n : Int) : Bool := decide (-2 ^ 31 ≤ n ∧ n < 2 ^ 31)

def inInt8 (n : Int) : Bool := decide (-2 ^ 63 ≤ n ∧ n < 2 ^ 63)

def isHexDigit (c : Char) : Bool :=
  ('0' ≤ c && c ≤ '9') || ('a' ≤ c && c ≤ 'f') || ('A' ≤ c && c ≤ 'F')

/-- `^#[0-9a-fA-F]{6}$` -/
def isHexColor : Text → Bool
  | '#' :: digits => digits.length == 6 && digits.all isHexDigit
  | _ => false

section Constraints

variable [Platform]

/-- The unique indexes beside the keys. The partial ones are over the rows with
`deleted_at IS NULL`. -/
def clashOf : (t : Tbl) → Row t → Row t → Bool
  | .exchangeRates, r, s =>
    decide (r.baseCurrency = s.baseCurrency ∧ r.targetCurrency = s.targetCurrency ∧
      r.rateDate = s.rateDate)
  | .idempotencyKeys, r, s => decide (r.id = s.id)
  | .bankAccounts, r, s =>
    decide (r.deletedAt = none ∧ s.deletedAt = none ∧ r.userId = s.userId ∧
      Platform.lower r.name = Platform.lower s.name ∧ r.currencyCode = s.currencyCode)
  | .categories, r, s =>
    decide (r.deletedAt = none ∧ s.deletedAt = none ∧ r.userId = s.userId ∧
      (Platform.lower r.name = Platform.lower s.name ∨
        r.systemKey ≠ none ∧ r.systemKey = s.systemKey))
  | .hashtags, r, s =>
    decide (r.deletedAt = none ∧ s.deletedAt = none ∧ r.userId = s.userId ∧
      Platform.lower r.name = Platform.lower s.name)
  | .personalAccessTokens, r, s => decide (r.tokenHash = s.tokenHash)
  | _, _, _ => false

/-- Column ranges and CHECK constraints. -/
def checksOf : (t : Tbl) → Row t → Bool
  | .userSettings, r => decide (r.mainCurrency = homeCurrency) && inInt4 r.version
  | .exchangeRates, r => decide (0 < r.rate)
  | .bankAccounts, r => isHexColor r.color && inInt4 r.sortOrder && inInt4 r.version
  | .categories, r => isHexColor r.color && inInt4 r.sortOrder && inInt4 r.version
  | .hashtags, r => inInt4 r.sortOrder && inInt4 r.version
  | .reconciliations, r =>
    inInt8 r.beginningBalanceCents && inInt8 r.endingBalanceCents && inInt4 r.version
  | .transactionInbox, r =>
    r.amountCents.all (fun n => decide (0 < n) && inInt8 n) && inInt4 r.version
  | .transactions, r => decide (0 < r.amountCents) && inInt8 r.amountCents && inInt4 r.version
  | _, _ => true

/-- Foreign keys. -/
def refsOf (rows : (t : Tbl) → List (Row t)) : (t : Tbl) → Row t → Bool :=
  let user (u : Uuid) := (rows .users).any fun x => decide (x.id = u)
  let account (a : Uuid) := (rows .bankAccounts).any fun x => decide (x.id = a)
  let category (c : Uuid) := (rows .categories).any fun x => decide (x.id = c)
  fun
  | .userSettings, r => user r.userId && decide (r.mainCurrency ∈ globalCurrencies)
  | .exchangeRates, r =>
    decide (r.baseCurrency ∈ globalCurrencies ∧ r.targetCurrency ∈ globalCurrencies)
  | .idempotencyKeys, r => user r.userId
  | .activityLog, r => user r.userId && user r.changedBy
  | .bankAccounts, r => user r.userId && decide (r.currencyCode ∈ globalCurrencies)
  | .categories, r => user r.userId
  | .reconciliations, r => user r.userId && account r.accountId
  | .transactionInbox, r => user r.userId && r.accountId.all account && r.categoryId.all category
  | .transactions, r =>
    user r.userId && account r.accountId && category r.categoryId &&
      r.inboxId.all (fun i => (rows .transactionInbox).any fun x => decide (x.id = i)) &&
      r.reconciliationId.all fun i => (rows .reconciliations).any fun x => decide (x.id = i)
  | .hashtags, r => user r.userId
  | .transactionHashtags, r =>
    user r.userId && (rows .hashtags).any fun x => decide (x.id = r.hashtagId)
  | .personalAccessTokens, r => user r.userId
  | .users, _ => true

instance : Sql.Schema Row where
  Key := Key
  keyEq := fun
    | .users | .userSettings | .exchangeRates | .activityLog | .bankAccounts | .categories
    | .reconciliations | .transactionInbox | .transactions | .hashtags | .personalAccessTokens =>
      inferInstanceAs (DecidableEq Uuid)
    | .idempotencyKeys => inferInstanceAs (DecidableEq (Uuid × Text))
    | .transactionHashtags => inferInstanceAs (DecidableEq (Uuid × TransactionSource × Uuid))
  key := keyOf
  clash := clashOf
  checks := checksOf
  refs := refsOf

theorem clash_symm : Sql.ClashSymm Row := by
  intro t x y
  cases t with
  | exchangeRates | idempotencyKeys | bankAccounts | categories | hashtags |
      personalAccessTokens =>
    show decide _ = decide _
    rw [decide_eq_decide]
    grind
  | _ => rfl

end Constraints

/-! ## Programs -/

/-- Names for the SELECT statements that a later write relies on. -/
inductive Label
  | other
  /-- The candidates of an UPDATE or of a SELECT … FOR UPDATE. -/
  | scan
  | activeAccounts (ids : List Uuid)
  | activeCategories (ids : List Uuid)
  | validHashtags (ids : List Uuid)
  /-- The status of a reconciliation. -/
  | reconStatus (id : Uuid)
  /-- A reconciliation with its `difference_cents`, for an after-snapshot. -/
  | afterSnapshot (id : Uuid)
  /-- The rows that refer to the row `id` of `t`, which is about to be
  deleted. -/
  | references (t : Tbl) (id : Uuid)
  deriving DecidableEq

/-- A rate and the date of its row; none where no rate is known. -/
abbrev RateResult := Option (Rat × Date)

/-- What a request takes from outside the database: `now()`, the uuids it draws
from `uuid4` (`storeUuid` for its idempotency key), today's date in a time zone,
the entries of the process's rate cache that have not expired, and a random
token. -/
structure Env where
  now : Timestamp
  uuid : Nat → Uuid
  storeUuid : Uuid
  today : Text → Date
  rateCache : Text → Text → Date → Option RateResult
  token : Text

section Programs

variable [Platform]

abbrev Db := Sql.Db Row

abbrev Op := Sql.Prog Row Label AppError

end Programs

end ExpenseEngine
