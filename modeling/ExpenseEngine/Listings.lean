import ExpenseEngine.Inbox
import ExpenseEngine.Sql.Like

/-!
# Pages of rows

Every list endpoint counts and fetches one page off one list of conditions. Rows
that the ORDER BY does not tell apart come in insertion order.
-/

namespace ExpenseEngine

open Sql Sql.Prog

def maxLimit : Nat := 200

structure Paginated (α : Type) where
  items : List α
  total : Nat
  limit : Nat
  offset : Nat

variable [Platform]

/-- The count and the page are two statements. -/
def listPage (t : Tbl) (conditions : Db → Row t → Bool) (orderBy : Row t → Row t → Prop)
    [DecidableRel orderBy] (limit offset : Nat) : Op (List (Row t) × Nat) := do
  let total ← read .other fun db => ((db.rows t).filter (conditions db)).length
  let rows ← read .other fun db =>
    ((((db.rows t).filter (conditions db)).insertionSort orderBy).drop offset).take limit
  return (rows, total)

/-! ## GET /inbox -/

/-- The conditions of `?ready=true`. -/
def isReady (now : Timestamp) (db : Db) (i : Row .transactionInbox) : Bool :=
  i.title.isSome && decide (i.title ≠ some "UNTITLED".toList) &&
    i.amountCents.isSome && decide (i.amountCents ≠ some 0) &&
    i.date.any (fun d => decide (d ≤ now)) &&
    i.accountId.isSome &&
    (db.rows .bankAccounts).any (fun a => decide (i.accountId = some a.id ∧ a.userId = i.userId ∧
      a.deletedAt = none ∧ a.isArchived = false)) &&
    (i.categoryId.isSome &&
      (db.rows .categories).any fun c => decide (i.categoryId = some c.id ∧ c.userId = i.userId ∧
        c.deletedAt = none ∧ c.systemKey = none))

def inboxConditions (now : Timestamp) (userId : Uuid) (ready overdue includeDeleted : Bool)
    (db : Db) (i : Row .transactionInbox) : Bool :=
  decide (i.userId = userId ∧ i.status = .pending) &&
    (includeDeleted || i.deletedAt.isNone) &&
    (!ready || isReady now db i) &&
    (!overdue || i.date.any fun d => decide (d < now))

/-- `apply_debit_as_negative` on a draft. A draft with a direction and no amount
would raise. -/
def applyInboxDebit (data : InboxResponse) : Op InboxResponse :=
  if data.transactionType = some .outflow then do
    let amount ← orRaise data.amountCents internalError
    return { data with amountCents := some (-amount) }
  else pure data

def listInbox (env : Env) (userId : Uuid)
    (ready overdue includeDeleted debitAsNegative : Bool) (limit offset : Nat) :
    Op (Paginated InboxResponse) := do
  let (rows, total) ← listPage .transactionInbox
    (inboxConditions env.now userId ready overdue includeDeleted)
    (fun r s => s.createdAt ≤ r.createdAt) limit offset
  let data ← read .other fun db => rows.map fun row =>
    ({ row with hashtagIds := hashtagIdsOf db row.id .inbox } : InboxResponse)
  let items ← if debitAsNegative then data.mapM applyInboxDebit else pure data
  return ⟨items, total, limit, offset⟩

/-! ## GET /transactions -/

/-- `str.replace` of one character. -/
def replaceChar (c : Char) (replacement s : Text) : Text :=
  s.flatMap fun x => if x = c then replacement else [x]

/-- Make a search term literal inside a pattern. -/
def escapeLike (term : Text) : Text :=
  replaceChar '_' ['\\', '_'] (replaceChar '%' ['\\', '%'] (replaceChar '\\' ['\\', '\\'] term))

def searchPattern (term : Text) : Text := '%' :: escapeLike term ++ ['%']

/-- The case folding of `ILIKE`. -/
class CaseFolding where
  fold : Char → Char

structure TransactionFilters where
  accountId : Option Uuid
  categoryId : Option Uuid
  hashtagId : Option Uuid
  reconciliationId : Option Uuid
  dateFrom : Option Timestamp
  dateTo : Option Timestamp
  search : Option Text
  includeDeleted : Bool

/-- An empty search term is none. -/
def TransactionFilters.term (filters : TransactionFilters) : Option Text :=
  filters.search.filter fun term => !term.isEmpty

/-- `column ILIKE pattern`; NULL does not match. -/
def columnMatches [CaseFolding] (pattern : Text) (column : Option Text) : Bool :=
  column.any fun text => ilike CaseFolding.fold pattern text = some true

def transactionConditions [CaseFolding] (userId : Uuid) (filters : TransactionFilters) (db : Db)
    (t : Row .transactions) : Bool :=
  decide (t.userId = userId) && (filters.includeDeleted || t.deletedAt.isNone) &&
    filters.accountId.all (fun a => decide (t.accountId = a)) &&
    filters.categoryId.all (fun c => decide (t.categoryId = c)) &&
    filters.hashtagId.all (fun x => (db.rows .transactionHashtags).any fun l =>
      decide (l.transactionId = t.id ∧ l.hashtagId = x ∧ l.transactionSource = .ledger ∧
        l.deletedAt = none)) &&
    filters.reconciliationId.all (fun r => decide (t.reconciliationId = some r)) &&
    filters.dateFrom.all (fun d => decide (d ≤ t.date)) &&
    filters.dateTo.all (fun d => decide (t.date ≤ d)) &&
    filters.term.all fun term => columnMatches (searchPattern term) (some t.title) ||
      columnMatches (searchPattern term) t.description

/-- `ORDER BY t.date DESC, t.created_at DESC` -/
def transactionLe (r s : Row .transactions) : Bool :=
  decide (s.date < r.date ∨ r.date = s.date ∧ s.createdAt ≤ r.createdAt)

def listTransactions [CaseFolding] (userId : Uuid) (filters : TransactionFilters)
    (debitAsNegative : Bool) (limit offset : Nat) : Op (Paginated TransactionResponse) := do
  let (rows, total) ← listPage .transactions (transactionConditions userId filters)
    (fun r s => transactionLe r s) limit offset
  let data ← attachHashtagIdsAll rows
  return ⟨if debitAsNegative then data.map applyDebitAsNegative else data, total, limit, offset⟩

end ExpenseEngine
