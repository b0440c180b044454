import ExpenseEngine.Accounts
import ExpenseEngine.Inbox
import ExpenseEngine.Reconciliations
import ExpenseEngine.Idempotency
import ExpenseEngine.Sql.Exec

/-!
# The write API

One constructor of `Request` for each mutating endpoint. A `Call` is a request
as one user sends it, with its idempotency key; `step` runs it in a transaction
of its own and rolls it back when it fails, and `run` runs calls one after
another.

Results:
1. `step_of_not_enters`: a call that is refused or answered before its work.
2. `run_invariant`: what every step along a run preserves holds at its end.
-/

namespace ExpenseEngine

open Sql Sql.Prog

/-! ## Requests -/

structure TransactionUpdateRequest where
  title : Sent Text
  amountCents : Sent Int
  date : Sent Timestamp
  accountId : Sent Uuid
  categoryId : Sent Uuid
  description : Sent Text
  hashtagIds : Sent (List Uuid)
  reconciliationId : Sent Uuid

structure ReconciliationUpdateRequest where
  name : Sent Text
  dateStart : Sent Timestamp
  dateEnd : Sent Timestamp
  beginningBalanceCents : Sent Int
  endingBalanceCents : Sent Int

structure AccountUpdateRequest where
  name : Sent Text
  color : Sent Text
  sortOrder : Sent Int
  currencyCode : Sent Text

structure CategoryUpdateRequest where
  name : Sent Text
  color : Sent Text
  sortOrder : Sent Int

structure HashtagUpdateRequest where
  name : Sent Text
  sortOrder : Sent Int

structure SettingsUpdateRequest where
  mainCurrency : Sent Text
  displayTimezone : Sent Text

/-- The mutating endpoints. -/
inductive Request where
  | createTransaction (body : TransactionCreateRequest)
  | batchCreateTransactions (transactions : List TransactionCreateRequest)
  | updateTransaction (id : Uuid) (body : TransactionUpdateRequest)
  | deleteTransaction (id : Uuid)
  | restoreTransaction (id : Uuid)
  | createInboxItem (body : InboxCreateRequest)
  | updateInboxItem (id : Uuid) (body : InboxUpdateRequest)
  | deleteInboxItem (id : Uuid)
  | promoteInboxItem (id targetId : Uuid)
  | createReconciliation (body : ReconciliationCreateRequest)
  | updateReconciliation (id : Uuid) (body : ReconciliationUpdateRequest)
  | completeReconciliation (id : Uuid)
  | revertReconciliation (id : Uuid)
  | deleteReconciliation (id : Uuid)
  | restoreReconciliation (id : Uuid)
  | createAccount (body : AccountCreateRequest)
  | createPerson (body : AccountCreateRequest)
  | createOpeningBalance (accountId : Uuid) (body : OpeningBalanceRequest)
  | updateAccount (id : Uuid) (body : AccountUpdateRequest)
  | deleteAccount (id : Uuid)
  | restoreAccount (id : Uuid)
  | archiveAccount (id : Uuid)
  | unarchiveAccount (id : Uuid)
  | createCategory (body : CategoryCreateRequest)
  | updateCategory (id : Uuid) (body : CategoryUpdateRequest)
  | deleteCategory (id : Uuid)
  | restoreCategory (id : Uuid)
  | createHashtag (body : HashtagCreateRequest)
  | updateHashtag (id : Uuid) (body : HashtagUpdateRequest)
  | deleteHashtag (id : Uuid)
  | restoreHashtag (id : Uuid)
  | bootstrap (displayName timezone : Text)
  | updateSettings (body : SettingsUpdateRequest)
  | updateProfile (displayName : Sent Text)
  | createPat (name : Option Text)
  | revokePat (id : Uuid)

def TransactionUpdateRequest.fields (body : TransactionUpdateRequest) : TransactionFields :=
  ⟨body.title.join, body.amountCents.join, body.date.join, body.accountId.join,
    body.categoryId.join, body.description.join⟩

def ReconciliationUpdateRequest.fields (body : ReconciliationUpdateRequest) :
    ReconciliationFields :=
  ⟨body.name.join, body.dateStart, body.dateEnd, body.beginningBalanceCents.join,
    body.endingBalanceCents.join⟩

/-- The fields of a PUT body that do not accept `null`, with whether they were
sent as one. -/
def Request.nonNullable : Request → List (String × Bool)
  | .updateTransaction _ body =>
    [("title", body.title.isNull), ("amount_cents", body.amountCents.isNull),
      ("date", body.date.isNull), ("account_id", body.accountId.isNull),
      ("category_id", body.categoryId.isNull), ("description", body.description.isNull),
      ("hashtag_ids", body.hashtagIds.isNull)]
  | .updateReconciliation _ body =>
    [("name", body.name.isNull), ("beginning_balance_cents", body.beginningBalanceCents.isNull),
      ("ending_balance_cents", body.endingBalanceCents.isNull)]
  | .updateAccount _ body =>
    [("name", body.name.isNull), ("color", body.color.isNull),
      ("sort_order", body.sortOrder.isNull), ("currency_code", body.currencyCode.isNull)]
  | .updateCategory _ body =>
    [("name", body.name.isNull), ("color", body.color.isNull),
      ("sort_order", body.sortOrder.isNull)]
  | .updateHashtag _ body => [("name", body.name.isNull), ("sort_order", body.sortOrder.isNull)]
  | .updateSettings body =>
    [("main_currency", body.mainCurrency.isNull),
      ("display_timezone", body.displayTimezone.isNull)]
  | .updateProfile displayName => [("display_name", displayName.isNull)]
  | _ => []

def Request.statusCode : Request → Nat
  | .createTransaction _ | .batchCreateTransactions _ | .createInboxItem _
  | .createReconciliation _ | .createAccount _ | .createPerson _ | .createOpeningBalance _ _
  | .createCategory _ | .createHashtag _ | .createPat _ => 201
  | _ => 200

/-- The answer of a token creation carries the plaintext and is not stored. -/
def Request.storesSnapshot : Request → Bool
  | .createPat _ => false
  | _ => true

variable [Platform]

/-- The service call behind each endpoint. -/
def Request.work (env : Env) (userId : Uuid) : Request → Op Body
  | .createTransaction body => ExpenseEngine.createTransaction env userId body false
  | .batchCreateTransactions transactions => createBatch env userId transactions
  | .updateTransaction id body =>
    ExpenseEngine.updateTransaction env userId id body.fields body.hashtagIds.join
      body.reconciliationId
  | .deleteTransaction id => ExpenseEngine.deleteTransaction env userId id
  | .restoreTransaction id => ExpenseEngine.restoreTransaction env userId id
  | .createInboxItem body => ExpenseEngine.createInboxItem env userId body
  | .updateInboxItem id body => ExpenseEngine.updateInboxItem env userId id body
  | .deleteInboxItem id => ExpenseEngine.deleteInboxItem env userId id
  | .promoteInboxItem id targetId => ExpenseEngine.promoteInboxItem env userId id targetId
  | .createReconciliation body => ExpenseEngine.createReconciliation env userId body
  | .updateReconciliation id body =>
    ExpenseEngine.updateReconciliation env userId id body.fields
  | .completeReconciliation id => ExpenseEngine.completeReconciliation env userId id
  | .revertReconciliation id => ExpenseEngine.revertReconciliation env userId id
  | .deleteReconciliation id => ExpenseEngine.deleteReconciliation env userId id
  | .restoreReconciliation id => ExpenseEngine.restoreReconciliation env userId id
  | .createAccount body => ExpenseEngine.createAccount env userId body false
  | .createPerson body => ExpenseEngine.createAccount env userId body true
  | .createOpeningBalance accountId body =>
    ExpenseEngine.createOpeningBalance env userId accountId body
  | .updateAccount id body =>
    ExpenseEngine.updateAccount env userId id
      ⟨body.name.join, body.color.join, body.sortOrder.join, body.currencyCode.join⟩
  | .deleteAccount id => ExpenseEngine.deleteAccount env userId id
  | .restoreAccount id => ExpenseEngine.restoreAccount env userId id
  | .archiveAccount id => setAccountArchive env userId id true
  | .unarchiveAccount id => setAccountArchive env userId id false
  | .createCategory body => ExpenseEngine.createCategory env userId body
  | .updateCategory id body =>
    ExpenseEngine.updateCategory env userId id
      ⟨body.name.join, body.color.join, body.sortOrder.join⟩
  | .deleteCategory id => ExpenseEngine.deleteCategory env userId id
  | .restoreCategory id => ExpenseEngine.restoreCategory env userId id
  | .createHashtag body => ExpenseEngine.createHashtag env userId body
  | .updateHashtag id body =>
    ExpenseEngine.updateHashtag env userId id ⟨body.name.join, body.sortOrder.join⟩
  | .deleteHashtag id => ExpenseEngine.deleteHashtag env userId id
  | .restoreHashtag id => ExpenseEngine.restoreHashtag env userId id
  | .bootstrap displayName timezone => ExpenseEngine.bootstrap env userId displayName timezone
  | .updateSettings body =>
    ExpenseEngine.updateSettings env userId ⟨body.mainCurrency.join, body.displayTimezone.join⟩
  | .updateProfile displayName => ExpenseEngine.updateProfile env userId displayName.join
  | .createPat name => ExpenseEngine.createPat env userId name
  | .revokePat id => ExpenseEngine.revokePat env userId id

/-! ## Calls and runs -/

/-- A request as it arrives: its author, its idempotency key and fingerprint,
and what it takes from outside the database. -/
structure Call where
  env : Env
  userId : Uuid
  key : Option Text
  fingerprint : Option Text
  request : Request

/-- The router checks the nulls of a PUT body before it opens a transaction. -/
def Call.handle (c : Call) : Op Reply := do
  liftExcept (extractUpdateFields c.request.nonNullable)
  runIdempotent c.env c.userId c.key c.fingerprint c.request.statusCode
    (c.request.work c.env c.userId) c.request.storesSnapshot

/-- The key of the call is stored, so the call replays or is refused. -/
def Call.IsStored (c : Call) (db : Db) : Prop :=
  ∃ key, c.key = some key ∧ ∃ row ∈ db.rows .idempotencyKeys, isKeyRow c.userId key row = true

/-- The call comes to its work: no field of its body is a null that it may not
be, and its key, if it has one, has a fingerprint and is not stored. -/
structure Call.Enters (c : Call) (db : Db) : Prop where
  nulls : extractUpdateFields c.request.nonNullable = .ok ()
  fingerprint : c.key ≠ none → c.fingerprint ≠ none
  unstored : ¬c.IsStored db

/-- The state after a call: committed, or rolled back. -/
def step (db : Db) (c : Call) : Db :=
  match exec c.handle db with
  | .ok (_, db') => db'
  | .error _ => db

def run (db : Db) (calls : List Call) : Db := calls.foldl step db

/-- No call has written yet. Users, settings, tokens and rates may be there. -/
structure Fresh (db : Db) : Prop where
  bankAccounts : db.rows .bankAccounts = []
  categories : db.rows .categories = []
  hashtags : db.rows .hashtags = []
  reconciliations : db.rows .reconciliations = []
  transactions : db.rows .transactions = []
  transactionInbox : db.rows .transactionInbox = []
  transactionHashtags : db.rows .transactionHashtags = []
  activityLog : db.rows .activityLog = []
  idempotencyKeys : db.rows .idempotencyKeys = []

/-- Every call of the run meets `ok` in the state it starts from. -/
def Along (ok : Db → Call → Prop) : Db → List Call → Prop
  | _, [] => True
  | db, c :: calls => ok db c ∧ Along ok (step db c) calls

theorem run_append (db : Db) (calls : List Call) (c : Call) :
    run db (calls ++ [c]) = step (run db calls) c := by
  rw [run, run, List.foldl_append]
  rfl

theorem run_invariant {Inv : Db → Prop} {ok : Db → Call → Prop}
    (hstep : ∀ db c, Inv db → ok db c → Inv (step db c)) {db : Db} {calls : List Call}
    (h : Inv db) (hok : Along ok db calls) : Inv (run db calls) := by
  induction calls generalizing db with
  | nil => exact h
  | cons c calls ih => exact ih (hstep db c h hok.1) hok.2

theorem along_true (db : Db) (calls : List Call) : Along (fun _ _ => True) db calls := by
  induction calls generalizing db with
  | nil => trivial
  | cons c calls ih => exact ⟨trivial, ih _⟩

theorem exec_claim_ok {userId : Uuid} {key fingerprint : Text} {o : Option Reply} {db db' : Db}
    (h : exec (claim userId key fingerprint) db = .ok (o, db')) :
    db' = db ∧ (∀ reply, o = some reply → ∃ body status, reply = .cached body status) := by
  simp only [claim, exec_bind_ok, exec_advisoryLock, fetchRow, exec_read, Except.ok.injEq,
    Prod.mk.injEq] at h
  obtain ⟨_, _, ⟨-, rfl⟩, row, _, ⟨-, rfl⟩, h⟩ := h
  split at h
  · simp only [exec_pure_ok] at h
    obtain ⟨rfl, rfl⟩ := h
    exact ⟨rfl, by simp⟩
  · split at h
    · next row _ reply hreply =>
      simp only [exec_pure_ok] at h
      obtain ⟨rfl, rfl⟩ := h
      refine ⟨rfl, ?_⟩
      rintro _ ⟨⟩
      unfold replay at hreply
      split at hreply
      · cases hreply
      · split at hreply
        · cases hreply
        · next body _ =>
          cases hreply
          exact ⟨body, row.responseStatus, rfl⟩
    · cases h

theorem writesOnly_store (env : Env) (userId : Uuid) (key fingerprint : Text)
    (body : Option Body) (status : Nat) :
    (store env userId key fingerprint body status).WritesOnly (· = .idempotencyKeys) := by
  refine WritesOnly.bind (writesOnly_insertOrSkip rfl) fun o => ?_
  split <;> trivial

/-- An accepted call replays a stored answer and writes nothing, or it runs the
work of its request and then writes its key at most. -/
theorem exec_handle_ok {c : Call} {db db' : Db} {reply : Reply}
    (h : exec c.handle db = .ok (reply, db')) :
    (∃ body status, reply = .cached body status ∧ db' = db) ∨
      ∃ body db₁, reply = .fresh body ∧
        exec (c.request.work c.env c.userId) db = .ok (body, db₁) ∧
        ∀ t, t ≠ .idempotencyKeys → db' t = db₁ t := by
  rw [Call.handle, exec_bind_ok] at h
  obtain ⟨_, db₀, hnull, h⟩ := h
  have hdb₀ : db₀ = db := by
    unfold liftExcept at hnull
    split at hnull
    · simpa [eq_comm] using hnull
    · cases hnull
  subst hdb₀
  unfold runIdempotent at h
  split at h
  · rw [map_eq_pure_bind, exec_bind_ok] at h
    obtain ⟨body, db₁, hwork, h⟩ := h
    simp only [exec_pure_ok] at h
    obtain ⟨rfl, rfl⟩ := h
    exact .inr ⟨body, _, rfl, hwork, fun _ _ => rfl⟩
  · cases h
  · rw [exec_bind_ok] at h
    obtain ⟨o, db₁, hclaim, h⟩ := h
    obtain ⟨rfl, hcached⟩ := exec_claim_ok hclaim
    split at h
    · next stored =>
      simp only [exec_pure_ok] at h
      obtain ⟨rfl, rfl⟩ := h
      obtain ⟨body, status, rfl⟩ := hcached _ rfl
      exact .inl ⟨body, status, rfl, rfl⟩
    · simp only [exec_bind_ok] at h
      obtain ⟨body, db₂, hwork, _, db₃, hstore, h⟩ := h
      simp only [exec_pure_ok] at h
      obtain ⟨rfl, rfl⟩ := h
      refine .inr ⟨body, db₂, rfl, hwork, fun t ht => ?_⟩
      exact exec_frame (writesOnly_store ..) hstore ht

/-- A call with a fresh answer has come to its work. -/
theorem enters_of_fresh {c : Call} {db db' : Db} {body : Body}
    (h : exec c.handle db = .ok (.fresh body, db')) : c.Enters db := by
  rw [Call.handle, exec_bind_ok] at h
  obtain ⟨_, db₀, hnull, h⟩ := h
  unfold liftExcept at hnull
  split at hnull
  · next u hextract =>
    obtain ⟨-, rfl⟩ := exec_pure_ok.mp hnull
    refine ⟨hextract, ?_, ?_⟩
    · intro hkey hnone
      obtain ⟨key, hkey⟩ := Option.ne_none_iff_exists'.mp hkey
      rw [hkey, hnone] at h
      cases h
    · rintro ⟨key, hkey, row, hrow, hw⟩
      rw [hkey] at h
      unfold runIdempotent at h
      split at h
      · next hnone => cases hnone
      · cases h
      · next key' fingerprint hsome _ =>
        obtain rfl : key = key' := Option.some.inj hsome
        rw [exec_bind_ok] at h
        obtain ⟨o, db₁, hclaim, h⟩ := h
        cases o with
        | some reply =>
          -- a stored answer is not a fresh one
          obtain ⟨rfl, -⟩ := exec_pure_ok.mp h
          obtain ⟨_, _, hcached⟩ := (exec_claim_ok hclaim).2 _ rfl
          cases hcached
        | none =>
          simp only [claim, exec_bind_ok, exec_advisoryLock, fetchRow, exec_read_ok] at hclaim
          obtain ⟨_, _, ⟨⟩, found, _, ⟨rfl, rfl⟩, hclaim⟩ := hclaim
          split at hclaim
          · next hfind => exact absurd hw (by simpa using List.find?_eq_none.mp hfind row hrow)
          · split at hclaim
            · cases (exec_pure_ok.mp hclaim).1
            · cases hclaim
  · cases hnull

/-- A call that does not come to its work changes nothing. -/
theorem step_of_not_enters {c : Call} {db : Db} (h : ¬c.Enters db) : step db c = db := by
  unfold step
  split
  · next reply db' he =>
    rcases exec_handle_ok he with ⟨_, _, -, hsame⟩ | ⟨_, _, rfl, -⟩
    · exact hsame
    · exact absurd (enters_of_fresh he) h
  · rfl

/-- A call with a stored key does not run its work. -/
theorem step_of_stored {c : Call} {db : Db} (h : c.IsStored db) : step db c = db :=
  step_of_not_enters fun henters => henters.unstored h

/-! ## Concrete calls -/

namespace Ascii

/-- The library functions on ASCII texts, with an injective function for
SHA-256. -/
scoped instance platform : Platform where
  lower s := s.map Char.toLower
  pyLower s := s.map Char.toLower
  pyUpper s := s.map Char.toUpper
  zoneInfo _ := true
  sha256Hex bytes := bytes.map fun b => Char.ofNat b.toNat
  sha256Prefix _ := 0

/-- What a request takes from outside at the time `now`. -/
def envAt (now : Timestamp) : Env where
  now := now
  uuid n := 1000 * (now.toNat + 1) + n
  storeUuid := 1000 * (now.toNat + 1) + 999
  today _ := 0
  rateCache _ _ _ := none
  token := []

/-- A call of the user 1 at the time `now`, without an idempotency key. -/
def callAt (now : Timestamp) (request : Request) : Call := ⟨envAt now, 1, none, none, request⟩

/-- The database before any row. -/
def blank : Db := fun _ => Table.empty

theorem fresh_blank : Fresh blank := ⟨rfl, rfl, rfl, rfl, rfl, rfl, rfl, rfl, rfl⟩

/-- A user with the accounts 10 and 11, the category 20 and a lunch, the
transaction 30 on account 10. -/
def setup : List Call := [
  callAt 1 (.bootstrap "Ann".toList "UTC".toList),
  callAt 2 (.createAccount ⟨10, "Cash".toList, "PEN".toList, none, none⟩),
  callAt 3 (.createAccount ⟨11, "Bank".toList, "PEN".toList, none, none⟩),
  callAt 4 (.createCategory ⟨20, "Food".toList, "#000000".toList, none⟩),
  callAt 5 (.createTransaction ⟨30, "Lunch".toList, -500, 5, 10, 20, none, []⟩)]

/-- A reconciliation of account 10, the row 40, and the lunch assigned to it. -/
def assign : List Call := [
  callAt 6 (.createReconciliation ⟨40, 10, "May".toList, none, none, 0, some (-500)⟩),
  callAt 7 (.updateTransaction 30
    ⟨none, none, none, none, none, none, none, some (some 40)⟩)]

end Ascii

end ExpenseEngine
